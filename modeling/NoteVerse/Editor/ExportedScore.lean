import NoteVerse.Editor.MusicXmlExporter

/-!
# The tree that the exporter writes

All notes of an exported score stand in its measures, three levels below the
root. Writing the relationships changes notes there, and a note only in its
marks: the children `tie`, `notations` and `beam` (`SameButMarks`). What a
reader takes from the other children is therefore what the exporter wrote
before the relationships (`exportedScore_sameButMarks`).
-/

namespace NoteVerse.Editor

open Js Xml Xml.Node

/-- The children that relationships write. -/
def markTags : List String := ["tie", "notations", "beam"]

/-- The elements of a score that no note contains. -/
def structureTags : List String := ["part", "measure", "note", "parsererror", "divisions"]

/-- The children of a note or of a cursor movement that readers look for. -/
def fieldTags : List String :=
  ["chord", "rest", "grace", "pitch", "duration", "voice", "type", "dot", "staff"]

/-- A child of a note: no structure in it, and no field below it. -/
def isNoteContent (child : Node) : Bool :=
  child.all (fun e => e.tagName ∉ structureTags) &&
    allIn (fun e => e.tagName ∉ fieldTags) child.childNodes

def HasNoteContent (node : Node) : Prop := ∀ child ∈ node.childNodes, isNoteContent child

/-- `node'` is `node` with other marks. -/
structure SameButMarks (node node' : Node) : Prop where
  isElement : node'.isElement = node.isElement
  tagName : node'.tagName = node.tagName
  attributes : node'.attributes = node.attributes
  childrenNamed : ∀ tag ∉ markTags, node'.childrenNamed tag = node.childrenNamed tag
  content : HasNoteContent node → HasNoteContent node'
  other : node.hasTag "note" = false → node' = node

theorem SameButMarks.refl (node : Node) : SameButMarks node node :=
  ⟨rfl, rfl, rfl, fun _ _ => rfl, id, fun _ => rfl⟩

variable {node node' note root : Node} {tag : String} {p : Node → Bool} {nodes : List Node}
  {f : Node → Node} {R : Node → Node → Prop}

theorem SameButMarks.hasTag (h : SameButMarks node node') (tag : String) :
    node'.hasTag tag = node.hasTag tag := by
  rw [Bool.eq_iff_iff, hasTag_iff, hasTag_iff, h.isElement, h.tagName]

theorem SameButMarks.trans {a b c : Node} (hab : SameButMarks a b) (hbc : SameButMarks b c) :
    SameButMarks a c where
  isElement := hbc.isElement.trans hab.isElement
  tagName := hbc.tagName.trans hab.tagName
  attributes := hbc.attributes.trans hab.attributes
  childrenNamed tag ht := (hbc.childrenNamed tag ht).trans (hab.childrenNamed tag ht)
  content h := hbc.content (hab.content h)
  other h := (hbc.other ((hab.hasTag "note").trans h)).trans (hab.other h)

theorem SameButMarks.getAttribute (h : SameButMarks node node') (name : String) :
    node'.getAttribute name = node.getAttribute name :=
  getAttribute_congr h.attributes name

/-! ## A write changes the marks of a note only -/

theorem isNoteContent_empty {attributes : List (String × String)} (ht : tag ∉ structureTags) :
    isNoteContent (element tag attributes []) := by
  simp [isNoteContent, Node.all, allIn, ht]

theorem filter_insertBefore {q : Node → Bool} (hq : q node = false) (nodes : List Node) :
    (insertBefore p node nodes).filter q = nodes.filter q := by
  induction nodes with
  | nil => simp [insertBefore, hq]
  | cons n nodes ih =>
    rw [insertBefore]
    split_ifs
    · rw [List.filter_cons_of_neg (by simp [hq])]
    · rw [List.filter_cons, List.filter_cons, ih]

theorem filter_insertAfter {q : Node → Bool} (hq : q node = false) (nodes : List Node) :
    (insertAfter p node nodes).filter q = nodes.filter q := by
  induction nodes with
  | nil => simp [insertAfter, hq]
  | cons n nodes ih =>
    rw [insertAfter]
    split_ifs
    · rw [List.filter_cons, List.filter_cons_of_neg (by simp [hq]), List.filter_cons]
    · rw [List.filter_cons, List.filter_cons, ih]

theorem mem_insertBefore {n : Node} (h : n ∈ insertBefore p node nodes) : n = node ∨ n ∈ nodes := by
  induction nodes with
  | nil => exact .inl (List.mem_singleton.mp h)
  | cons m nodes ih =>
    rw [insertBefore] at h
    split_ifs at h
    · exact List.mem_cons.mp h
    · rcases List.mem_cons.mp h with rfl | h
      · exact .inr (List.mem_cons_self ..)
      · exact (ih h).imp_right (List.mem_cons_of_mem _)

theorem mem_insertAfter {n : Node} (h : n ∈ insertAfter p node nodes) : n = node ∨ n ∈ nodes := by
  induction nodes with
  | nil => exact .inl (List.mem_singleton.mp h)
  | cons m nodes ih =>
    rw [insertAfter] at h
    split_ifs at h
    · rcases List.mem_cons.mp h with rfl | h
      · exact .inr (List.mem_cons_self ..)
      · exact (List.mem_cons.mp h).imp_right (List.mem_cons_of_mem _)
    · rcases List.mem_cons.mp h with rfl | h
      · exact .inr (List.mem_cons_self ..)
      · exact (ih h).imp_right (List.mem_cons_of_mem _)

theorem filter_updateNodeNamed {tag' : String} (ht : tag' ≠ tag)
    (hf : ∀ node, node.hasTag tag → (f node).hasTag tag' = false) (nodes : List Node) :
    (updateNodeNamed tag f nodes).filter (hasTag tag') = nodes.filter (hasTag tag') := by
  have hother : ∀ node : Node, node.hasTag tag → node.hasTag tag' = false := by
    intro node h
    refine Bool.eq_false_iff.mpr fun h' => ht ?_
    rw [hasTag_iff] at h h'
    exact h'.2.symm.trans h.2
  induction nodes with
  | nil => rw [updateNodeNamed, List.filter_cons_of_neg (by simp [hf])]
  | cons n nodes ih =>
    rw [updateNodeNamed]
    split_ifs with hn
    · rw [List.filter_cons_of_neg (by simp [hf n hn]), List.filter_cons_of_neg (by
        simp [hother n hn])]
    · rw [List.filter_cons, List.filter_cons, ih]

theorem mem_updateNodeNamed {n : Node} (h : n ∈ updateNodeNamed tag f nodes) :
    n ∈ nodes ∨ ∃ m, (m ∈ nodes ∨ m = element tag [] []) ∧ m.hasTag tag ∧ n = f m := by
  induction nodes with
  | nil => exact .inr ⟨_, .inr rfl, by simp, List.mem_singleton.mp h⟩
  | cons m nodes ih =>
    rw [updateNodeNamed] at h
    split_ifs at h with hm
    · rcases List.mem_cons.mp h with rfl | h
      · exact .inr ⟨m, .inl (List.mem_cons_self ..), hm, rfl⟩
      · exact .inl (List.mem_cons_of_mem _ h)
    · rcases List.mem_cons.mp h with rfl | h
      · exact .inl (List.mem_cons_self ..)
      · rcases ih h with h | ⟨k, hk, h⟩
        · exact .inl (List.mem_cons_of_mem _ h)
        · exact .inr ⟨k, hk.imp_left (List.mem_cons_of_mem _), h⟩

/-- A change of the children of a note by which only marks come and go. -/
theorem sameButMarks_mapChildren {f : List Node → List Node} (he : note.hasTag "note")
    (hfilter : ∀ tag ∉ markTags, ∀ nodes, (f nodes).filter (hasTag tag) = nodes.filter (hasTag tag))
    (hcontent : ∀ nodes, (∀ n ∈ nodes, isNoteContent n) → ∀ n ∈ f nodes, isNoteContent n) :
    SameButMarks note (note.mapChildren f) where
  isElement := (hasTag_iff.mp he).1.symm
  tagName := rfl
  attributes := rfl
  childrenNamed tag ht := hfilter tag ht _
  content h := hcontent _ h
  other h := absurd he (by rw [h]; decide)

theorem not_hasTag_of_mark {tag' : String} {attributes : List (String × String)}
    (hm : tag ∈ markTags) (ht : tag' ∉ markTags) :
    (element tag attributes nodes).hasTag tag' = false := by
  rw [hasTag_element, beq_eq_false_iff_ne]
  exact fun h => ht (h ▸ hm)

theorem addTieElement_sameButMarks (type : RelationshipEnd) (he : note.hasTag "note") :
    SameButMarks note (addTieElement type note) := by
  rw [addTieElement]
  split_ifs
  · exact .refl note
  · refine sameButMarks_mapChildren he (fun tag ht nodes => ?_) fun nodes h n hn => ?_
    · exact filter_insertBefore (not_hasTag_of_mark (by decide) ht) nodes
    · rcases mem_insertBefore hn with rfl | hn
      · exact isNoteContent_empty (by decide)
      · exact h n hn

/-- A beam changes the children with another tag in no way. -/
theorem filter_setLevelOneBeam (ht : tag ≠ "beam") (content : String) (nodes : List Node) :
    (insertAfter (hasTag "staff") (createElement "beam" [("number", "1")] (textNodes content))
      (nodes.filter (!isLevelOneBeam ·))).filter (hasTag tag) = nodes.filter (hasTag tag) := by
  have hbeam : (createElement "beam" [("number", "1")] (textNodes content)).hasTag tag = false := by
    rw [createElement, hasTag_element, beq_eq_false_iff_ne]
    exact ht.symm
  rw [filter_insertAfter hbeam, List.filter_filter]
  refine List.filter_congr fun n _ => ?_
  by_cases hn : n.hasTag tag
  · have hnot : isLevelOneBeam n = false := by
      rw [isLevelOneBeam, Bool.and_eq_false_iff]
      refine .inl (Bool.eq_false_iff.mpr fun hb => ht ?_)
      exact (hasTag_iff.mp hn).2.symm.trans (hasTag_iff.mp hb).2
    simp [hn, hnot]
  · simp [hn]

theorem setLevelOneBeam_sameButMarks (content : String) (he : note.hasTag "note") :
    SameButMarks note (setLevelOneBeam content note) := by
  refine sameButMarks_mapChildren he (fun tag ht nodes => ?_) fun nodes h n hn => ?_
  · exact filter_setLevelOneBeam (fun hb => ht (by rw [hb]; decide)) content nodes
  · rcases mem_insertAfter hn with rfl | hn
    · simp only [createElement, isNoteContent, Node.all, allIn_iff, Bool.and_eq_true]
      exact ⟨⟨rfl, fun m hm => mem_textNodes hm ▸ all_text content⟩,
        fun m hm => mem_textNodes hm ▸ all_text content⟩
    · exact h n (List.mem_filter.mp hn).1

/-- A change of the `notations` of a note that adds elements without children
or sets attributes. -/
theorem updateNotations_sameButMarks {f : List Node → List Node} (he : note.hasTag "note")
    (hf : ∀ nodes, ∀ p : Node → Bool, (∀ attributes, p (element "tied" attributes [])) →
      (∀ attributes, p (element "slur" attributes [])) →
      (∀ name value n, p n → p (setAttribute name value n)) →
      (∀ n ∈ nodes, p n) → ∀ n ∈ f nodes, p n) :
    SameButMarks note (note.mapChildren (updateNodeNamed "notations" (mapChildren f))) := by
  have hall : ∀ (nodes : List Node) (tags : List String),
      "tied" ∉ tags → "slur" ∉ tags →
      allIn (fun e => e.tagName ∉ tags) nodes → allIn (fun e => e.tagName ∉ tags) (f nodes) := by
    intro nodes tags htied hslur h
    rw [allIn_iff] at h ⊢
    refine hf nodes (fun n => n.all fun e => e.tagName ∉ tags) ?_ ?_ ?_ h
    · intro attributes
      simp [Node.all, allIn, htied]
    · intro attributes
      simp [Node.all, allIn, hslur]
    · intro name value n hn
      rcases n with _ | ⟨tag, attributes, nodes⟩
      · exact hn
      · exact hn
  refine sameButMarks_mapChildren he (fun tag ht nodes => ?_) fun nodes h n hn => ?_
  · refine filter_updateNodeNamed (fun h => ht (by rw [h]; decide)) (fun n hn => ?_) nodes
    rw [mapChildren, (hasTag_iff.mp hn).2]
    exact not_hasTag_of_mark (by decide) ht
  · rcases mem_updateNodeNamed hn with hn | ⟨m, hm, hmtag, rfl⟩
    · exact h n hn
    · have hcontent : isNoteContent m := by
        rcases hm with hm | rfl
        · exact h m hm
        · exact isNoteContent_empty (by decide)
      obtain ⟨hme, hmt⟩ := hasTag_iff.mp hmtag
      rcases m with _ | ⟨tag, attributes, children⟩
      · exact absurd hme (by simp [Node.isElement])
      · obtain rfl : tag = "notations" := hmt
        simp only [isNoteContent, Node.all, childNodes_element, Bool.and_eq_true] at hcontent
        simp only [mapChildren, isNoteContent, Node.all, Bool.and_eq_true, childNodes_element,
          tagName_element]
        exact ⟨⟨rfl, hall _ _ (by decide) (by decide) hcontent.1.2⟩,
          hall _ _ (by decide) (by decide) hcontent.2⟩

theorem mem_setOrientation (hp : ∀ name value n, p n → p (setAttribute name value n))
    {type : RelationshipEnd} {orientation : String} (h : ∀ n ∈ nodes, p n) :
    ∀ n ∈ setOrientation type orientation nodes, p n := by
  induction nodes with
  | nil => exact h
  | cons m nodes ih =>
    rw [List.forall_mem_cons] at h
    rw [setOrientation]
    split_ifs
    · exact List.forall_mem_cons.mpr ⟨hp _ _ m h.1, h.2⟩
    · exact List.forall_mem_cons.mpr ⟨h.1, ih h.2⟩

theorem addTiedNotation_sameButMarks (type : RelationshipEnd)
    (placement : Option NotationPlacementOverride) (he : note.hasTag "note") :
    SameButMarks note (addTiedNotation type placement note) := by
  refine updateNotations_sameButMarks he fun nodes p htied _ hset h => ?_
  have happend : ∀ n ∈ (if nodes.any fun n => n.hasTag "tied" && hasType type n then nodes
      else nodes ++ [createElement "tied" [("type", type.name)] []]), p n := by
    split_ifs
    · exact h
    · exact List.forall_mem_append.mpr ⟨h, List.forall_mem_singleton.mpr (htied _)⟩
  rcases type with _ | _
  · rcases placement with _ | placement
    · exact happend
    · exact mem_setOrientation hset happend
  · exact happend

theorem addSlurNotation_sameButMarks (type : RelationshipEnd) (number : Int)
    (placement : Option NotationPlacementOverride) (he : note.hasTag "note") :
    SameButMarks note (addSlurNotation type number placement note) :=
  updateNotations_sameButMarks he fun _ _ _ hslur _ h =>
    List.forall_mem_append.mpr ⟨h, List.forall_mem_singleton.mpr (hslur _)⟩

/-- What relates a note to itself after the writes of the exporter, up to marks at most. -/
structure NoteWrites (R : Node → Node → Prop) : Prop where
  refl : ∀ node, R node node
  trans : ∀ a b c, R a b → R b c → R a c
  sameButMarks : ∀ a b, R a b → SameButMarks a b
  tie : ∀ type note, note.hasTag "note" → R note (addTieElement type note)
  tied : ∀ type placement note, note.hasTag "note" → R note (addTiedNotation type placement note)
  slur : ∀ type number placement note, note.hasTag "note" →
    R note (addSlurNotation type number placement note)
  beam : ∀ content note, note.hasTag "note" → R note (setLevelOneBeam content note)

theorem noteWrites_sameButMarks : NoteWrites SameButMarks where
  refl := .refl
  trans _ _ _ := .trans
  sameButMarks _ _ := id
  tie type _ := addTieElement_sameButMarks type
  tied type placement _ := addTiedNotation_sameButMarks type placement
  slur type number placement _ := addSlurNotation_sameButMarks type number placement
  beam content _ := setLevelOneBeam_sameButMarks content

/-! ## Writes to the notes of a score -/

/-- `root'` is the score `root` with items of the measures that `R` relates. -/
def SameScoreBy (R : Node → Node → Prop) : Node → Node → Prop :=
  SameShape (SameShape (SameShape R))

/-- `root'` is the score `root` with other marks on its notes. -/
def SameScore : Node → Node → Prop := SameShape (SameShape (SameShape SameButMarks))

theorem SameScoreBy.refl (hR : ∀ node, R node node) (root : Node) : SameScoreBy R root root :=
  SameShape.refl (SameShape.refl (SameShape.refl hR)) root

theorem SameScoreBy.trans (hR : ∀ a b c, R a b → R b c → R a c) {a b c : Node}
    (hab : SameScoreBy R a b) (hbc : SameScoreBy R b c) : SameScoreBy R a c :=
  have hmeasure : ∀ a b c, SameShape R a b → SameShape R b c → SameShape R a c :=
    fun _ _ _ => SameShape.trans hR
  have hpart : ∀ a b c, SameShape (SameShape R) a b → SameShape (SameShape R) b c →
      SameShape (SameShape R) a c :=
    fun _ _ _ => SameShape.trans hmeasure
  SameShape.trans hpart hab hbc

theorem SameScoreBy.sameScore (hR : NoteWrites R) {root' : Node} (h : SameScoreBy R root root') :
    SameScore root root' :=
  SameShape.mono (fun _ _ => SameShape.mono fun _ _ => SameShape.mono hR.sameButMarks) h

/-- The nodes of the measures of a score. -/
def scoreItems (root : Node) : List Node := root.atDepth 2

/-- A tree whose notes all stand in its measures. -/
structure IsScore (root : Node) : Prop where
  notes : OnlyAt (hasTag "note") 2 root
  content : ∀ item ∈ scoreItems root, item.hasTag "note" → HasNoteContent item

theorem HasNoteContent.no_notes {item : Node} (h : HasNoteContent item) :
    ∀ child ∈ item.childNodes, child.all (fun n => !n.hasTag "note") := by
  intro child hc
  refine all_mono (fun n hn => ?_) (Bool.and_eq_true_iff.mp (h child hc)).1
  rw [Bool.not_eq_true', Bool.eq_false_iff]
  intro htag
  rw [(hasTag_iff.mp htag).2] at hn
  exact absurd hn (by decide)

theorem IsScore.of_sameScore {root' : Node} (h : IsScore root) (hs : SameScore root root') :
    IsScore root' := by
  have hitems : ∀ item' ∈ scoreItems root', ∃ item ∈ scoreItems root, SameButMarks item item' := by
    intro item' hi
    simp only [scoreItems, Node.atDepth, List.mem_flatMap] at hi
    obtain ⟨part', hpart, measure', hmeasure, hi⟩ := hi
    obtain ⟨part, hp, hpp⟩ := hs.exists_of_mem hpart
    obtain ⟨measure, hm, hmm⟩ := hpp.exists_of_mem hmeasure
    obtain ⟨item, hit, hii⟩ := hmm.exists_of_mem hi
    exact ⟨item, List.mem_flatMap.mpr ⟨part, hp, List.mem_flatMap.mpr ⟨measure, hm, hit⟩⟩, hii⟩
  have hcontent : ∀ item ∈ scoreItems root', item.hasTag "note" → HasNoteContent item := by
    intro item' hi hnote
    obtain ⟨item, hit, hii⟩ := hitems item' hi
    exact hii.content (h.content item hit ((hii.hasTag "note").symm.trans hnote))
  refine ⟨⟨(hs.hasTag "note").trans h.notes.1, fun part' hp' => ?_⟩, hcontent⟩
  obtain ⟨part, hp, hpp⟩ := hs.exists_of_mem hp'
  have hpart := h.notes.2 part hp
  refine ⟨(hpp.hasTag "note").trans hpart.1, fun measure' hm' => ?_⟩
  obtain ⟨measure, hm, hmm⟩ := hpp.exists_of_mem hm'
  have hmeasure := hpart.2 measure hm
  refine ⟨(hmm.hasTag "note").trans hmeasure.1, fun item' hi' => ?_⟩
  obtain ⟨item, hi, hii⟩ := hmm.exists_of_mem hi'
  by_cases hnote : item.hasTag "note"
  · exact HasNoteContent.no_notes (hii.content (h.content item
      (List.mem_flatMap.mpr ⟨part, hp, List.mem_flatMap.mpr ⟨measure, hm, hi⟩⟩) hnote))
  · rw [hii.other (Bool.eq_false_iff.mpr hnote)]
    exact hmeasure.2 item hi

theorem isNoteWithId_iff {id : String} :
    isNoteWithId id node ↔ node.hasTag "note" ∧ node.getAttribute "id" = some id := by
  simp [isNoteWithId]

theorem hasTag_of_isNoteWithId {id : String} (h : isNoteWithId id node) :
    node.hasTag "note" := (isNoteWithId_iff.mp h).1

/-- A write to a note keeps the rest of the score. -/
theorem updateNote_scoreBy (hR : NoteWrites R) (h : IsScore root) (id : String)
    (hf : ∀ note : Node, note.hasTag "note" → R note (f note)) :
    SameScoreBy R root (updateNote id f root) := by
  have hno : ∀ n : Node, n.hasTag "note" = false → isNoteWithId id n = false := fun n hn => by
    rw [isNoteWithId, hn, Bool.false_and]
  rw [updateNote]
  cases hupdate : root.updateFirst (isNoteWithId id) f with
  | none => exact .refl hR.refl root
  | some root' =>
    refine updateFirst_sameShape (SameShape.refl (SameShape.refl hR.refl))
      (hno _ h.notes.1) (fun part hp part' hpart => ?_) hupdate
    refine updateFirst_sameShape (SameShape.refl hR.refl)
      (hno _ (h.notes.2 part hp).1) (fun measure hm measure' hmeasure => ?_) hpart
    refine updateFirst_sameShape hR.refl
      (hno _ ((h.notes.2 part hp).2 measure hm).1) (fun item hi item' hitem => ?_) hmeasure
    rw [updateFirst_item f (fun _ => hasTag_of_isNoteWithId) (fun _ => rfl)
      (((h.notes.2 part hp).2 measure hm).2 item hi)] at hitem
    split_ifs at hitem with hid
    obtain rfl := Option.some.inj hitem
    exact hf item (hasTag_of_isNoteWithId hid)

/-- A write to a note keeps the score up to marks, and is a write to the first
item with the id. -/
theorem updateNote_score (h : IsScore root) (id : String)
    (hf : ∀ note : Node, note.hasTag "note" → SameButMarks note (f note)) :
    SameScore root (updateNote id f root) ∧
      scoreItems (updateNote id f root) =
        (replaceFirst (isNoteWithId id) f (scoreItems root)).getD (scoreItems root) := by
  refine ⟨updateNote_scoreBy noteWrites_sameButMarks h id hf, ?_⟩
  have hitems := updateFirst_atDepth (p := isNoteWithId id) f (fun _ => hasTag_of_isNoteWithId)
    (fun _ => rfl) h.notes
  rw [updateNote, scoreItems, scoreItems, ← hitems]
  cases root.updateFirst (isNoteWithId id) f with
  | none => rfl
  | some root' => rfl

/-! ## The whole export -/

namespace NoteWrites

variable {R : Node → Node → Prop} (hR : NoteWrites R) (document : ScoreDocument) {root : Node}
include hR

/-- What a fold of steps that keep the score keeps. -/
theorem foldl {β : Type} {step : Node → β → Node}
    (hstep : ∀ root b, IsScore root → SameScoreBy R root (step root b)) (bs : List β)
    (h : IsScore root) : SameScoreBy R root (bs.foldl step root) := by
  induction bs generalizing root with
  | nil => exact .refl hR.refl root
  | cons b bs ih =>
    have hb := hstep root b h
    exact hb.trans hR.trans (ih (h.of_sameScore (hb.sameScore hR)))

theorem writeTieRelationship (h : IsScore root) (relationship : TieRelationship) :
    SameScoreBy R root (writeTieRelationship document root relationship) := by
  rw [Editor.writeTieRelationship]
  split_ifs
  · exact .refl hR.refl root
  · have h1 := updateNote_scoreBy hR h relationship.startNoteAtomId (hR.tie .start)
    have hs1 := h.of_sameScore (h1.sameScore hR)
    have h2 := updateNote_scoreBy hR hs1 relationship.stopNoteAtomId (hR.tie .stop)
    have hs2 := hs1.of_sameScore (h2.sameScore hR)
    have h3 := updateNote_scoreBy hR hs2 relationship.startNoteAtomId
      (hR.tied .start (getTiePlacement document relationship.id))
    have hs3 := hs2.of_sameScore (h3.sameScore hR)
    have h4 := updateNote_scoreBy hR hs3 relationship.stopNoteAtomId (hR.tied .stop none)
    exact ((h1.trans hR.trans h2).trans hR.trans h3).trans hR.trans h4

theorem writeSlurRelationship (h : IsScore root) (relationship : SlurRelationship × Nat) :
    SameScoreBy R root (writeSlurRelationship document root relationship) := by
  rw [Editor.writeSlurRelationship]
  split_ifs
  · exact .refl hR.refl root
  · have h1 := updateNote_scoreBy hR h relationship.1.startNoteAtomId
      (hR.slur .start (relationship.2 + 1) (getSlurPlacement document relationship.1.id))
    exact h1.trans hR.trans (updateNote_scoreBy hR (h.of_sameScore (h1.sameScore hR))
      relationship.1.stopNoteAtomId (hR.slur .stop (relationship.2 + 1) none))

theorem writeBeamRelationship (h : IsScore root) (relationship : BeamRelationship) :
    SameScoreBy R root (writeBeamRelationship document root relationship) := by
  rw [Editor.writeBeamRelationship]
  split_ifs
  · exact .refl hR.refl root
  · exact hR.foldl (fun root' b h' => updateNote_scoreBy hR h' b.1 (hR.beam _)) _ h

end NoteWrites

/-- The score with its relationships, before it is serialized. -/
def writeRelationships (document : ScoreDocument) (root : Node) : Node :=
  root |> writeTieRelationships document |> writeSlurRelationships document
    |> writeBeamRelationships document

theorem exportEditorDomainToMusicXml_eq (document : ScoreDocument)
    (options : MusicXmlExportOptions) :
    exportEditorDomainToMusicXml document options =
      (writeRelationships document (createScoreElement document (options.divisions.getD 4)
        (options.timeSignature.getD ⟨4, 4⟩))).breakLines := rfl

theorem NoteWrites.writeRelationships {R : Node → Node → Prop} (hR : NoteWrites R)
    (document : ScoreDocument) {root : Node} (h : IsScore root) :
    SameScoreBy R root (writeRelationships document root) := by
  have hties := hR.foldl
    (fun _ b h' => hR.writeTieRelationship document h' b) document.tieRelationships h
  have hs := h.of_sameScore (hties.sameScore hR)
  have hslurs := hR.foldl
    (fun _ b h' => hR.writeSlurRelationship document h' b) document.slurRelationships.zipIdx hs
  have hbeams := hR.foldl
    (fun _ b h' => hR.writeBeamRelationship document h' b) document.beamRelationships
    (hs.of_sameScore (hslurs.sameScore hR))
  exact (hties.trans hR.trans hslurs).trans hR.trans hbeams

end NoteVerse.Editor

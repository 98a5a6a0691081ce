import NoteVerse.Editor.ExportedNotes
import NoteVerse.Editor.ImportSuccess

/-!
# The marks of an exported score

The exporter writes the ends of a tie or a slur to the first note with the id
of the end, and gives every slur a number of its own. So the marked notes of
an exported score have distinct ids and no note has two slurs of one number:
what the exporter writes can be imported (`import_export_ok`).
-/

namespace NoteVerse.Editor

open Js Xml Xml.Node MusicXmlImporter

/-! ## Slurs of a note after a write -/

/-- The slurs among the children of a note. -/
def slursIn (nodes : List Node) : List Node :=
  (nodes.filter (hasTag "notations")).flatMap (·.childrenNamed "slur")

theorem slurNumbers_eq (note : Node) :
    slurNumbers note = (slursIn note.childNodes).map getSlurNumber := by
  rw [slurNumbers, path_cons, slursIn]
  simp only [path_singleton, childrenNamed]

/-- A write that adds slurs of the given numbers to a note. -/
def AddsSlurs (numbers : List Int) (f : Node → Node) : Prop :=
  ∀ note : Node, (slurNumbers (f note)).Perm (slurNumbers note ++ numbers)

theorem addsSlurs_nil_of_filter {f : List Node → List Node}
    (hf : ∀ nodes, (f nodes).filter (hasTag "notations") = nodes.filter (hasTag "notations")) :
    AddsSlurs [] (mapChildren f) := by
  intro note
  rw [slurNumbers_eq, slurNumbers_eq, slursIn, slursIn, List.append_nil, mapChildren,
    childNodes_element, hf]

theorem addTieElement_addsSlurs (type : RelationshipEnd) : AddsSlurs [] (addTieElement type) := by
  intro note
  rw [addTieElement]
  split_ifs
  · rw [List.append_nil]
  · exact addsSlurs_nil_of_filter (fun nodes => filter_insertBefore rfl nodes) note

theorem setLevelOneBeam_addsSlurs (content : String) : AddsSlurs [] (setLevelOneBeam content) :=
  addsSlurs_nil_of_filter (filter_setLevelOneBeam (by decide) content)

/-- A change of the first `notations` adds to its slurs what it adds there. -/
theorem updateNotations_addsSlurs {f : List Node → List Node} (slurs : List Node)
    (hf : ∀ nodes, (f nodes).filter (hasTag "slur") = nodes.filter (hasTag "slur") ++ slurs) :
    AddsSlurs (slurs.map getSlurNumber)
      (mapChildren (updateNodeNamed "notations" (mapChildren f))) := by
  have hin : ∀ nodes : List Node,
      (slursIn (updateNodeNamed "notations" (mapChildren f) nodes)).Perm
        (slursIn nodes ++ slurs) := by
    intro nodes
    induction nodes with
    | nil => simp [updateNodeNamed, slursIn, mapChildren, hf]
    | cons n nodes ih =>
      rw [updateNodeNamed]
      by_cases hn : n.hasTag "notations"
      · have hmap : (mapChildren f n).hasTag "notations" := by
          rw [mapChildren, hasTag_element, (hasTag_iff.mp hn).2]
          rfl
        have hslurs : (mapChildren f n).childrenNamed "slur" = n.childrenNamed "slur" ++ slurs :=
          hf n.childNodes
        rw [if_pos hn, slursIn, slursIn, List.filter_cons_of_pos hmap, List.filter_cons_of_pos hn,
          List.flatMap_cons, List.flatMap_cons, hslurs, List.append_assoc, List.append_assoc]
        exact List.perm_append_comm.append_left _
      · rw [if_neg hn, slursIn, slursIn, List.filter_cons_of_neg hn, List.filter_cons_of_neg hn]
        exact ih
  intro note
  rw [slurNumbers_eq, slurNumbers_eq, mapChildren, childNodes_element, ← List.map_append]
  exact (hin note.childNodes).map _

theorem filter_setOrientation {tag : String} (ht : tag ≠ "tied") (type : RelationshipEnd)
    (orientation : String) (nodes : List Node) :
    (setOrientation type orientation nodes).filter (hasTag tag) = nodes.filter (hasTag tag) := by
  induction nodes with
  | nil => rfl
  | cons n nodes ih =>
    rw [setOrientation]
    split_ifs with hn
    · have htied : n.hasTag "tied" := (Bool.and_eq_true_iff.mp hn).1
      rcases n with _ | ⟨tag', attributes, children⟩
      · exact absurd htied (by simp [Node.hasTag])
      · obtain rfl : tag' = "tied" := (hasTag_iff.mp htied).2
        simp [setAttribute, ht.symm]
    · rw [List.filter_cons, List.filter_cons, ih]

/-- The end of a tie adds nothing but a `tied`. -/
theorem filter_tied {tag : String} (ht : tag ≠ "tied") (type : RelationshipEnd)
    (placement : Option NotationPlacementOverride) (nodes : List Node) :
    (let nodes :=
      if nodes.any fun n => n.hasTag "tied" && hasType type n then nodes
      else nodes ++ [createElement "tied" [("type", type.name)] []]
    match type, placement with
    | .start, some placement => setOrientation type (orientationName placement) nodes
    | _, _ => nodes).filter (hasTag tag) = nodes.filter (hasTag tag) := by
  have happend : (if nodes.any fun n => n.hasTag "tied" && hasType type n then nodes
      else nodes ++ [createElement "tied" [("type", type.name)] []]).filter (hasTag tag) =
        nodes.filter (hasTag tag) := by
    split_ifs
    · rfl
    · simp [createElement, ht.symm]
  rcases type with _ | _
  · rcases placement with _ | placement
    · exact happend
    · exact (filter_setOrientation ht _ _ _).trans happend
  · exact happend

theorem addTiedNotation_addsSlurs (type : RelationshipEnd)
    (placement : Option NotationPlacementOverride) :
    AddsSlurs [] (addTiedNotation type placement) := by
  refine updateNotations_addsSlurs [] fun nodes => ?_
  rw [List.append_nil]
  exact filter_tied (by decide) type placement nodes

theorem addSlurNotation_addsSlurs (type : RelationshipEnd) {number : Int} (hn : number ≠ 0)
    (placement : Option NotationPlacementOverride) :
    AddsSlurs [number] (addSlurNotation type number placement) := by
  have hnumber : getSlurNumber (createSlurElement type number placement) = number := by
    simp [getSlurNumber, getAttribute, createSlurElement, createElement, hn]
  have hadd := updateNotations_addsSlurs [createSlurElement type number placement]
    (f := fun nodes => nodes ++ [createSlurElement type number placement]) fun nodes => by
      rw [List.filter_append]
      rfl
  rw [List.map_singleton, hnumber] at hadd
  exact hadd

/-! ## Marked notes after a write -/

/-- A marked item is the first note with its id, and is named. -/
structure FirstMarked (items : List Node) : Prop where
  first : items.Pairwise fun a b => isMarked b → a.hasTag "note" →
    a.getAttribute "id" ≠ b.getAttribute "id"
  named : ∀ item ∈ items, isMarked item → ∃ id, item.getAttribute "id" = some id ∧ id ≠ ""

theorem isMarked_hasTag {node : Node} (h : isMarked node) : node.hasTag "note" :=
  (Bool.and_eq_true_iff.mp h).1

/-- The list after a change of its first element that satisfies `p`. -/
theorem mem_replaceFirst {α : Type} {p : α → Bool} {f : α → α} {xs : List α} {x : α}
    (h : x ∈ (replaceFirst p f xs).getD xs) : x ∈ xs ∨ ∃ a ∈ xs, p a ∧ x = f a := by
  rcases replaceFirst_cases p f xs with ⟨pre, a, post, rfl, -, ha, hr⟩ | ⟨-, hr⟩
  · rw [hr, Option.getD_some] at h
    rcases List.mem_append.mp h with h | h
    · exact .inl (List.mem_append_left _ h)
    · rcases List.mem_cons.mp h with rfl | h
      · exact .inr ⟨a, by simp, ha, rfl⟩
      · exact .inl (by simp [h])
  · rw [hr] at h
    exact .inl h

theorem FirstMarked.replaceFirst {items : List Node} (h : FirstMarked items) {id : String}
    (hid : id ≠ "") {f : Node → Node}
    (hf : ∀ note : Node, note.hasTag "note" → SameButMarks note (f note)) :
    FirstMarked ((Node.replaceFirst (isNoteWithId id) f items).getD items) := by
  rcases replaceFirst_cases (isNoteWithId id) f items with ⟨pre, a, post, rfl, hpre, ha, hr⟩ |
    ⟨-, hr⟩
  · rw [hr, Option.getD_some]
    obtain ⟨hnote, hattr⟩ := isNoteWithId_iff.mp ha
    have hsame := hf a hnote
    have hattr' : (f a).getAttribute "id" = some id := (hsame.getAttribute "id").trans hattr
    obtain ⟨hpp, hap, hcross⟩ := List.pairwise_append.mp h.first
    obtain ⟨ha', hpost⟩ := List.pairwise_cons.mp hap
    refine ⟨List.pairwise_append.mpr ⟨hpp, List.pairwise_cons.mpr ⟨?_, hpost⟩, ?_⟩, ?_⟩
    · intro b hb hmarked _ heq
      exact ha' b hb hmarked hnote ((hsame.getAttribute "id").symm.trans heq)
    · intro b hb c hc hmarked hbnote heq
      rcases List.mem_cons.mp hc with rfl | hc
      · -- a note before the first with the id has another id
        have hfirst := hpre b hb
        rw [isNoteWithId_iff.mpr ⟨hbnote, heq.trans hattr'⟩] at hfirst
        exact absurd hfirst (by decide)
      · exact hcross b hb c (List.mem_cons_of_mem _ hc) hmarked hbnote heq
    · intro b hb hmarked
      rcases List.mem_append.mp hb with hb | hb
      · exact h.named b (List.mem_append_left _ hb) hmarked
      · rcases List.mem_cons.mp hb with rfl | hb
        · exact ⟨id, hattr', hid⟩
        · exact h.named b (by simp [hb]) hmarked
  · rw [hr]
    exact h

theorem FirstMarked.updateNote {root : Node} (hscore : IsScore root)
    (h : FirstMarked (scoreItems root)) {id : String} (hid : id ≠ "") {f : Node → Node}
    (hf : ∀ note : Node, note.hasTag "note" → SameButMarks note (f note)) :
    FirstMarked (scoreItems (updateNote id f root)) := by
  rw [(updateNote_score hscore id hf).2]
  exact h.replaceFirst hid hf

/-- The slurs of every note are numbered apart, by numbers that satisfy the
bound of the note. -/
def SlursBounded (bound : Node → Int → Prop) (items : List Node) : Prop :=
  ∀ item ∈ items, item.hasTag "note" → (slurNumbers item).Nodup ∧ ∀ n ∈ slurNumbers item, bound item n

theorem SlursBounded.updateNote {root : Node} (hscore : IsScore root)
    {bound bound' : Node → Int → Prop} (h : SlursBounded bound (scoreItems root)) {id : String}
    {f : Node → Node} (hf : ∀ note : Node, note.hasTag "note" → SameButMarks note (f note))
    {numbers : List Int} (hadd : AddsSlurs numbers f) (hbound : ∀ item n, bound item n →
      bound' item n) (hnote : ∀ note, isNoteWithId id note → (∀ n ∈ numbers, ¬ bound note n) ∧
      (∀ n ∈ numbers, bound' (f note) n) ∧ ∀ n, bound note n → bound' (f note) n)
    (hnumbers : numbers.Nodup) :
    SlursBounded bound' (scoreItems (updateNote id f root)) := by
  rw [(updateNote_score hscore id hf).2]
  intro item hi htag
  rcases mem_replaceFirst hi with hi | ⟨note, hn, hid, rfl⟩
  · exact ⟨(h item hi htag).1, fun n hn => hbound item n ((h item hi htag).2 n hn)⟩
  · obtain ⟨hnew, hnew', hold⟩ := hnote note hid
    have hperm := hadd note
    obtain ⟨hnodup, hbelow⟩ := h note hn (isNoteWithId_iff.mp hid).1
    refine ⟨hperm.nodup_iff.mpr (List.nodup_append.mpr ⟨hnodup, hnumbers, ?_⟩), ?_⟩
    · intro a ha b hb hab
      exact hnew b hb (hab ▸ hbelow a ha)
    · intro n hmem
      rcases List.mem_append.mp (hperm.mem_iff.mp hmem) with hmem | hmem
      · exact hold n (hbelow n hmem)
      · exact hnew' n hmem

/-- What the writes keep: all of the score up to marks, and the marks safe. -/
structure SafeScore (limit : Int) (root : Node) : Prop where
  score : IsScore root
  first : FirstMarked (scoreItems root)
  slurs : SlursBounded (fun _ n => 1 ≤ n ∧ n ≤ limit) (scoreItems root)

theorem SafeScore.updateNote {limit : Int} {root : Node} (h : SafeScore limit root) {id : String}
    (hid : id ≠ "") {f : Node → Node}
    (hf : ∀ note : Node, note.hasTag "note" → SameButMarks note (f note)) (hadd : AddsSlurs [] f) :
    SafeScore limit (updateNote id f root) where
  score := h.score.of_sameScore (updateNote_score h.score id hf).1
  first := h.first.updateNote h.score hid hf
  slurs := h.slurs.updateNote h.score hf hadd (fun _ _ hn => hn) (fun _ _ =>
    ⟨by simp, by simp, fun _ hn => hn⟩) List.nodup_nil

theorem writeTieRelationship_safe {limit : Int} (document : ScoreDocument) {root : Node}
    (h : SafeScore limit root) {relationship : TieRelationship}
    (hstart : relationship.startNoteAtomId ≠ "") (hstop : relationship.stopNoteAtomId ≠ "") :
    SafeScore limit (writeTieRelationship document root relationship) := by
  rw [writeTieRelationship]
  split_ifs
  · exact h
  · have h₁ := h.updateNote hstart (fun _ he => addTieElement_sameButMarks .start he)
      (addTieElement_addsSlurs .start)
    have h₂ := h₁.updateNote hstop (fun _ he => addTieElement_sameButMarks .stop he)
      (addTieElement_addsSlurs .stop)
    have h₃ := h₂.updateNote hstart (fun _ he => addTiedNotation_sameButMarks .start
      (getTiePlacement document relationship.id) he) (addTiedNotation_addsSlurs .start _)
    exact h₃.updateNote hstop (fun _ he => addTiedNotation_sameButMarks .stop none he)
      (addTiedNotation_addsSlurs .stop none)

theorem writeSlurRelationship_safe {index : Nat} (document : ScoreDocument) {root : Node}
    (h : SafeScore index root) {relationship : SlurRelationship}
    (hstart : relationship.startNoteAtomId ≠ "") (hstop : relationship.stopNoteAtomId ≠ "")
    (hne : relationship.startNoteAtomId ≠ relationship.stopNoteAtomId) :
    SafeScore (index + 1 : Nat) (writeSlurRelationship document root (relationship, index)) := by
  have hmono : SafeScore (index + 1 : Nat) root := ⟨h.score, h.first, fun item hi htag =>
    ⟨(h.slurs item hi htag).1, fun n hn => by
      have := (h.slurs item hi htag).2 n hn
      push_cast
      omega⟩⟩
  rw [writeSlurRelationship]
  split_ifs
  · exact hmono
  · have hstartSame : ∀ note : Node, note.hasTag "note" → SameButMarks note
        (addSlurNotation .start (index + 1) (getSlurPlacement document relationship.id) note) :=
      fun _ he => addSlurNotation_sameButMarks _ _ _ he
    have hstopSame : ∀ note : Node, note.hasTag "note" → SameButMarks note
        (addSlurNotation .stop (index + 1) none note) :=
      fun _ he => addSlurNotation_sameButMarks _ _ _ he
    have hstartAdds := addSlurNotation_addsSlurs .start (by omega : (index : Int) + 1 ≠ 0)
      (getSlurPlacement document relationship.id)
    have hstopAdds := addSlurNotation_addsSlurs .stop (by omega : (index : Int) + 1 ≠ 0) none
    -- between the two writes the new number is on the start only
    have hbetween : SlursBounded (fun item n => 1 ≤ n ∧ (n ≤ index ∨ n = index + 1 ∧
          item.getAttribute "id" = some relationship.startNoteAtomId))
        (scoreItems (updateNote relationship.startNoteAtomId (addSlurNotation .start (index + 1)
          (getSlurPlacement document relationship.id)) root)) := by
      refine h.slurs.updateNote h.score hstartSame hstartAdds (fun _ n hn => ⟨hn.1, .inl hn.2⟩)
        (fun note hid => ⟨?_, ?_, ?_⟩) (List.nodup_singleton _)
      · intro n hn hle
        have := List.mem_singleton.mp hn
        omega
      · intro n hn
        obtain ⟨hnote, hattr⟩ := isNoteWithId_iff.mp hid
        have := List.mem_singleton.mp hn
        exact ⟨by omega, .inr ⟨this, ((hstartSame note hnote).getAttribute "id").trans hattr⟩⟩
      · exact fun n hn => ⟨hn.1, .inl hn.2⟩
    have hscore := h.score.of_sameScore (updateNote_score h.score relationship.startNoteAtomId
      hstartSame).1
    refine ⟨hscore.of_sameScore (updateNote_score hscore _ hstopSame).1,
      (h.first.updateNote h.score hstart hstartSame).updateNote hscore hstop hstopSame, ?_⟩
    refine hbetween.updateNote hscore hstopSame hstopAdds (fun _ n hn => ⟨hn.1, ?_⟩)
      (fun note hid => ⟨?_, ?_, ?_⟩) (List.nodup_singleton _)
    · rcases hn.2 with hn | ⟨hn, -⟩
      · push_cast
        omega
      · push_cast
        omega
    · intro n hn hle
      have := List.mem_singleton.mp hn
      rcases hle.2 with hle | ⟨-, hattr⟩
      · omega
      · exact hne (Option.some.inj (hattr.symm.trans (isNoteWithId_iff.mp hid).2))
    · intro n hn
      have := List.mem_singleton.mp hn
      push_cast
      omega
    · intro n hn
      push_cast
      rcases hn.2 with hle | ⟨hn', -⟩
      · exact ⟨hn.1, by omega⟩
      · exact ⟨hn.1, by omega⟩

theorem writeBeamRelationship_safe {limit : Int} (document : ScoreDocument) {root : Node}
    (h : SafeScore limit root) (relationship : BeamRelationship) :
    SafeScore limit (writeBeamRelationship document root relationship) := by
  rw [writeBeamRelationship]
  split_ifs
  · exact h
  · have hroots : ∀ roots : List (NoteAtomId × Nat), (∀ r ∈ roots, r.1 ≠ "") → ∀ root' length,
        SafeScore limit root' → SafeScore limit (roots.foldl (fun xmlDoc r =>
          Editor.updateNote r.1 (setLevelOneBeam (beamText length r.2)) xmlDoc) root') := by
      intro roots
      induction roots with
      | nil => exact fun _ _ _ h => h
      | cons r roots ih =>
        intro hr root' length h'
        exact ih (fun s hs => hr s (List.mem_cons_of_mem _ hs)) _ length
          (h'.updateNote (hr r (by simp)) (fun _ he => setLevelOneBeam_sameButMarks _ he)
            (setLevelOneBeam_addsSlurs _))
    refine hroots _ (fun r hr => ?_) _ _ h
    have hmem := List.fst_mem_of_mem_zipIdx hr
    obtain ⟨eventId, -, hfind⟩ := List.mem_filterMap.mp hmem
    rw [findRootNoteForEvent] at hfind
    split at hfind
    · split at hfind
      · split_ifs at hfind with hne
        exact Option.some.inj hfind ▸ hne.1
      · exact absurd hfind (by simp)
    · exact absurd hfind (by simp)

/-! ## The marks of the whole export -/

/-- The ends of the ties and slurs of a document: named, and distinct for a
slur. -/
structure NamedRelationships (document : ScoreDocument) : Prop where
  ties : ∀ relationship ∈ document.tieRelationships,
    relationship.startNoteAtomId ≠ "" ∧ relationship.stopNoteAtomId ≠ ""
  slurs : ∀ relationship ∈ document.slurRelationships,
    relationship.startNoteAtomId ≠ "" ∧ relationship.stopNoteAtomId ≠ "" ∧
      relationship.startNoteAtomId ≠ relationship.stopNoteAtomId

theorem safeScore_createScoreElement (document : ScoreDocument) (divisions : Int)
    (timeSignature : TimeSignature) :
    SafeScore (0 : Nat) (createScoreElement document divisions timeSignature) := by
  have hnumbers : ∀ item ∈ scoreItems (createScoreElement document divisions timeSignature),
      item.hasTag "note" → slurNumbers item = [] := fun item hi hnote => by
    rw [slurNumbers, (isVoiceItem_of_mem_scoreItems hi hnote).noSlur, List.map_nil]
  have hunmarked : ∀ item ∈ scoreItems (createScoreElement document divisions timeSignature),
      ¬ isMarked item := fun item hi hmarked => by
    have hnote := isMarked_hasTag hmarked
    simp [isMarked, hnumbers item hi hnote, (isVoiceItem_of_mem_scoreItems hi hnote).noTie]
      at hmarked
  refine ⟨isScore_createScoreElement document divisions timeSignature, ⟨?_, ?_⟩, ?_⟩
  · exact List.pairwise_of_forall_mem_list fun a _ b hb hmarked => absurd hmarked (hunmarked b hb)
  · exact fun item hi hmarked => absurd hmarked (hunmarked item hi)
  · intro item hi hnote
    rw [hnumbers item hi hnote]
    exact ⟨List.nodup_nil, by simp⟩

theorem writeRelationships_safe {document : ScoreDocument} (h : NamedRelationships document)
    {root : Node} (hroot : SafeScore (0 : Nat) root) :
    ∃ limit, SafeScore limit (writeRelationships document root) := by
  have hties : ∀ relationships : List TieRelationship,
      (∀ r ∈ relationships, r ∈ document.tieRelationships) → ∀ root', SafeScore (0 : Nat) root' →
        SafeScore (0 : Nat) (relationships.foldl (writeTieRelationship document) root') := by
    intro relationships
    induction relationships with
    | nil => exact fun _ _ h => h
    | cons r rs ih =>
      intro hr root' h'
      obtain ⟨hstart, hstop⟩ := h.ties r (hr r (by simp))
      exact ih (fun s hs => hr s (List.mem_cons_of_mem _ hs)) _
        (writeTieRelationship_safe document h' hstart hstop)
  have hslurs : ∀ (relationships : List SlurRelationship),
      (∀ r ∈ relationships, r ∈ document.slurRelationships) → ∀ (index : Nat) root',
        SafeScore index root' → ∃ limit : Nat, SafeScore limit
          ((relationships.zipIdx index).foldl (writeSlurRelationship document) root') := by
    intro relationships
    induction relationships with
    | nil => exact fun _ index _ h => ⟨index, h⟩
    | cons r rs ih =>
      intro hr index root' h'
      obtain ⟨hstart, hstop, hne⟩ := h.slurs r (hr r (by simp))
      exact ih (fun s hs => hr s (List.mem_cons_of_mem _ hs)) (index + 1) _
        (writeSlurRelationship_safe document h' hstart hstop hne)
  have hbeams : ∀ (relationships : List BeamRelationship) (limit : Int) root',
      SafeScore limit root' →
        SafeScore limit (relationships.foldl (writeBeamRelationship document) root') := by
    intro relationships
    induction relationships with
    | nil => exact fun _ _ h => h
    | cons r rs ih =>
      intro limit root' h'
      exact ih limit _ (writeBeamRelationship_safe document h' r)
  obtain ⟨limit, hlimit⟩ := hslurs document.slurRelationships (fun _ hr => hr) 0 _
    (hties document.tieRelationships (fun _ hr => hr) root hroot)
  exact ⟨limit, hbeams document.beamRelationships limit _ hlimit⟩

theorem SafeScore.safeMarks {limit : Int} {root : Node} (h : SafeScore limit root) :
    SafeMarks (scoreItems root) where
  distinct := h.first.first.imp fun hab ha hb => hab hb (isMarked_hasTag ha)
  named := h.first.named
  slurs item hi hmarked := (h.slurs item hi (isMarked_hasTag hmarked)).1

/-! ## The text of an export -/

/-- `part'` is the part `part` with other marks on its notes. -/
def SamePart : Node → Node → Prop := SameShape (SameShape SameButMarks)

/-- The part list, which no relationship changes. -/
def createPartList (document : ScoreDocument) : Node :=
  createElement "part-list" [] (document.parts.map createScorePartElement)

theorem partNodes_sublist (part : Node) : (partNodes part).Sublist (Node.atDepth 1 part) := by
  rw [partNodes, Node.childrenNamed, Node.atDepth]
  induction part.childNodes with
  | nil => exact List.Sublist.refl _
  | cons node nodes ih =>
    by_cases hnode : node.hasTag "measure"
    · rw [List.filter_cons_of_pos (by simpa using hnode)]
      exact (List.Sublist.refl _).append ih
    · rw [List.filter_cons_of_neg (by simpa using hnode)]
      exact ih.trans (List.sublist_append_right _ _)

/-- An export is the part list and, with marks, the parts of the document. -/
theorem exportEditorDomainToMusicXml_shape {R : Node → Node → Prop} (hR : NoteWrites R)
    (document : ScoreDocument) (options : MusicXmlExportOptions) :
    ∃ parts, exportEditorDomainToMusicXml document options =
        (createElement "score-partwise" [("version", "4.0")]
          (createPartList document :: parts)).breakLines ∧
      List.Forall₂ (SameShape (SameShape R)) (document.parts.map (createPartElement document
        (options.divisions.getD 4) (options.timeSignature.getD ⟨4, 4⟩))) parts ∧
      (NamedRelationships document → SafeMarks (parts.flatMap partNodes)) := by
  have hroot := safeScore_createScoreElement document (options.divisions.getD 4)
    (options.timeSignature.getD ⟨4, 4⟩)
  have hsame := hR.writeRelationships document hroot.score
  have hsafe := fun hnamed : NamedRelationships document => writeRelationships_safe hnamed hroot
  rw [exportEditorDomainToMusicXml_eq]
  generalize writeRelationships document (createScoreElement document (options.divisions.getD 4)
    (options.timeSignature.getD ⟨4, 4⟩)) = root at hsame hsafe
  rcases root with _ | ⟨tag, attributes, children⟩
  · exact absurd hsame.isElement (by simp [createScoreElement, createElement, Node.isElement])
  · obtain rfl : tag = "score-partwise" := hsame.tagName
    obtain rfl : attributes = [("version", "4.0")] := hsame.attributes
    obtain ⟨partList, parts, hlist, hparts, rfl⟩ := List.forall₂_cons_left_iff.mp hsame.childNodes
    -- no note stands in the part list
    have hpartList : partList = createPartList document := by
      refine SameShape.eq rfl hlist fun scorePart hs scorePart' hsp => ?_
      obtain ⟨part, -, rfl⟩ := List.mem_map.mp hs
      refine SameShape.eq rfl hsp fun partName hp partName' hpn => ?_
      obtain rfl := List.mem_singleton.mp hp
      exact (hR.sameButMarks _ _ hpn).other rfl
    refine ⟨parts, by rw [hpartList], hparts, fun hnamed => ?_⟩
    obtain ⟨limit, hlimit⟩ := hsafe hnamed
    have hsub : (parts.flatMap partNodes).Sublist (scoreItems
        (element "score-partwise" [("version", "4.0")] (partList :: parts))) := by
      rw [scoreItems, Node.atDepth, childNodes_element, List.flatMap_cons]
      refine List.Sublist.trans ?_ (List.sublist_append_right _ _)
      clear hlimit hsafe hsame hparts
      induction parts with
      | nil => exact List.Sublist.refl _
      | cons part parts ih => exact (partNodes_sublist part).append ih
    have hmarks := hlimit.safeMarks
    exact ⟨hmarks.distinct.sublist hsub, fun n hn => hmarks.named n (hsub.subset hn),
      fun n hn => hmarks.slurs n (hsub.subset hn)⟩

end NoteVerse.Editor

import NoteVerse.Editor.ExportedMarks

/-!
# Parts and measures of an export

The parts that a reader of an exported text finds (`getPartElements_export`),
and that the importer accepts every export whose relationships are between
named notes (`importMusicXmlToEditorDomain_export_ok`).
-/

namespace NoteVerse.Editor

open Js Xml Xml.Node MusicXmlImporter

/-- An element that is neither a part nor a parse error. -/
def isInPart (e : Node) : Bool := e.tagName ∉ ["part", "parsererror"]

/-- The part `part'` of a score with its relationships, created as `part`. -/
structure IsPartElement (part' : Node) : Prop where
  hasTag : part'.hasTag "part"
  inside : ∀ measure ∈ part'.childNodes, measure.all isInPart

theorem SameButMarks.all_isInPart {item item' : Node} (h : SameButMarks item item')
    (hitem : item.isElement) (htag : isInPart item) (hcontent : HasNoteContent item) :
    item'.all isInPart := by
  have htag' : isInPart item' := by rwa [isInPart, h.tagName]
  rcases item' with content | ⟨tag, attributes, nodes⟩
  · exact absurd h.isElement (by simp [hitem])
  · refine all_element.mpr ⟨htag', fun child hc => ?_⟩
    refine all_mono (fun n hn => ?_) (Bool.and_eq_true_iff.mp (h.content hcontent child hc)).1
    rw [isInPart, decide_eq_true_eq] at *
    exact fun hmem => hn (by
      rcases List.mem_cons.mp hmem with hp | hp
      · rw [hp]; decide
      · rw [List.mem_singleton.mp hp]; decide)

theorem all_isInPart_createAttributesElement (document : ScoreDocument) (part : Part)
    (divisions : Int) (timeSignature : TimeSignature) :
    (createAttributesElement document part divisions timeSignature).all isInPart := by
  refine all_mono (fun n hn => ?_) (all_createAttributesElement document part divisions timeSignature)
  rw [isInPart, decide_eq_true_eq] at *
  exact fun hmem => hn (by
    rcases List.mem_cons.mp hmem with hp | hp
    · rw [hp]; decide
    · rw [List.mem_singleton.mp hp]; decide)

theorem isPartElement_of_samePart {document : ScoreDocument} {divisions : Int}
    {timeSignature : TimeSignature} {part : Part} {part' : Node}
    (h : SamePart (createPartElement document divisions timeSignature part) part') :
    IsPartElement part' := by
  refine ⟨h.hasTag "part", fun measure' hm => ?_⟩
  obtain ⟨measure, hmeasure, hsame⟩ := h.exists_of_mem hm
  obtain ⟨index, hindex, rfl⟩ := List.mem_mapIdx.mp hmeasure
  rcases measure' with content | ⟨tag, attributes, nodes⟩
  · exact absurd hsame.isElement (by simp [createMeasureElement, createElement])
  · obtain rfl : tag = "measure" := hsame.tagName
    refine all_element.mpr ⟨rfl, fun item' hi => ?_⟩
    obtain ⟨item, hitem, hii⟩ := hsame.exists_of_mem hi
    rcases mem_createMeasureElement hitem with hv | rfl
    · have htag : isInPart item := by
        have hmem := hv.tagName
        simp only [List.mem_cons, List.not_mem_nil, or_false] at hmem
        rcases hmem with h | h | h
        · rw [isInPart, h]; decide
        · rw [isInPart, h]; decide
        · rw [isInPart, h]; decide
      exact hii.all_isInPart hv.isElement htag hv.content
    · rw [hii.other rfl]
      exact all_isInPart_createAttributesElement ..

/-! ## What a reader finds -/

/-- The elements of a tree none of which has the tag. -/
theorem matching_elementsOf_eq_nil {node : Node} {tag : String} (tags : List String)
    (h : node.all fun e => e.tagName != tag) : matching [tag] (elementsOf tags node) = [] := by
  have hne : ∀ e ∈ elementsOf tags node, e.2.tagName ≠ tag := fun e he => by
    have := mem_elementsOf_all h he
    simpa using this
  have hnil : matching ([] ++ [tag]) (elementsOf tags node) = [] := matching_eq_nil hne
  exact hnil

theorem all_tagName_breakLines {node : Node} {tag : String}
    (h : node.all fun e => e.tagName != tag) : node.breakLines.all fun e => e.tagName != tag := by
  rw [all_breakLines fun n => by rw [tagName_breakLines]]
  exact h

theorem elementsOf_of_isElement {node : Node} (he : node.isElement) (tags : List String) :
    elementsOf tags node = (tags, node) :: elementsIn (node.tagName :: tags) node.childNodes := by
  rcases node with content | ⟨tag, attributes, nodes⟩
  · exact absurd he (by simp)
  · rfl

/-- The elements below an element, its line breaks apart. -/
theorem matching_childNodes_breakLines (selector tags : List String) (node : Node) :
    matching selector (elementsIn tags node.breakLines.childNodes) =
      node.childNodes.flatMap fun child => matching selector (elementsOf tags child.breakLines) := by
  rw [elementsIn_childNodes_breakLines, elementsIn_eq_flatMap, matching_flatMap, List.flatMap_map]

/-- The elements with a tag in the text of an element, of which only its
children contain some. -/
theorem matching_elementsOf_breakLines {node : Node} {tag : String} (tags : List String)
    (he : node.isElement) :
    matching [tag] (elementsOf tags node.breakLines) =
      (if node.hasTag tag then [node.breakLines] else []) ++
        node.childNodes.flatMap fun child =>
          matching [tag] (elementsOf (node.tagName :: tags) child.breakLines) := by
  have hb : node.breakLines.isElement := by rw [isElement_breakLines, he]
  have hcons : ∀ (e : List String × Node) (es : List (List String × Node)),
      matching [tag] (e :: es) =
        (if e.2.tagName = tag then [e.2] else []) ++ matching [tag] es := by
    intro e es
    by_cases h : e.2.tagName = tag
    · simp [matching, List.isPrefixOf, h]
    · have h' : ¬ tag = e.2.tagName := fun h' => h h'.symm
      simp [matching, List.isPrefixOf, h, h']
  rw [elementsOf_of_isElement hb, hcons, tagName_breakLines, matching_childNodes_breakLines]
  have hif : node.tagName = tag ↔ node.hasTag tag := by
    rw [hasTag_iff, he]
    simp
  simp only [hif]

theorem documentQuerySelectorAll_part (attributes : List (String × String)) {partList : Node}
    {parts : List Node} (hlist : partList.all fun e => e.tagName ∉ scoreTags)
    (hparts : ∀ part ∈ parts, IsPartElement part) (tag : String)
    (htag : tag ∈ ["part", "parsererror"]) :
    (element "score-partwise" attributes (partList :: parts)).breakLines.documentQuerySelectorAll
      [tag] = (parts.filter (hasTag tag)).map breakLines := by
  have hroot : (element "score-partwise" attributes (partList :: parts)).hasTag tag = false := by
    rw [hasTag_element, beq_eq_false_iff_ne]
    rintro rfl
    exact absurd htag (by decide)
  have hnone : partList.all fun e => e.tagName != tag := by
    refine all_mono (fun n hn => ?_) hlist
    rw [bne_iff_ne]
    rintro rfl
    rw [decide_eq_true_eq] at hn
    rcases List.mem_cons.mp htag with h | h
    · exact hn (by rw [h]; decide)
    · exact hn (by rw [List.mem_singleton.mp h]; decide)
  have hinside : ∀ part ∈ parts, ∀ tags : List String,
      matching [tag] (elementsOf tags part.breakLines) =
        if part.hasTag tag then [part.breakLines] else [] := by
    intro part hp tags
    rw [matching_elementsOf_breakLines tags (hasTag_iff.mp (hparts part hp).hasTag).1,
      List.flatMap_eq_nil_iff.mpr, List.append_nil]
    intro measure hm
    refine matching_elementsOf_eq_nil _ (all_tagName_breakLines ?_)
    refine all_mono (fun n hn => ?_) ((hparts part hp).inside measure hm)
    rw [bne_iff_ne]
    rintro rfl
    rw [isInPart, decide_eq_true_eq] at hn
    exact hn htag
  rw [documentQuerySelectorAll, matching_elementsOf_breakLines [] rfl, hroot, if_neg (by decide),
    List.nil_append, childNodes_element, tagName_element, List.flatMap_cons,
    matching_elementsOf_eq_nil _ (all_tagName_breakLines hnone), List.nil_append]
  clear hroot hparts
  induction parts with
  | nil => rfl
  | cons part parts ih =>
    rw [List.flatMap_cons, hinside part (by simp), ih fun p hp => hinside p (by simp [hp]),
      List.filter_cons]
    split_ifs <;> rfl

/-! ## Importing an export -/

@[simp] theorem slurNumbers_breakLines (node : Node) :
    slurNumbers node.breakLines = slurNumbers node := by
  rw [slurNumbers, path_breakLines, List.map_map, slurNumbers]
  refine List.map_congr_left fun slur _ => ?_
  rw [Function.comp_apply, getSlurNumber, getAttribute_breakLines, getSlurNumber]

@[simp] theorem isMarked_breakLines (node : Node) : isMarked node.breakLines = isMarked node := by
  simp [isMarked]

theorem filter_isMarked_partNodes_breakLines (part : Node) :
    (partNodes part.breakLines).filter isMarked =
      ((partNodes part).filter isMarked).map breakLines := by
  rw [partNodes, childrenNamed_breakLines, List.flatMap_map, partNodes]
  generalize part.childrenNamed "measure" = measures
  induction measures with
  | nil => rfl
  | cons measure measures ih =>
    rw [List.flatMap_cons, List.filter_append, ih, List.flatMap_cons, List.filter_append,
      List.map_append, filter_childNodes_breakLines isMarked_breakLines rfl]

/-- Safe marks are a matter of the marked nodes. -/
theorem safeMarks_iff_filter (nodes : List Node) :
    SafeMarks nodes ↔ SafeMarks (nodes.filter isMarked) := by
  constructor
  · exact fun h => ⟨h.distinct.sublist List.filter_sublist,
      fun n hn => h.named n (List.mem_filter.mp hn).1,
      fun n hn => h.slurs n (List.mem_filter.mp hn).1⟩
  · intro h
    refine ⟨?_, fun n hn hm => h.named n (List.mem_filter.mpr ⟨hn, hm⟩) hm,
      fun n hn hm => h.slurs n (List.mem_filter.mpr ⟨hn, hm⟩) hm⟩
    have hpair := List.pairwise_filter.mp h.distinct
    exact hpair.imp fun hab ha hb => hab ha hb ha hb

theorem safeMarks_map_breakLines {nodes : List Node} (h : SafeMarks nodes) :
    SafeMarks (nodes.map breakLines) where
  distinct := List.pairwise_map.mpr (h.distinct.imp fun hab ha hb => by
    rw [isMarked_breakLines] at ha hb
    rw [getAttribute_breakLines, getAttribute_breakLines]
    exact hab ha hb)
  named := by
    refine List.forall_mem_map.mpr fun node hn hmarked => ?_
    rw [isMarked_breakLines] at hmarked
    rw [getAttribute_breakLines]
    exact h.named node hn hmarked
  slurs := by
    refine List.forall_mem_map.mpr fun node hn hmarked => ?_
    rw [isMarked_breakLines] at hmarked
    rw [slurNumbers_breakLines]
    exact h.slurs node hn hmarked

theorem safeMarks_partNodes_breakLines {parts : List Node}
    (h : SafeMarks (parts.flatMap partNodes)) :
    SafeMarks ((parts.map breakLines).flatMap partNodes) := by
  have hfilter : ((parts.map breakLines).flatMap partNodes).filter isMarked =
      ((parts.flatMap partNodes).filter isMarked).map breakLines := by
    clear h
    induction parts with
    | nil => rfl
    | cons part parts ih =>
      rw [List.map_cons, List.flatMap_cons, List.filter_append, ih, List.flatMap_cons,
        List.filter_append, List.map_append, filter_isMarked_partNodes_breakLines]
  rw [safeMarks_iff_filter, hfilter]
  exact safeMarks_map_breakLines ((safeMarks_iff_filter _).mp h)

/-- The parts of an exported text, and that the importer accepts it. -/
theorem getPartElements_exportBy {R : Node → Node → Prop} (hR : NoteWrites R)
    (document : ScoreDocument) (options : MusicXmlExportOptions) :
    ∃ parts, getPartElements (exportEditorDomainToMusicXml document options) =
        parts.map breakLines ∧
      List.Forall₂ (SameShape (SameShape R)) (document.parts.map (createPartElement document
        (options.divisions.getD 4) (options.timeSignature.getD ⟨4, 4⟩))) parts ∧
      (NamedRelationships document → ∃ result,
        importMusicXmlToEditorDomain (exportEditorDomainToMusicXml document options) =
          .ok result) := by
  obtain ⟨parts, hexport, hparts, hsafe⟩ := exportEditorDomainToMusicXml_shape hR document options
  have helement : ∀ part ∈ parts, IsPartElement part := by
    intro part' hp
    obtain ⟨created, hc, hsame⟩ : ∃ created ∈ document.parts.map (createPartElement document
        (options.divisions.getD 4) (options.timeSignature.getD ⟨4, 4⟩)),
        SamePart created part' := by
      obtain ⟨i, hi, rfl⟩ := List.getElem_of_mem hp
      have hlength := hparts.length_eq
      exact ⟨_, List.getElem_mem (by omega), SameShape.mono (fun _ _ => SameShape.mono
        hR.sameButMarks) (List.Forall₂.get hparts (by omega) hi)⟩
    obtain ⟨part, -, rfl⟩ := List.mem_map.mp hc
    exact isPartElement_of_samePart hsame
  have hselect := documentQuerySelectorAll_part [("version", "4.0")]
    (all_partList document.parts) helement
  have hpartElements : getPartElements (exportEditorDomainToMusicXml document options) =
      parts.map breakLines := by
    rw [getPartElements, hexport, createPartList, hselect "part" (by decide),
      List.filter_eq_self.mpr fun part hp => (helement part hp).hasTag]
  have hparse : (exportEditorDomainToMusicXml document options).documentQuerySelectorAll
      ["parsererror"] = [] := by
    rw [hexport, createPartList, hselect "parsererror" (by decide), List.filter_eq_nil_iff.mpr,
      List.map_nil]
    intro part hp hmatch
    have := (hasTag_iff.mp hmatch).2.symm.trans (hasTag_iff.mp (helement part hp).hasTag).2
    exact absurd this (by decide)
  refine ⟨parts, hpartElements, hparts, fun hnamed => ?_⟩
  refine importMusicXmlToEditorDomain_ok hparse ?_
  rw [hpartElements]
  exact safeMarks_partNodes_breakLines (hsafe hnamed)

theorem getPartElements_export (document : ScoreDocument) (options : MusicXmlExportOptions) :
    ∃ parts, getPartElements (exportEditorDomainToMusicXml document options) =
        parts.map breakLines ∧
      List.Forall₂ SamePart (document.parts.map (createPartElement document
        (options.divisions.getD 4) (options.timeSignature.getD ⟨4, 4⟩))) parts ∧
      (NamedRelationships document → ∃ result,
        importMusicXmlToEditorDomain (exportEditorDomainToMusicXml document options) =
          .ok result) :=
  getPartElements_exportBy noteWrites_sameButMarks document options

end NoteVerse.Editor

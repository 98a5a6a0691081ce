import NoteVerse.Editor.ExportedScore

/-!
# Exported notes and cursor movements

What a reader finds in the items of a measure: the fields of the notes and
rests of an event (`NoteFields`), of a `forward` and of a `backup`. All of them
survive the writing of relationships (`NoteFields.of_sameButMarks`).
-/

namespace NoteVerse.Editor

open Js Xml Xml.Node

/-! ## The items of a measure -/

theorem isNoteContent_leaf {tag content : String} (ht : tag ∉ structureTags) :
    isNoteContent (leaf tag content) := by
  rw [isNoteContent, Bool.and_eq_true, allIn_iff]
  exact ⟨all_leaf (decide_eq_true ht), fun _ hn => mem_textNodes hn ▸ all_text content⟩

/-- An item that belongs to a voice, as the exporter creates it. -/
structure IsVoiceItem (item : Node) : Prop where
  isElement : item.isElement
  tagName : item.tagName ∈ ["note", "forward", "backup"]
  content : HasNoteContent item
  noTie : item.childrenNamed "tie" = []
  noSlur : item.path ["notations", "slur"] = []

theorem isNoteContent_createPitchElement (pitch : Pitch) :
    isNoteContent (createPitchElement pitch) := by
  have hleaf : ∀ (tags : List String), "step" ∉ tags → "alter" ∉ tags → "octave" ∉ tags →
      ∀ child ∈ (createPitchElement pitch).childNodes,
        child.all (fun e => e.tagName ∉ tags) := by
    intro tags hstep halter hoctave child hc
    simp only [createPitchElement, createElement, childNodes_element, List.mem_append,
      List.mem_singleton] at hc
    rcases hc with (rfl | hc) | rfl
    · exact all_leaf (decide_eq_true hstep)
    · split at hc
      · split_ifs at hc
        · exact absurd hc (by simp)
        · rw [List.mem_singleton.mp hc]
          exact all_leaf (decide_eq_true halter)
      · exact absurd hc (by simp)
    · exact all_leaf (decide_eq_true hoctave)
  rw [isNoteContent, Bool.and_eq_true, allIn_iff]
  exact ⟨all_element.mpr ⟨rfl, hleaf _ (by decide) (by decide) (by decide)⟩,
    hleaf _ (by decide) (by decide) (by decide)⟩

theorem isNoteContent_sharedNoteChildren (rhythm : RhythmicValue)
    (voiceNumber staffNumber divisions : Int) :
    ∀ child ∈ sharedNoteChildren rhythm voiceNumber staffNumber divisions, isNoteContent child := by
  intro child hc
  simp only [sharedNoteChildren, List.mem_append, List.mem_cons, List.mem_replicate,
    List.not_mem_nil, or_false] at hc
  rcases hc with ((rfl | rfl | rfl) | ⟨-, rfl⟩) | rfl
  · exact isNoteContent_leaf (by decide)
  · exact isNoteContent_leaf (by decide)
  · exact isNoteContent_leaf (by decide)
  · exact isNoteContent_empty (by decide)
  · exact isNoteContent_leaf (by decide)

theorem isNoteContent_fingeringNotations (fingering : Option String) :
    ∀ child ∈ fingeringNotations fingering, isNoteContent child := by
  intro child hc
  rcases fingering with _ | content
  · exact absurd hc (by simp [fingeringNotations])
  · simp only [fingeringNotations] at hc
    split_ifs at hc with hempty
    · exact absurd hc (by simp)
    · obtain rfl := List.mem_singleton.mp hc
      simp [isNoteContent, createElement, Node.all, allIn, leaf, textNodes, hempty, structureTags,
        fieldTags]

/-! ## The children of a note by tag -/

@[simp] theorem filter_map_leaf {α : Type} {tag tag' : String} (h : (tag == tag') = false)
    (xs : List α) (g : α → String) :
    (xs.map fun x => leaf tag (g x)).filter (hasTag tag') = [] := by
  simp [List.filter_eq_nil_iff, h]

@[simp] theorem filter_fingeringNotations {tag : String} (h : ("notations" == tag) = false)
    (fingering : Option String) : (fingeringNotations fingering).filter (hasTag tag) = [] := by
  rcases fingering with _ | content
  · rfl
  · simp only [fingeringNotations]
    split_ifs
    · rfl
    · simp [createElement, h]

theorem filter_sharedNoteChildren (tag : String) (rhythm : RhythmicValue)
    (voiceNumber staffNumber divisions : Int) :
    (sharedNoteChildren rhythm voiceNumber staffNumber divisions).filter (hasTag tag) =
      (if tag = "duration" then
          [leaf "duration" (numberToString (rationalToTicks rhythm.timelineDuration divisions))]
        else []) ++
      (if tag = "voice" then [leaf "voice" (numberToString voiceNumber)] else []) ++
      (if tag = "type" then [leaf "type" rhythm.rhythmNotation.base.name] else []) ++
      (if tag = "dot" then .replicate rhythm.rhythmNotation.dots (createElement "dot" [] [])
        else []) ++
      (if tag = "staff" then [leaf "staff" (numberToString staffNumber)] else []) := by
  have hleaf : ∀ t content, [leaf t content].filter (hasTag tag) =
      if tag = t then [leaf t content] else [] := by
    intro t content
    by_cases h : tag = t
    · simp [h]
    · simp [h, Ne.symm h]
  have hdot : ∀ n, (List.replicate n (createElement "dot" [] [])).filter (hasTag tag) =
      if tag = "dot" then .replicate n (createElement "dot" [] []) else [] := by
    intro n
    by_cases h : tag = "dot"
    · simp [h, createElement]
    · simp [h, Ne.symm h, createElement]
  have hcons : ∀ (a b c : Node), [a, b, c] = [a] ++ [b] ++ [c] := fun _ _ _ => rfl
  rw [sharedNoteChildren, hcons]
  simp only [List.filter_append, hleaf, hdot]

theorem filter_createPitchElement (tag : String) (pitch : Pitch) :
    [createPitchElement pitch].filter (hasTag tag) =
      if tag = "pitch" then [createPitchElement pitch] else [] := by
  by_cases h : tag = "pitch"
  · simp [createPitchElement, createElement, h]
  · simp [createPitchElement, createElement, h, Ne.symm h]

theorem filter_chord (tag : String) (isChordMember : Bool) :
    (if isChordMember then [createElement "chord" [] []] else []).filter (hasTag tag) =
      if tag = "chord" ∧ isChordMember then [createElement "chord" [] []] else [] := by
  by_cases h : tag = "chord"
  · rcases isChordMember with _ | _
    · simp
    · simp [createElement, h]
  · rcases isChordMember with _ | _
    · simp
    · simp [createElement, h, Ne.symm h]

/-- The children of a note that are neither stem nor accidental nor
notations. -/
theorem childrenNamed_createPitchedNoteElement (note : NoteAtom)
    (stemDirection : Option StemDirectionOverride) (rhythm : RhythmicValue)
    (voiceNumber staffNumber divisions : Int) (isChordMember : Bool) {tag : String}
    (hstem : ("stem" == tag) = false) (haccidental : ("accidental" == tag) = false)
    (hnotations : ("notations" == tag) = false) :
    (createPitchedNoteElement note stemDirection rhythm voiceNumber staffNumber divisions
      isChordMember).childrenNamed tag =
      (if tag = "chord" ∧ isChordMember then [createElement "chord" [] []] else []) ++
        (if tag = "pitch" then [createPitchElement note.pitch] else []) ++
        (sharedNoteChildren rhythm voiceNumber staffNumber divisions).filter (hasTag tag) := by
  simp only [createPitchedNoteElement, childrenNamed_element, List.filter_append,
    filter_createPitchElement, filter_chord, filter_map_leaf hstem, filter_map_leaf haccidental,
    filter_fingeringNotations hnotations, List.append_nil]

theorem notations_createPitchedNoteElement (note : NoteAtom)
    (stemDirection : Option StemDirectionOverride) (rhythm : RhythmicValue)
    (voiceNumber staffNumber divisions : Int) (isChordMember : Bool) :
    (createPitchedNoteElement note stemDirection rhythm voiceNumber staffNumber divisions
      isChordMember).childrenNamed "notations" = fingeringNotations note.fingering := by
  have hfingering : (fingeringNotations note.fingering).filter (hasTag "notations") =
      fingeringNotations note.fingering := by
    rcases note.fingering with _ | content
    · rfl
    · simp only [fingeringNotations]
      split_ifs <;> rfl
  simp only [createPitchedNoteElement, childrenNamed_element, List.filter_append,
    filter_createPitchElement, filter_chord, filter_sharedNoteChildren, hfingering]
  rw [filter_map_leaf rfl, filter_map_leaf rfl]
  simp

theorem noSlur_fingeringNotations (fingering : Option String) :
    (fingeringNotations fingering).flatMap (·.path ["slur"]) = [] := by
  rcases fingering with _ | content
  · rfl
  · simp only [fingeringNotations]
    split_ifs <;> rfl

theorem isNoteContent_createPitchedNoteElement {note : NoteAtom}
    {stemDirection : Option StemDirectionOverride} {rhythm : RhythmicValue}
    {voiceNumber staffNumber divisions : Int} {isChordMember : Bool} :
    HasNoteContent (createPitchedNoteElement note stemDirection rhythm voiceNumber staffNumber
      divisions isChordMember) := by
  intro child hc
  simp only [createPitchedNoteElement, createElement, childNodes_element, List.mem_append,
    List.mem_singleton, List.mem_map, Option.mem_toList] at hc
  rcases hc with ((((hc | rfl) | hc) | ⟨_, -, rfl⟩) | ⟨_, -, rfl⟩) | hc
  · split_ifs at hc
    · rw [List.mem_singleton.mp hc]
      exact isNoteContent_empty (by decide)
    · exact absurd hc (by simp)
  · exact isNoteContent_createPitchElement _
  · exact isNoteContent_sharedNoteChildren _ _ _ _ child hc
  · exact isNoteContent_leaf (by decide)
  · exact isNoteContent_leaf (by decide)
  · exact isNoteContent_fingeringNotations _ child hc

/-! ## The items of a voice -/

theorem isVoiceItem_createPitchedNoteElement (note : NoteAtom)
    (stemDirection : Option StemDirectionOverride) (rhythm : RhythmicValue)
    (voiceNumber staffNumber divisions : Int) (isChordMember : Bool) :
    IsVoiceItem (createPitchedNoteElement note stemDirection rhythm voiceNumber staffNumber
      divisions isChordMember) := by
  refine ⟨rfl, List.mem_cons_self .., isNoteContent_createPitchedNoteElement, ?_, ?_⟩
  · rw [childrenNamed_createPitchedNoteElement _ _ _ _ _ _ _ rfl rfl rfl,
      filter_sharedNoteChildren]
    simp
  · rw [path_cons, notations_createPitchedNoteElement, noSlur_fingeringNotations]

theorem isVoiceItem_createRestElement (event : ExplicitRestEvent)
    (voiceNumber staffNumber divisions : Int) :
    IsVoiceItem (createRestElement event voiceNumber staffNumber divisions) := by
  refine ⟨rfl, List.mem_cons_self .., fun child hc => ?_, ?_, ?_⟩
  · rcases List.mem_cons.mp hc with rfl | hc
    · exact isNoteContent_empty (by decide)
    · exact isNoteContent_sharedNoteChildren _ _ _ _ child hc
  · simp [createRestElement, createElement, filter_sharedNoteChildren]
  · simp [path_cons, createRestElement, createElement, filter_sharedNoteChildren]

theorem isVoiceItem_createForwardElement (durationTicks voiceNumber staffNumber : Int) :
    IsVoiceItem (createForwardElement durationTicks voiceNumber staffNumber) := by
  refine ⟨rfl, by simp [createForwardElement], fun child hc => ?_, rfl, rfl⟩
  simp only [createForwardElement, createElement, childNodes_element, List.mem_cons,
    List.not_mem_nil, or_false] at hc
  rcases hc with rfl | rfl | rfl
  · exact isNoteContent_leaf (by decide)
  · exact isNoteContent_leaf (by decide)
  · exact isNoteContent_leaf (by decide)

theorem isVoiceItem_createBackupElement (durationTicks : Int) :
    IsVoiceItem (createBackupElement durationTicks) := by
  refine ⟨rfl, by simp [createBackupElement], fun child hc => ?_, rfl, rfl⟩
  rw [List.mem_singleton.mp hc]
  exact isNoteContent_leaf (by decide)

theorem isVoiceItem_createVoiceEventElements (document : ScoreDocument) (event : VoiceEvent)
    (voice : Voice) (divisions : Int) :
    ∀ item ∈ createVoiceEventElements document event voice divisions, IsVoiceItem item := by
  intro item hi
  rcases event with event | event
  · obtain ⟨index, hindex, rfl⟩ := List.mem_mapIdx.mp hi
    exact isVoiceItem_createPitchedNoteElement ..
  · rw [List.mem_singleton.mp hi]
    exact isVoiceItem_createRestElement ..

theorem isVoiceItem_createVoiceElements (document : ScoreDocument) (voice : Voice)
    (divisions : Int) (cursor : Int) (events : List VoiceEvent) :
    ∀ item ∈ (createVoiceElements document voice divisions cursor events).1, IsVoiceItem item := by
  induction events generalizing cursor with
  | nil => simp [createVoiceElements]
  | cons event events ih =>
    intro item hi
    simp only [createVoiceElements, List.mem_append] at hi
    rcases hi with (hi | hi) | hi
    · split_ifs at hi
      · rw [List.mem_singleton.mp hi]
        exact isVoiceItem_createForwardElement ..
      · exact absurd hi (by simp)
    · exact isVoiceItem_createVoiceEventElements document event voice divisions item hi
    · exact ih _ item hi

theorem isVoiceItem_createVoicesElements (document : ScoreDocument) (measure : Measure)
    (divisions : Int) (voiceIndex : Nat) (previousVoiceCursor : Int) (voices : List Voice) :
    ∀ item ∈ createVoicesElements document measure divisions voiceIndex previousVoiceCursor voices,
      IsVoiceItem item := by
  induction voices generalizing voiceIndex previousVoiceCursor with
  | nil => simp [createVoicesElements]
  | cons voice voices ih =>
    intro item hi
    simp only [createVoicesElements, List.mem_append] at hi
    rcases hi with (hi | hi) | hi
    · split_ifs at hi
      · rw [List.mem_singleton.mp hi]
        exact isVoiceItem_createBackupElement _
      · exact absurd hi (by simp)
    · exact isVoiceItem_createVoiceElements document voice divisions _ _ item hi
    · exact ih _ _ item hi

/-- The elements below the root of a score that are not items of its
measures. -/
def scoreTags : List String := ["part", "measure", "note", "parsererror"]

theorem all_createAttributesElement (document : ScoreDocument) (part : Part) (divisions : Int)
    (timeSignature : TimeSignature) :
    (createAttributesElement document part divisions timeSignature).all
      (fun e => e.tagName ∉ scoreTags) := by
  refine all_element.mpr ⟨rfl, fun child hc => ?_⟩
  simp only [List.mem_append, List.mem_cons, List.not_mem_nil, or_false] at hc
  rcases hc with (rfl | rfl) | hc
  · exact all_leaf rfl
  · refine all_element.mpr ⟨rfl, fun grandchild hg => ?_⟩
    simp only [List.mem_cons, List.not_mem_nil, or_false] at hg
    rcases hg with rfl | rfl
    · exact all_leaf rfl
    · exact all_leaf rfl
  · split_ifs at hc
    · rw [List.mem_singleton.mp hc]
      exact all_leaf rfl
    · exact absurd hc (by simp)

/-- An item of an exported measure: of a voice, or the attributes. -/
theorem mem_createMeasureElement {document : ScoreDocument} {part : Part} {divisions : Int}
    {timeSignature : TimeSignature} {measureIndex : Nat} {measure : Measure} {item : Node}
    (hi : item ∈ (createMeasureElement document part divisions timeSignature measureIndex
      measure).childNodes) :
    IsVoiceItem item ∨
      item = createAttributesElement document part divisions timeSignature := by
  rcases List.mem_append.mp hi with hi | hi
  · split_ifs at hi
    · exact .inr (List.mem_singleton.mp hi)
    · exact absurd hi (by simp)
  · exact .inl (isVoiceItem_createVoicesElements document measure divisions 0 0 _ item hi)

theorem all_partList (parts : List Part) :
    (createElement "part-list" [] (parts.map createScorePartElement)).all
      (fun e => e.tagName ∉ scoreTags) := by
  refine all_element.mpr ⟨rfl, fun child hc => ?_⟩
  obtain ⟨part, -, rfl⟩ := List.mem_map.mp hc
  refine all_element.mpr ⟨rfl, fun grandchild hg => ?_⟩
  rw [List.mem_singleton.mp hg]
  exact all_leaf rfl

theorem not_note_of_scoreTags {node : Node} (h : node.all (fun e => e.tagName ∉ scoreTags)) :
    node.all (fun n => !n.hasTag "note") := by
  refine all_mono (fun n hn => ?_) h
  rw [Bool.not_eq_true', Bool.eq_false_iff]
  intro htag
  rw [(hasTag_iff.mp htag).2] at hn
  exact absurd hn (by decide)

/-- The notes of a score come from its voices. -/
theorem isVoiceItem_of_mem_scoreItems {document : ScoreDocument} {divisions : Int}
    {timeSignature : TimeSignature} {item : Node}
    (hi : item ∈ scoreItems (createScoreElement document divisions timeSignature))
    (hnote : item.hasTag "note") : IsVoiceItem item := by
  obtain ⟨child, hc, measure, hm, hi⟩ := by
    simpa only [scoreItems, Node.atDepth, List.mem_flatMap] using hi
  rcases List.mem_cons.mp hc with rfl | hc
  · have hall := not_note_of_scoreTags (all_partList document.parts)
    have := all_self (hasTag_iff.mp hnote).1
      (all_of_mem_childNodes (all_of_mem_childNodes hall hm) hi)
    rw [hnote] at this
    exact absurd this (by decide)
  · obtain ⟨part, hp, rfl⟩ := List.mem_map.mp hc
    obtain ⟨index, hindex, rfl⟩ := List.mem_mapIdx.mp hm
    rcases mem_createMeasureElement hi with hi | rfl
    · exact hi
    · exact absurd hnote (by simp [createAttributesElement])

theorem isScore_createScoreElement (document : ScoreDocument) (divisions : Int)
    (timeSignature : TimeSignature) :
    IsScore (createScoreElement document divisions timeSignature) := by
  have hitem : ∀ part ∈ document.parts, ∀ measure ∈
      (createPartElement document divisions timeSignature part).childNodes,
      measure.hasTag "note" = false ∧ ∀ item ∈ measure.childNodes,
        IsVoiceItem item ∨ item = createAttributesElement document part divisions timeSignature := by
    intro part _ measure hm
    obtain ⟨index, hindex, rfl⟩ := List.mem_mapIdx.mp hm
    exact ⟨rfl, fun item hi => mem_createMeasureElement hi⟩
  constructor
  · refine ⟨rfl, fun child hc => ?_⟩
    rcases List.mem_cons.mp hc with rfl | hc
    · -- the part list has no notes at all
      have hall := not_note_of_scoreTags (all_partList document.parts)
      refine ⟨rfl, fun scorePart hs => ⟨?_, fun partName hp child hc => ?_⟩⟩
      · obtain ⟨part, -, rfl⟩ := List.mem_map.mp hs
        rfl
      · exact all_of_mem_childNodes (all_of_mem_childNodes (all_of_mem_childNodes hall hs) hp) hc
    · obtain ⟨part, hp, rfl⟩ := List.mem_map.mp hc
      refine ⟨rfl, fun measure hm => ⟨(hitem part hp measure hm).1, fun item hi => ?_⟩⟩
      rcases (hitem part hp measure hm).2 item hi with hi | rfl
      · exact hi.content.no_notes
      · exact fun child hc => all_of_mem_childNodes
          (not_note_of_scoreTags (all_createAttributesElement ..)) hc
  · exact fun item hi hnote => (isVoiceItem_of_mem_scoreItems hi hnote).content

/-! ## The fields of a note -/

/-- What a reader finds in a note: a chord member or not, of a pitch or, with
none, a rest. -/
structure NoteFields (note : Node) (isChordMember : Bool) (pitch : Option Pitch)
    (durationTicks voiceNumber staffNumber : Int) (rhythmNotation : RhythmNotation) : Prop where
  hasTag : note.hasTag "note"
  content : HasNoteContent note
  chord : note.childrenNamed "chord" =
    if isChordMember then [createElement "chord" [] []] else []
  rest : note.childrenNamed "rest" =
    if pitch.isNone then [createElement "rest" [] []] else []
  grace : note.childrenNamed "grace" = []
  pitch : note.childrenNamed "pitch" = pitch.toList.map createPitchElement
  duration : note.childrenNamed "duration" = [leaf "duration" (numberToString durationTicks)]
  voice : note.childrenNamed "voice" = [leaf "voice" (numberToString voiceNumber)]
  type : note.childrenNamed "type" = [leaf "type" rhythmNotation.base.name]
  dot : note.childrenNamed "dot" = .replicate rhythmNotation.dots (createElement "dot" [] [])
  staff : note.childrenNamed "staff" = [leaf "staff" (numberToString staffNumber)]

theorem NoteFields.of_sameButMarks {note note' : Node} {isChordMember : Bool}
    {pitch : Option Pitch} {durationTicks voiceNumber staffNumber : Int}
    {rhythmNotation : RhythmNotation} (h : SameButMarks note note')
    (hf : NoteFields note isChordMember pitch durationTicks voiceNumber staffNumber
      rhythmNotation) :
    NoteFields note' isChordMember pitch durationTicks voiceNumber staffNumber rhythmNotation where
  hasTag := (h.hasTag "note").trans hf.hasTag
  content := h.content hf.content
  chord := (h.childrenNamed "chord" (by decide)).trans hf.chord
  rest := (h.childrenNamed "rest" (by decide)).trans hf.rest
  grace := (h.childrenNamed "grace" (by decide)).trans hf.grace
  pitch := (h.childrenNamed "pitch" (by decide)).trans hf.pitch
  duration := (h.childrenNamed "duration" (by decide)).trans hf.duration
  voice := (h.childrenNamed "voice" (by decide)).trans hf.voice
  type := (h.childrenNamed "type" (by decide)).trans hf.type
  dot := (h.childrenNamed "dot" (by decide)).trans hf.dot
  staff := (h.childrenNamed "staff" (by decide)).trans hf.staff

theorem noteFields_createPitchedNoteElement (note : NoteAtom)
    (stemDirection : Option StemDirectionOverride) (rhythm : RhythmicValue)
    (voiceNumber staffNumber divisions : Int) (isChordMember : Bool) :
    NoteFields (createPitchedNoteElement note stemDirection rhythm voiceNumber staffNumber
      divisions isChordMember) isChordMember (some note.pitch)
      (rationalToTicks rhythm.timelineDuration divisions) voiceNumber staffNumber
      rhythm.rhythmNotation := by
  refine ⟨rfl, (isVoiceItem_createPitchedNoteElement ..).content, ?_, ?_, ?_, ?_, ?_, ?_, ?_, ?_,
    ?_⟩
  all_goals
    rw [childrenNamed_createPitchedNoteElement _ _ _ _ _ _ _ rfl rfl rfl,
      filter_sharedNoteChildren]
    simp

theorem noteFields_createRestElement (event : ExplicitRestEvent)
    (voiceNumber staffNumber divisions : Int) :
    NoteFields (createRestElement event voiceNumber staffNumber divisions) false none
      (rationalToTicks event.rhythm.timelineDuration divisions) voiceNumber staffNumber
      event.rhythm.rhythmNotation := by
  have hfields : ∀ tag, (createRestElement event voiceNumber staffNumber divisions).childrenNamed
      tag = (if tag = "rest" then [createElement "rest" [] []] else []) ++
        (sharedNoteChildren event.rhythm voiceNumber staffNumber divisions).filter
          (hasTag tag) := by
    intro tag
    by_cases h : tag = "rest"
    · simp [createRestElement, createElement, h]
    · simp [createRestElement, createElement, h, Ne.symm h]
  refine ⟨rfl, (isVoiceItem_createRestElement ..).content, ?_, ?_, ?_, ?_, ?_, ?_, ?_, ?_, ?_⟩
  all_goals
    rw [hfields, filter_sharedNoteChildren]
    simp

end NoteVerse.Editor

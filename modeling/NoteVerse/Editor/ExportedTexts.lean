import NoteVerse.Editor.ImportedNotes
import NoteVerse.Editor.ReadExport

/-!
# The texts of exported notes

The relationships change neither the fingering of a note nor what is not a mark (`SameNote`), so
that a reader of an export finds in each note what was created (`toNoteAtom_export`), but
for an octave that is not positive: it reads 4 (`importedPitch`). The elements of a voice are
read as its events (`readsItems_createVoiceElements`), and so are the measures.
-/

namespace NoteVerse.Editor

open Js Xml Xml.Node MusicXmlImporter

/-! ## Fingerings and marks -/

def fingeringPath : List String := ["notations", "technical", "fingering"]

/-- `note'` is `note` with other marks, its fingering apart. -/
structure SameNote (note note' : Node) : Prop where
  sameButMarks : SameButMarks note note'
  fingering : note'.path fingeringPath = note.path fingeringPath

theorem SameNote.refl (note : Node) : SameNote note note := ⟨.refl note, rfl⟩

/-- A change of the children of a note by which no `notations` come or go. -/
theorem sameNote_mapChildren {f : List Node → List Node} {note : Node}
    (hsame : SameButMarks note (note.mapChildren f))
    (hf : ∀ nodes, (f nodes).filter (hasTag "notations") = nodes.filter (hasTag "notations")) :
    SameNote note (note.mapChildren f) := by
  refine ⟨hsame, ?_⟩
  unfold fingeringPath
  rw [path_cons, path_cons]
  exact congrArg _ (hf note.childNodes)

/-- A change of the first `notations` by which nothing `technical` comes or goes. -/
theorem sameNote_updateNotations {f : List Node → List Node} {note : Node}
    (hsame : SameButMarks note (note.mapChildren (updateNodeNamed "notations" (mapChildren f))))
    (hf : ∀ nodes, (f nodes).filter (hasTag "technical") = nodes.filter (hasTag "technical")) :
    SameNote note (note.mapChildren (updateNodeNamed "notations" (mapChildren f))) := by
  have hpath : ∀ n : Node, (mapChildren f n).path ["technical", "fingering"] =
      n.path ["technical", "fingering"] := by
    intro n
    rw [path_cons, path_cons]
    exact congrArg _ (hf n.childNodes)
  have hnodes : ∀ nodes : List Node,
      ((updateNodeNamed "notations" (mapChildren f) nodes).filter (hasTag "notations")).flatMap
          (·.path ["technical", "fingering"]) =
        (nodes.filter (hasTag "notations")).flatMap (·.path ["technical", "fingering"]) := by
    intro nodes
    induction nodes with
    | nil =>
      show ([mapChildren f (element "notations" [] [])].filter (hasTag "notations")).flatMap _ = _
      rw [List.filter_cons_of_pos rfl, List.filter_nil, List.flatMap_singleton, hpath]
      rfl
    | cons n nodes ih =>
      rw [updateNodeNamed]
      split_ifs with hn
      · have htag : (mapChildren f n).hasTag "notations" := by
          rw [mapChildren, hasTag_element, (hasTag_iff.mp hn).2]
          rfl
        rw [List.filter_cons_of_pos htag, List.filter_cons_of_pos hn, List.flatMap_cons,
          List.flatMap_cons, hpath]
      · rw [List.filter_cons_of_neg hn, List.filter_cons_of_neg hn, ih]
  refine ⟨hsame, ?_⟩
  unfold fingeringPath
  rw [path_cons, path_cons]
  exact hnodes note.childNodes

theorem noteWrites_sameNote : NoteWrites SameNote where
  refl := .refl
  trans _ _ _ hab hbc := ⟨hab.sameButMarks.trans hbc.sameButMarks,
    hbc.fingering.trans hab.fingering⟩
  sameButMarks _ _ := SameNote.sameButMarks
  tie type note he := by
    have hsame := addTieElement_sameButMarks type he
    rw [addTieElement] at hsame ⊢
    split_ifs at hsame ⊢
    · exact .refl note
    · exact sameNote_mapChildren hsame fun nodes => filter_insertBefore rfl nodes
  tied type placement note he := sameNote_updateNotations
    (addTiedNotation_sameButMarks type placement he) (filter_tied (by decide) type placement)
  slur type number placement note he := sameNote_updateNotations
    (addSlurNotation_sameButMarks type number placement he) fun nodes => by
      rw [List.filter_append]
      exact List.append_nil _
  beam content note he := sameNote_mapChildren (setLevelOneBeam_sameButMarks content he)
    (filter_setLevelOneBeam (by decide) content)

/-! ## What a reader finds in a note -/

/-- A pitch as it comes back. -/
def importedPitch (pitch : Pitch) : Pitch :=
  ⟨pitch.step, if 0 < pitch.octave then pitch.octave else 4, pitch.alter.filter (· ≠ 0)⟩

/-- The fingerings that the importer keeps. -/
def fingeringTexts : List String := ["1", "2", "3", "4", "5"]

variable {tag : String} {created : Node} {item : Node × Nat} {document : ScoreDocument}
  {divisions : Int} {items : List (Node × Nat)}

theorem pathText_singleton {node : Node} {tags : List String} {child : Node}
    (h : node.childrenNamed tag = [child]) : node.pathText (tag :: tags) = child.pathText tags := by
  rw [pathText, path_cons, h, List.flatMap_singleton]
  rfl

theorem toPitch_export {note : Node} {pitch : Pitch}
    (h : note.childrenNamed "pitch" = [createPitchElement pitch]) :
    toPitch note.breakLines = some (importedPitch pitch) := by
  have hpitch : note.breakLines.childrenNamed "pitch" = [(createPitchElement pitch).breakLines] := by
    rw [childrenNamed_breakLines, h]
    rfl
  have hstep : (createPitchElement pitch).breakLines.pathText ["step"] = some pitch.step.name := by
    refine pathText_leaf ?_
    rcases halter : pitch.alter with _ | alter
    · simp [createPitchElement, createElement, halter]
    · by_cases hzero : alter = 0
      · simp [createPitchElement, createElement, halter, hzero]
      · simp [createPitchElement, createElement, halter, hzero]
  have hoctave : (createPitchElement pitch).breakLines.pathText ["octave"] =
      some (numberToString pitch.octave) := by
    refine pathText_leaf ?_
    rcases halter : pitch.alter with _ | alter
    · simp [createPitchElement, createElement, halter]
    · by_cases hzero : alter = 0
      · simp [createPitchElement, createElement, halter, hzero]
      · simp [createPitchElement, createElement, halter, hzero]
  have halter : getOptionalInt ((createPitchElement pitch).breakLines.pathText ["alter"]) =
      pitch.alter.filter (· ≠ 0) := by
    rcases halter : pitch.alter with _ | alter
    · rw [pathText, path_singleton, childrenNamed_breakLines]
      simp [createPitchElement, createElement, halter, getOptionalInt]
      decide
    · by_cases hzero : alter = 0
      · rw [pathText, path_singleton, childrenNamed_breakLines]
        simp [createPitchElement, createElement, halter, hzero, getOptionalInt]
        decide
      · rw [@pathText_leaf _ "alter" (numberToString alter) (by
          simp [createPitchElement, createElement, halter, hzero])]
        rw [getOptionalInt, Option.getD_some, parseInt_numberToString,
          Option.filter_some, if_pos (decide_eq_true hzero)]
  unfold toPitch
  rw [pathText_singleton hpitch, pathText_singleton hpitch, pathText_singleton hpitch, hstep,
    hoctave, halter, Option.map_some, toPitchStep_name, Option.map_some, getPositiveInt_numberToString]
  rfl

theorem toAccidental_name (accidental : Option Accidental) :
    toAccidental ((accidental.map Accidental.name).map trim) = accidental := by
  rcases accidental with _ | _ | _ | _ | _ | _ <;> decide

theorem toStemDirectionOverride_name (direction : Option StemDirectionOverride) :
    toStemDirectionOverride ((direction.map StemDirectionOverride.name).map trim) = direction := by
  rcases direction with _ | _ | _ | _ | _ <;> decide

theorem normalizeFingeringText_text {fingering : Option String}
    (h : ∀ text, fingering = some text → text ∈ fingeringTexts) :
    normalizeFingeringText fingering = fingering := by
  rcases fingering with _ | text
  · rfl
  · have hmem := h text rfl
    simp only [fingeringTexts, List.mem_cons, List.not_mem_nil, or_false] at hmem
    rcases hmem with rfl | rfl | rfl | rfl | rfl <;> decide

/-- A node of an exported measure, as a reader of the text finds it. -/
def Written (created : Node) (item : Node × Nat) : Prop :=
  ∃ note, SameNote created note ∧ item.1 = note.breakLines

theorem Written.hasTag (h : Written created item) (tag : String) :
    item.1.hasTag tag = created.hasTag tag := by
  obtain ⟨note, hsame, hitem⟩ := h
  rw [hitem, hasTag_breakLines, hsame.sameButMarks.hasTag]

/-- The children that are not marks. -/
theorem Written.childrenNamed (h : Written created item) (ht : tag ∉ markTags) :
    item.1.childrenNamed tag = (created.childrenNamed tag).map breakLines := by
  obtain ⟨note, hsame, hitem⟩ := h
  rw [hitem, childrenNamed_breakLines, hsame.sameButMarks.childrenNamed tag ht]

/-- The text of a field that a note has once. -/
theorem Written.pathText (h : Written created item) {content : String} (ht : tag ∉ markTags)
    (hfield : created.childrenNamed tag = [leaf tag content]) :
    item.1.pathText [tag] = some content := by
  rw [Node.pathText, path_singleton, h.childrenNamed ht, hfield]
  simp

/-- The text of a field that a note may have. -/
theorem Written.optionalText (h : Written created item) {content : Option String}
    (ht : tag ∉ markTags) (hfield : created.childrenNamed tag = content.toList.map (leaf tag)) :
    item.1.pathText [tag] = content := by
  rw [Node.pathText, path_singleton, h.childrenNamed ht, hfield]
  cases content with
  | none => rfl
  | some content => simp

theorem Written.fingering {created : Node} {item : Node × Nat} (h : Written created item)
    {fingering : Option String} (hempty : fingering ≠ some "")
    (hnotations : created.childrenNamed "notations" = fingeringNotations fingering) :
    item.1.pathText fingeringPath = fingering := by
  obtain ⟨note, hsame, hitem⟩ := h
  rw [hitem, Node.pathText, path_breakLines, hsame.fingering]
  unfold fingeringPath
  rw [path_cons, hnotations]
  cases fingering with
  | none => rfl
  | some content =>
    have hne : content ≠ "" := fun h => hempty (congrArg some h)
    simp [fingeringNotations, hne, path_cons, path_nil, createElement]

/-- What a reader finds in the fields of a note. -/
theorem NoteFields.written (h : Written created item) {isChordMember : Bool} {pitch : Option Pitch}
    {durationTicks voiceNumber staffNumber : Int} {rhythmNotation : RhythmNotation}
    (hfields : NoteFields created isChordMember pitch durationTicks voiceNumber staffNumber
      rhythmNotation) (context : MeasureContext) :
    readVoiceId context item.1 = toVoiceId context.partId
        (getPositiveInt (some (numberToString voiceNumber)) 1) ∧
      readRhythmNotation item.1 = rhythmNotation := by
  refine ⟨?_, ?_⟩
  · rw [readVoiceId, h.pathText (by decide) hfields.voice]
  · rw [readRhythmNotation, h.pathText (by decide) hfields.type, h.childrenNamed (by decide),
      hfields.dot, Option.map_some, toDurationBase_name, List.length_map, List.length_replicate]

/-! ## Events -/

/-- A note that comes back from an export. -/
structure ImportedNote (note : NoteAtom) (text : NoteText) : Prop where
  id : note.id ≠ "" → text.id = note.id
  pitch : text.pitch = importedPitch note.pitch
  accidental : text.accidental = note.accidental
  fingering : text.fingering = note.fingering

/-- An event that comes back from an export, with its stem direction. -/
structure ImportedEvent (document : ScoreDocument) (event : VoiceEvent)
    (read : EventText × Option StemDirectionOverride) : Prop where
  kind : read.1.kind = event.kind
  rhythmNotation : read.1.rhythmNotation = event.rhythm.rhythmNotation
  notes : List.Forall₂ ImportedNote event.notes read.1.notes
  stemDirection : read.2 = getEventStemDirectionOverride document.notationControls event.id

/-- An event whose notation the importer can read. -/
structure Readable (document : ScoreDocument) (event : VoiceEvent) : Prop where
  notes : event.kind = .pitched → event.notes ≠ []
  fingerings : ∀ note ∈ event.notes, ∀ text, note.fingering = some text → text ∈ fingeringTexts
  rest : event.kind = .explicitRest →
    getEventStemDirectionOverride document.notationControls event.id = none

section

variable {note : NoteAtom} {stemDirection : Option StemDirectionOverride} {rhythm : RhythmicValue}
  {voiceNumber staffNumber divisions : Int} {isChordMember : Bool} {item : Node × Nat}

theorem stem_createPitchedNoteElement :
    (createPitchedNoteElement note stemDirection rhythm voiceNumber staffNumber divisions
      isChordMember).childrenNamed "stem" =
      (stemDirection.map StemDirectionOverride.name).toList.map (leaf "stem") := by
  have hstem : (stemDirection.toList.map fun direction => leaf "stem" direction.name).filter
      (hasTag "stem") = stemDirection.toList.map fun direction => leaf "stem" direction.name :=
    List.filter_eq_self.mpr (List.forall_mem_map.mpr fun _ _ => rfl)
  simp only [createPitchedNoteElement, childrenNamed_element, List.filter_append,
    filter_createPitchElement, filter_chord, filter_sharedNoteChildren, hstem]
  rw [filter_map_leaf rfl, filter_fingeringNotations rfl]
  cases stemDirection <;> simp

theorem accidental_createPitchedNoteElement :
    (createPitchedNoteElement note stemDirection rhythm voiceNumber staffNumber divisions
      isChordMember).childrenNamed "accidental" =
      (note.accidental.map Accidental.name).toList.map (leaf "accidental") := by
  have haccidental : (note.accidental.toList.map fun accidental =>
      leaf "accidental" accidental.name).filter (hasTag "accidental") =
        note.accidental.toList.map fun accidental => leaf "accidental" accidental.name :=
    List.filter_eq_self.mpr (List.forall_mem_map.mpr fun _ _ => rfl)
  simp only [createPitchedNoteElement, childrenNamed_element, List.filter_append,
    filter_createPitchElement, filter_chord, filter_sharedNoteChildren, haccidental]
  rw [filter_map_leaf rfl, filter_fingeringNotations rfl]
  cases note.accidental <;> simp

/-- The note atom that a note of an export is read as. -/
theorem noteAtomAt_export (h : Written (createPitchedNoteElement note stemDirection rhythm
      voiceNumber staffNumber divisions isChordMember) item)
    (hfingering : ∀ text, note.fingering = some text → text ∈ fingeringTexts)
    (context : MeasureContext) :
    ∃ atom, noteAtomAt context item = some atom ∧ ImportedNote note atom.text := by
  have hfields := noteFields_createPitchedNoteElement note stemDirection rhythm voiceNumber
    staffNumber divisions isChordMember
  obtain ⟨node, hsame, hnode⟩ := id h
  have hpitch : toPitch item.1 = some (importedPitch note.pitch) := by
    rw [hnode]
    exact toPitch_export ((hfields.of_sameButMarks hsame.sameButMarks).pitch)
  have haccidental := h.optionalText (by decide) accidental_createPitchedNoteElement
  have hempty : note.fingering ≠ some "" := fun heq => absurd (hfingering "" heq) (by decide)
  have htext := h.fingering hempty (notations_createPitchedNoteElement note stemDirection rhythm
    voiceNumber staffNumber divisions isChordMember)
  have hid : getSourceId item.1 = (some note.id).filter (· ≠ "") := by
    rw [getSourceId, hnode, getAttribute_breakLines, hsame.sameButMarks.getAttribute]
    rfl
  unfold noteAtomAt toNoteAtom
  rw [hpitch, Option.map_some]
  refine ⟨_, rfl, fun hne => ?_, rfl, ?_, ?_⟩
  · show (getSourceId item.1).getD _ = note.id
    rw [hid, Option.filter_some, if_pos (decide_eq_true hne), Option.getD_some]
  · show toAccidental ((item.1.pathText ["accidental"]).map trim) = note.accidental
    rw [haccidental, toAccidental_name]
  · show normalizeFingeringText (item.1.pathText fingeringPath) = note.fingering
    rw [htext, normalizeFingeringText_text hfingering]

/-- A note of an export, as one of a chord in its voice. -/
theorem chordNote_export (h : Written (createPitchedNoteElement note stemDirection rhythm
      voiceNumber staffNumber divisions isChordMember) item)
    (hfingering : ∀ text, note.fingering = some text → text ∈ fingeringTexts)
    (context : MeasureContext) :
    ∃ text, ChordNote context (toVoiceId context.partId
      (getPositiveInt (some (numberToString voiceNumber)) 1)) item text ∧
        ImportedNote note text := by
  have hfields := noteFields_createPitchedNoteElement note stemDirection rhythm voiceNumber
    staffNumber divisions isChordMember
  obtain ⟨atom, hatom, himported⟩ := noteAtomAt_export h hfingering context
  refine ⟨atom.text, ⟨?_, (hfields.written h context).1, atom, hatom, rfl⟩, himported⟩
  exact (h.hasTag "note").trans hfields.hasTag

/-- The notes of a chord but for the first. -/
theorem chordNotes_export {notes : List NoteAtom} {created : List Node}
    (hcreated : List.Forall₂ (fun note element => ∃ stemDirection, element =
      createPitchedNoteElement note stemDirection rhythm voiceNumber staffNumber divisions true)
        notes created) {items : List (Node × Nat)} (h : List.Forall₂ Written created items)
    (hfingerings : ∀ note ∈ notes, ∀ text, note.fingering = some text → text ∈ fingeringTexts)
    (context : MeasureContext) :
    ∃ texts, List.Forall₂ (ChordNote context (toVoiceId context.partId
        (getPositiveInt (some (numberToString voiceNumber)) 1))) items texts ∧
      List.Forall₂ ImportedNote notes texts ∧
      ∀ item ∈ items, item.1.childrenNamed "chord" ≠ [] := by
  induction hcreated generalizing items with
  | nil =>
    obtain rfl := List.forall₂_nil_left_iff.mp h
    exact ⟨[], .nil, .nil, fun item hitem => absurd hitem List.not_mem_nil⟩
  | @cons note element notes created helement _ ih =>
    obtain ⟨item, items, hitem, hitems, rfl⟩ := List.forall₂_cons_left_iff.mp h
    obtain ⟨hfingering, hfingerings⟩ := List.forall_mem_cons.mp hfingerings
    obtain ⟨stemDirection, rfl⟩ := helement
    obtain ⟨text, hchord, himported⟩ := chordNote_export hitem hfingering context
    obtain ⟨texts, hchords, himporteds, hmembers⟩ := ih hitems hfingerings
    refine ⟨text :: texts, .cons hchord hchords, .cons himported himporteds,
      List.forall_mem_cons.mpr ⟨?_, hmembers⟩⟩
    rw [hitem.childrenNamed (by decide), (noteFields_createPitchedNoteElement ..).chord]
    exact List.cons_ne_nil _ _

end

/-- The elements of an event are read as the event. -/
theorem readsItems_createVoiceEventElements {event : VoiceEvent} {voice : Voice}
    (h : List.Forall₂ Written (createVoiceEventElements document event voice divisions) items)
    (hreadable : Readable document event) (context : MeasureContext) :
    ∃ read, ReadsItems context items [read] ∧ ImportedEvent document event read := by
  rcases event with event | event
  · obtain ⟨note, notes, hnotes⟩ := List.exists_cons_of_ne_nil (hreadable.notes rfl)
    have hfingerings := hreadable.fingerings
    rw [VoiceEvent.notes_pitched] at hnotes hfingerings
    rw [hnotes] at hfingerings
    obtain ⟨hfingering, hfingerings⟩ := List.forall_mem_cons.mp hfingerings
    rw [createVoiceEventElements, hnotes, List.mapIdx_cons] at h
    obtain ⟨root, items, hroot, hitems, rfl⟩ := List.forall₂_cons_left_iff.mp h
    have hfields := noteFields_createPitchedNoteElement note
      (getEventStemDirectionOverride document.notationControls event.id) event.rhythm
      (getVoiceNumber document voice) (getStaffNumber document event.staffId) divisions false
    have hroot : Written (createPitchedNoteElement note
        (getEventStemDirectionOverride document.notationControls event.id) event.rhythm
        (getVoiceNumber document voice) (getStaffNumber document event.staffId) divisions false)
        root := hroot
    obtain ⟨text, hchord, himported⟩ := chordNote_export hroot hfingering context
    obtain ⟨texts, hchords, himporteds, hmembers⟩ := chordNotes_export
      (Lists.forall₂_mapIdx fun i note => ⟨none, rfl⟩) hitems hfingerings context
    have hempty : ∀ tag ∉ markTags, tag = "chord" ∨ tag = "rest" →
        root.1.childrenNamed tag = [] := by
      intro tag ht htag
      rw [hroot.childrenNamed ht]
      rcases htag with rfl | rfl
      · rw [hfields.chord]
        rfl
      · rw [hfields.rest]
        rfl
    have hstem := hroot.optionalText (by decide) stem_createPitchedNoteElement
    refine ⟨_, readsItems_chord hchord hchords (hempty _ (by decide) (.inl rfl))
      (hempty _ (by decide) (.inr rfl)) hmembers, rfl, (hfields.written hroot context).2, ?_, ?_⟩
    · rw [VoiceEvent.notes_pitched, hnotes]
      exact .cons himported himporteds
    · rw [readStemDirection, hstem, toStemDirectionOverride_name]
      rfl
  · rw [createVoiceEventElements] at h
    obtain ⟨item, rest, hitem, hrest, rfl⟩ := List.forall₂_cons_left_iff.mp h
    obtain rfl := List.forall₂_nil_left_iff.mp hrest
    have hitem : Written (createRestElement event (getVoiceNumber document voice)
        (getStaffNumber document event.staffId) divisions) item := hitem
    have hfields := noteFields_createRestElement event (getVoiceNumber document voice)
      (getStaffNumber document event.staffId) divisions
    have hchord : item.1.childrenNamed "chord" = [] := by
      rw [hitem.childrenNamed (by decide), hfields.chord]
      rfl
    have hrest : item.1.childrenNamed "rest" ≠ [] := by
      rw [hitem.childrenNamed (by decide), hfields.rest]
      exact List.cons_ne_nil _ _
    exact ⟨_, readsItems_rest ((hitem.hasTag "note").trans hfields.hasTag) hchord hrest, rfl,
      (hfields.written hitem context).2, .nil, (hreadable.rest rfl).symm⟩

/-! ## Voices and measures -/

theorem readsItems_silent {created : List Node} (h : List.Forall₂ Written created items)
    (hcreated : ∀ element ∈ created, element.hasTag "note" = false) (context : MeasureContext) :
    ReadsItems context items [] := by
  induction h with
  | nil => exact .nil
  | cons hitem _ ih =>
    obtain ⟨helement, hcreated⟩ := List.forall_mem_cons.mp hcreated
    exact (readsItems_other ((hitem.hasTag "note").trans helement)).append (ih hcreated)

/-- The elements of a voice are read as its events. -/
theorem readsItems_createVoiceElements {voice : Voice} {cursor : Int} {events : List VoiceEvent}
    (h : List.Forall₂ Written (createVoiceElements document voice divisions cursor events).1 items)
    (hreadable : ∀ event ∈ events, Readable document event) (context : MeasureContext) :
    ∃ reads, ReadsItems context items reads ∧
      List.Forall₂ (ImportedEvent document) events reads := by
  induction events generalizing cursor items with
  | nil =>
    obtain rfl := List.forall₂_nil_left_iff.mp h
    exact ⟨[], .nil, .nil⟩
  | cons event events ih =>
    rw [createVoiceElements] at h
    obtain ⟨front, later, rfl, hfront, hlater⟩ := Lists.forall₂_append_left h
    obtain ⟨forward, own, rfl, hforward, hown⟩ := Lists.forall₂_append_left hfront
    obtain ⟨hevent, hevents⟩ := List.forall_mem_cons.mp hreadable
    obtain ⟨read, hread, himported⟩ := readsItems_createVoiceEventElements hown hevent context
    obtain ⟨reads, hreads, himporteds⟩ := ih hlater hevents
    have hsilent : ReadsItems context forward [] := by
      refine readsItems_silent hforward (fun element he => ?_) context
      split_ifs at he
      · rw [List.mem_singleton.mp he]
        rfl
      · exact absurd he List.not_mem_nil
    exact ⟨read :: reads, (hsilent.append hread).append hreads, .cons himported himporteds⟩

theorem readsItems_createVoicesElements {measure : Measure} {voiceIndex : Nat} {cursor : Int}
    {voices : List Voice}
    (h : List.Forall₂ Written (createVoicesElements document measure divisions voiceIndex cursor
      voices) items) (hreadable : ∀ event ∈ document.events, Readable document event)
    (context : MeasureContext) :
    ∃ reads, ReadsItems context items reads ∧ List.Forall₂ (ImportedEvent document)
      (voices.flatMap (getVoiceEvents document measure divisions)) reads := by
  induction voices generalizing voiceIndex cursor items with
  | nil =>
    obtain rfl := List.forall₂_nil_left_iff.mp h
    exact ⟨[], .nil, .nil⟩
  | cons voice voices ih =>
    rw [createVoicesElements] at h
    obtain ⟨front, later, rfl, hfront, hlater⟩ := Lists.forall₂_append_left h
    obtain ⟨backup, own, rfl, hbackup, hown⟩ := Lists.forall₂_append_left hfront
    obtain ⟨reads, hreads, himported⟩ := readsItems_createVoiceElements hown
      (fun event he => hreadable event (List.mem_filter.mp (mem_sort.mp he)).1) context
    obtain ⟨reads', hreads', himported'⟩ := ih hlater
    have hsilent : ReadsItems context backup [] := by
      refine readsItems_silent hbackup (fun element he => ?_) context
      split_ifs at he
      · rw [List.mem_singleton.mp he]
        rfl
      · exact absurd he List.not_mem_nil
    refine ⟨reads ++ reads', (hsilent.append hreads).append hreads', ?_⟩
    rw [List.flatMap_cons]
    exact List.rel_append himported himported'

/-- The nodes of an exported measure between its line breaks. -/
theorem written_childNodes {measure measure' : Node} (h : SameShape SameNote measure measure')
    (helements : ∀ element ∈ measure.childNodes, element.isElement) :
    List.Forall₂ Written measure.childNodes
      (measure'.breakLines.childNodes.zipIdx.filter fun node => node.1.isElement) := by
  have hall : measure'.childNodes.filter isElement = measure'.childNodes := by
    refine List.filter_eq_self.mpr fun node hn => ?_
    obtain ⟨element, he, hsame⟩ := h.exists_of_mem hn
    rw [hsame.sameButMarks.isElement, helements element he]
  have hnodes : (measure'.breakLines.childNodes.zipIdx.filter fun node => node.1.isElement).map
      Prod.fst = measure'.childNodes.map breakLines := by
    have hfilter := filter_childNodes_breakLines isElement_breakLines rfl measure'
    rw [hall] at hfilter
    rw [← hfilter]
    conv_rhs => rw [← List.zipIdx_map_fst 0 measure'.breakLines.childNodes, List.filter_map]
    rfl
  have hwritten : List.Forall₂ (fun element (node : Node) => ∃ note, SameNote element note ∧
      node = note.breakLines) measure.childNodes (measure'.childNodes.map breakLines) :=
    List.forall₂_map_right_iff.mpr (h.childNodes.imp fun _ _ hsame => ⟨_, hsame, rfl⟩)
  rw [← hnodes, List.forall₂_map_right_iff] at hwritten
  exact hwritten

/-- An exported measure is read as its events, voice by voice. -/
theorem readsItems_createMeasureElement {part : Part} {timeSignature : TimeSignature}
    {measureIndex : Nat} {measure : Measure} {measure' : Node}
    (h : SameShape SameNote
      (createMeasureElement document part divisions timeSignature measureIndex measure) measure')
    (hreadable : ∀ event ∈ document.events, Readable document event) (context : MeasureContext) :
    ∃ reads, ReadsItems context measure'.breakLines.childNodes.zipIdx reads ∧
      List.Forall₂ (ImportedEvent document)
        ((getPartVoices document part).flatMap (getVoiceEvents document measure divisions))
        reads := by
  have hwritten := written_childNodes h fun element he => by
    rcases mem_createMeasureElement he with hv | rfl
    · exact hv.isElement
    · rfl
  rw [createMeasureElement, childNodes_element] at hwritten
  obtain ⟨front, items, hitems, hfront, hvoices⟩ := Lists.forall₂_append_left hwritten
  obtain ⟨reads, hreads, himported⟩ := readsItems_createVoicesElements hvoices hreadable context
  have hsilent : ReadsItems context front [] := by
    refine readsItems_silent hfront (fun element he => ?_) context
    split_ifs at he
    · rw [List.mem_singleton.mp he]
      rfl
    · exact absurd he List.not_mem_nil
  refine ⟨reads, .of_filter ?_, himported⟩
  rw [hitems]
  exact hsilent.append hreads

end NoteVerse.Editor

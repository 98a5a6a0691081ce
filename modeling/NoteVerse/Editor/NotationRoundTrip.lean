import NoteVerse.Editor.ExportedTexts
import NoteVerse.Editor.RoundTrip

/-!
# Notation after export and import

What the import of an exported document keeps of its notation: the pitches, accidentals and
fingerings of all notes, and the base, dots and stem direction of all events, chord by chord.
The importer reads an octave with a reader of positive numbers, so that an octave of 0 comes back
as 4; all else is kept (`importMusicXmlToEditorDomain_export_notation_iff`).
-/

namespace NoteVerse.Editor

open Js Xml Xml.Node MusicXmlImporter

/-! ## Documents -/

/-- A document with ids of its own, in which all that events, voices and relationships refer to
is there. -/
structure WellFormed (document : ScoreDocument) : Prop where
  partNames : ∀ part ∈ document.parts, part.id ≠ ""
  partIds : (document.parts.map Part.id).Nodup
  measureIds : (document.measures.map Measure.id).Nodup
  voiceIds : (document.voices.map Voice.id).Nodup
  voicePart : ∀ voice ∈ document.voices, voice.partId ∈ document.parts.map Part.id
  eventMeasure : ∀ event ∈ document.events,
    event.position.measureId ∈ document.measures.map Measure.id
  eventVoice : ∀ event ∈ document.events, event.voiceId ∈ document.voices.map Voice.id
  notes : ∀ event ∈ document.events, event.kind = .pitched → event.notes ≠ []
  relationships : NamedRelationships document

/-- The notation is such as the commands of the editor make it: no octave is negative, fingerings
are from 1 to 5, and a rest has no stem direction. -/
structure Notated (document : ScoreDocument) : Prop where
  octaves : ∀ atom ∈ document.noteAtoms, 0 ≤ atom.pitch.octave
  fingerings : ∀ atom ∈ document.noteAtoms, ∀ text, atom.fingering = some text →
    text ∈ fingeringTexts
  rests : ∀ event ∈ document.events, event.kind = .explicitRest →
    getEventStemDirectionOverride document.notationControls event.id = none

/-- The atoms are written the same; an alteration of 0 is none. -/
structure SameAtom (atom atom' : NoteAtom) : Prop where
  id : atom.id ≠ "" → atom'.id = atom.id
  step : atom'.pitch.step = atom.pitch.step
  octave : atom'.pitch.octave = atom.pitch.octave
  alter : atom'.pitch.alter.getD 0 = atom.pitch.alter.getD 0
  accidental : atom'.accidental = atom.accidental
  fingering : atom'.fingering = atom.fingering

/-- The events are written the same, note by note. -/
structure SameNotation (document document' : ScoreDocument) (event event' : VoiceEvent) : Prop where
  kind : event'.kind = event.kind
  rhythmNotation : event'.rhythm.rhythmNotation = event.rhythm.rhythmNotation
  stemDirection : getEventStemDirectionOverride document'.notationControls event'.id =
    getEventStemDirectionOverride document.notationControls event.id
  notes : List.Forall₂ SameAtom event.notes event'.notes

/-- Importing the export gives back the events of the document, in some order. -/
def NotationKept (document : ScoreDocument) (options : MusicXmlExportOptions) : Prop :=
  ∃ result, importMusicXmlToEditorDomain (exportEditorDomainToMusicXml document options) =
      .ok result ∧
    ∃ events, events.Perm document.events ∧
      List.Forall₂ (SameNotation document result.document) events result.document.events

theorem Notated.readable {document : ScoreDocument} (h : Notated document)
    (hformed : WellFormed document) : ∀ event ∈ document.events, Readable document event := by
  intro event he
  refine ⟨hformed.notes event he, fun note hn => ?_, h.rests event he⟩
  exact h.fingerings note (List.mem_flatMap.mpr ⟨event, he, hn⟩)

/-! ## The order of an export -/

/-- The events of a measure of a part, as it lists them. -/
def measureEvents (document : ScoreDocument) (divisions : Int) (part : Part) (measure : Measure) :
    List VoiceEvent :=
  (getPartVoices document part).flatMap (getVoiceEvents document measure divisions)

/-- The events in the order in which they are exported. -/
def exportedEvents (document : ScoreDocument) (divisions : Int) : List VoiceEvent :=
  document.parts.flatMap fun part =>
    document.measures.flatMap (measureEvents document divisions part)

/-- The part of the voice of an event. -/
def eventPart (document : ScoreDocument) (event : VoiceEvent) : Option PartId :=
  (document.voices.find? (·.id = event.voiceId)).map Voice.partId

namespace WellFormed

variable {document : ScoreDocument} (h : WellFormed document) {voice : Voice} {event : VoiceEvent}

include h

theorem eventPart_of_voice (hv : voice ∈ document.voices) (hid : event.voiceId = voice.id) :
    eventPart document event = some voice.partId := by
  rw [eventPart]
  rcases hfind : document.voices.find? (·.id = event.voiceId) with _ | found
  · have hnone := List.find?_eq_none.mp hfind voice hv
    rw [decide_eq_true_eq] at hnone
    exact absurd hid.symm hnone
  · have hfound := List.find?_some hfind
    rw [decide_eq_true_eq] at hfound
    have hsame : found = voice := List.inj_on_of_nodup_map h.voiceIds
      (List.mem_of_find?_eq_some hfind) hv (hfound.trans hid)
    rw [hfind, hsame, Option.map_some]

/-- The events of a part and a measure are those that the measure lists. -/
theorem measureEvents_perm (divisions : Int) (part : Part) (measure : Measure) :
    (measureEvents document divisions part measure).Perm
      ((document.events.filter fun event => eventPart document event = some part.id).filter
        fun event => event.position.measureId = measure.id) := by
  have hvoices : ((getPartVoices document part).map Voice.id).Nodup := by
    rw [getPartVoices, ((sort_perm _ _).map Voice.id).nodup_iff]
    exact h.voiceIds.sublist (List.filter_sublist.map _)
  have hmem : ∀ voice, voice ∈ getPartVoices document part ↔
      voice ∈ document.voices ∧ voice.partId = part.id := fun voice => by
    rw [getPartVoices, mem_sort, List.mem_filter, decide_eq_true_eq]
  refine List.Perm.trans (List.Perm.flatMap_left _ fun voice hv => ?_)
    (Lists.perm_flatMap_filter Voice.id VoiceEvent.voiceId hvoices fun event he => ?_)
  · refine (sort_perm _ _).trans (List.Perm.of_eq ?_)
    obtain ⟨hv, hpart⟩ := (hmem voice).mp hv
    rw [List.filter_filter, List.filter_filter]
    refine List.filter_congr fun event _ => ?_
    by_cases hid : event.voiceId = voice.id
    · simp [hid, h.eventPart_of_voice hv hid, hpart]
    · simp [hid]
  · obtain ⟨he, -⟩ := List.mem_filter.mp he
    obtain ⟨he, hpart⟩ := List.mem_filter.mp he
    obtain ⟨voice, hv, hid⟩ := List.mem_map.mp (h.eventVoice event he)
    rw [decide_eq_true_eq, h.eventPart_of_voice hv hid.symm, Option.some_inj] at hpart
    exact List.mem_map.mpr ⟨voice, (hmem voice).mpr ⟨hv, hpart⟩, hid⟩

/-- Every event is exported once. -/
theorem exportedEvents_perm (divisions : Int) :
    (exportedEvents document divisions).Perm document.events := by
  refine List.Perm.trans (List.Perm.flatMap_left _ fun part _ => ?_)
    (Lists.perm_flatMap_filter (fun part : Part => some part.id) (eventPart document) ?_
      fun event he => ?_)
  · refine List.Perm.trans (List.Perm.flatMap_left _ fun measure _ =>
      h.measureEvents_perm divisions part measure)
      (Lists.perm_flatMap_filter Measure.id (fun event : VoiceEvent => event.position.measureId)
        h.measureIds fun event he => ?_)
    exact h.eventMeasure event (List.mem_filter.mp he).1
  · have hids : document.parts.map (fun part => some part.id) =
        (document.parts.map Part.id).map some := by
      rw [List.map_map]
      rfl
    rw [hids]
    exact h.partIds.map (Option.some_injective _)
  · obtain ⟨voice, hv, hid⟩ := List.mem_map.mp (h.eventVoice event he)
    obtain ⟨part, hp, hpart⟩ := List.mem_map.mp (h.voicePart voice hv)
    rw [h.eventPart_of_voice hv hid.symm]
    exact List.mem_map.mpr ⟨part, hp, congrArg some hpart⟩

end WellFormed

/-! ## Reading an export -/

/-- A list of pairs with their places has no repetition. -/
theorem nodup_zipIdx (nodes : List Node) : nodes.zipIdx.Nodup := by
  refine List.Nodup.of_map Prod.snd ?_
  rw [List.zipIdx_map_snd]
  exact List.nodup_range'

/-- The measures of an exported part are read as its events. -/
theorem readPart_export {document : ScoreDocument} {divisions : Int} {timeSignature : TimeSignature}
    {part : Part} {part' : Node} (hid : part.id ≠ "")
    (hreadable : ∀ event ∈ document.events, Readable document event)
    (h : SameShape (SameShape SameNote) (createPartElement document divisions timeSignature part)
      part') (partIndex : Nat) :
    getPartId part'.breakLines partIndex = part.id ∧
      ∃ reads : Node × Nat → List (EventText × Option StemDirectionOverride),
        (∀ measure ∈ (part'.breakLines.childrenNamed "measure").zipIdx,
          ReadsItems (getMeasureContext part.id measure) measure.1.childNodes.zipIdx
            (reads measure)) ∧
        List.Forall₂ (ImportedEvent document)
          (document.measures.flatMap (measureEvents document divisions part))
          ((part'.breakLines.childrenNamed "measure").zipIdx.flatMap reads) := by
  constructor
  · have hattribute : part'.breakLines.getAttribute "id" = some part.id := by
      rw [getAttribute_breakLines, getAttribute_congr h.attributes]
      rfl
    rw [getPartId, hattribute, Option.filter_some, if_pos (by simpa using hid), Option.getD_some]
  · have hnamed := (childrenNamed_measure_export
      (h.mono fun _ _ hsame => hsame.mono fun _ _ hnote => hnote.sameButMarks)).1
    have hmeasures := h.childNodes
    rw [createPartElement, childNodes_element, List.mapIdx_eq_zipIdx_map,
      List.forall₂_map_left_iff] at hmeasures
    have hread : List.Forall₂ (fun measure (measure' : Node × Nat) => ∃ read,
        ReadsItems (getMeasureContext part.id measure') measure'.1.childNodes.zipIdx read ∧
          List.Forall₂ (ImportedEvent document) (measureEvents document divisions part measure)
            read) document.measures (part'.breakLines.childrenNamed "measure").zipIdx := by
      have hone : List.Forall₂ (fun (measure : Measure × Nat) (measure' : Node) =>
          ∀ context, ∃ read, ReadsItems context measure'.childNodes.zipIdx read ∧
            List.Forall₂ (ImportedEvent document)
              (measureEvents document divisions part measure.1) read) document.measures.zipIdx
          (part'.childNodes.map breakLines) := by
        refine List.forall₂_map_right_iff.mpr (hmeasures.imp fun measure measure' hsame context => ?_)
        exact readsItems_createMeasureElement hsame hreadable context
      rw [← hnamed] at hone
      rw [← List.zipIdx_map_fst 0 (part'.breakLines.childrenNamed "measure"),
        List.forall₂_map_right_iff] at hone
      rw [← List.zipIdx_map_fst 0 document.measures, List.forall₂_map_left_iff]
      exact hone.imp fun measure measure' hsame => hsame _
    obtain ⟨reads, hreads⟩ := Lists.forall₂_choose (nodup_zipIdx _) hread
    refine ⟨reads, fun measure hm => ?_, List.rel_flatMap hreads fun _ _ hboth => hboth.2⟩
    obtain ⟨_, -, hboth⟩ := Lists.exists_of_forall₂_mem hreads hm
    exact hboth.1

/-- The import of an export has the exported events, each with its notation. -/
theorem importMusicXmlToEditorDomain_export_notation {document : ScoreDocument}
    (h : WellFormed document) (hnotated : Notated document) (options : MusicXmlExportOptions) :
    ∃ result, importMusicXmlToEditorDomain (exportEditorDomainToMusicXml document options) =
        .ok result ∧
      List.Forall₂ (fun event (event' : VoiceEvent) => ImportedEvent document event
          (event'.text, getEventStemDirectionOverride result.document.notationControls event'.id))
        (exportedEvents document (options.divisions.getD 4)) result.document.events := by
  obtain ⟨parts, hparts, hsame, himport⟩ :=
    getPartElements_exportBy noteWrites_sameNote document options
  obtain ⟨result, hresult⟩ := himport h.relationships
  refine ⟨result, hresult, ?_⟩
  -- each part is read with the id that it has in the document
  have hpart : List.Forall₂ (fun (part : Part) (part' : Node × Nat) => ∃ reads,
      (getPartId part'.1 part'.2 = part.id ∧
        ∀ measure ∈ (part'.1.childrenNamed "measure").zipIdx,
          ReadsItems (getMeasureContext part.id measure) measure.1.childNodes.zipIdx
            (reads measure)) ∧
      List.Forall₂ (ImportedEvent document)
        (document.measures.flatMap (measureEvents document (options.divisions.getD 4) part))
        ((part'.1.childrenNamed "measure").zipIdx.flatMap reads))
      document.parts (parts.map breakLines).zipIdx := by
    have hmem : List.Forall₂ (fun (part : Part) (part' : Node) => part ∈ document.parts ∧
        SameShape (SameShape SameNote) (createPartElement document (options.divisions.getD 4)
          (options.timeSignature.getD ⟨4, 4⟩) part) part') document.parts parts := by
      rw [List.forall₂_and_left]
      exact ⟨fun _ hp => hp, List.forall₂_map_left_iff.mp hsame⟩
    have hone : List.Forall₂ (fun (part : Part) (part' : Node) => ∀ partIndex, ∃ reads,
        (getPartId part' partIndex = part.id ∧
          ∀ measure ∈ (part'.childrenNamed "measure").zipIdx,
            ReadsItems (getMeasureContext part.id measure) measure.1.childNodes.zipIdx
              (reads measure)) ∧
        List.Forall₂ (ImportedEvent document)
          (document.measures.flatMap (measureEvents document (options.divisions.getD 4) part))
          ((part'.childrenNamed "measure").zipIdx.flatMap reads))
        document.parts (parts.map breakLines) := by
      refine List.forall₂_map_right_iff.mpr (hmem.imp fun part part' hp partIndex => ?_)
      obtain ⟨hid, reads, hreads, hevents⟩ := readPart_export (h.partNames part hp.1)
        (hnotated.readable h) hp.2 partIndex
      exact ⟨reads, ⟨hid, hreads⟩, hevents⟩
    rw [← List.zipIdx_map_fst 0 (parts.map breakLines), List.forall₂_map_right_iff] at hone
    exact hone.imp fun part part' hread => hread part'.2
  obtain ⟨reads, hreads⟩ := Lists.forall₂_choose (nodup_zipIdx _) hpart
  have hids : ((parts.map breakLines).zipIdx.map fun part => getPartId part.1 part.2) =
      document.parts.map Part.id := by
    refine (List.forall₂_eq_eq_eq ▸ List.forall₂_map_left_iff.mpr
      (List.forall₂_map_right_iff.mpr (hreads.imp fun part part' hread => ?_)) :
        document.parts.map Part.id = _).symm
    exact hread.1.1.symm
  have hevents := importMusicXmlToEditorDomain_reads hresult (f := reads)
    (by rw [hparts, hids]; exact h.partIds) (by
      rw [hparts]
      intro part hp measure hm
      obtain ⟨part', -, hread⟩ := Lists.exists_of_forall₂_mem hreads hp
      rw [hread.1.1]
      exact hread.1.2 measure hm)
  rw [hparts] at hevents
  have hall : List.Forall₂ (ImportedEvent document)
      (exportedEvents document (options.divisions.getD 4))
      (result.document.events.map fun event => (event.text,
        getEventStemDirectionOverride result.document.notationControls event.id)) := by
    rw [hevents]
    exact List.rel_flatMap hreads fun _ _ hread => hread.2
  exact List.forall₂_map_right_iff.mp hall

/-! ## When the notation is kept -/

theorem ImportedNote.sameAtom {atom atom' : NoteAtom} (h : ImportedNote atom atom'.text)
    (hoctave : 0 < atom.pitch.octave) : SameAtom atom atom' := by
  have hpitch : atom'.pitch = importedPitch atom.pitch := h.pitch
  refine ⟨h.id, ?_, ?_, ?_, h.accidental, h.fingering⟩
  · rw [hpitch, importedPitch]
  · rw [hpitch, importedPitch, if_pos hoctave]
  · rw [hpitch, importedPitch]
    rcases atom.pitch.alter with _ | alter
    · rfl
    · by_cases hzero : alter = 0
      · simp [hzero, Option.filter_some]
      · simp [hzero, Option.filter_some]

/-- An octave that comes back is positive. -/
theorem ImportedNote.octave_pos {atom atom' : NoteAtom} (h : ImportedNote atom atom'.text) :
    0 < atom'.pitch.octave := by
  have hpitch : atom'.pitch = importedPitch atom.pitch := h.pitch
  rw [hpitch, importedPitch]
  dsimp only
  split_ifs with hoctave
  · exact hoctave
  · decide

theorem ImportedEvent.sameNotation {document document' : ScoreDocument} {event event' : VoiceEvent}
    (h : ImportedEvent document event (event'.text,
      getEventStemDirectionOverride document'.notationControls event'.id))
    (hoctaves : ∀ atom ∈ event.notes, 0 < atom.pitch.octave) :
    SameNotation document document' event event' := by
  refine ⟨h.kind, h.rhythmNotation, h.stemDirection, ?_⟩
  have hnotes : List.Forall₂ (fun atom (atom' : NoteAtom) => ImportedNote atom atom'.text)
      event.notes event'.notes := List.forall₂_map_right_iff.mp h.notes
  have hmem := (List.forall₂_and_left _ _).mpr ⟨hoctaves, hnotes⟩
  exact hmem.imp fun atom atom' hatom => hatom.2.sameAtom hatom.1

/-- The import of an export gives back the notation of all events if and only if no note is of
octave 0. -/
theorem importMusicXmlToEditorDomain_export_notation_iff {document : ScoreDocument}
    (h : WellFormed document) (hnotated : Notated document) (options : MusicXmlExportOptions) :
    NotationKept document options ↔ ∀ atom ∈ document.noteAtoms, atom.pitch.octave ≠ 0 := by
  obtain ⟨result, hresult, hevents⟩ :=
    importMusicXmlToEditorDomain_export_notation h hnotated options
  have hperm := h.exportedEvents_perm (options.divisions.getD 4)
  constructor
  · rintro ⟨result', hresult', events, hevents', hsame⟩ atom hatom hzero
    obtain rfl : result = result' := Except.ok.inj (hresult.symm.trans hresult')
    obtain ⟨event, he, hatom⟩ := List.mem_flatMap.mp hatom
    -- the atom has come back with its octave, from a note of an export
    obtain ⟨event', he', hnotation⟩ := Lists.exists_of_forall₂_mem hsame.flip
      (hevents'.mem_iff.mpr he)
    obtain ⟨atom', ha', hsameAtom⟩ := Lists.exists_of_forall₂_mem hnotation.notes.flip hatom
    obtain ⟨source, -, himported⟩ := Lists.exists_of_forall₂_mem hevents he'
    obtain ⟨note, -, hnote⟩ := Lists.exists_of_forall₂_mem
      (List.forall₂_map_right_iff.mp himported.notes) ha'
    have hpos := ImportedNote.octave_pos hnote
    have hoctave := hsameAtom.octave
    omega
  · intro hoctaves
    refine ⟨result, hresult, _, hperm, ?_⟩
    have hpos : ∀ event ∈ exportedEvents document (options.divisions.getD 4),
        ∀ atom ∈ event.notes, 0 < atom.pitch.octave := by
      intro event he atom ha
      have hmem : atom ∈ document.noteAtoms :=
        List.mem_flatMap.mpr ⟨event, hperm.mem_iff.mp he, ha⟩
      have hnonneg := hnotated.octaves atom hmem
      have hne := hoctaves atom hmem
      omega
    have hboth := (List.forall₂_and_left _ _).mpr ⟨hpos, hevents⟩
    exact hboth.imp fun event event' hevent => hevent.2.sameNotation hevent.1

/-! ## One low note -/

theorem twoMeasures_wellFormed : WellFormed twoMeasures where
  partNames := by decide
  partIds := by decide
  measureIds := by decide
  voiceIds := by decide
  voicePart := by decide
  eventMeasure := by decide
  eventVoice := by decide
  notes := by decide
  relationships := ⟨by decide, by decide⟩

theorem twoMeasures_notated : Notated twoMeasures where
  octaves := by decide
  fingerings := by decide
  rests := by decide

theorem twoMeasures_notation : NotationKept twoMeasures ⟨none, none⟩ :=
  (importMusicXmlToEditorDomain_export_notation_iff twoMeasures_wellFormed twoMeasures_notated
    ⟨none, none⟩).mpr (by decide)

/-- The C of octave 0, a quarter note. -/
def lowNote : VoiceEvent :=
  .pitched ⟨"P1-m1-e2", "P1:voice-1", "P1:staff-1", ⟨"P1:measure-1", ⟨0, 1⟩⟩,
    ⟨⟨1, 1⟩, ⟨.quarter, 0⟩, none⟩, [⟨"P1-m1-n2", ⟨.C, 0, none⟩, none, none, none, none, none⟩], none⟩

def lowDocument : ScoreDocument := { twoMeasures with events := [lowNote] }

/-- The C of octave 0 comes back in octave 4. -/
theorem lowDocument_notation_lost : WellFormed lowDocument ∧ Notated lowDocument ∧
    ¬ NotationKept lowDocument ⟨none, none⟩ := by
  refine ⟨⟨by decide, by decide, by decide, by decide, by decide, by decide, by decide, by decide,
    by decide, by decide⟩, ⟨by decide, by decide, by decide⟩, ?_⟩
  rintro ⟨result, hresult, events, hperm, hsame⟩
  have himport : (importMusicXmlToEditorDomain (exportEditorDomainToMusicXml lowDocument
      ⟨none, none⟩)).map (fun result => result.document.noteAtoms.map (·.pitch.octave)) =
        .ok [4] := by decide
  rw [hresult] at himport
  have hoctaves : result.document.noteAtoms.map (·.pitch.octave) = [4] := Except.ok.inj himport
  obtain rfl : events = [lowNote] := List.perm_singleton.mp hperm
  obtain ⟨event', rest, hevent, hrest, hevents⟩ := List.forall₂_cons_left_iff.mp hsame
  obtain rfl := List.forall₂_nil_left_iff.mp hrest
  obtain ⟨atom', more, hatom, hmore, hnotes⟩ := List.forall₂_cons_left_iff.mp hevent.notes
  obtain rfl := List.forall₂_nil_left_iff.mp hmore
  have hatoms : result.document.noteAtoms = [atom'] := by
    rw [ScoreDocument.noteAtoms, hevents, List.flatMap_singleton, hnotes]
  rw [hatoms] at hoctaves
  have hfour : atom'.pitch.octave = 4 := List.singleton_inj.mp hoctaves
  exact absurd (hfour.symm.trans hatom.octave) (by decide)

end NoteVerse.Editor

import NoteVerse.Editor.ReadExport
import NoteVerse.Lib.Lists

/-!
# Export and import

What the import of an exported document keeps of the timing of its events. The
exporter writes `divisions` into the first measure only and the importer reads
it in every measure, so that a later measure comes back with its ticks taken
for quarter notes; and a zero-length event that its voice lists after a longer
one of the same offset comes back at the end of that one. The timing is kept
where neither happens, and only there
(`importMusicXmlToEditorDomain_export_timings_iff`).
-/

namespace NoteVerse.Editor

open Js Xml Xml.Node MusicXmlImporter

/-! ## Timings -/

/-- What an event is and when it sounds, without its id. -/
structure EventTiming where
  kind : EventKind
  voiceId : VoiceId
  staffId : StaffId
  measureId : MeasureId
  offset : ℚ
  duration : ℚ
  rhythmNotation : RhythmNotation
  deriving DecidableEq

def EventFrame.timing (frame : EventFrame) : EventTiming where
  kind := frame.kind
  voiceId := frame.voiceId
  staffId := frame.staffId
  measureId := frame.position.measureId
  offset := frame.position.offset.toRat
  duration := frame.rhythm.timelineDuration.toRat
  rhythmNotation := frame.rhythm.rhythmNotation

/-- The timings of the events of a measure. -/
def measureTimings (document : ScoreDocument) (measureId : MeasureId) : List EventTiming :=
  (document.events.filter (·.position.measureId = measureId)).map (·.frame.timing)

/-- A rational that is a nonnegative number of ticks. -/
def OnGrid (divisions : Int) (value : Rational) : Prop :=
  value.Valid ∧ 0 ≤ value.toRat ∧ ∃ ticks : Int, value.toRat * divisions = ticks

/-- One of the events ends before the other starts. -/
def Disjoint (a b : VoiceEvent) : Prop :=
  a.position.offset.toRat + a.rhythm.timelineDuration.toRat ≤ b.position.offset.toRat ∨
    b.position.offset.toRat + b.rhythm.timelineDuration.toRat ≤ a.position.offset.toRat

/-- Both events are in one voice and measure. -/
def SameLine (a b : VoiceEvent) : Prop :=
  a.voiceId = b.voiceId ∧ a.position.measureId = b.position.measureId

/-- A document with one part, as the importer makes them: the ids come from the
numbers of measures, staves and voices, and all that events and relationships
refer to is there. -/
structure ImporterShaped (document : ScoreDocument) (part : Part) : Prop where
  parts : document.parts = [part]
  partId : part.id ≠ ""
  measures : ∀ measure ∈ document.measures, measure.id = toMeasureId part.id measure.number
  numbers : (document.measures.map Measure.number).Nodup
  staves : ∀ staff ∈ document.staves,
    0 ≤ staff.index ∧ staff.id = toStaffId part.id (staff.index + 1)
  voices : ∀ voice ∈ document.voices,
    voice.partId = part.id ∧ ∃ n : Nat, 0 < n ∧ voice.id = toVoiceId part.id n
  voiceIds : (document.voices.map Voice.id).Nodup
  eventMeasure : ∀ event ∈ document.events,
    event.position.measureId ∈ document.measures.map Measure.id
  eventStaff : ∀ event ∈ document.events, event.staffId ∈ document.staves.map Staff.id
  eventVoice : ∀ event ∈ document.events, event.voiceId ∈ document.voices.map Voice.id
  notes : ∀ event, .pitched event ∈ document.events → event.notes ≠ []
  relationships : NamedRelationships document

/-- The offsets and durations are on the grid of the divisions, and the events
of a voice in a measure do not overlap. -/
structure TimelineOnGrid (document : ScoreDocument) (divisions : Int) : Prop where
  positive : 0 < divisions
  offsets : ∀ event ∈ document.events, OnGrid divisions event.position.offset
  durations : ∀ event ∈ document.events, OnGrid divisions event.rhythm.timelineDuration
  disjoint : document.events.Pairwise fun a b => SameLine a b → Disjoint a b

/-! ## Ticks -/

theorem OnGrid.ticks {divisions : Int} {value : Rational} (h : OnGrid divisions value) :
    (rationalToTicks value divisions : ℚ) = value.toRat * divisions := by
  obtain ⟨hvalid, -, ticks, hticks⟩ := h
  rw [rationalToTicks_eq hvalid hticks, hticks]

variable {divisions : Int} {document : ScoreDocument} {measure : Measure} {measures : List Measure}
  {part : Part}

theorem OnGrid.ticks_nonneg (hdivisions : 0 < divisions) {value : Rational}
    (h : OnGrid divisions value) : 0 ≤ rationalToTicks value divisions := by
  have hD : (0 : ℚ) ≤ divisions := by exact_mod_cast hdivisions.le
  have hq : (0 : ℚ) ≤ rationalToTicks value divisions := h.ticks ▸ mul_nonneg h.2.1 hD
  exact_mod_cast hq

namespace TimelineOnGrid

variable {document : ScoreDocument} {divisions : Int} (h : TimelineOnGrid document divisions)
  {event a b : VoiceEvent}

include h

theorem divisions_pos : (0 : ℚ) < divisions := by exact_mod_cast h.positive

theorem startTicks (he : event ∈ document.events) :
    (event.startTicks divisions : ℚ) = event.position.offset.toRat * divisions :=
  (h.offsets event he).ticks

theorem durationTicks (he : event ∈ document.events) :
    (event.durationTicks divisions : ℚ) = event.rhythm.timelineDuration.toRat * divisions :=
  (h.durations event he).ticks

theorem startTicks_nonneg (he : event ∈ document.events) : 0 ≤ event.startTicks divisions :=
  (h.offsets event he).ticks_nonneg h.positive

theorem durationTicks_nonneg (he : event ∈ document.events) : 0 ≤ event.durationTicks divisions :=
  (h.durations event he).ticks_nonneg h.positive

theorem startTicks_eq_iff (ha : a ∈ document.events) (hb : b ∈ document.events) :
    a.startTicks divisions = b.startTicks divisions ↔
      a.position.offset.toRat = b.position.offset.toRat := by
  have hcast : a.startTicks divisions = b.startTicks divisions ↔
      (a.startTicks divisions : ℚ) = b.startTicks divisions := by norm_cast
  rw [hcast, h.startTicks ha, h.startTicks hb, mul_left_inj' h.divisions_pos.ne']

theorem durationTicks_eq_zero_iff (he : event ∈ document.events) :
    event.durationTicks divisions = 0 ↔ event.rhythm.timelineDuration.toRat = 0 := by
  have hcast : event.durationTicks divisions = 0 ↔ (event.durationTicks divisions : ℚ) = 0 := by
    norm_cast
  rw [hcast, h.durationTicks he, mul_eq_zero, or_iff_left h.divisions_pos.ne']

theorem endTicks_le_iff (ha : a ∈ document.events) (hb : b ∈ document.events) :
    a.startTicks divisions + a.durationTicks divisions ≤ b.startTicks divisions ↔
      a.position.offset.toRat + a.rhythm.timelineDuration.toRat ≤ b.position.offset.toRat := by
  have hcast : a.startTicks divisions + a.durationTicks divisions ≤ b.startTicks divisions ↔
      (a.startTicks divisions : ℚ) + a.durationTicks divisions ≤ b.startTicks divisions := by
    norm_cast
  rw [hcast, h.startTicks ha, h.startTicks hb, h.durationTicks ha, ← add_mul,
    mul_le_mul_iff_left₀ h.divisions_pos]

end TimelineOnGrid

/-- A zero-length event is never listed after a longer one that starts with it
in its voice and measure. -/
def NoLateZeroLength (events : List VoiceEvent) : Prop :=
  events.Pairwise fun a b => SameLine a b →
    a.position.offset.toRat = b.position.offset.toRat →
    a.rhythm.timelineDuration.toRat ≠ 0 → b.rhythm.timelineDuration.toRat ≠ 0

theorem mem_getVoiceEvents {voice : Voice} {event : VoiceEvent} :
    event ∈ getVoiceEvents document measure divisions voice ↔ event ∈ document.events ∧
      event.voiceId = voice.id ∧ event.position.measureId = measure.id := by
  rw [getVoiceEvents, mem_sort, List.mem_filter, decide_eq_true_eq]

/-- What holds of two events of a voice, in the order of the export. -/
theorem TimelineOnGrid.pairwise_getVoiceEvents (h : TimelineOnGrid document divisions)
    {Q : VoiceEvent → VoiceEvent → Prop} (measure : Measure) (voice : Voice)
    (hends : ∀ a b, a ∈ document.events → b ∈ document.events →
      a.startTicks divisions + a.durationTicks divisions ≤ b.startTicks divisions → Q a b)
    (hzero : document.events.Pairwise fun a b => SameLine a b →
      a.startTicks divisions = b.startTicks divisions → b.durationTicks divisions = 0 → Q a b) :
    (getVoiceEvents document measure divisions voice).Pairwise fun a b =>
      a.startTicks divisions ≤ b.startTicks divisions ∧ Q a b := by
  refine pairwise_sort (fun event : VoiceEvent => event.startTicks divisions) ?_
  refine List.Pairwise.imp_of_mem (fun {a b} ha hb hab => ?_)
    ((h.disjoint.and hzero).filter _)
  obtain ⟨ha, hav⟩ := List.mem_filter.mp ha
  obtain ⟨hb, hbv⟩ := List.mem_filter.mp hb
  rw [decide_eq_true_eq] at hav hbv
  have hline : SameLine a b := ⟨hav.1.trans hbv.1.symm, hav.2.trans hbv.2.symm⟩
  have ha0 := h.durationTicks_nonneg ha
  have hb0 := h.durationTicks_nonneg hb
  have hdisjoint := hab.1 hline
  rw [Disjoint, ← h.endTicks_le_iff ha hb, ← h.endTicks_le_iff hb ha] at hdisjoint
  constructor
  · intro hle
    rcases hdisjoint with hend | hend
    · exact hends a b ha hb hend
    · exact hab.2 hline (by omega) (by omega)
  · intro hlt
    exact hends b a hb ha (by omega)

theorem TimelineOnGrid.inOrder (h : TimelineOnGrid document divisions) (measure : Measure)
    (voice : Voice) : InOrder divisions (getVoiceEvents document measure divisions voice) :=
  h.pairwise_getVoiceEvents measure voice (fun _ _ _ _ hend => .inl hend)
    (List.pairwise_of_forall fun _ _ _ _ hzero => .inr hzero)

/-- Without late zero-length events every event starts after those before it. -/
theorem TimelineOnGrid.pairwise_end (h : TimelineOnGrid document divisions)
    (hlate : NoLateZeroLength document.events) (measure : Measure) (voice : Voice) :
    (getVoiceEvents document measure divisions voice).Pairwise fun a b =>
      a.startTicks divisions + a.durationTicks divisions ≤ b.startTicks divisions := by
  refine (h.pairwise_getVoiceEvents measure voice (fun _ _ _ _ hend => hend) ?_).imp And.right
  refine List.Pairwise.imp_of_mem (fun {a b} ha hb hab hline hstart hzero => ?_) hlate
  have hazero : a.durationTicks divisions = 0 := by
    rw [h.durationTicks_eq_zero_iff ha]
    by_contra hne
    exact hab hline ((h.startTicks_eq_iff ha hb).mp hstart) hne
      ((h.durationTicks_eq_zero_iff hb).mp hzero)
  omega

/-! ## The import of an export -/

theorem toMeasureId_injective (partId : PartId) : Function.Injective (toMeasureId partId) := by
  intro a b h
  have hlist := congrArg String.toList h
  simp only [toMeasureId, String.toList_append, List.append_cancel_left_eq] at hlist
  exact numberToString_injective (String.toList_injective hlist)

namespace ImporterShaped

variable {document : ScoreDocument} {part : Part} (h : ImporterShaped document part)

include h

theorem mem_getPartVoices {voice : Voice} :
    voice ∈ getPartVoices document part ↔ voice ∈ document.voices := by
  rw [getPartVoices, mem_sort, List.mem_filter, decide_eq_true_eq]
  exact and_iff_left_of_imp fun hv => (h.voices voice hv).1

theorem getPartVoices_nodup : ((getPartVoices document part).map Voice.id).Nodup := by
  rw [getPartVoices, ((sort_perm _ _).map Voice.id).nodup_iff]
  exact h.voiceIds.sublist (List.filter_sublist.map _)

theorem measureIds : (document.measures.map Measure.id).Nodup := by
  have hids : document.measures.map Measure.id =
      (document.measures.map Measure.number).map (toMeasureId part.id) := by
    rw [List.map_map]
    exact List.map_congr_left h.measures
  rw [hids]
  exact h.numbers.map (toMeasureId_injective part.id)

theorem writable {divisions : Int} (hgrid : TimelineOnGrid document divisions) {measure : Measure}
    {voice : Voice} (hv : voice ∈ getPartVoices document part) {event : VoiceEvent}
    (he : event ∈ getVoiceEvents document measure divisions voice) :
    Writable document part.id divisions voice event := by
  obtain ⟨hmem, hvoice, -⟩ := mem_getVoiceEvents.mp he
  obtain ⟨n, hn, hid⟩ := (h.voices voice (h.mem_getPartVoices.mp hv)).2
  have hnumber := getVoiceNumber_of_id document hid
  have hstaff : 0 < getStaffNumber document event.staffId ∧
      event.staffId = toStaffId part.id (getStaffNumber document event.staffId) := by
    obtain ⟨staff, hs, hsid⟩ := List.mem_map.mp (h.eventStaff event hmem)
    rw [getStaffNumber]
    split
    · rename_i found hfound
      obtain ⟨hindex, hfid⟩ := h.staves found (List.mem_of_find?_eq_some hfound)
      have hfoundId := List.find?_some hfound
      rw [decide_eq_true_eq] at hfoundId
      exact ⟨by omega, hfoundId.symm.trans hfid⟩
    · rename_i hnone
      exact absurd hsid (by simpa using List.find?_eq_none.mp hnone staff hs)
  exact {
    notes := fun pitched hp => h.notes pitched (hp ▸ hmem)
    voiceId := by rw [hnumber, hvoice, hid]
    voiceNumber := by rw [hnumber]; omega
    staffId := hstaff.2
    staffNumber := hstaff.1
    duration := hgrid.durationTicks_nonneg hmem }

end ImporterShaped

/-- Measures with distinct ids stay as they are entered. -/
theorem values_setMeasures (h : (measures.map Measure.id).Nodup) :
    (setMeasures .empty measures).values = measures := by
  have hset : ∀ (xs : List Measure) (m : JsMap MeasureId Measure), (xs.map Measure.id).Nodup →
      (∀ x ∈ xs, x.id ∉ m.keys) → (setMeasures m xs).values = m.values ++ xs := by
    intro xs
    induction xs with
    | nil => intro m _ _; exact (List.append_nil _).symm
    | cons x xs ih =>
      intro m hnodup hkeys
      rw [List.map_cons, List.nodup_cons] at hnodup
      obtain ⟨hx, hxs⟩ := List.forall_mem_cons.mp hkeys
      have hfresh : ∀ y ∈ xs, y.id ∉ (m.set x.id x).keys := by
        intro y hy
        rw [JsMap.keys_set, if_neg hx, List.mem_append, List.mem_singleton, not_or]
        exact ⟨hxs y hy, fun hyx => hnodup.1 (hyx ▸ List.mem_map_of_mem hy)⟩
      have htail := ih (m.set x.id x) hnodup.2 hfresh
      rw [setMeasures, List.foldl_cons, ← setMeasures, htail, JsMap.values_set_of_not_mem hx,
        List.append_assoc, List.singleton_append]
  exact (hset measures .empty h (by simp)).trans (List.nil_append _)

/-- The importer's frames of the events of an exported measure. -/
def importedFrames (document : ScoreDocument) (part : Part) (divisions : Int)
    (measure : Measure × Nat) : List EventFrame :=
  (readVoices document measure.1 divisions (getPartVoices document part)).map
    (frameAt (exportedContext part divisions measure) divisions)

/-- The measures of a part, as created and as exported. -/
abbrev SameMeasure (document : ScoreDocument) (part : Part) (divisions : Int)
    (timeSignature : TimeSignature) (measure : Measure × Nat) (measure' : Node) : Prop :=
  SameShape SameButMarks
    (createMeasureElement document part divisions timeSignature measure.2 measure.1) measure'

theorem childrenNamed_measure_export {timeSignature : TimeSignature} {part' : Node}
    (h : SamePart (createPartElement document divisions timeSignature part) part') :
    part'.breakLines.childrenNamed "measure" = part'.childNodes.map breakLines ∧
      List.Forall₂ (SameMeasure document part divisions timeSignature) document.measures.zipIdx
        part'.childNodes := by
  constructor
  · rw [childrenNamed_breakLines, Node.childrenNamed, List.filter_eq_self.mpr]
    intro measure' hm
    obtain ⟨created, hc, hsame⟩ := h.exists_of_mem hm
    obtain ⟨index, hindex, rfl⟩ := List.mem_mapIdx.mp hc
    exact hsame.hasTag "measure"
  · have hchildren := h.childNodes
    rw [createPartElement, childNodes_element, List.mapIdx_eq_zipIdx_map,
      List.forall₂_map_left_iff] at hchildren
    exact hchildren

/-- The importer reads the measures of an export with their numbers and
frames. -/
theorem readMeasures_export {timeSignature : TimeSignature} (hshape : ImporterShaped document part)
    (hgrid : TimelineOnGrid document divisions) {start : Nat} {measures' : List Node}
    (h : List.Forall₂ (SameMeasure document part divisions timeSignature) (measures.zipIdx start)
      measures') :
    ((measures'.map breakLines).zipIdx start).flatMap (readMeasure part.id) =
        (measures.zipIdx start).flatMap (importedFrames document part divisions) ∧
      ((measures'.map breakLines).zipIdx start).map (fun measureElement =>
        getMeasureNumber measureElement.1 measureElement.2) = measures.map Measure.number := by
  induction measures generalizing start measures' with
  | nil =>
    obtain rfl := List.forall₂_nil_left_iff.mp h
    exact ⟨rfl, rfl⟩
  | cons measure measures ih =>
    rw [List.zipIdx_cons] at h
    obtain ⟨measure', rest, hm, hrest, rfl⟩ := List.forall₂_cons_left_iff.mp h
    obtain ⟨hframes, hnumbers⟩ := ih hrest
    have hone := readMeasure_export hgrid.positive hm
      (fun voice hv event he => hshape.writable hgrid hv he)
      (fun voice _ => hgrid.inOrder measure voice)
      (fun voice _ event he => hgrid.startTicks_nonneg (mem_getVoiceEvents.mp he).1)
    have hnumber := (getMeasureContext_export hgrid.positive hm).1
    rw [List.map_cons, List.zipIdx_cons, List.zipIdx_cons]
    constructor
    · rw [List.flatMap_cons, List.flatMap_cons, hframes, hone]
      rfl
    · rw [List.map_cons, List.map_cons, hnumbers, hnumber]

/-- What the import of an export consists of. -/
theorem importMusicXmlToEditorDomain_export (hshape : ImporterShaped document part)
    (hgrid : TimelineOnGrid document divisions) (timeSignature : Option TimeSignature) :
    ∃ result, importMusicXmlToEditorDomain
        (exportEditorDomainToMusicXml document ⟨some divisions, timeSignature⟩) = .ok result ∧
      result.document.measures = document.measures ∧
      result.document.events.map VoiceEvent.frame =
        document.measures.zipIdx.flatMap (importedFrames document part divisions) := by
  obtain ⟨parts, hparts, hsame, himport⟩ := getPartElements_export document
    ⟨some divisions, timeSignature⟩
  obtain ⟨result, hresult⟩ := himport hshape.relationships
  obtain ⟨hevents, hmeasures, -⟩ := importMusicXmlToEditorDomain_spec hresult
  rw [hshape.parts, List.map_singleton] at hsame
  obtain ⟨part', rest, hpart, hrest, rfl⟩ := List.forall₂_cons_left_iff.mp hsame
  obtain rfl := List.forall₂_nil_left_iff.mp hrest
  have hid : getPartId part'.breakLines 0 = part.id := by
    have hattribute : part'.breakLines.getAttribute "id" = some part.id := by
      rw [getAttribute_breakLines, getAttribute_congr hpart.attributes]
      rfl
    rw [getPartId, hattribute, Option.filter_some, if_pos (by simpa using hshape.partId),
      Option.getD_some]
  obtain ⟨hnamed, hchildren⟩ := childrenNamed_measure_export hpart
  obtain ⟨hframes, hnumbers⟩ := readMeasures_export hshape hgrid hchildren
  have hzip : (getPartElements (exportEditorDomainToMusicXml document
      ⟨some divisions, timeSignature⟩)).zipIdx = [(part'.breakLines, 0)] := by
    rw [hparts]
    rfl
  refine ⟨result, hresult, ?_, ?_⟩
  · have hentered : partMeasures (part'.breakLines, 0) = document.measures := by
      have hmap := congrArg (List.map fun number => Measure.mk (toMeasureId part.id number) number)
        hnumbers
      rw [List.map_map, List.map_map] at hmap
      rw [partMeasures, hid, hnamed]
      refine hmap.trans ((List.map_congr_left fun measure hm => ?_).trans (List.map_id _))
      rw [Function.comp_apply, ← hshape.measures measure hm]
      rfl
    rw [hmeasures, documentMeasures, hzip, List.map_singleton, List.flatten_singleton, hentered,
      values_setMeasures hshape.measureIds]
  · rw [hevents, hzip, List.flatMap_singleton, readPart, hid, hnamed, hframes]

/-! ## The timings of a measure -/

/-- What a reader finds of the events of a measure. -/
def foundEvents (document : ScoreDocument) (part : Part) (divisions : Int) (measure : Measure) :
    List (VoiceEvent × Int) :=
  readVoices document measure divisions (getPartVoices document part)

theorem mem_of_mem_foundEvents {found : VoiceEvent × Int}
    (h : found ∈ foundEvents document part divisions measure) :
    found.1 ∈ document.events ∧ found.1.position.measureId = measure.id := by
  obtain ⟨voice, hv, hf⟩ := List.mem_flatMap.mp h
  have hevent := List.mem_map_of_mem (f := Prod.fst) hf
  rw [map_fst_readTicks] at hevent
  obtain ⟨hmem, -, hmeasure⟩ := mem_getVoiceEvents.mp hevent
  exact ⟨hmem, hmeasure⟩

/-- A reader finds all the events of a measure. -/
theorem map_fst_foundEvents_perm (hshape : ImporterShaped document part) (divisions : Int)
    (measure : Measure) :
    ((foundEvents document part divisions measure).map Prod.fst).Perm
      (document.events.filter (·.position.measureId = measure.id)) := by
  have hgroups : ((getPartVoices document part).flatMap fun voice => (document.events.filter
      (·.position.measureId = measure.id)).filter (·.voiceId = voice.id)).Perm
      (document.events.filter (·.position.measureId = measure.id)) := by
    refine Lists.perm_flatMap_filter Voice.id VoiceEvent.voiceId hshape.getPartVoices_nodup
      fun event he => ?_
    obtain ⟨voice, hv, hid⟩ := List.mem_map.mp (hshape.eventVoice event (List.mem_filter.mp he).1)
    exact List.mem_map.mpr ⟨voice, hshape.mem_getPartVoices.mpr hv, hid⟩
  refine List.Perm.trans ?_ hgroups
  rw [foundEvents, readVoices, List.map_flatMap]
  refine List.Perm.flatMap_left _ fun voice _ => ?_
  rw [map_fst_readTicks, List.filter_filter]
  refine (sort_perm _ _).trans (List.Perm.of_eq (List.filter_congr fun event _ => ?_))
  simp

/-- The value of the ticks that the importer reads in a measure. -/
def importedDivisions (divisions : Int) (measureIndex : Nat) : Int :=
  if measureIndex = 0 then divisions else 1

/-- The importer's timing of an event found at a tick. -/
def importedTiming (divisions : Int) (measureIndex : Nat) (found : VoiceEvent × Int) :
    EventTiming :=
  { found.1.frame.timing with
    offset := found.2 / importedDivisions divisions measureIndex
    duration := found.1.durationTicks divisions / importedDivisions divisions measureIndex }

theorem measureTimings_import (hshape : ImporterShaped document part)
    (hgrid : TimelineOnGrid document divisions) {events : List VoiceEvent}
    (hevents : events.map VoiceEvent.frame =
      document.measures.zipIdx.flatMap (importedFrames document part divisions))
    {measure : Measure × Nat} (hm : measure ∈ document.measures.zipIdx) :
    (events.filter (·.position.measureId = measure.1.id)).map (·.frame.timing) =
      (foundEvents document part divisions measure.1).map
        (importedTiming divisions measure.2) := by
  have hid : ∀ m ∈ document.measures.zipIdx, toMeasureId part.id m.1.number = m.1.id := fun m hm =>
    (hshape.measures m.1 (by
      rw [← List.zipIdx_map_fst 0 document.measures]
      exact List.mem_map_of_mem hm)).symm
  have hframes : (events.map VoiceEvent.frame).filter (fun frame =>
      frame.position.measureId = measure.1.id) = importedFrames document part divisions measure := by
    rw [hevents]
    refine Lists.filter_flatMap_eq (fun m : Measure × Nat => m.1.id)
      (fun frame : EventFrame => frame.position.measureId) ?_ (fun m hm frame hf => ?_) hm
    · have hmap := congrArg (List.map Measure.id) (List.zipIdx_map_fst 0 document.measures)
      rw [List.map_map] at hmap
      have hnodup := hshape.measureIds
      rw [← hmap] at hnodup
      exact hnodup
    · obtain ⟨found, -, rfl⟩ := List.mem_map.mp hf
      exact hid m hm
  have hmap : (events.filter (·.position.measureId = measure.1.id)).map (·.frame.timing) =
      ((events.map VoiceEvent.frame).filter (fun frame =>
        frame.position.measureId = measure.1.id)).map EventFrame.timing := by
    rw [List.filter_map, List.map_map]
    rfl
  rw [hmap, hframes, importedFrames, List.map_map]
  refine List.map_congr_left fun found hf => ?_
  obtain ⟨hmem, hmeasure⟩ := mem_of_mem_foundEvents hf
  have hpos : 0 < importedDivisions divisions measure.2 := by
    rw [importedDivisions]
    split_ifs
    · exact hgrid.positive
    · decide
  have hoffset := toRat_durationTicksToQuarterRational found.2 hpos
  have hduration := toRat_durationTicksToQuarterRational (found.1.durationTicks divisions) hpos
  rw [importedDivisions] at hoffset hduration
  rw [Function.comp_apply, frameAt, exportedContext, EventFrame.timing, importedTiming,
    importedDivisions, hoffset, hduration, hid measure hm, ← hmeasure]
  rfl

/-- The ticks of an event, in the divisions that the importer reads, are its
offset and duration. -/
def KeepsTiming (divisions : Int) (measureIndex : Nat) (found : VoiceEvent × Int) : Prop :=
  (found.2 : ℚ) / importedDivisions divisions measureIndex = found.1.position.offset.toRat ∧
    (found.1.durationTicks divisions : ℚ) / importedDivisions divisions measureIndex =
      found.1.rhythm.timelineDuration.toRat

/-- An imported offset or duration has at best stayed. -/
theorem le_div_importedDivisions (hdivisions : 0 < divisions) (measureIndex : Nat) {value : ℚ}
    (hvalue : 0 ≤ value) {ticks : Int} (hticks : value * divisions ≤ ticks) :
    value ≤ (ticks : ℚ) / importedDivisions divisions measureIndex := by
  have hone : (1 : ℚ) ≤ divisions := by exact_mod_cast hdivisions
  rw [importedDivisions]
  split_ifs
  · rw [le_div_iff₀ (lt_of_lt_of_le one_pos hone)]
    exact hticks
  · rw [Int.cast_one, div_one]
    exact le_trans (le_mul_of_one_le_right hvalue hone) hticks

/-- The timings of a measure are kept, in some order, if and only if each is. -/
theorem measureTimings_perm_iff (hshape : ImporterShaped document part)
    (hgrid : TimelineOnGrid document divisions) (measure : Measure × Nat) :
    ((foundEvents document part divisions measure.1).map
        (importedTiming divisions measure.2)).Perm (measureTimings document measure.1.id) ↔
      ∀ found ∈ foundEvents document part divisions measure.1,
        KeepsTiming divisions measure.2 found := by
  have hdocument : ((foundEvents document part divisions measure.1).map fun found =>
      found.1.frame.timing).Perm (measureTimings document measure.1.id) := by
    have h := (map_fst_foundEvents_perm hshape divisions measure.1).map (·.frame.timing)
    rw [List.map_map] at h
    exact h
  constructor
  · intro hperm
    have hle : ∀ found ∈ foundEvents document part divisions measure.1,
        found.1.position.offset.toRat ≤
            (found.2 : ℚ) / importedDivisions divisions measure.2 ∧
          found.1.rhythm.timelineDuration.toRat ≤
            (found.1.durationTicks divisions : ℚ) / importedDivisions divisions measure.2 := by
      intro found hf
      have hmem := (mem_of_mem_foundEvents hf).1
      have hstart : found.1.startTicks divisions ≤ found.2 := by
        obtain ⟨voice, -, hread⟩ := List.mem_flatMap.mp hf
        exact (le_of_mem_readTicks (fun event he =>
          hgrid.durationTicks_nonneg (mem_getVoiceEvents.mp he).1) found hread).2
      refine ⟨le_div_importedDivisions hgrid.positive _ (hgrid.offsets _ hmem).2.1 ?_,
        le_div_importedDivisions hgrid.positive _ (hgrid.durations _ hmem).2.1 ?_⟩
      · rw [← hgrid.startTicks hmem]
        exact_mod_cast hstart
      · exact (hgrid.durationTicks hmem).ge
    -- the sum of the offsets and durations has not grown
    have hsum := Lists.eq_of_perm_of_le
      (fun timing : EventTiming => timing.offset + timing.duration)
      (fun found hf => add_le_add (hle found hf).1 (hle found hf).2)
      (hperm.trans hdocument.symm)
    intro found hf
    obtain ⟨hoffset, hduration⟩ := hle found hf
    have htotal : (found.2 : ℚ) / importedDivisions divisions measure.2 +
        (found.1.durationTicks divisions : ℚ) / importedDivisions divisions measure.2 =
        found.1.position.offset.toRat + found.1.rhythm.timelineDuration.toRat := hsum found hf
    constructor
    · linarith
    · linarith
  · intro hkeep
    refine (List.Perm.of_eq (List.map_congr_left fun found hf => ?_)).trans hdocument
    obtain ⟨hoffset, hduration⟩ := hkeep found hf
    rw [importedTiming, hoffset, hduration]
    rfl

/-! ## When the timing is kept -/

/-- All events of a measure are of zero length and at its start. -/
def AllAtZero (document : ScoreDocument) (measure : Measure) : Prop :=
  ∀ event ∈ document.events, event.position.measureId = measure.id →
    event.position.offset.toRat = 0 ∧ event.rhythm.timelineDuration.toRat = 0

/-- The events of each voice in a measure start when those listed before them
have ended. -/
def EndsInOrder (document : ScoreDocument) (part : Part) (divisions : Int) (measure : Measure) :
    Prop :=
  ∀ voice ∈ getPartVoices document part,
    (getVoiceEvents document measure divisions voice).Pairwise fun a b =>
      a.startTicks divisions + a.durationTicks divisions ≤ b.startTicks divisions

theorem foundEvents_exact_iff (hgrid : TimelineOnGrid document divisions) (measure : Measure) :
    (∀ found ∈ foundEvents document part divisions measure,
        found.2 = found.1.startTicks divisions) ↔ EndsInOrder document part divisions measure := by
  have hvoice : ∀ voice, (∀ found ∈ readTicks divisions 0
      (getVoiceEvents document measure divisions voice),
      found.2 = found.1.startTicks divisions) ↔ _ := fun voice =>
    readTicks_exact_iff fun event he => hgrid.durationTicks_nonneg (mem_getVoiceEvents.mp he).1
  simp only [foundEvents, readVoices, List.mem_flatMap, forall_exists_index, and_imp]
  constructor
  · intro h voice hv
    exact ((hvoice voice).mp fun found hf => h found voice hv hf).2
  · intro h found voice hv hf
    refine (hvoice voice).mpr ⟨fun event he => ?_, h voice hv⟩ found hf
    exact hgrid.startTicks_nonneg (mem_getVoiceEvents.mp he).1

theorem keepsTiming_iff (hshape : ImporterShaped document part)
    (hgrid : TimelineOnGrid document divisions) (measure : Measure × Nat) :
    (∀ found ∈ foundEvents document part divisions measure.1,
        KeepsTiming divisions measure.2 found) ↔
      (measure.2 = 0 ∨ divisions = 1 ∨ AllAtZero document measure.1) ∧
        EndsInOrder document part divisions measure.1 := by
  have hpos := hgrid.divisions_pos
  rw [← foundEvents_exact_iff hgrid]
  have hticks : ∀ found ∈ foundEvents document part divisions measure.1,
      (found.1.startTicks divisions : ℚ) = found.1.position.offset.toRat * divisions ∧
        (found.1.durationTicks divisions : ℚ) =
          found.1.rhythm.timelineDuration.toRat * divisions ∧
        found.1.startTicks divisions ≤ found.2 := by
    intro found hf
    have hmem := (mem_of_mem_foundEvents hf).1
    obtain ⟨voice, -, hread⟩ := List.mem_flatMap.mp hf
    exact ⟨hgrid.startTicks hmem, hgrid.durationTicks hmem, (le_of_mem_readTicks (fun event he =>
      hgrid.durationTicks_nonneg (mem_getVoiceEvents.mp he).1) found hread).2⟩
  by_cases hown : importedDivisions divisions measure.2 = divisions
  · -- the importer reads the divisions of the exporter
    have hwhen : measure.2 = 0 ∨ divisions = 1 := by
      rw [importedDivisions] at hown
      split_ifs at hown with hfirst
      · exact .inl hfirst
      · exact .inr hown.symm
    have hkeep : ∀ found ∈ foundEvents document part divisions measure.1,
        KeepsTiming divisions measure.2 found ↔ found.2 = found.1.startTicks divisions := by
      intro found hf
      obtain ⟨hstart, hduration, -⟩ := hticks found hf
      rw [KeepsTiming, hown, hduration, div_eq_iff hpos.ne', ← hstart, mul_div_cancel_right₀ _
        hpos.ne', Int.cast_inj, and_iff_left rfl]
    rw [and_iff_right (hwhen.imp_right .inl)]
    exact forall₂_congr hkeep
  · -- it takes the ticks for quarter notes
    have hone : importedDivisions divisions measure.2 = 1 := by
      rw [importedDivisions] at hown ⊢
      split_ifs at hown ⊢ with hfirst
      · exact absurd rfl hown
      · rfl
    have hlater : ¬ measure.2 = 0 ∧ ¬ divisions = 1 := by
      rw [importedDivisions] at hown
      split_ifs at hown with hfirst
      · exact absurd rfl hown
      · exact ⟨hfirst, fun h => hown h.symm⟩
    have htwo : (2 : ℚ) ≤ divisions := by
      have := hgrid.positive
      exact_mod_cast (by omega : 2 ≤ divisions)
    simp only [KeepsTiming, hone, Int.cast_one, div_one]
    constructor
    · intro h
      have hzero : ∀ found ∈ foundEvents document part divisions measure.1,
          found.1.position.offset.toRat = 0 ∧ found.1.rhythm.timelineDuration.toRat = 0 ∧
            found.2 = found.1.startTicks divisions := by
        intro found hf
        obtain ⟨hstart, hduration, hle⟩ := hticks found hf
        obtain ⟨hoffset', hduration'⟩ := h found hf
        have hmem := (mem_of_mem_foundEvents hf).1
        have hle' : (found.1.startTicks divisions : ℚ) ≤ found.2 := by exact_mod_cast hle
        have hoffset0 := (hgrid.offsets _ hmem).2.1
        have hduration0 := (hgrid.durations _ hmem).2.1
        rw [hstart, hoffset'] at hle'
        rw [hduration] at hduration'
        have ho : found.1.position.offset.toRat = 0 := by nlinarith
        have hd : found.1.rhythm.timelineDuration.toRat = 0 := by nlinarith
        refine ⟨ho, hd, ?_⟩
        have hcast : (found.2 : ℚ) = found.1.startTicks divisions := by
          rw [hoffset', hstart, ho, zero_mul]
        exact_mod_cast hcast
      refine ⟨.inr (.inr fun event he hm => ?_), fun found hf => (hzero found hf).2.2⟩
      have hfound := (map_fst_foundEvents_perm hshape divisions measure.1).mem_iff.mpr
        (List.mem_filter.mpr ⟨he, decide_eq_true hm⟩)
      obtain ⟨found, hf, rfl⟩ := List.mem_map.mp hfound
      exact ⟨(hzero found hf).1, (hzero found hf).2.1⟩
    · rintro ⟨hcondition, hexact⟩ found hf
      have hall := (hcondition.resolve_left hlater.1).resolve_left hlater.2
      obtain ⟨hmem, hm⟩ := mem_of_mem_foundEvents hf
      obtain ⟨ho, hd⟩ := hall found.1 hmem hm
      obtain ⟨hstart, hduration, -⟩ := hticks found hf
      rw [hexact found hf, hstart, hduration, ho, hd, zero_mul]
      exact ⟨rfl, rfl⟩

theorem noLateZeroLength_iff (hshape : ImporterShaped document part)
    (hgrid : TimelineOnGrid document divisions) :
    NoLateZeroLength document.events ↔
      ∀ measure ∈ document.measures, EndsInOrder document part divisions measure := by
  constructor
  · exact fun h measure _ voice _ => hgrid.pairwise_end h measure voice
  · intro h
    refine List.pairwise_iff_forall_sublist.mpr fun {a b} hab hline hoffset hduration hzero => ?_
    have ha : a ∈ document.events := hab.subset (by simp)
    have hb : b ∈ document.events := hab.subset (by simp)
    obtain ⟨measure, hm, hmid⟩ := List.mem_map.mp (hshape.eventMeasure a ha)
    obtain ⟨voice, hv, hvid⟩ := List.mem_map.mp (hshape.eventVoice a ha)
    have hstart := (hgrid.startTicks_eq_iff ha hb).mpr hoffset
    -- both are in the list of the voice, in their order
    have hsublist : [a, b].Sublist (getVoiceEvents document measure divisions voice) := by
      refine pair_sublist_sort (fun event : VoiceEvent => event.startTicks divisions)
        hstart.le ?_
      have hfilter := hab.filter fun event : VoiceEvent =>
        event.voiceId = voice.id ∧ event.position.measureId = measure.id
      rwa [List.filter_cons_of_pos (by simp [hvid, hmid]), List.filter_cons_of_pos (by
        simp [hvid, hmid, ← hline.1, ← hline.2]), List.filter_nil] at hfilter
    have hend := List.pairwise_iff_forall_sublist.mp
      (h measure hm voice (hshape.mem_getPartVoices.mpr hv)) hsublist
    have hpositive := hgrid.durationTicks_nonneg ha
    have hne : a.durationTicks divisions ≠ 0 := fun h0 =>
      hduration ((hgrid.durationTicks_eq_zero_iff ha).mp h0)
    omega

theorem mem_tail_iff :
    measure ∈ measures.tail ↔ ∃ index, (measure, index + 1) ∈ measures.zipIdx := by
  rcases measures with _ | ⟨first, measures⟩
  · simp
  · rw [List.tail_cons, List.mem_iff_getElem?]
    refine exists_congr fun index => ?_
    rw [List.mk_mem_zipIdx_iff_getElem?, List.getElem?_cons_succ]

/-- Importing an export keeps the timing of all events if and only if later
measures need no divisions and no zero-length event is listed late. -/
theorem importMusicXmlToEditorDomain_export_timings_iff {document : ScoreDocument} {part : Part}
    {divisions : Int} (hshape : ImporterShaped document part)
    (hgrid : TimelineOnGrid document divisions) (timeSignature : Option TimeSignature) :
    (∃ result, importMusicXmlToEditorDomain
        (exportEditorDomainToMusicXml document ⟨some divisions, timeSignature⟩) = .ok result ∧
      result.document.measures = document.measures ∧
      ∀ measure ∈ document.measures, (measureTimings result.document measure.id).Perm
        (measureTimings document measure.id)) ↔
      (∀ measure ∈ document.measures.tail, divisions = 1 ∨ AllAtZero document measure) ∧
        NoLateZeroLength document.events := by
  obtain ⟨result, hresult, hmeasures, hevents⟩ :=
    importMusicXmlToEditorDomain_export hshape hgrid timeSignature
  have htimings : ∀ measure ∈ document.measures.zipIdx,
      (measureTimings result.document measure.1.id).Perm (measureTimings document measure.1.id) ↔
        (measure.2 = 0 ∨ divisions = 1 ∨ AllAtZero document measure.1) ∧
          EndsInOrder document part divisions measure.1 := by
    intro measure hm
    rw [← keepsTiming_iff hshape hgrid, ← measureTimings_perm_iff hshape hgrid, measureTimings,
      measureTimings_import hshape hgrid hevents hm]
  have hzip : ∀ {P : Measure → Prop}, (∀ measure ∈ document.measures, P measure) ↔
      ∀ measure ∈ document.measures.zipIdx, P measure.1 := by
    intro P
    conv_lhs => rw [← List.zipIdx_map_fst 0 document.measures, List.forall_mem_map]
  rw [noLateZeroLength_iff hshape hgrid]
  constructor
  · rintro ⟨result', hresult', -, hperm⟩
    obtain rfl : result = result' := Except.ok.inj (hresult.symm.trans hresult')
    have hall := fun measure hm => (htimings measure hm).mp (hzip.mp hperm measure hm)
    refine ⟨fun measure hm => ?_, hzip.mpr fun measure hm => (hall measure hm).2⟩
    obtain ⟨index, hindex⟩ := mem_tail_iff.mp hm
    exact (hall _ hindex).1.resolve_left (Nat.succ_ne_zero index)
  · rintro ⟨hlater, hends⟩
    refine ⟨result, hresult, hmeasures, hzip.mpr fun measure hm => ?_⟩
    refine (htimings measure hm).mpr ⟨?_, hzip.mp hends measure hm⟩
    rcases measure with ⟨measure, _ | index⟩
    · exact .inl rfl
    · exact .inr (hlater measure (mem_tail_iff.mpr ⟨index, hm⟩))

/-! ## Two measures -/

def quarterNote (measureId : MeasureId) (id : String) : VoiceEvent :=
  .pitched ⟨id, "P1:voice-1", "P1:staff-1", ⟨measureId, ⟨0, 1⟩⟩, ⟨⟨1, 1⟩, ⟨.quarter, 0⟩, none⟩,
    [⟨id, ⟨.C, 4, none⟩, none, none, none, none, none⟩], none⟩

/-- A quarter note in each of two measures. -/
def twoMeasures : ScoreDocument where
  id := "score-document-1"
  parts := [⟨"P1", "Piano"⟩]
  staves := [⟨"P1:staff-1", "P1", 0⟩]
  voices := [⟨"P1:voice-1", "P1", "P1:staff-1", .automatic⟩]
  measures := [⟨"P1:measure-1", 1⟩, ⟨"P1:measure-2", 2⟩]
  events := [quarterNote "P1:measure-1" "P1-m1-e2", quarterNote "P1:measure-2" "P1-m2-e1"]
  beamRelationships := []
  tieRelationships := []
  slurRelationships := []
  notationControls := []

theorem twoMeasures_importerShaped : ImporterShaped twoMeasures ⟨"P1", "Piano"⟩ where
  parts := rfl
  partId := by decide
  measures := by decide
  numbers := by decide
  staves := by decide
  voices := by
    refine List.forall_mem_singleton.mpr ⟨rfl, 1, by decide, by decide⟩
  voiceIds := by decide
  eventMeasure := by decide
  eventStaff := by decide
  eventVoice := by decide
  notes event he := by
    simp only [twoMeasures, quarterNote, List.mem_cons, VoiceEvent.pitched.injEq,
      List.not_mem_nil, or_false] at he
    rcases he with rfl | rfl <;> simp
  relationships := ⟨by decide, by decide⟩

theorem twoMeasures_timelineOnGrid (h : 0 < divisions) :
    TimelineOnGrid twoMeasures divisions where
  positive := h
  offsets event he := by
    simp only [twoMeasures, List.mem_cons, List.not_mem_nil, or_false] at he
    rcases he with rfl | rfl
    all_goals exact ⟨by decide, by simp [quarterNote, VoiceEvent.position, Rational.toRat], 0, by
      simp [quarterNote, VoiceEvent.position, Rational.toRat]⟩
  durations event he := by
    simp only [twoMeasures, List.mem_cons, List.not_mem_nil, or_false] at he
    rcases he with rfl | rfl
    all_goals exact ⟨by decide, by simp [quarterNote, VoiceEvent.rhythm, Rational.toRat],
      divisions, by simp [quarterNote, VoiceEvent.rhythm, Rational.toRat]⟩
  disjoint := by
    simp [twoMeasures, quarterNote, SameLine, VoiceEvent.position]

theorem twoMeasures_timings_at_one : ∃ result, importMusicXmlToEditorDomain
      (exportEditorDomainToMusicXml twoMeasures ⟨some 1, none⟩) = .ok result ∧
    result.document.measures = twoMeasures.measures ∧
    ∀ measure ∈ twoMeasures.measures, (measureTimings result.document measure.id).Perm
      (measureTimings twoMeasures measure.id) :=
  (importMusicXmlToEditorDomain_export_timings_iff twoMeasures_importerShaped
    (twoMeasures_timelineOnGrid (by decide)) none).mpr ⟨fun _ _ => .inl rfl, by
      simp [NoLateZeroLength, twoMeasures, quarterNote, VoiceEvent.rhythm, Rational.toRat]⟩

/-- With four divisions the quarter note of the second measure comes back four
quarter notes long. -/
theorem twoMeasures_timings_at_four : ImporterShaped twoMeasures ⟨"P1", "Piano"⟩ ∧
    TimelineOnGrid twoMeasures 4 ∧ ¬ ∃ result, importMusicXmlToEditorDomain
        (exportEditorDomainToMusicXml twoMeasures ⟨some 4, none⟩) = .ok result ∧
      ∀ measure ∈ twoMeasures.measures, (measureTimings result.document measure.id).Perm
        (measureTimings twoMeasures measure.id) := by
  refine ⟨twoMeasures_importerShaped, twoMeasures_timelineOnGrid (by decide), ?_⟩
  rintro ⟨result, hresult, hperm⟩
  have himport : (importMusicXmlToEditorDomain (exportEditorDomainToMusicXml twoMeasures
      ⟨some 4, none⟩)).map (fun result => (measureTimings result.document "P1:measure-2").map
        EventTiming.duration) = .ok [4] := by decide +kernel
  have hsource : (measureTimings twoMeasures "P1:measure-2").map EventTiming.duration = [1] := by
    decide +kernel
  rw [hresult] at himport
  have himported : (measureTimings result.document "P1:measure-2").map EventTiming.duration = [4] :=
    Except.ok.inj himport
  have hduration := (hperm ⟨"P1:measure-2", 2⟩ (by decide)).map EventTiming.duration
  simp only [himported, hsource, List.singleton_perm_singleton] at hduration
  exact absurd hduration (by decide)

end NoteVerse.Editor

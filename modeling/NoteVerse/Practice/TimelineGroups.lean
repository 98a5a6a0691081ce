import NoteVerse.Lib.Table
import NoteVerse.Practice.TimelineEvents

/-!
# The groups and the steps of a timeline

Both are made at the beats where a note is struck (`strikeOnsets`): the expected
groups from the entry groups (`expectedPracticeGroups_eq`), the attack steps from
all beats (`practiceAttackSteps_eq`).
-/

namespace NoteVerse.Practice.ScoreTimeline

open Js

variable {events : List PracticeScoreEvent} (sha1 : String → String)

/-! ## Beats -/

/-- The events struck at a beat. -/
def candidatesAt (events : List PracticeScoreEvent) (onsetBeat : ℚ) : List PracticeScoreEvent :=
  (events.filter (·.entryCandidate)).filter fun event => event.onsetBeat = onsetBeat

variable {event : PracticeScoreEvent}

theorem mem_candidatesAt {onsetBeat : ℚ} :
    event ∈ candidatesAt events onsetBeat ↔
      event ∈ events ∧ event.entryCandidate = true ∧ event.onsetBeat = onsetBeat := by
  unfold candidatesAt
  rw [List.mem_filter, List.mem_filter, decide_eq_true_eq, and_assoc]

def strikeOnsets (events : List PracticeScoreEvent) : List ℚ :=
  sortedOnsets (JsMap.groupBy (·.onsetBeat) (events.filter (·.entryCandidate)))

theorem mem_sortedOnsets {onsetBeat : ℚ} :
    onsetBeat ∈ sortedOnsets (JsMap.groupBy (·.onsetBeat) events) ↔
      ∃ event ∈ events, event.onsetBeat = onsetBeat := by
  unfold sortedOnsets
  rw [(List.mergeSort_perm _ _).mem_iff, JsMap.mem_keys_groupBy, List.mem_map]

/-- Beats are sorted, and none comes twice. -/
theorem sortedOnsets_lt (grouped : JsMap ℚ (List PracticeScoreEvent)) :
    (sortedOnsets grouped).Pairwise (· < ·) := by
  have hsorted : (sortedOnsets grouped).Pairwise fun a b => decide (a ≤ b) = true := by
    refine List.pairwise_mergeSort (fun a b c hab hbc => ?_) (fun a b => ?_) _
    · rw [decide_eq_true_eq] at hab hbc ⊢
      exact hab.trans hbc
    · rw [Bool.or_eq_true, decide_eq_true_eq, decide_eq_true_eq]
      exact le_total a b
  have hnodup : (sortedOnsets grouped).Nodup :=
    (List.mergeSort_perm _ _).nodup_iff.mpr grouped.keys_nodup
  refine (hsorted.and hnodup).imp fun ⟨hle, hne⟩ => ?_
  exact lt_of_le_of_ne (of_decide_eq_true hle) hne

theorem mem_strikeOnsets {onsetBeat : ℚ} :
    onsetBeat ∈ strikeOnsets events ↔ candidatesAt events onsetBeat ≠ [] := by
  unfold strikeOnsets
  rw [mem_sortedOnsets, ← List.length_pos_iff_ne_nil, List.length_pos_iff_exists_mem]
  refine exists_congr fun event => ?_
  rw [mem_candidatesAt, List.mem_filter, and_assoc]

/-- The beats with a struck event, among all. -/
theorem strikeOnsets_eq (events : List PracticeScoreEvent) :
    strikeOnsets events = (sortedOnsets (JsMap.groupBy (·.onsetBeat) events)).filter
      fun onsetBeat => candidatesAt events onsetBeat ≠ [] := by
  refine (sortedOnsets_lt _).eq_of_mem_iff ((sortedOnsets_lt _).filter _) fun onsetBeat => ?_
  rw [List.mem_filter, decide_eq_true_eq]
  refine mem_strikeOnsets.trans ⟨fun hne => ⟨mem_sortedOnsets.mpr ?_, hne⟩, And.right⟩
  obtain ⟨event, hevent⟩ := List.exists_mem_of_ne_nil _ hne
  obtain ⟨hmem, -, honset⟩ := mem_candidatesAt.mp hevent
  exact ⟨event, hmem, honset⟩

/-! ## Entry groups -/

/-- The entry group of a beat. -/
def entryGroup (events : List PracticeScoreEvent) (onsetBeat : ℚ) : PracticeEntryGroup :=
  entryGroupAt sha1 onsetBeat (candidatesAt events onsetBeat)

theorem buildEntryGroups_eq (events : List PracticeScoreEvent) :
    buildEntryGroups sha1 events = (strikeOnsets events).map (entryGroup sha1 events) := by
  refine List.map_congr_left fun onsetBeat honset => ?_
  have hmem := (List.mergeSort_perm _ _).mem_iff.mp honset
  rw [JsMap.mem_keys_groupBy] at hmem
  rw [JsMap.get_groupBy hmem]
  rfl

theorem strikeOnsets_scaled (h : EventsOk events) {onsetBeat : ℚ}
    (honset : onsetBeat ∈ strikeOnsets events) : ∃ n : ℤ, onsetBeat * 10 ^ 6 = n := by
  obtain ⟨event, hevent⟩ := List.exists_mem_of_ne_nil _ (mem_strikeOnsets.mp honset)
  obtain ⟨hmem, -, rfl⟩ := mem_candidatesAt.mp hevent
  exact h.scaled event hmem

theorem entryGroups_ids_nodup (h : EventsOk events) :
    ((buildEntryGroups sha1 events).map (·.groupId)).Nodup := by
  rw [buildEntryGroups_eq, List.map_map]
  have hlt : (strikeOnsets events).Pairwise (· < ·) := sortedOnsets_lt _
  refine List.Nodup.map_on (fun x hx y hy heq => ?_) (hlt.imp LT.lt.ne)
  exact stableEntryGroupId_inj sha1 (strikeOnsets_scaled h hx) (strikeOnsets_scaled h hy) heq

/-! ## Notes -/

def expectedNotes (event : PracticeScoreEvent) : List ExpectedPracticeNote :=
  (event.pitches.zip event.renderNoteIds).map (expectedNote event)

def stepNotes (event : PracticeScoreEvent) : List PracticeStepNote :=
  (event.pitches.zip event.renderNoteIds).map (stepNote event)

/-- A note of a step, as a note of a group. -/
def PracticeStepNote.expected (note : PracticeStepNote) : ExpectedPracticeNote where
  expectedNoteId := note.stepNoteId
  eventId := note.eventId
  pitch := note.pitch
  renderNoteId := note.renderNoteId
  measureNumbers := note.measureNumbers

theorem map_expected_stepNotes (event : PracticeScoreEvent) :
    (stepNotes event).map PracticeStepNote.expected = expectedNotes event := by
  unfold stepNotes expectedNotes
  rw [List.map_map]
  rfl

theorem expectedNotesForEvent_ok (h : EventsOk events) (hevent : event ∈ events) :
    expectedNotesForEvent event = .ok (expectedNotes event) :=
  if_neg (not_not.mpr (h.lengths event hevent))

theorem stepNotesForEvent_ok (h : EventsOk events) (hevent : event ∈ events) :
    stepNotesForEvent event = .ok (stepNotes event) :=
  if_neg (not_not.mpr (h.lengths event hevent))

/-- An event has notes. -/
theorem stepNotes_ne_nil (h : EventsOk events) (hevent : event ∈ events) :
    stepNotes event ≠ [] := by
  have hlengths := h.lengths event hevent
  have hstruck := List.length_pos_iff_ne_nil.mpr (h.struck event hevent)
  refine List.length_pos_iff_ne_nil.mp ?_
  unfold stepNotes
  rw [List.length_map, List.length_zip]
  omega

/-! ## Expected groups -/

/-- The expected group of a beat. -/
def groupAt (events : List PracticeScoreEvent) (onsetBeat : ℚ) : ExpectedPracticeGroup :=
  expectedGroup (entryGroup sha1 events onsetBeat) (candidatesAt events onsetBeat)
    ((candidatesAt events onsetBeat).map expectedNotes).flatten

/-- A timeline that was built from its events. -/
structure Built (timeline : PracticeScoreTimeline) : Prop where
  events : EventsOk timeline.events
  entryGroups : timeline.entryGroups = buildEntryGroups sha1 timeline.events

variable {sha1} {timeline : PracticeScoreTimeline} {onsetBeat : ℚ}

theorem Built.entryGroupForId (h : Built sha1 timeline)
    (honset : onsetBeat ∈ strikeOnsets timeline.events) :
    timeline.entryGroupForId (entryGroup sha1 timeline.events onsetBeat).groupId =
      some (entryGroup sha1 timeline.events onsetBeat) := by
  show Table.find PracticeEntryGroup.groupId _ timeline.entryGroups = _
  refine Table.find_of_mem ?_ ?_
  · rw [h.entryGroups]
    exact entryGroups_ids_nodup sha1 h.events
  · rw [h.entryGroups, buildEntryGroups_eq]
    exact List.mem_map_of_mem honset

theorem Built.get_eventsById (h : Built sha1 timeline) (hevent : event ∈ timeline.events) :
    timeline.eventsById.get event.eventId = some event := by
  refine JsMap.get_ofEntries_of_mem (e := (event.eventId, event)) ?_ (List.mem_map_of_mem hevent)
  rw [List.map_map]
  exact h.events.ids

theorem Built.eventsOfGroup (h : Built sha1 timeline) (onsetBeat : ℚ) :
    timeline.eventsOfGroup (entryGroup sha1 timeline.events onsetBeat) =
      candidatesAt timeline.events onsetBeat := by
  show ((candidatesAt timeline.events onsetBeat).map (·.eventId)).filterMap
    timeline.eventsById.get = _
  rw [List.filterMap_map]
  refine (List.filterMap_congr fun event hevent => ?_).trans List.filterMap_some
  exact h.get_eventsById (mem_candidatesAt.mp hevent).1

/-- The group that an entry group's id leads to. -/
theorem Built.expectedGroupForEntry (h : Built sha1 timeline)
    (honset : onsetBeat ∈ strikeOnsets timeline.events) :
    timeline.expectedGroupForEntry (entryGroup sha1 timeline.events onsetBeat).groupId =
      .ok (some (groupAt sha1 timeline.events onsetBeat)) := by
  have hcandidates : (candidatesAt timeline.events onsetBeat).filter (·.entryCandidate) =
      candidatesAt timeline.events onsetBeat :=
    List.filter_eq_self.mpr fun event hevent => (mem_candidatesAt.mp hevent).2.1
  have hnotes : (candidatesAt timeline.events onsetBeat).mapM expectedNotesForEvent =
      .ok ((candidatesAt timeline.events onsetBeat).map expectedNotes) :=
    Python.mapM_ok fun event hevent => expectedNotesForEvent_ok h.events (mem_candidatesAt.mp hevent).1
  unfold PracticeScoreTimeline.expectedGroupForEntry
  rw [h.entryGroupForId honset]
  dsimp only
  rw [if_neg (by simp [entryGroup, entryGroupAt]), h.eventsOfGroup, hcandidates,
    if_neg (mem_strikeOnsets.mp honset), hnotes]
  rfl

/-- The expected groups, by their beats. -/
theorem Built.expectedPracticeGroups_eq (h : Built sha1 timeline) :
    timeline.expectedPracticeGroups =
      .ok ((strikeOnsets timeline.events).map (groupAt sha1 timeline.events)) := by
  have hgroups : timeline.entryGroups.mapM
      (fun group => timeline.expectedGroupForEntry group.groupId) =
      .ok ((strikeOnsets timeline.events).map fun onsetBeat =>
        some (groupAt sha1 timeline.events onsetBeat)) := by
    rw [h.entryGroups, buildEntryGroups_eq, List.mapM_map]
    exact Python.mapM_ok fun onsetBeat honset => h.expectedGroupForEntry honset
  unfold PracticeScoreTimeline.expectedPracticeGroups
  rw [hgroups, Python.ok_bind]
  refine congrArg Except.ok ?_
  rw [List.filterMap_map]
  exact congrFun List.filterMap_eq_map _

/-! ## Attack steps -/

/-- The events of a beat, as their step has them. -/
def onsetEvents (events : List PracticeScoreEvent) (onsetBeat : ℚ) : List PracticeScoreEvent :=
  (events.filter fun event => event.onsetBeat = onsetBeat).mergeSort eventLe

def attackNotes (events : List PracticeScoreEvent) (onsetBeat : ℚ) : List PracticeStepNote :=
  (((onsetEvents events onsetBeat).filter (·.entryCandidate)).map stepNotes).flatten

/-- The attack step of a beat. -/
def stepAt (sha1 : String → String) (events : List PracticeScoreEvent) (onsetBeat : ℚ) :
    PracticeAttackStep :=
  attackStep sha1 onsetBeat (onsetEvents events onsetBeat) (attackNotes events onsetBeat)
    (((onsetEvents events onsetBeat).filter fun event => !event.entryCandidate).map
      stepNotes).flatten

/-- The attack notes are those of the struck events. -/
theorem attackNotes_perm (events : List PracticeScoreEvent) (onsetBeat : ℚ) :
    (attackNotes events onsetBeat).Perm
      ((candidatesAt events onsetBeat).map stepNotes).flatten := by
  unfold attackNotes onsetEvents candidatesAt
  rw [List.filter_filter]
  have hfilter : (events.filter fun event => decide (event.onsetBeat = onsetBeat) &&
      event.entryCandidate) = (events.filter fun event => event.onsetBeat = onsetBeat).filter
        (·.entryCandidate) := by
    rw [List.filter_filter]
    exact List.filter_congr fun event _ => Bool.and_comm _ _
  rw [hfilter]
  exact (((List.mergeSort_perm _ _).filter _).map stepNotes).flatten

theorem attackNotes_eq_nil (h : EventsOk events) :
    attackNotes events onsetBeat = [] ↔ candidatesAt events onsetBeat = [] := by
  rw [← List.perm_nil, (attackNotes_perm events onsetBeat).congr_left, List.perm_nil,
    List.flatten_eq_nil_iff]
  constructor
  · intro hnil
    rw [List.eq_nil_iff_forall_not_mem]
    intro event hevent
    exact stepNotes_ne_nil h (mem_candidatesAt.mp hevent).1
      (hnil _ (List.mem_map_of_mem hevent))
  · rintro hnil
    rw [hnil]
    exact fun _ hmem => absurd hmem List.not_mem_nil

theorem attackStepAt_eq (h : EventsOk events) (onsetBeat : ℚ) :
    attackStepAt sha1 onsetBeat (events.filter fun event => event.onsetBeat = onsetBeat) =
      .ok (if candidatesAt events onsetBeat = [] then none
        else some (stepAt sha1 events onsetBeat)) := by
  have hmem : ∀ event ∈ onsetEvents events onsetBeat, event ∈ events := fun event hevent =>
    (List.mem_filter.mp ((List.mergeSort_perm _ _).mem_iff.mp hevent)).1
  have hnotes : ∀ p : PracticeScoreEvent → Bool,
      ((onsetEvents events onsetBeat).filter p).mapM stepNotesForEvent =
        .ok (((onsetEvents events onsetBeat).filter p).map stepNotes) := fun p =>
    Python.mapM_ok fun event hevent =>
      stepNotesForEvent_ok h (hmem event (List.mem_filter.mp hevent).1)
  unfold attackStepAt
  show (((onsetEvents events onsetBeat).filter _).mapM stepNotesForEvent >>= fun notes =>
    if notes.flatten = [] then _ else _) = _
  rw [hnotes, Python.ok_bind]
  by_cases hnil : candidatesAt events onsetBeat = []
  · rw [if_pos hnil]
    exact if_pos ((attackNotes_eq_nil h).mpr hnil)
  · rw [if_neg hnil]
    refine (if_neg fun hnotes => hnil ((attackNotes_eq_nil h).mp hnotes)).trans ?_
    show (((onsetEvents events onsetBeat).filter _).mapM stepNotesForEvent >>= _) = _
    rw [hnotes, Python.ok_bind]
    rfl

/-- The attack steps, by their beats. -/
theorem practiceAttackSteps_eq (h : EventsOk timeline.events) :
    timeline.practiceAttackSteps sha1 =
      .ok ((strikeOnsets timeline.events).map (stepAt sha1 timeline.events)) := by
  have hsteps : (sortedOnsets (JsMap.groupBy (·.onsetBeat) timeline.events)).mapM
      (fun onsetBeat => attackStepAt sha1 onsetBeat
        (((JsMap.groupBy (·.onsetBeat) timeline.events).get onsetBeat).getD [])) =
      .ok ((sortedOnsets (JsMap.groupBy (·.onsetBeat) timeline.events)).map fun onsetBeat =>
        if candidatesAt timeline.events onsetBeat = [] then none
        else some (stepAt sha1 timeline.events onsetBeat)) := by
    refine Python.mapM_ok fun onsetBeat honset => ?_
    have hmem := (List.mergeSort_perm _ _).mem_iff.mp honset
    rw [JsMap.mem_keys_groupBy] at hmem
    rw [JsMap.get_groupBy hmem]
    exact attackStepAt_eq h onsetBeat
  unfold PracticeScoreTimeline.practiceAttackSteps buildPracticeAttackSteps
  dsimp only
  rw [hsteps, Python.ok_bind, strikeOnsets_eq]
  refine congrArg Except.ok ?_
  rw [List.filterMap_map, ← List.filterMap_eq_filter, List.map_filterMap]
  refine List.filterMap_congr fun onsetBeat _ => ?_
  by_cases hnil : candidatesAt timeline.events onsetBeat = []
  · simp [hnil]
  · simp [hnil]

end NoteVerse.Practice.ScoreTimeline

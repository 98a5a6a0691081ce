import NoteVerse.Lib.JsSort
import NoteVerse.Practice.FollowPolicy
import NoteVerse.Practice.ScoreArtifact
import NoteVerse.Practice.TimelineGroups

/-!
# Groups and steps are paired

The expected groups and the attack steps of a note array's timeline agree at every
index, and the checks of them accept (`timeline_paired`).
-/

namespace NoteVerse.Practice.ScoreTimeline

open Js

/-- What a group and its step agree on. -/
structure Paired (timeline : PracticeScoreTimeline) (group : ExpectedPracticeGroup)
    (step : PracticeAttackStep) : Prop where
  onset : group.onsetBeat = step.onsetBeat
  attackPitches : ∀ pitch, pitch ∈ group.pitches ↔ pitch ∈ step.attackTargets.map (·.pitch)
  strikePitches : ∀ pitch,
    pitch ∈ group.pitches ↔ pitch ∈ group.strikeTargets.map (·.pitch)
  notes : ((step.attackTargets.flatMap (·.notes)).map PracticeStepNote.expected).Perm
    group.expectedNotes
  strikeNotes : (group.strikeTargets.flatMap (·.expectedNotes)).Perm group.expectedNotes
  endBeat : ∃ endBeat, timeline.entryGroupEndBeat group.groupId = some endBeat ∧
    group.onsetBeat ≤ endBeat

variable {sha1 : String → String} {timeline : PracticeScoreTimeline} {onsetBeat : ℚ}
  {events : List PracticeScoreEvent}

/-! ## Pitches and notes -/

theorem mem_strikeTargets {groupId pitch : String} {notes : List ExpectedPracticeNote} :
    pitch ∈ (strikeTargetsForExpectedNotes groupId notes).map (·.pitch) ↔
      pitch ∈ notes.map (·.pitch) := by
  unfold strikeTargetsForExpectedNotes
  rw [List.map_map]
  exact JsMap.mem_keys_groupBy

theorem mem_attackTargets {stepId pitch : String} {notes : List PracticeStepNote} :
    pitch ∈ (attackTargetsForStepNotes sha1 notes stepId).map (·.pitch) ↔
      pitch ∈ notes.map (·.pitch) := by
  unfold attackTargetsForStepNotes
  rw [List.map_map]
  exact JsMap.mem_keys_groupBy

/-- The notes of the attack targets of a beat are its expected notes. -/
theorem attackNotes_expected (events : List PracticeScoreEvent) (onsetBeat : ℚ) :
    ((attackNotes events onsetBeat).map PracticeStepNote.expected).Perm
      (groupAt sha1 events onsetBeat).expectedNotes := by
  refine ((attackNotes_perm events onsetBeat).map _).trans (.of_eq ?_)
  rw [List.map_flatten, List.map_map]
  refine congrArg List.flatten (List.map_congr_left fun event _ => ?_)
  exact map_expected_stepNotes event

theorem mem_pitches (events : List PracticeScoreEvent) (onsetBeat : ℚ) (pitch : String) :
    pitch ∈ (groupAt sha1 events onsetBeat).pitches ↔
      pitch ∈ (groupAt sha1 events onsetBeat).expectedNotes.map (·.pitch) :=
  mem_strikeTargets

theorem mem_attackPitches (events : List PracticeScoreEvent) (onsetBeat : ℚ) (pitch : String) :
    pitch ∈ (groupAt sha1 events onsetBeat).pitches ↔
      pitch ∈ (stepAt sha1 events onsetBeat).attackTargets.map (·.pitch) := by
  have hperm := ((@attackNotes_expected sha1 events onsetBeat).map (·.pitch)).mem_iff
    (a := pitch)
  rw [mem_pitches, ← hperm, List.map_map]
  exact mem_attackTargets.symm

theorem attackTargets_notes (events : List PracticeScoreEvent) (onsetBeat : ℚ) :
    (((stepAt sha1 events onsetBeat).attackTargets.flatMap (·.notes)).map
      PracticeStepNote.expected).Perm (groupAt sha1 events onsetBeat).expectedNotes := by
  refine List.Perm.trans (.map _ ?_) (attackNotes_expected events onsetBeat)
  show ((attackTargetsForStepNotes sha1 (attackNotes events onsetBeat) _).flatMap (·.notes)).Perm _
  unfold attackTargetsForStepNotes
  rw [List.flatMap_map]
  exact JsMap.flatMap_groupBy_perm

theorem strikeTargets_notes (events : List PracticeScoreEvent) (onsetBeat : ℚ) :
    ((groupAt sha1 events onsetBeat).strikeTargets.flatMap (·.expectedNotes)).Perm
      (groupAt sha1 events onsetBeat).expectedNotes := by
  show ((strikeTargetsForExpectedNotes _ _).flatMap (·.expectedNotes)).Perm _
  unfold strikeTargetsForExpectedNotes
  rw [List.flatMap_map]
  exact JsMap.flatMap_groupBy_perm

/-! ## Ends -/

theorem le_foldl_max (x : ℚ) (xs : List ℚ) : x ≤ xs.foldl max x := by
  induction xs generalizing x with
  | nil => exact le_refl x
  | cons y ys ih => exact (le_max_left x y).trans (ih (max x y))

/-- An event sounds until its own end at least. -/
theorem roundBeat_endsAt_le (event : PracticeScoreEvent) (events : List PracticeScoreEvent) :
    roundBeat (endsAt event) ≤ eventSoundingEndBeat event events := by
  unfold eventSoundingEndBeat
  split_ifs
  · exact Rounding.round_mono (le_foldl_max _ _)
  · exact le_refl _

theorem onsetBeat_le_soundingEnd (h : EventsOk events) {event : PracticeScoreEvent}
    (hevent : event ∈ events) : event.onsetBeat ≤ eventSoundingEndBeat event events := by
  obtain ⟨n, hn⟩ := h.scaled event hevent
  have hends : event.onsetBeat ≤ endsAt event := by
    have hduration := h.durations event hevent
    unfold endsAt
    linarith
  calc event.onsetBeat = roundBeat event.onsetBeat := (Rounding.round_of_scaled hn).symm
    _ ≤ roundBeat (endsAt event) := Rounding.round_mono hends
    _ ≤ eventSoundingEndBeat event events := roundBeat_endsAt_le event events

/-- A group ends where it begins or later. -/
theorem Built.endBeat (h : Built sha1 timeline)
    (honset : onsetBeat ∈ strikeOnsets timeline.events) :
    ∃ endBeat, timeline.entryGroupEndBeat (entryGroup sha1 timeline.events onsetBeat).groupId =
      some endBeat ∧ onsetBeat ≤ endBeat := by
  obtain ⟨event, hevent⟩ := List.exists_mem_of_ne_nil _ (mem_strikeOnsets.mp honset)
  have hmem := List.mem_map_of_mem (f := (eventSoundingEndBeat · timeline.events)) hevent
  obtain ⟨last, hlast⟩ := Option.isSome_iff_exists.mp
    (List.isSome_max?_of_mem hmem)
  have hle := (List.max?_eq_some_iff.mp hlast).2 _ hmem
  refine ⟨roundBeat last, ?_, ?_⟩
  · unfold PracticeScoreTimeline.entryGroupEndBeat
    rw [h.entryGroupForId honset, Option.bind_some, h.eventsOfGroup, hlast]
    rfl
  · obtain ⟨hin, -, hat⟩ := mem_candidatesAt.mp hevent
    obtain ⟨n, hn⟩ := h.events.scaled event hin
    rw [← hat, ← Rounding.round_of_scaled hn]
    exact Rounding.round_mono ((onsetBeat_le_soundingEnd h.events hin).trans hle)

theorem Built.paired (h : Built sha1 timeline) (honset : onsetBeat ∈ strikeOnsets timeline.events) :
    Paired timeline (groupAt sha1 timeline.events onsetBeat)
      (stepAt sha1 timeline.events onsetBeat) where
  onset := rfl
  attackPitches := mem_attackPitches timeline.events onsetBeat
  strikePitches _ := Iff.rfl
  notes := attackTargets_notes timeline.events onsetBeat
  strikeNotes := strikeTargets_notes timeline.events onsetBeat
  endBeat := h.endBeat honset

/-! ## The checks of the browser -/

theorem joinedSet_congr {xs ys : List String} (h : ∀ x, x ∈ xs ↔ x ∈ ys) :
    joinedSet xs = joinedSet ys := by
  unfold joinedSet uniqueSorted
  rw [sortStrings_eraseDups h]

theorem roundBeatJs_mono {x y : ℚ} (h : x ≤ y) : roundBeatJs x ≤ roundBeatJs y := by
  unfold roundBeatJs
  have hfloor : ⌊x * 1000000 + 1 / 2⌋ ≤ ⌊y * 1000000 + 1 / 2⌋ := by
    refine Int.floor_le_floor ?_
    linarith
  exact div_le_div_of_nonneg_right (Int.cast_le.mpr hfloor) (by norm_num)

theorem Paired.assertPair {group : ExpectedPracticeGroup} {step : PracticeAttackStep}
    (h : Paired timeline group step) (index : Nat) :
    PracticeScoreArtifact.assertPair (browserStep step) (browserGroup timeline group) index =
      .ok () := by
  obtain ⟨endBeat, hendBeat, hle⟩ := h.endBeat
  have hcanonical : (browserGroup timeline group).canonicalEndBeat = endBeat := by
    unfold browserGroup
    rw [hendBeat]
    rfl
  unfold PracticeScoreArtifact.assertPair
  rw [if_neg, if_neg, if_neg, if_neg]
  · rw [hcanonical]
    exact not_lt.mpr (roundBeatJs_mono hle)
  · exact not_not.mpr (joinedSet_congr h.strikePitches)
  · exact not_not.mpr (joinedSet_congr h.attackPitches)
  · exact not_not.mpr (congrArg roundBeatJs h.onset.symm)

theorem assertPairs_ok {groups : List ExpectedPracticeGroup} {steps : List PracticeAttackStep}
    (h : List.Forall₂ (Paired timeline) groups steps) (index : Nat) :
    PracticeScoreArtifact.assertPairs (steps.map browserStep) (groups.map (browserGroup timeline))
      index = .ok () := by
  induction h generalizing index with
  | nil => rfl
  | @cons group step groups steps hpair _ ih =>
    show (PracticeScoreArtifact.assertPair _ _ _ >>= fun _ => _) = _
    rw [hpair.assertPair index]
    exact ih (index + 1)

/-- The artifact of groups and steps that are paired. -/
theorem assertOk_of_paired {groups : List ExpectedPracticeGroup} {steps : List PracticeAttackStep}
    (h : List.Forall₂ (Paired timeline) groups steps)
    (hgroups : timeline.expectedPracticeGroups = .ok groups)
    (hsteps : timeline.practiceAttackSteps sha1 = .ok steps) {scoreId revisionId : String}
    (hscore : scoreId ≠ "") (hrevision : revisionId ≠ "") (digest : String) :
    ∃ artifact, practiceScoreArtifactFromTimeline sha1 timeline scoreId revisionId digest =
      .ok artifact ∧ artifact.assertOk = .ok () := by
  unfold practiceScoreArtifactFromTimeline
  rw [hgroups, hsteps]
  refine ⟨_, rfl, ?_⟩
  have hartifact : "practice-score-artifact-v1:" ++ digest ≠ "" := by
    intro hempty
    have hlist := congrArg String.toList hempty
    rw [String.toList_append] at hlist
    exact absurd hlist (by simp)
  unfold PracticeScoreArtifact.assertOk
  rw [if_neg (not_not.mpr rfl), if_neg (by simp only [not_or]; exact ⟨hscore, hrevision, hartifact⟩),
    if_neg]
  · exact assertPairs_ok h 0
  · rw [List.length_map, List.length_map]
    exact not_not.mpr h.length_eq.symm

/-! ## Timelines -/

theorem fromNoteArray_built {noteArray : Option (List NoteRow)} {root : Option Xml.Node}
    (hdurations : ∀ rows ∈ noteArray, ∀ row ∈ rows, 0 ≤ row.durationBeat) :
    Built sha1 (fromNoteArray sha1 noteArray root) := by
  cases noteArray with
  | none =>
    refine ⟨⟨List.nodup_nil, ?_, ?_, ?_, ?_⟩, ?_⟩
    · exact fun event hevent => absurd hevent List.not_mem_nil
    · exact fun event hevent => absurd hevent List.not_mem_nil
    · exact fun event hevent => absurd hevent List.not_mem_nil
    · exact fun event hevent => absurd hevent List.not_mem_nil
    · show [] = ([].mergeSort _).map _
      rw [List.mergeSort_nil]
      rfl
  | some rows => exact ⟨eventsOf_ok (hdurations rows rfl), rfl⟩

theorem forall₂_map_map {α β γ : Type} {R : β → γ → Prop} {f : α → β} {g : α → γ} {xs : List α}
    (h : ∀ x ∈ xs, R (f x) (g x)) : List.Forall₂ R (xs.map f) (xs.map g) := by
  rw [List.forall₂_map_left_iff, List.forall₂_map_right_iff, List.forall₂_same]
  exact h

/-- The groups and the steps of a timeline are paired, at beats that grow, and are
accepted by the policy and by the browser. -/
theorem timeline_paired (sha1 : String → String) (noteArray : Option (List NoteRow))
    (root : Option Xml.Node)
    (hdurations : ∀ rows ∈ noteArray, ∀ row ∈ rows, 0 ≤ row.durationBeat) :
    let timeline := fromNoteArray sha1 noteArray root
    (timeline.events.map (·.eventId)).Nodup ∧ (timeline.entryGroups.map (·.groupId)).Nodup ∧
      ∃ groups steps, timeline.expectedPracticeGroups = .ok groups ∧
        timeline.practiceAttackSteps sha1 = .ok steps ∧
        groups.length = steps.length ∧
        (groups.map (·.groupId)).Nodup ∧
        (groups.map (·.onsetBeat)).Pairwise (· < ·) ∧
        List.Forall₂ (Paired timeline) groups steps ∧
        WaitForNoteFollowPolicy.validateAttackStepPairing groups steps = .ok () ∧
        ∀ scoreId revisionId digest, scoreId ≠ "" → revisionId ≠ "" →
          ∃ artifact, practiceScoreArtifactFromTimeline sha1 timeline scoreId revisionId digest =
            .ok artifact ∧ artifact.assertOk = .ok () := by
  intro timeline
  have hbuilt : Built sha1 timeline := fromNoteArray_built hdurations
  have hentryIds : (timeline.entryGroups.map (·.groupId)).Nodup := by
    rw [hbuilt.entryGroups]
    exact entryGroups_ids_nodup sha1 hbuilt.events
  have hgroups := hbuilt.expectedPracticeGroups_eq
  have hsteps : timeline.practiceAttackSteps sha1 = _ := practiceAttackSteps_eq hbuilt.events
  have hpaired : List.Forall₂ (Paired timeline)
      ((strikeOnsets timeline.events).map (groupAt sha1 timeline.events))
      ((strikeOnsets timeline.events).map (stepAt sha1 timeline.events)) :=
    forall₂_map_map fun onsetBeat honset => hbuilt.paired honset
  refine ⟨hbuilt.events.ids, hentryIds, _, _, hgroups, hsteps, hpaired.length_eq, ?_, ?_, hpaired,
    ?_, ?_⟩
  · rw [hbuilt.entryGroups, buildEntryGroups_eq, List.map_map] at hentryIds
    rw [List.map_map]
    exact hentryIds
  · rw [List.map_map]
    exact (List.map_id _).symm ▸ sortedOnsets_lt _
  · refine WaitForNoteFollowPolicy.validateAttackStepPairing_ok (hpaired.imp fun group step h => ?_)
    exact WaitForNoteFollowPolicy.validatePair_ok h.onset h.attackPitches
  · exact fun scoreId revisionId digest hscore hrevision =>
      assertOk_of_paired hpaired hgroups hsteps hscore hrevision digest

/-- A chord one note of which is tied to the next beat. -/
def tiedRows : List NoteRow :=
  [⟨0, 1, 60, some 1, "n1"⟩, ⟨0, 1, 64, some 1, "n2"⟩, ⟨1, 2, 60, some 1, "n3"⟩]

def tiedScore : Xml.Node :=
  .element "score-partwise" [] [.element "part" [("id", "P1")] [.element "measure" [("number", "1")] [
    .element "note" [("id", "n1")] [.leaf "voice" "1", .element "tie" [("type", "start")] []],
    .element "note" [("id", "n2")] [.leaf "voice" "1"],
    .element "note" [("id", "n3")] [.leaf "voice" "1", .element "tie" [("type", "stop")] []]]]]

theorem timeline_paired_tiedChord :
    (∀ rows ∈ some tiedRows, ∀ row ∈ rows, 0 ≤ row.durationBeat) ∧
      let timeline := fromNoteArray (fun _ => "0123456789ab") (some tiedRows) (some tiedScore)
      ∃ groups steps, timeline.expectedPracticeGroups = .ok groups ∧
        timeline.practiceAttackSteps (fun _ => "0123456789ab") = .ok steps ∧
        List.Forall₂ (Paired timeline) groups steps := by
  have hdurations : ∀ rows ∈ some tiedRows, ∀ row ∈ rows, 0 ≤ row.durationBeat := by
    decide
  obtain ⟨-, -, groups, steps, hgroups, hsteps, -, -, -, hpaired, -⟩ :=
    timeline_paired (fun _ => "0123456789ab") (some tiedRows) (some tiedScore) hdurations
  exact ⟨hdurations, groups, steps, hgroups, hsteps, hpaired⟩

end NoteVerse.Practice.ScoreTimeline

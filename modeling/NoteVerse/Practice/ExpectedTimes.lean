import NoteVerse.Practice.ScopeProjection

/-!
# The times at which groups are expected

`_expected_events_for_scope` of `processing/performance/evaluator.py`, for the scopes of a
note array's timeline (`resolveScope_groups`). The timeline clamps a beat to 0, so that the
groups of a pickup before beat 0 have one time: the times of a scope's groups are apart if
and only if the groups after the first come after beat 0
(`expectedEvents_apart_iff`).
-/

namespace NoteVerse.Practice

open ScoreTimeline

namespace PerformanceTimeline

/-- `ExpectedPerformanceEvent` -/
structure ExpectedEvent where
  expectedGroup : ScoreTimeline.ExpectedPracticeGroup
  performanceTimeMs : ℚ

/-- The groups that a scope is about. -/
def groupsForScope (scoreTimeline : PracticeScoreTimeline) (scope : ResolvedPerformanceScope) :
    Except String (List ScoreTimeline.ExpectedPracticeGroup) := do
  let groups ← scoreTimeline.expectedPracticeGroups
  if groups = [] then return []
  else
    let startIndex ← indexOr groups scope.startGroupId 0
    let endIndex ← indexOr groups scope.endGroupId (groups.length - 1)
    return (groups.take (endIndex + 1)).drop startIndex

/-- `_expected_events_for_scope` -/
def expectedEventsForScope (timeline : PerformanceTimeline) (scoreTimeline : PracticeScoreTimeline)
    (scope : ResolvedPerformanceScope) : Except String (List ExpectedEvent) := do
  let groups ← groupsForScope scoreTimeline scope
  return groups.map fun group =>
    ⟨group, timeline.beatToTimeMs group.onsetBeat - scope.nominalStartTimeMs⟩

/-! ## Clamped beats -/

variable {timeline : PerformanceTimeline} {x y : ℚ}

theorem beatToTimeMs_max (timeline : PerformanceTimeline) (x : ℚ) :
    timeline.beatToTimeMs (max x 0) = timeline.beatToTimeMs x := by
  unfold beatToTimeMs
  rw [max_assoc, max_self]

/-- Beats up to 0 have one time. -/
theorem beatToTimeMs_of_nonpos (hx : x ≤ 0) :
    timeline.beatToTimeMs x = timeline.beatToTimeMs 0 := by
  rw [← beatToTimeMs_max, max_eq_right hx]

theorem Tiled.beatToTimeMs_lt (h : timeline.Tiled) (hxy : x < y) (hy : 0 < y)
    (hend : y ≤ timeline.endBeat) : timeline.beatToTimeMs x < timeline.beatToTimeMs y := by
  rw [← beatToTimeMs_max timeline x]
  have hlt : max x 0 < y := max_lt hxy hy
  exact h.strictMonoOn ⟨le_max_right _ _, hlt.le.trans hend⟩ ⟨hy.le, hend⟩ hlt

theorem Tiled.beatToTimeMs_le (h : timeline.Tiled) (hxy : x ≤ y) (hend : y ≤ timeline.endBeat) :
    timeline.beatToTimeMs x ≤ timeline.beatToTimeMs y := by
  by_cases hy : 0 < y
  · obtain hlt | rfl := hxy.lt_or_eq
    · exact (h.beatToTimeMs_lt hlt hy hend).le
    · exact le_rfl
  · have hy := not_lt.mp hy
    rw [beatToTimeMs_of_nonpos hy, beatToTimeMs_of_nonpos (hxy.trans hy)]

/-! ## The end of a score -/

variable {scoreEndBeat : ℚ} {tempoSegments : List TempoSegment}

theorem bpm_pos_of_mapM {valid : List PerformanceArtifact.NormalizedTempo}
    {tempoSegments : List TempoSegment} (h : tempoSegments.mapM checkTempo = .ok valid) :
    ∀ segment ∈ tempoSegments, 0 < segment.bpm := by
  induction tempoSegments generalizing valid with
  | nil => exact fun _ h => absurd h List.not_mem_nil
  | cons segment segments ih =>
    rw [List.mapM_cons] at h
    obtain ⟨tempo, htempo, h⟩ := Python.bind_eq_ok.mp h
    obtain ⟨tempos, htempos, -⟩ := Python.bind_eq_ok.mp h
    refine List.forall_mem_cons.mpr ⟨?_, ih htempos⟩
    unfold checkTempo at htempo
    split_ifs at htempo with hle
    exact not_le.mp hle

/-- A timeline is tiled, whatever the tempos of a score without beats are. -/
theorem tiled_of_ok (h : fromScoreTimeline scoreEndBeat tempoSegments = .ok timeline) :
    timeline.Tiled := by
  by_cases hend : roundBeat scoreEndBeat ≤ 0
  · obtain rfl : ⟨0, []⟩ = timeline := Except.ok.inj ((if_pos hend).symm.trans h)
    exact ⟨le_rfl, rfl⟩
  · have hok := (if_neg hend).symm.trans h
    obtain ⟨tempos, htempos, -⟩ := Python.bind_eq_ok.mp hok
    obtain ⟨valid, hvalid, -⟩ := Python.bind_eq_ok.mp htempos
    have hsorted := List.mergeSort_perm tempoSegments fun a b => a.startBeat ≤ b.startBeat
    refine fromScoreTimeline_tiled (fun segment hmem => ?_) h
    exact bpm_pos_of_mapM hvalid segment (hsorted.mem_iff.mpr hmem)

theorem roundBeat_le_endBeat (h : fromScoreTimeline scoreEndBeat tempoSegments = .ok timeline) :
    roundBeat scoreEndBeat ≤ timeline.endBeat := by
  by_cases hend : roundBeat scoreEndBeat ≤ 0
  · obtain rfl : ⟨0, []⟩ = timeline := Except.ok.inj ((if_pos hend).symm.trans h)
    exact hend
  · have hok := (if_neg hend).symm.trans h
    obtain ⟨tempos, -, htempos⟩ := Python.bind_eq_ok.mp hok
    obtain rfl := Except.ok.inj htempos
    exact le_rfl

/-! ## The groups of a scope -/

variable {sha1 : String → String} {scoreTimeline : PracticeScoreTimeline}
  {scope : ResolvedPerformanceScope}

/-- A timeline that was built from its events and does not end before one begins. -/
structure Ends (sha1 : String → String) (scoreTimeline : PracticeScoreTimeline) : Prop where
  built : Built sha1 scoreTimeline
  onset_le : ∀ event ∈ scoreTimeline.events, event.onsetBeat ≤ scoreTimeline.endBeat

theorem fromNoteArray_ends {noteArray : Option (List NoteRow)} {root : Option Xml.Node}
    (hdurations : ∀ rows ∈ noteArray, ∀ row ∈ rows, 0 ≤ row.durationBeat) :
    Ends sha1 (fromNoteArray sha1 noteArray root) := by
  have hbuilt : Built sha1 (fromNoteArray sha1 noteArray root) := fromNoteArray_built hdurations
  refine ⟨hbuilt, fun event hevent => ?_⟩
  cases noteArray with
  | none => exact absurd hevent List.not_mem_nil
  | some rows =>
    have hplayable : event ∈ (eventsOf rows root).filter PracticeScoreEvent.playable := by
      obtain ⟨_, _, -, rfl⟩ := exists_group_of_mem hevent
      exact List.mem_filter.mpr ⟨hevent, rfl⟩
    have hmem := List.mem_map_of_mem (f := fun event => event.onsetBeat + event.durationBeats)
      hplayable
    obtain ⟨last, hlast⟩ := Option.isSome_iff_exists.mp (List.isSome_max?_of_mem hmem)
    have hend : (fromNoteArray sha1 (some rows) root).endBeat = roundBeat last := by
      simp only [fromNoteArray, hlast, Option.getD_some]
    have hle : event.onsetBeat ≤ last := by
      have hduration := hbuilt.events.durations event hevent
      have hends := (List.max?_eq_some_iff.mp hlast).2 _ hmem
      linarith
    obtain ⟨n, hn⟩ := hbuilt.events.scaled event hevent
    rw [hend, ← Rounding.round_of_scaled hn]
    exact Rounding.round_mono hle

theorem Ends.strikeOnset_le (h : Ends sha1 scoreTimeline) {onsetBeat : ℚ}
    (honset : onsetBeat ∈ strikeOnsets scoreTimeline.events) :
    onsetBeat ≤ scoreTimeline.endBeat := by
  obtain ⟨event, hevent⟩ := List.exists_mem_of_ne_nil _ (mem_strikeOnsets.mp honset)
  obtain ⟨hmem, -, rfl⟩ := mem_candidatesAt.mp hevent
  exact h.onset_le event hmem

/-- The id of the group found leads to the group again. -/
theorem indexOr_again {groups : List ScoreTimeline.ExpectedPracticeGroup} {id : Option String}
    {default index : Nat} {group : ScoreTimeline.ExpectedPracticeGroup}
    (h : indexOr groups id default = .ok index) (hget : groups[index]? = some group) :
    indexOr groups ((givenId id).map fun _ => group.groupId) default = .ok index := by
  unfold indexOr at h
  cases hid : givenId id with
  | none =>
    rw [hid] at h
    exact h
  | some groupId =>
    rw [hid] at h
    have h : groupIndex groups groupId = .ok index := h
    have hne : groupId ≠ "" := by
      have := (Option.filter_eq_some_iff.mp hid).2
      simpa using this
    have hfound : group.groupId = groupId := by
      unfold groupIndex at h
      split at h
      · exact absurd h (by simp)
      · rename_i found hfind
        obtain rfl := Except.ok.inj h
        obtain ⟨hlt, hat, -⟩ := List.findIdx?_eq_some_iff_getElem.mp hfind
        rw [List.getElem?_eq_getElem hlt] at hget
        rw [← Option.some.inj hget]
        simpa using hat
    have hgiven : givenId (some group.groupId) = some groupId := by
      rw [hfound]
      exact Option.filter_eq_some_iff.mpr ⟨rfl, by simpa using hne⟩
    rw [Option.map_some]
    unfold indexOr
    rw [hgiven]
    exact h

theorem drop_take_cons {α : Type} {xs : List α} {i j : Nat} {x : α} (h : xs[i]? = some x)
    (hij : i ≤ j) : (xs.take (j + 1)).drop i = x :: (xs.take (j + 1)).drop (i + 1) := by
  rw [List.drop_eq_getElem?_toList_append, List.getElem?_take_of_lt (by omega), h]
  rfl

/-- The last of a sorted slice. -/
theorem rel_of_mem_take {α : Type} {R : α → α → Prop} {xs : List α} {j : Nat} {x y : α}
    (hsorted : xs.Pairwise R) (hy : xs[j]? = some y) (hx : x ∈ xs.take (j + 1)) :
    x = y ∨ R x y := by
  obtain ⟨i, hi⟩ := List.mem_iff_getElem?.mp hx
  have hlt : i < j + 1 := by
    by_contra hge
    rw [List.getElem?_take_eq_none (by omega)] at hi
    exact absurd hi (by simp)
  rw [List.getElem?_take_of_lt hlt] at hi
  obtain ⟨hilt, rfl⟩ := List.getElem?_eq_some_iff.mp hi
  obtain ⟨hjlt, rfl⟩ := List.getElem?_eq_some_iff.mp hy
  obtain rfl | hne := eq_or_ne i j
  · exact .inl rfl
  · exact .inr (List.pairwise_iff_getElem.mp hsorted i j hilt hjlt (by omega))

/-- The scope of two groups that are found. -/
structure ScopeOf (timeline : PerformanceTimeline) (scoreTimeline : PracticeScoreTimeline)
    (endId : Option String) (startGroup endGroup : ScoreTimeline.ExpectedPracticeGroup)
    (scope : ResolvedPerformanceScope) : Prop where
  startBeat : scope.startBeat = roundBeat startGroup.onsetBeat
  terminal : ∃ terminal, terminalCandidate scoreTimeline endId endGroup = .ok terminal ∧
    scope.terminalBeat = min (roundBeat terminal) timeline.endBeat

theorem scopeOf_cases {startId endId : Option String}
    {startGroup endGroup : ScoreTimeline.ExpectedPracticeGroup}
    (h : timeline.scopeOf scoreTimeline startId endId startGroup endGroup = .ok scope) :
    ScopeOf timeline scoreTimeline endId startGroup endGroup scope ∧
      scope.startGroupId = (givenId startId).map (fun _ => startGroup.groupId) ∧
      scope.endGroupId = (givenId endId).map fun _ => endGroup.groupId := by
  obtain ⟨terminal, hterminal, hscope⟩ := Python.bind_eq_ok.mp h
  dsimp only at hscope
  split_ifs at hscope
  obtain rfl := Except.ok.inj hscope
  exact ⟨⟨rfl, terminal, hterminal, rfl⟩, rfl, rfl⟩

/-- A group that a scope ends with begins before the scope ends. -/
theorem ScopeOf.onset_le {endId : Option String}
    {startGroup : ScoreTimeline.ExpectedPracticeGroup} {onsetBeat : ℚ}
    (h : ScopeOf timeline scoreTimeline endId startGroup
      (groupAt sha1 scoreTimeline.events onsetBeat) scope)
    (hends : Ends sha1 scoreTimeline)
    (htimeline : fromScoreTimeline scoreTimeline.endBeat tempoSegments = .ok timeline)
    (honset : onsetBeat ∈ strikeOnsets scoreTimeline.events) : onsetBeat ≤ scope.terminalBeat := by
  obtain ⟨terminal, hterminal, hbeat⟩ := h.terminal
  obtain ⟨n, hn⟩ := strikeOnsets_scaled hends.built.events honset
  have hround : roundBeat onsetBeat = onsetBeat := Rounding.round_of_scaled hn
  have hle : onsetBeat ≤ terminal := by
    unfold terminalCandidate at hterminal
    cases endId with
    | none =>
      rw [← Except.ok.inj hterminal]
      exact hends.strikeOnset_le honset
    | some _ =>
      obtain ⟨endBeat, hfound, hle⟩ := hends.built.endBeat honset
      have hgroup : scoreTimeline.entryGroupEndBeat
          (groupAt sha1 scoreTimeline.events onsetBeat).groupId = some endBeat := hfound
      rw [hgroup] at hterminal
      rw [← Except.ok.inj hterminal]
      exact hle
  rw [hbeat]
  refine le_min ?_ ?_
  · exact hround.symm.le.trans (Rounding.round_mono hle)
  · calc onsetBeat = roundBeat onsetBeat := hround.symm
      _ ≤ roundBeat scoreTimeline.endBeat := Rounding.round_mono (hends.strikeOnset_le honset)
      _ ≤ timeline.endBeat := roundBeat_le_endBeat htimeline

/-- The groups of a scope begin one after the other, from the start of the scope until its
end. -/
theorem resolveScope_groups {startId endId : Option String} (hends : Ends sha1 scoreTimeline)
    (htimeline : fromScoreTimeline scoreTimeline.endBeat tempoSegments = .ok timeline)
    (h : timeline.resolveScope scoreTimeline startId endId = .ok scope) :
    ∃ first rest, groupsForScope scoreTimeline scope = .ok (first :: rest) ∧
      scope.startBeat = first.onsetBeat ∧
      (first :: rest).Pairwise (·.onsetBeat < ·.onsetBeat) ∧
      ∀ group ∈ first :: rest, group.onsetBeat ≤ scope.terminalBeat := by
  obtain ⟨groups, startIndex, endIndex, startGroup, endGroup, hgroups, hstart, hend, hle, hfirst,
    hlast, hscope⟩ := resolveScope_cases h
  obtain ⟨hscopeOf, hstartId, hendId⟩ := scopeOf_cases hscope
  rw [hends.built.expectedPracticeGroups_eq] at hgroups
  have hgroups' := Except.ok.inj hgroups
  have hsorted : groups.Pairwise (·.onsetBeat < ·.onsetBeat) := by
    rw [← hgroups', List.pairwise_map]
    exact sortedOnsets_lt _
  have hnil : groups ≠ [] := by
    rintro rfl
    exact absurd hfirst (by simp)
  have hslice := drop_take_cons hfirst hle
  refine ⟨startGroup, (groups.take (endIndex + 1)).drop (startIndex + 1), ?_, ?_, ?_, ?_⟩
  · unfold groupsForScope
    rw [hends.built.expectedPracticeGroups_eq, hgroups', Python.ok_bind, if_neg hnil, hstartId,
      hendId, indexOr_again hstart hfirst, Python.ok_bind, indexOr_again hend hlast,
      Python.ok_bind, hslice]
    rfl
  · have hmem := List.mem_of_getElem? hfirst
    rw [← hgroups'] at hmem
    obtain ⟨onsetBeat, honset, rfl⟩ := List.mem_map.mp hmem
    obtain ⟨n, hn⟩ := strikeOnsets_scaled hends.built.events honset
    exact hscopeOf.startBeat.trans (Rounding.round_of_scaled hn)
  · rw [← hslice]
    exact (hsorted.sublist (List.take_sublist _ _)).sublist (List.drop_sublist _ _)
  · intro group hgroup
    rw [← hslice] at hgroup
    have hmem := List.mem_of_getElem? hlast
    rw [← hgroups'] at hmem
    obtain ⟨onsetBeat, honset, rfl⟩ := List.mem_map.mp hmem
    have hterminal := hscopeOf.onset_le hends htimeline honset
    obtain rfl | hlt := rel_of_mem_take hsorted hlast (List.mem_of_mem_drop hgroup)
    · exact hterminal
    · exact hlt.le.trans hterminal

/-! ## The times of a scope -/

/-- The times of the expected groups are apart, from 0 on and in the scope. -/
structure TimesApart (scope : ResolvedPerformanceScope) (events : List ExpectedEvent) :
    Prop where
  increasing : events.Pairwise (·.performanceTimeMs < ·.performanceTimeMs)
  start : events.head?.map (·.performanceTimeMs) = some 0
  within : ∀ event ∈ events, event.performanceTimeMs ∈ Set.Icc 0 scope.nominalDurationMs

theorem timesApart_iff (htiled : timeline.Tiled) (hscope : ScopeOk timeline scope)
    {first : ScoreTimeline.ExpectedPracticeGroup}
    {rest : List ScoreTimeline.ExpectedPracticeGroup} (hstart : scope.startBeat = first.onsetBeat)
    (hsorted : (first :: rest).Pairwise (·.onsetBeat < ·.onsetBeat))
    (hterminal : ∀ group ∈ first :: rest, group.onsetBeat ≤ scope.terminalBeat) :
    TimesApart scope ((first :: rest).map fun group =>
      ⟨group, timeline.beatToTimeMs group.onsetBeat - scope.nominalStartTimeMs⟩) ↔
      ∀ group ∈ rest, 0 < group.onsetBeat := by
  have hstartTime : scope.nominalStartTimeMs = timeline.beatToTimeMs first.onsetBeat := by
    rw [hscope.startTime, hstart]
  have hend : ∀ group ∈ first :: rest, group.onsetBeat ≤ timeline.endBeat := fun group hgroup =>
    (hterminal group hgroup).trans hscope.terminal_le
  obtain ⟨hfirst, hrest⟩ := List.pairwise_cons.mp hsorted
  have hend' := (List.forall_mem_cons.mp hend).2
  constructor
  · intro h group hgroup
    by_contra hnonpos
    have hnonpos := not_lt.mp hnonpos
    have hlt := (List.pairwise_cons.mp (List.pairwise_map.mp h.increasing)).1 group hgroup
    dsimp only at hlt
    rw [beatToTimeMs_of_nonpos hnonpos,
      beatToTimeMs_of_nonpos ((hfirst group hgroup).le.trans hnonpos)] at hlt
    exact absurd hlt (lt_irrefl _)
  · intro hpos
    refine ⟨?_, ?_, ?_⟩
    · refine List.pairwise_map.mpr (List.pairwise_cons.mpr ⟨fun group hgroup => ?_, ?_⟩)
      · exact sub_lt_sub_right (htiled.beatToTimeMs_lt (hfirst group hgroup) (hpos group hgroup)
          (hend' group hgroup)) _
      · refine hrest.imp_of_mem fun _ hgroup hlt => ?_
        exact sub_lt_sub_right (htiled.beatToTimeMs_lt hlt (hpos _ hgroup) (hend' _ hgroup)) _
    · rw [List.map_cons, List.head?_cons, Option.map_some, hstartTime, sub_self]
    · intro event hevent
      obtain ⟨group, hgroup, rfl⟩ := List.mem_map.mp hevent
      have hle : first.onsetBeat ≤ group.onsetBeat := by
        obtain rfl | hgroup := List.mem_cons.mp hgroup
        · exact le_rfl
        · exact (hfirst group hgroup).le
      have hfrom := htiled.beatToTimeMs_le hle (hend group hgroup)
      have hto := htiled.beatToTimeMs_le (hterminal group hgroup) hscope.terminal_le
      refine ⟨?_, ?_⟩
      · exact sub_nonneg.mpr (hstartTime.le.trans hfrom)
      · refine le_trans ?_ (le_max_right _ _)
        rw [hscope.endTime]
        exact sub_le_sub_right hto _

/-- The times of a scope's groups are apart if and only if the groups after the first one
come after beat 0. -/
theorem expectedEvents_apart_iff (sha1 : String → String) (noteArray : Option (List NoteRow))
    (root : Option Xml.Node) (tempoSegments : List TempoSegment) (startId endId : Option String)
    (timeline : PerformanceTimeline) (scope : ResolvedPerformanceScope)
    (hdurations : ∀ rows ∈ noteArray, ∀ row ∈ rows, 0 ≤ row.durationBeat)
    (htimeline : fromScoreTimeline (fromNoteArray sha1 noteArray root).endBeat tempoSegments =
      .ok timeline)
    (hscope : timeline.resolveScope (fromNoteArray sha1 noteArray root) startId endId =
      .ok scope) :
    ∃ groups events,
      groupsForScope (fromNoteArray sha1 noteArray root) scope = .ok groups ∧
      timeline.expectedEventsForScope (fromNoteArray sha1 noteArray root) scope = .ok events ∧
      (TimesApart scope events ↔ ∀ group ∈ groups.tail, 0 < group.onsetBeat) := by
  have hends : Ends sha1 (fromNoteArray sha1 noteArray root) := fromNoteArray_ends hdurations
  obtain ⟨first, rest, hgroups, hstart, hsorted, hterminal⟩ :=
    resolveScope_groups hends htimeline hscope
  refine ⟨_, _, hgroups, ?_, timesApart_iff (tiled_of_ok htimeline)
    (resolveScope_ok (fromScoreTimeline_rounded htimeline) hscope) hstart hsorted hterminal⟩
  unfold expectedEventsForScope
  rw [hgroups]
  rfl

/-! ## A pickup -/

/-- A note and another one before the first measure. -/
def pickupRows : List NoteRow :=
  [⟨-1, 1 / 2, 60, some 1, "n1"⟩, ⟨-1 / 2, 2, 62, some 1, "n2"⟩]

def pickupScore : PracticeScoreTimeline :=
  fromNoteArray (fun _ => "0123456789ab") (some pickupRows) none

def pickupTimeline : PerformanceTimeline :=
  ⟨3 / 2, [⟨0, 3 / 2, 0, 120, defaultBpm_pos⟩]⟩

def pickupScope : ResolvedPerformanceScope where
  startGroupId := none
  endGroupId := none
  startBeat := -1
  terminalBeat := 3 / 2
  nominalStartTimeMs := 0
  nominalEndTimeMs := 750

theorem pickupRows_durations : ∀ rows ∈ some pickupRows, ∀ row ∈ rows, 0 ≤ row.durationBeat := by
  decide +kernel

theorem sortedNotes_pickup : sortedNotes pickupRows none =
    (Js.JsMap.groupBy eventKey (timelineNotes pickupRows none)).entries :=
  List.mergeSort_of_pairwise (by decide +kernel)

theorem strikeOnsets_pickup : strikeOnsets pickupScore.events = [-1, -1 / 2] := by
  show strikeOnsets (eventsOf pickupRows none) = _
  unfold strikeOnsets sortedOnsets eventsOf
  rw [sortedNotes_pickup, List.mergeSort_of_pairwise (by decide +kernel)]
  decide +kernel

theorem endBeat_pickup : pickupScore.endBeat = 3 / 2 := by
  show roundBeat ((((eventsOf pickupRows none).filter PracticeScoreEvent.playable).map
    fun event => event.onsetBeat + event.durationBeats).max?.getD 0) = _
  unfold eventsOf
  rw [sortedNotes_pickup]
  decide +kernel

theorem expectedPracticeGroups_pickup : pickupScore.expectedPracticeGroups =
    .ok [groupAt (fun _ => "0123456789ab") pickupScore.events (-1),
      groupAt (fun _ => "0123456789ab") pickupScore.events (-1 / 2)] := by
  have hbuilt : Built (fun _ => "0123456789ab") pickupScore :=
    fromNoteArray_built pickupRows_durations
  rw [hbuilt.expectedPracticeGroups_eq, strikeOnsets_pickup]
  rfl

theorem fromScoreTimeline_pickup :
    fromScoreTimeline pickupScore.endBeat [] = .ok pickupTimeline := by
  rw [endBeat_pickup]
  unfold fromScoreTimeline normalizedTempoSegments
  rw [List.mergeSort_nil]
  decide +kernel

theorem resolveScope_pickup :
    pickupTimeline.resolveScope pickupScore none none = .ok pickupScope := by
  unfold resolveScope
  rw [expectedPracticeGroups_pickup]
  show pickupTimeline.scopeOf pickupScore none none _ _ = _
  unfold scopeOf terminalCandidate
  rw [endBeat_pickup]
  show (Except.ok (3 / 2) >>= _) = _
  rw [Python.ok_bind]
  have honset : (groupAt (fun _ => "0123456789ab") pickupScore.events (-1)).onsetBeat = -1 := rfl
  rw [honset]
  decide +kernel

theorem expectedEvents_pickup : ∃ events : List ExpectedEvent,
    pickupTimeline.expectedEventsForScope pickupScore pickupScope = .ok events ∧
      events.map (·.performanceTimeMs) = [0, 0] := by
  have hgroups : groupsForScope pickupScore pickupScope =
      .ok [groupAt (fun _ => "0123456789ab") pickupScore.events (-1),
        groupAt (fun _ => "0123456789ab") pickupScore.events (-1 / 2)] := by
    unfold groupsForScope
    rw [expectedPracticeGroups_pickup]
    rfl
  refine ⟨_, by rw [expectedEventsForScope, hgroups]; rfl, ?_⟩
  show [pickupTimeline.beatToTimeMs (-1) - 0, pickupTimeline.beatToTimeMs (-1 / 2) - 0] = [0, 0]
  decide +kernel

/-- The groups of the pickup are expected at one time. -/
theorem expectedEvents_not_apart :
    ¬ ∀ (sha1 : String → String) (noteArray : Option (List NoteRow)) (root : Option Xml.Node)
      (tempoSegments : List TempoSegment) (startId endId : Option String)
      (timeline : PerformanceTimeline) (scope : ResolvedPerformanceScope),
      (∀ rows ∈ noteArray, ∀ row ∈ rows, 0 ≤ row.durationBeat) →
      fromScoreTimeline (fromNoteArray sha1 noteArray root).endBeat tempoSegments = .ok timeline →
      timeline.resolveScope (fromNoteArray sha1 noteArray root) startId endId = .ok scope →
      ∃ events,
        timeline.expectedEventsForScope (fromNoteArray sha1 noteArray root) scope = .ok events ∧
        TimesApart scope events := by
  intro hall
  obtain ⟨events, hevents, hapart⟩ := hall (fun _ => "0123456789ab") (some pickupRows) none [] none
    none pickupTimeline pickupScope pickupRows_durations fromScoreTimeline_pickup
    resolveScope_pickup
  obtain ⟨events', hevents', htimes⟩ := expectedEvents_pickup
  obtain rfl := Except.ok.inj (hevents.symm.trans hevents')
  have hincreasing : (events.map (·.performanceTimeMs)).Pairwise (· < ·) :=
    List.pairwise_map.mpr hapart.increasing
  rw [htimes] at hincreasing
  exact absurd hincreasing (by decide)

theorem expectedEvents_pickup_iff :
    ∃ groups events, groupsForScope pickupScore pickupScope = .ok groups ∧
      pickupTimeline.expectedEventsForScope pickupScore pickupScope = .ok events ∧
      (TimesApart pickupScope events ↔ ∀ group ∈ groups.tail, 0 < group.onsetBeat) :=
  expectedEvents_apart_iff (fun _ => "0123456789ab") (some pickupRows) none [] none none
    pickupTimeline pickupScope pickupRows_durations fromScoreTimeline_pickup resolveScope_pickup

end PerformanceTimeline

end NoteVerse.Practice

import NoteVerse.Practice.TempoTimeline
import NoteVerse.Practice.TimelinePairing

/-!
# Scopes on the timeline

`resolve_scope` and `projection_for_scope` of `processing/performance/timeline.py`. The
segments of a projection are what a scope cuts out of the timeline, so that they tile the
scope (`projection_tiles`), and are lines on which the time of a beat lies.
-/

namespace NoteVerse.Practice

open PiecewiseLinear ScoreTimeline

namespace PerformanceTimeline

/-! ## Scopes -/

/-- An id that is given and not empty. -/
def givenId (expectedGroupId : Option String) : Option String :=
  expectedGroupId.filter (· ≠ "")

/-- `_group_index` -/
def groupIndex (expectedGroups : List ScoreTimeline.ExpectedPracticeGroup)
    (expectedGroupId : String) : Except String Nat :=
  match expectedGroups.findIdx? (·.groupId = expectedGroupId) with
  | none => .error s!"Practice scope target not found: {expectedGroupId}"
  | some index => .ok index

/-- The index of a group whose id may be given. -/
def indexOr (expectedGroups : List ScoreTimeline.ExpectedPracticeGroup)
    (expectedGroupId : Option String) (default : Nat) : Except String Nat :=
  match givenId expectedGroupId with
  | none => .ok default
  | some expectedGroupId => groupIndex expectedGroups expectedGroupId

/-- The beat at which a scope ends, before it is rounded. -/
def terminalCandidate (scoreTimeline : PracticeScoreTimeline) (endExpectedGroupId : Option String)
    (endGroup : ScoreTimeline.ExpectedPracticeGroup) : Except String ℚ :=
  match endExpectedGroupId with
  | none => .ok scoreTimeline.endBeat
  | some _ =>
    match scoreTimeline.entryGroupEndBeat endGroup.groupId with
    | none => .error s!"Practice scope target not found: {endGroup.groupId}"
    | some terminalBeat => .ok terminalBeat

variable (timeline : PerformanceTimeline)

/-- The scope from one group to another. -/
def scopeOf (scoreTimeline : PracticeScoreTimeline)
    (startExpectedGroupId endExpectedGroupId : Option String)
    (startGroup endGroup : ScoreTimeline.ExpectedPracticeGroup) :
    Except String ResolvedPerformanceScope := do
  let terminal ← terminalCandidate scoreTimeline endExpectedGroupId endGroup
  let terminalBeat := min (roundBeat terminal) timeline.endBeat
  let startBeat := roundBeat startGroup.onsetBeat
  if terminalBeat < startBeat then
    .error "Performance scope terminal beat must not be before its start beat."
  else
    .ok {
      startGroupId := (givenId startExpectedGroupId).map fun _ => startGroup.groupId
      endGroupId := (givenId endExpectedGroupId).map fun _ => endGroup.groupId
      startBeat, terminalBeat
      nominalStartTimeMs := timeline.beatToTimeMs startBeat
      nominalEndTimeMs := timeline.beatToTimeMs terminalBeat }

def resolveScope (scoreTimeline : PracticeScoreTimeline)
    (startExpectedGroupId endExpectedGroupId : Option String) :
    Except String ResolvedPerformanceScope := do
  let expectedGroups ← scoreTimeline.expectedPracticeGroups
  if expectedGroups = [] then .error "Performance scope requires playable groups."
  else
    let startIndex ← indexOr expectedGroups startExpectedGroupId 0
    let endIndex ← indexOr expectedGroups endExpectedGroupId (expectedGroups.length - 1)
    if endIndex < startIndex then
      .error "Performance scope end target must not be before the start target."
    else
      match expectedGroups[startIndex]?, expectedGroups[endIndex]? with
      | some startGroup, some endGroup =>
        timeline.scopeOf scoreTimeline startExpectedGroupId endExpectedGroupId startGroup endGroup
      | _, _ => .error "tuple index out of range"

/-! ## Projections -/

structure ProjectionSegment where
  startPerformanceTimeMs : ℚ
  endPerformanceTimeMs : ℚ
  startBeat : ℚ
  endBeat : ℚ
  deriving DecidableEq, Repr

structure Projection where
  scopeStartBeat : ℚ
  scopeTerminalBeat : ℚ
  segments : List ProjectionSegment
  deriving DecidableEq, Repr

/-- A segment as far as it is in the scope. -/
def projectSegment (scope : ResolvedPerformanceScope) (segment : TimelineSegment) :
    Option ProjectionSegment :=
  let startBeat := max segment.startBeat scope.startBeat
  let endBeat := min segment.endBeat scope.terminalBeat
  if endBeat ≤ startBeat then none
  else
    let startTimeMs := timeline.beatToTimeMs startBeat - scope.nominalStartTimeMs
    let endTimeMs := timeline.beatToTimeMs endBeat - scope.nominalStartTimeMs
    some {
      startPerformanceTimeMs := max 0 startTimeMs
      endPerformanceTimeMs := min scope.nominalDurationMs endTimeMs
      startBeat := roundBeat startBeat
      endBeat := roundBeat endBeat }

def projectionForScope (scope : ResolvedPerformanceScope) : Projection where
  scopeStartBeat := scope.startBeat
  scopeTerminalBeat := scope.terminalBeat
  segments :=
    if scope.nominalDurationMs ≤ 0 then []
    else timeline.segments.filterMap (timeline.projectSegment scope)

/-! ## What is known of a scope -/

variable {timeline} {scoreTimeline : PracticeScoreTimeline} {scope : ResolvedPerformanceScope}

/-- The beats of the timeline are rounded. -/
structure Rounded (timeline : PerformanceTimeline) : Prop where
  endBeat : roundBeat timeline.endBeat = timeline.endBeat
  segments : ∀ segment ∈ timeline.segments,
    roundBeat segment.startBeat = segment.startBeat ∧ roundBeat segment.endBeat = segment.endBeat

theorem segmentsFrom_rounded (endBeat time : ℚ)
    (tempos : List PerformanceArtifact.NormalizedTempo) :
    ∀ segment ∈ segmentsFrom endBeat time tempos,
      roundBeat segment.startBeat = segment.startBeat ∧
        roundBeat segment.endBeat = segment.endBeat := by
  induction tempos generalizing time with
  | nil => exact fun _ h => absurd h List.not_mem_nil
  | cons tempo tempos ih =>
    rw [segmentsFrom]
    split_ifs
    · exact ih time
    · exact List.forall_mem_cons.mpr ⟨⟨roundBeat_idem _, roundBeat_idem _⟩, ih _⟩

theorem fromScoreTimeline_rounded {scoreEndBeat : ℚ} {tempoSegments : List TempoSegment}
    (h : fromScoreTimeline scoreEndBeat tempoSegments = .ok timeline) : timeline.Rounded := by
  unfold fromScoreTimeline at h
  dsimp only at h
  split_ifs at h
  · obtain rfl := Except.ok.inj h
    exact ⟨roundBeat_zero, fun _ h => absurd h List.not_mem_nil⟩
  · obtain ⟨tempos, -, htempos⟩ := Python.bind_eq_ok.mp h
    obtain rfl := Except.ok.inj htempos
    exact ⟨roundBeat_idem _, segmentsFrom_rounded _ _ _⟩

/-- A scope that lies on the beats of a timeline, but may start before them. -/
structure ScopeOk (timeline : PerformanceTimeline) (scope : ResolvedPerformanceScope) : Prop where
  start_le : scope.startBeat ≤ scope.terminalBeat
  terminal_le : scope.terminalBeat ≤ timeline.endBeat
  startRounded : roundBeat scope.startBeat = scope.startBeat
  terminalRounded : roundBeat scope.terminalBeat = scope.terminalBeat
  startTime : scope.nominalStartTimeMs = timeline.beatToTimeMs scope.startBeat
  endTime : scope.nominalEndTimeMs = timeline.beatToTimeMs scope.terminalBeat

theorem scopeOf_ok {startId endId : Option String}
    {startGroup endGroup : ScoreTimeline.ExpectedPracticeGroup} (hrounded : timeline.Rounded)
    (h : timeline.scopeOf scoreTimeline startId endId startGroup endGroup = .ok scope) :
    ScopeOk timeline scope := by
  obtain ⟨terminal, -, hscope⟩ := Python.bind_eq_ok.mp h
  dsimp only at hscope
  split_ifs at hscope with hlt
  obtain rfl := Except.ok.inj hscope
  have hterminal : roundBeat (min (roundBeat terminal) timeline.endBeat) =
      min (roundBeat terminal) timeline.endBeat := by
    rw [roundBeat_mono.map_min, roundBeat_idem, hrounded.endBeat]
  exact ⟨not_lt.mp hlt, min_le_right _ _, roundBeat_idem _, hterminal, rfl, rfl⟩

/-- The groups of a scope that is resolved, and their places. -/
theorem resolveScope_cases {startId endId : Option String}
    (h : timeline.resolveScope scoreTimeline startId endId = .ok scope) :
    ∃ groups startIndex endIndex startGroup endGroup,
      scoreTimeline.expectedPracticeGroups = .ok groups ∧
      indexOr groups startId 0 = .ok startIndex ∧
      indexOr groups endId (groups.length - 1) = .ok endIndex ∧ startIndex ≤ endIndex ∧
      groups[startIndex]? = some startGroup ∧ groups[endIndex]? = some endGroup ∧
      timeline.scopeOf scoreTimeline startId endId startGroup endGroup = .ok scope := by
  obtain ⟨groups, hgroups, h⟩ := Python.bind_eq_ok.mp h
  split_ifs at h
  obtain ⟨startIndex, hstart, h⟩ := Python.bind_eq_ok.mp h
  obtain ⟨endIndex, hend, h⟩ := Python.bind_eq_ok.mp h
  split_ifs at h with hlt
  split at h
  · rename_i startGroup endGroup hstartGroup hendGroup
    exact ⟨groups, startIndex, endIndex, startGroup, endGroup, hgroups, hstart, hend,
      not_lt.mp hlt, hstartGroup, hendGroup, h⟩
  · exact absurd h (by simp)

theorem resolveScope_ok {startId endId : Option String} (hrounded : timeline.Rounded)
    (h : timeline.resolveScope scoreTimeline startId endId = .ok scope) :
    ScopeOk timeline scope := by
  obtain ⟨_, _, _, _, _, -, -, -, -, -, -, hscope⟩ := resolveScope_cases h
  exact scopeOf_ok hrounded hscope

/-! ## The projection of a scope -/

def ProjectionSegment.piece (segment : ProjectionSegment) : Piece ℚ :=
  ⟨segment.startBeat, segment.endBeat, segment.startPerformanceTimeMs,
    segment.endPerformanceTimeMs⟩

/-- The performance time of a beat in a scope. -/
def performanceTimeAt (timeline : PerformanceTimeline) (scope : ResolvedPerformanceScope)
    (beat : ℚ) : ℚ :=
  timeline.beatToTimeMs beat - scope.nominalStartTimeMs

/-- The segments of a projection tile the scope, and are lines on which the time of each
beat lies. -/
structure Projects (timeline : PerformanceTimeline) (scope : ResolvedPerformanceScope) : Prop where
  tiles : Tiles (scope.startBeat, 0)
    ((timeline.projectionForScope scope).segments.map ProjectionSegment.piece)
    (scope.terminalBeat, scope.nominalDurationMs)
  lines : ∀ segment ∈ (timeline.projectionForScope scope).segments, ∀ beat,
    segment.startBeat ≤ beat → beat ≤ segment.endBeat →
      segment.piece.eval beat = timeline.performanceTimeAt scope beat

theorem ScopeOk.start_mem (hscope : ScopeOk timeline scope) (hstart : 0 ≤ scope.startBeat) :
    scope.startBeat ∈ Set.Icc 0 timeline.endBeat :=
  ⟨hstart, hscope.start_le.trans hscope.terminal_le⟩

theorem ScopeOk.terminal_mem (hscope : ScopeOk timeline scope) (hstart : 0 ≤ scope.startBeat) :
    scope.terminalBeat ∈ Set.Icc 0 timeline.endBeat :=
  ⟨hstart.trans hscope.start_le, hscope.terminal_le⟩

theorem ScopeOk.duration_eq (htiled : timeline.Tiled) (hscope : ScopeOk timeline scope)
    (hstart : 0 ≤ scope.startBeat) :
    scope.nominalDurationMs = timeline.performanceTimeAt scope scope.terminalBeat := by
  have hle := htiled.strictMonoOn.monotoneOn (hscope.start_mem hstart) (hscope.terminal_mem hstart)
    hscope.start_le
  unfold ResolvedPerformanceScope.nominalDurationMs performanceTimeAt
  rw [hscope.endTime, hscope.startTime]
  exact max_eq_right (sub_nonneg.mpr hle)

/-- On a piece of the timeline the time of a beat is on the piece's line. -/
theorem Tiled.performanceTimeAt_eq (htiled : timeline.Tiled) (scope : ResolvedPerformanceScope) :
    ∀ p ∈ timeline.pieces, ∀ x, p.start ≤ x → x ≤ p.stop →
      timeline.performanceTimeAt scope x = p.eval x - scope.nominalStartTimeMs := by
  intro p hp x hpx hxp
  obtain ⟨-, hfirst, hlast, -⟩ := tiles_bounds htiled.tiles hp
  rw [performanceTimeAt, htiled.beatToTimeMs_eq ⟨hfirst.trans hpx, hxp.trans hlast⟩,
    valueD_eq htiled.tiles hp hpx hxp]

/-- The clamps and the rounding of a projection leave what a scope cuts out as it is. -/
theorem map_piece_projection (htiled : timeline.Tiled) (hrounded : timeline.Rounded)
    (hscope : ScopeOk timeline scope) (hstart : 0 ≤ scope.startBeat) :
    (timeline.segments.filterMap (timeline.projectSegment scope)).map ProjectionSegment.piece =
      clip (timeline.performanceTimeAt scope) scope.startBeat scope.terminalBeat
        timeline.pieces := by
  rw [List.map_filterMap, clip, pieces, List.filterMap_map]
  refine List.filterMap_congr fun segment hsegment => ?_
  obtain ⟨hstartRounded, hendRounded⟩ := hrounded.segments segment hsegment
  obtain ⟨-, hfirst, hlast, -⟩ := tiles_bounds htiled.tiles (List.mem_map_of_mem hsegment)
  rw [Function.comp_apply]
  by_cases hle : min segment.endBeat scope.terminalBeat ≤ max segment.startBeat scope.startBeat
  · rw [clipPiece_of_le (p := segment.piece) hle, projectSegment, if_pos hle, Option.map_none]
  · have hlt := not_le.mp hle
    have hmono := htiled.strictMonoOn.monotoneOn
    have hbegin : max segment.startBeat scope.startBeat ∈ Set.Icc 0 timeline.endBeat :=
      ⟨hstart.trans (le_max_right _ _),
        hlt.le.trans ((min_le_right _ _).trans hscope.terminal_le)⟩
    have hstop : min segment.endBeat scope.terminalBeat ∈ Set.Icc 0 timeline.endBeat :=
      ⟨hbegin.1.trans hlt.le, (min_le_right _ _).trans hscope.terminal_le⟩
    have hfrom : 0 ≤ timeline.performanceTimeAt scope (max segment.startBeat scope.startBeat) := by
      have := hmono (hscope.start_mem hstart) hbegin (le_max_right _ _)
      rw [performanceTimeAt, hscope.startTime]
      exact sub_nonneg.mpr this
    have hto : timeline.performanceTimeAt scope (min segment.endBeat scope.terminalBeat) ≤
        scope.nominalDurationMs := by
      have := hmono hstop (hscope.terminal_mem hstart) (min_le_right _ _)
      rw [hscope.duration_eq htiled hstart]
      exact sub_le_sub_right this _
    have hroundStart : roundBeat (max segment.startBeat scope.startBeat) =
        max segment.startBeat scope.startBeat := by
      rw [roundBeat_mono.map_max, hstartRounded, hscope.startRounded]
    have hroundEnd : roundBeat (min segment.endBeat scope.terminalBeat) =
        min segment.endBeat scope.terminalBeat := by
      rw [roundBeat_mono.map_min, hendRounded, hscope.terminalRounded]
    rw [clipPiece_of_lt (p := segment.piece) hlt, projectSegment, if_neg hle]
    unfold performanceTimeAt at hfrom hto ⊢
    simp only [Option.map_some, ProjectionSegment.piece, TimelineSegment.piece, hroundStart,
      hroundEnd, max_eq_right hfrom, min_eq_right hto]

/-- The projection of a scope that does not start before the timeline. -/
theorem projection_tiles (htiled : timeline.Tiled) (hrounded : timeline.Rounded)
    (hscope : ScopeOk timeline scope) (hstart : 0 ≤ scope.startBeat) :
    timeline.Projects scope := by
  have hduration := hscope.duration_eq htiled hstart
  have hzero : timeline.performanceTimeAt scope scope.startBeat = 0 := by
    rw [performanceTimeAt, hscope.startTime, sub_self]
  by_cases hempty : scope.nominalDurationMs ≤ 0
  · have hsegments : (timeline.projectionForScope scope).segments = [] := if_pos hempty
    -- a scope that takes no time has one beat
    have hbeats : scope.terminalBeat = scope.startBeat := by
      refine (hscope.start_le.lt_or_eq.resolve_left fun hlt => ?_).symm
      have := htiled.strictMonoOn (hscope.start_mem hstart) (hscope.terminal_mem hstart) hlt
      have hpos : 0 < scope.nominalDurationMs := by
        rw [hduration, performanceTimeAt, hscope.startTime]
        exact sub_pos.mpr this
      exact absurd hpos (not_lt.mpr hempty)
    refine ⟨?_, ?_⟩
    · rw [hsegments, hduration, hbeats, hzero]
      rfl
    · rw [hsegments]
      exact fun _ h => absurd h List.not_mem_nil
  · have hsegments : (timeline.projectionForScope scope).segments =
        timeline.segments.filterMap (timeline.projectSegment scope) := if_neg hempty
    have hclip := map_piece_projection htiled hrounded hscope hstart
    have hlines := htiled.performanceTimeAt_eq scope
    have hlt : scope.startBeat < scope.terminalBeat := by
      refine hscope.start_le.lt_or_eq.resolve_right fun heq => hempty ?_
      rw [hduration, ← heq, hzero]
    have hmax : max 0 scope.startBeat = scope.startBeat := max_eq_right hstart
    have hmin : min timeline.endBeat scope.terminalBeat = scope.terminalBeat :=
      min_eq_right hscope.terminal_le
    refine ⟨?_, fun segment hmem beat hfrom hto => ?_⟩
    · have htiles := tiles_clip htiled.tiles hlines hlt (by rw [hmax, hmin]; exact hlt)
      rw [hmax, hmin, hzero, ← hduration, ← hclip] at htiles
      rw [hsegments]
      exact htiles
    · rw [hsegments] at hmem
      have hmem : segment.piece ∈ clip (timeline.performanceTimeAt scope) scope.startBeat
          scope.terminalBeat timeline.pieces := hclip ▸ List.mem_map_of_mem hmem
      exact eval_of_mem_clip htiled.tiles hlines hmem hfrom hto

end PerformanceTimeline

end NoteVerse.Practice

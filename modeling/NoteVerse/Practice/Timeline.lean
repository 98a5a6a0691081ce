import NoteVerse.Lib.Computable

/-!
# The timeline of a performance

`PerformanceTimeline` and `ResolvedPerformanceScope` of
`processing/performance/timeline.py`; the browser's `PerformanceTimeline` and
`PerformanceScope` in `local-core/performance-runtime.ts` are the same, but for
how they round a beat, so the rounding is a parameter. The browser stores the
end time of a segment that the server computes.

Times are in milliseconds, and rational as are the beats.
-/

namespace NoteVerse.Practice

def beatsToMs (beats bpm : ℚ) : ℚ := beats * 60000 / bpm

def msToBeats (milliseconds bpm : ℚ) : ℚ := milliseconds * bpm / 60000

def defaultPerformanceTempoBpm : ℚ := 120

/-- A part of the timeline with one tempo. The server refuses tempos that are
not positive, the browser leaves them out. -/
structure TimelineSegment where
  startBeat : ℚ
  endBeat : ℚ
  startTimeMs : ℚ
  bpm : ℚ
  bpm_pos : 0 < bpm
  deriving DecidableEq

/-- The tempo of a score that has none. -/
theorem defaultBpm_pos : (0 : ℚ) < 120 := by norm_num

def TimelineSegment.endTimeMs (segment : TimelineSegment) : ℚ :=
  segment.startTimeMs + beatsToMs (segment.endBeat - segment.startBeat) segment.bpm

structure PerformanceTimeline where
  endBeat : ℚ
  segments : List TimelineSegment
  deriving DecidableEq

namespace PerformanceTimeline

variable (timeline : PerformanceTimeline)

def nominalDurationMs : ℚ :=
  match timeline.segments.getLast? with
  | none => 0
  | some segment => segment.endTimeMs

/-- `_segment_for_beat`; none if there are no segments. -/
def segmentForBeat (beat : ℚ) : Option TimelineSegment :=
  timeline.segments.find? (fun segment => segment.startBeat ≤ beat ∧ beat < segment.endBeat)
    <|> timeline.segments.getLast?

/-- `_segment_for_time_ms`; none if there are no segments. -/
def segmentForTimeMs (timeMs : ℚ) : Option TimelineSegment :=
  timeline.segments.find? (fun segment => segment.startTimeMs ≤ timeMs ∧ timeMs < segment.endTimeMs)
    <|> timeline.segments.getLast?

def timeMsToBeat (roundBeat : ℚ → ℚ) (timeMs : ℚ) : ℚ :=
  let bounded := min (max timeMs 0) timeline.nominalDurationMs
  match timeline.segmentForTimeMs bounded with
  | none => 0
  | some segment =>
    roundBeat (segment.startBeat + msToBeats (bounded - segment.startTimeMs) segment.bpm)

def bpmAtBeat (beat : ℚ) : ℚ :=
  match timeline.segmentForBeat (min (max beat 0) timeline.endBeat) with
  | none => defaultPerformanceTempoBpm
  | some segment => segment.bpm

end PerformanceTimeline

structure ResolvedPerformanceScope where
  startGroupId : Option String
  endGroupId : Option String
  startBeat : ℚ
  terminalBeat : ℚ
  nominalStartTimeMs : ℚ
  nominalEndTimeMs : ℚ
  deriving DecidableEq, Repr

def ResolvedPerformanceScope.nominalDurationMs (scope : ResolvedPerformanceScope) : ℚ :=
  max 0 (scope.nominalEndTimeMs - scope.nominalStartTimeMs)

theorem ResolvedPerformanceScope.nominalDurationMs_nonneg (scope : ResolvedPerformanceScope) :
    0 ≤ scope.nominalDurationMs :=
  le_max_left _ _

/-! ## The state of a clock -/

inductive ClockState
  | ready | countIn | running | paused | ended
  deriving DecidableEq, Repr

/-- What a clock is made with, once the checks of its constructor have passed. -/
structure ClockConfig where
  timeline : PerformanceTimeline
  scope : ResolvedPerformanceScope
  speedRatio : ℚ
  speed_pos : 0 < speedRatio
  countInMs : ℚ
  countInPulses : ℚ
  deriving DecidableEq

namespace ClockConfig

theorem speed_pos_of_not_le {speedRatio : ℚ} (h : ¬ speedRatio ≤ 0) : 0 < speedRatio :=
  not_le.mp h

/-- The speed of a score that is played as it is written. -/
theorem unitSpeed_pos : (0 : ℚ) < 1 := one_pos

variable (config : ClockConfig)

/-- The performance time once some time has run. -/
def performanceElapsedMs (activeElapsedMs : ℚ) : ℚ :=
  min (max 0 (activeElapsedMs - config.countInMs) * config.speedRatio)
    config.scope.nominalDurationMs

def musicalBeat (roundBeat : ℚ → ℚ) (performanceTimeMs : ℚ) : ℚ :=
  if performanceTimeMs ≥ config.scope.nominalDurationMs then config.scope.terminalBeat
  else config.timeline.timeMsToBeat roundBeat (config.scope.nominalStartTimeMs + performanceTimeMs)

def countInRemainingMs (activeElapsedMs : ℚ) : ℚ := max 0 (config.countInMs - activeElapsedMs)

variable {config} {elapsed later : ℚ}

theorem performanceElapsedMs_nonneg : 0 ≤ config.performanceElapsedMs elapsed :=
  le_min (mul_nonneg (le_max_left _ _) config.speed_pos.le) config.scope.nominalDurationMs_nonneg

theorem performanceElapsedMs_le :
    config.performanceElapsedMs elapsed ≤ config.scope.nominalDurationMs :=
  min_le_right _ _

theorem performanceElapsedMs_mono (h : elapsed ≤ later) :
    config.performanceElapsedMs elapsed ≤ config.performanceElapsedMs later := by
  apply min_le_min_right
  apply mul_le_mul_of_nonneg_right _ config.speed_pos.le
  exact max_le_max le_rfl (sub_le_sub_right h config.countInMs)

/-- The performance time is 0 until the count-in is over. -/
theorem performanceElapsedMs_of_le (h : elapsed ≤ config.countInMs) :
    config.performanceElapsedMs elapsed = 0 := by
  unfold performanceElapsedMs
  rw [max_eq_left (sub_nonpos.mpr h), zero_mul,
    min_eq_left config.scope.nominalDurationMs_nonneg]

/-- It moves on until the end of the scope. -/
theorem performanceElapsedMs_lt (h : elapsed < later)
    (hpos : 0 < config.performanceElapsedMs later)
    (hend : config.performanceElapsedMs later < config.scope.nominalDurationMs) :
    config.performanceElapsedMs elapsed < config.performanceElapsedMs later := by
  have hcountIn : config.countInMs < later := by
    by_contra hle
    rw [performanceElapsedMs_of_le (not_lt.mp hle)] at hpos
    exact lt_irrefl _ hpos
  have hlater : config.performanceElapsedMs later =
      max 0 (later - config.countInMs) * config.speedRatio := by
    unfold performanceElapsedMs at hend ⊢
    rcases min_lt_iff.mp hend with h' | h'
    · exact min_eq_left h'.le
    · exact absurd h' (lt_irrefl _)
  rw [hlater]
  apply (min_le_left _ _).trans_lt
  apply mul_lt_mul_of_pos_right _ config.speed_pos
  rw [max_eq_right (sub_pos.mpr hcountIn).le]
  exact max_lt (sub_pos.mpr hcountIn) (sub_lt_sub_right h config.countInMs)

end ClockConfig

end NoteVerse.Practice

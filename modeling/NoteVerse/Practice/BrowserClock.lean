import NoteVerse.Lib.Lists
import NoteVerse.Practice.ScopeClock

/-!
# The clock of the browser

The clock of `PerformancePracticeRuntime` in `local-core/performance-runtime.ts`.
It keeps the time that has run until the last pause, and the segments of time in
which it ran; the last one may still be open. `nowMs` is the time of the session:
the local clock less the origin of the timebase.

* `advanceState_shows`: what a clock has come to is what its stopwatch says;
* `call_answers`: each call is a call of the clock of the scope.
-/

namespace NoteVerse.Practice

structure ClockSegment where
  state : ClockState
  clockStartMs : ℚ
  clockEndMs : Option ℚ
  activeElapsedStartMs : ℚ
  deriving DecidableEq, Repr

/-- The current segment is one of the segments, named by its index. -/
structure BrowserClock where
  state : ClockState
  stateBeforePause : ClockState
  activeElapsedMs : ℚ
  currentSegment : Option Nat
  clockSegments : List ClockSegment
  deriving DecidableEq, Repr

/-- `PerformanceClockSnapshot` of the browser. -/
structure BrowserClockSnapshot where
  state : ClockState
  nowMs : ℚ
  musicalBeat : ℚ
  performanceTimeMs : ℚ
  countInRemainingMs : ℚ
  countInBeats : ℚ
  countInPulses : ℚ
  scopeCompleted : Bool
  scopeStartBeat : ℚ
  scopeTerminalBeat : ℚ
  speedRatio : ℚ
  deriving DecidableEq, Repr

/-- The report in the terms of the scope's clock. -/
def BrowserClockSnapshot.report (snapshot : BrowserClockSnapshot) : ClockReport where
  state := snapshot.state
  performanceTimeMs := snapshot.performanceTimeMs
  musicalBeat := snapshot.musicalBeat
  countInRemainingMs := snapshot.countInRemainingMs

structure BrowserConfig extends ClockConfig where
  countInBeats : ℚ
  deriving DecidableEq

namespace BrowserClock

/-- The constructor, for a session that is not restored. -/
def configure (timeline : PerformanceTimeline) (scope : ResolvedPerformanceScope)
    (speedRatio countInBeats countInPulses : ℚ) : Except String BrowserConfig :=
  if hspeed : speedRatio ≤ 0 then .error "Performance speed ratio must be positive."
  else
    .ok {
      timeline, scope, speedRatio, countInBeats, countInPulses
      speed_pos := ClockConfig.speed_pos_of_not_le hspeed
      countInMs := beatsToMs countInBeats (timeline.bpmAtBeat scope.startBeat) / speedRatio }

/-- The fields that change, at first. -/
def initial : BrowserClock where
  state := .ready
  stateBeforePause := .ready
  activeElapsedMs := 0
  currentSegment := none
  clockSegments := []

variable (config : BrowserConfig) (roundBeat : ℚ → ℚ) (clock : BrowserClock) (nowMs : ℚ)

/-- The segment that `currentSegment` refers to. -/
def current : Option ClockSegment := clock.currentSegment.bind (clock.clockSegments[·]?)

def activeElapsedAt : ℚ :=
  match clock.current with
  | none => clock.activeElapsedMs
  | some segment =>
    if clock.state = .paused ∨ clock.state = .ended then clock.activeElapsedMs
    else max 0 (segment.activeElapsedStartMs + nowMs - segment.clockStartMs)

def startClockSegment (state : ClockState) (activeElapsedStartMs : ℚ) : BrowserClock :=
  { clock with
    currentSegment := some clock.clockSegments.length
    clockSegments := clock.clockSegments ++ [⟨state, nowMs, none, activeElapsedStartMs⟩] }

def finishCurrentSegment (clockEndMs : ℚ) : BrowserClock :=
  match clock.currentSegment with
  | none => clock
  | some index =>
    { clock with
      currentSegment := none
      clockSegments := clock.clockSegments.modify index
        fun segment => { segment with clockEndMs := some clockEndMs } }

def advanceState : BrowserClock × ℚ :=
  if clock.state = .ready then (clock, 0)
  else
    let activeElapsedMs := clock.activeElapsedAt nowMs
    if clock.state = .paused then (clock, activeElapsedMs)
    else if activeElapsedMs < config.countInMs then
      ({ clock with state := .countIn }, activeElapsedMs)
    else if config.performanceElapsedMs activeElapsedMs ≥ config.scope.nominalDurationMs then
      let clock := { clock with activeElapsedMs := activeElapsedMs }
      ({ clock.finishCurrentSegment nowMs with state := .ended }, activeElapsedMs)
    else ({ clock with state := .running }, activeElapsedMs)

def snapshot : BrowserClock × BrowserClockSnapshot :=
  let (clock, activeElapsedMs) := clock.advanceState config nowMs
  let performanceTimeMs := config.performanceElapsedMs activeElapsedMs
  (clock, {
    state := clock.state, nowMs, performanceTimeMs
    musicalBeat := config.musicalBeat roundBeat performanceTimeMs
    countInRemainingMs := config.countInRemainingMs activeElapsedMs
    countInBeats := config.countInBeats
    countInPulses := config.countInPulses
    scopeCompleted := clock.state = .ended
    scopeStartBeat := config.scope.startBeat
    scopeTerminalBeat := config.scope.terminalBeat
    speedRatio := config.speedRatio })

/-- The snapshot that a call gives if it does not throw. -/
def accept (answer : BrowserClock × BrowserClockSnapshot) :
    BrowserClock × Except String BrowserClockSnapshot :=
  (answer.1, .ok answer.2)

def start : BrowserClock × Except String BrowserClockSnapshot :=
  if clock.state ≠ .ready then
    (clock, .error "Performance runtime can only start from READY.")
  else
    let state := if config.countInMs > 0 then ClockState.countIn else .running
    let clock := { clock with state, activeElapsedMs := 0 }
    let clock := clock.startClockSegment nowMs clock.state clock.activeElapsedMs
    accept (clock.snapshot config roundBeat nowMs)

def pause : BrowserClock × Except String BrowserClockSnapshot :=
  let clock := (clock.advanceState config nowMs).1
  if clock.state ≠ .countIn ∧ clock.state ≠ .running then
    (clock, .error "Performance runtime can only pause while active.")
  else
    let clock := { clock with activeElapsedMs := clock.activeElapsedAt nowMs }
    let clock := clock.finishCurrentSegment nowMs
    let clock := { clock with stateBeforePause := clock.state, state := .paused }
    accept (clock.snapshot config roundBeat nowMs)

def resume : BrowserClock × Except String BrowserClockSnapshot :=
  if clock.state ≠ .paused then
    (clock, .error "Performance runtime can only resume from PAUSED.")
  else
    let clock := { clock with state := clock.stateBeforePause }
    let clock := clock.startClockSegment nowMs clock.state clock.activeElapsedMs
    accept (clock.snapshot config roundBeat nowMs)

/-- A call of one of the methods. -/
def call : ClockCall → BrowserClock × Except String BrowserClockSnapshot
  | .start => clock.start config roundBeat nowMs
  | .pause => clock.pause config roundBeat nowMs
  | .resume => clock.resume config roundBeat nowMs
  | .snapshot => accept (clock.snapshot config roundBeat nowMs)

/-! ## The stopwatch of a clock -/

variable {config} {roundBeat} {clock} {nowMs} {watch : Stopwatch ℚ} {T : ℚ}

/-- The stopwatch that a clock is, if it has been called until `T` at the latest.
A clock that has ended keeps the time that it had then. -/
inductive Shows (config : BrowserConfig) (T : ℚ) : BrowserClock → Stopwatch ℚ → Prop
  | unstarted : Shows config T initial .unstarted
  | running {clock : BrowserClock} {finished : List ClockSegment} {segment : ClockSegment}
      {origin : ℚ}
      (active : clock.state = .countIn ∨ clock.state = .running)
      (segments : clock.clockSegments = finished ++ [segment])
      (current : clock.currentSegment = some finished.length)
      (nonneg : 0 ≤ segment.activeElapsedStartMs)
      (le : segment.clockStartMs ≤ T)
      (shift : origin = segment.clockStartMs - segment.activeElapsedStartMs) :
      Shows config T clock (.running origin)
  | paused {clock : BrowserClock} {elapsed : ℚ}
      (state : clock.state = .paused)
      (before : clock.stateBeforePause = config.phase elapsed)
      (pausable : config.phase elapsed = .countIn ∨ config.phase elapsed = .running)
      (current : clock.currentSegment = none)
      (nonneg : 0 ≤ elapsed)
      (frozen : clock.activeElapsedMs = elapsed) :
      Shows config T clock (.paused elapsed)
  | ended {clock : BrowserClock} {origin : ℚ}
      (state : clock.state = .ended)
      (current : clock.currentSegment = none)
      (elapsed : config.phase clock.activeElapsedMs = .ended)
      (watch : config.phase ((Stopwatch.running origin).elapsed T) = .ended) :
      Shows config T clock (.running origin)

theorem Shows.mono (h : Shows config T clock watch) (hT : T ≤ nowMs) :
    Shows config nowMs clock watch := by
  cases h with
  | unstarted => exact .unstarted
  | running active segments current nonneg le shift =>
    exact .running active segments current nonneg (le.trans hT) shift
  | paused state before pausable current nonneg frozen =>
    exact .paused state before pausable current nonneg frozen
  | ended state current elapsed watch =>
    exact .ended state current elapsed
      (ClockConfig.phase_ended_mono (Stopwatch.elapsed_mono _ hT) watch)

theorem current_eq_last {finished : List ClockSegment} {segment : ClockSegment}
    (segments : clock.clockSegments = finished ++ [segment])
    (current : clock.currentSegment = some finished.length) : clock.current = some segment := by
  unfold BrowserClock.current
  rw [current, segments]
  simp

section

variable (clock) (nowMs)

@[simp] theorem finishCurrentSegment_state :
    (clock.finishCurrentSegment nowMs).state = clock.state := by
  unfold finishCurrentSegment
  split <;> rfl

@[simp] theorem finishCurrentSegment_activeElapsedMs :
    (clock.finishCurrentSegment nowMs).activeElapsedMs = clock.activeElapsedMs := by
  unfold finishCurrentSegment
  split <;> rfl

@[simp] theorem finishCurrentSegment_currentSegment :
    (clock.finishCurrentSegment nowMs).currentSegment = none := by
  unfold finishCurrentSegment
  split
  · assumption
  · rfl

end

theorem activeElapsedAt_of_last (nowMs : ℚ) {finished : List ClockSegment} {segment : ClockSegment}
    (active : clock.state = .countIn ∨ clock.state = .running)
    (segments : clock.clockSegments = finished ++ [segment])
    (current : clock.currentSegment = some finished.length) :
    clock.activeElapsedAt nowMs =
      (Stopwatch.running (segment.clockStartMs - segment.activeElapsedStartMs)).elapsed nowMs := by
  have hnot : ¬(clock.state = .paused ∨ clock.state = .ended) := by
    rintro (h | h) <;> rw [h] at active <;> simp at active
  unfold activeElapsedAt
  rw [current_eq_last segments current, Stopwatch.elapsed_running]
  simp only [hnot, if_false]
  congr 1
  linarith

theorem activeElapsedAt_of_none (current : clock.currentSegment = none) :
    clock.activeElapsedAt nowMs = clock.activeElapsedMs := by
  unfold activeElapsedAt BrowserClock.current
  rw [current]
  rfl

/-- A report at the end of the scope does not depend on how long ago that was. -/
theorem report_of_ended {config : ClockConfig} {elapsed elapsed' : ℚ}
    (h : config.phase elapsed = .ended) (h' : config.phase elapsed' = .ended) :
    config.performanceElapsedMs elapsed = config.performanceElapsedMs elapsed' ∧
      config.countInRemainingMs elapsed = config.countInRemainingMs elapsed' := by
  rw [ClockConfig.phase_eq_ended] at h h'
  unfold ClockConfig.countInRemainingMs
  rw [h.2, h'.2, max_eq_left (sub_nonpos.mpr h.1), max_eq_left (sub_nonpos.mpr h'.1)]
  exact ⟨rfl, rfl⟩

/-- The parts of a report that the elapsed time gives. -/
def SameReports (config : ClockConfig) (elapsed elapsed' : ℚ) : Prop :=
  config.performanceElapsedMs elapsed = config.performanceElapsedMs elapsed' ∧
    config.countInRemainingMs elapsed = config.countInRemainingMs elapsed'

/-- A clock comes to what its stopwatch says. -/
theorem advanceState_shows (h : Shows config T clock watch) (hT : T ≤ nowMs) :
    Shows config nowMs (clock.advanceState config nowMs).1 watch ∧
      SameReports config.toClockConfig (clock.advanceState config nowMs).2 (watch.elapsed nowMs) ∧
      (clock.advanceState config nowMs).1.state = config.stateAt watch nowMs := by
  have hnow := h.mono hT
  cases h with
  | unstarted => exact ⟨.unstarted, ⟨rfl, rfl⟩, rfl⟩
  | paused state before pausable current nonneg frozen =>
    have hadvance : clock.advanceState config nowMs = (clock, clock.activeElapsedMs) := by
      unfold advanceState
      rw [activeElapsedAt_of_none current]
      simp only [state, reduceCtorEq, if_false, if_true]
    rw [hadvance, frozen]
    exact ⟨hnow, ⟨rfl, rfl⟩, state⟩
  | @running _ finished segment origin active segments current nonneg le shift =>
    have helapsed := activeElapsedAt_of_last nowMs active segments current
    rw [← shift] at helapsed
    have hready : clock.state ≠ .ready := by
      rintro h
      rw [h] at active
      simp at active
    have hpaused : clock.state ≠ .paused := by
      rintro h
      rw [h] at active
      simp at active
    unfold advanceState
    simp only [hready, hpaused, if_false, helapsed]
    split_ifs with hcountIn hended
    · exact ⟨.running (.inl rfl) segments current nonneg (le.trans hT) shift, ⟨rfl, rfl⟩,
        (ClockConfig.phase_eq_countIn.mpr hcountIn).symm⟩
    · have hphase : config.phase ((Stopwatch.running origin).elapsed nowMs) = .ended :=
        ClockConfig.phase_eq_ended.mpr
          ⟨not_lt.mp hcountIn, le_antisymm ClockConfig.performanceElapsedMs_le hended⟩
      exact ⟨.ended rfl (finishCurrentSegment_currentSegment _ _)
        (by simpa only [finishCurrentSegment_activeElapsedMs] using hphase) hphase, ⟨rfl, rfl⟩,
        hphase.symm⟩
    · have hphase : config.phase ((Stopwatch.running origin).elapsed nowMs) = .running := by
        unfold ClockConfig.phase
        rw [if_neg hcountIn, if_neg hended]
      exact ⟨.running (.inr rfl) segments current nonneg (le.trans hT) shift, ⟨rfl, rfl⟩,
        hphase.symm⟩
  | ended state current elapsed watch =>
    have hcountIn := not_lt.mpr (ClockConfig.phase_eq_ended.mp elapsed).1
    have hended := (ClockConfig.phase_eq_ended.mp elapsed).2.ge
    have hwatch := ClockConfig.phase_ended_mono (Stopwatch.elapsed_mono _ hT) watch
    unfold advanceState
    simp only [state, reduceCtorEq, if_false, activeElapsedAt_of_none current, hcountIn, hended,
      if_true]
    refine ⟨.ended rfl (finishCurrentSegment_currentSegment _ _) ?_ hwatch,
      report_of_ended elapsed hwatch, hwatch.symm⟩
    simpa only [finishCurrentSegment_activeElapsedMs] using elapsed

theorem snapshot_shows (roundBeat : ℚ → ℚ) (h : Shows config T clock watch) (hT : T ≤ nowMs) :
    Shows config nowMs (clock.snapshot config roundBeat nowMs).1 watch ∧
      (clock.snapshot config roundBeat nowMs).2.report = config.reportAt roundBeat watch nowMs := by
  obtain ⟨hshows, ⟨hperformance, hremaining⟩, hstate⟩ := advanceState_shows h hT
  refine ⟨hshows, ?_⟩
  show ClockReport.mk (clock.advanceState config nowMs).1.state
    (config.performanceElapsedMs (clock.advanceState config nowMs).2)
    (config.musicalBeat roundBeat
      (config.performanceElapsedMs (clock.advanceState config nowMs).2))
    (config.countInRemainingMs (clock.advanceState config nowMs).2) = _
  rw [hstate, hperformance, hremaining]
  rfl

/-- An answer of a clock is one of the scope's clock. -/
def Answers (config : BrowserConfig) (nowMs : ℚ)
    (answer : BrowserClock × Except String BrowserClockSnapshot)
    (expected : Stopwatch ℚ × Option ClockReport) : Prop :=
  Shows config nowMs answer.1 expected.1 ∧
    answer.2.toOption.map BrowserClockSnapshot.report = expected.2

theorem answers_accept {watch' : Stopwatch ℚ} {call : ClockCall}
    (hnext : config.next watch call nowMs = some watch') (h : Shows config nowMs clock watch') :
    Answers config nowMs (accept (clock.snapshot config roundBeat nowMs))
      (config.answer roundBeat watch call nowMs) := by
  obtain ⟨hshows, hreport⟩ := snapshot_shows roundBeat h le_rfl
  unfold ClockConfig.answer
  rw [hnext]
  exact ⟨hshows, congrArg some hreport⟩

theorem answers_error {error : String} {call : ClockCall}
    (hnext : config.next watch call nowMs = none) (h : Shows config nowMs clock watch) :
    Answers config nowMs (clock, .error error) (config.answer roundBeat watch call nowMs) := by
  unfold ClockConfig.answer
  rw [hnext]
  exact ⟨h, rfl⟩

/-- A new segment lets the time run on. -/
theorem startClockSegment_shows (state : ClockState) {elapsed origin : ℚ}
    (active : clock.state = .countIn ∨ clock.state = .running) (nonneg : 0 ≤ elapsed)
    (shift : origin = nowMs - elapsed) :
    Shows config nowMs (clock.startClockSegment nowMs state elapsed) (.running origin) :=
  .running active rfl rfl nonneg le_rfl shift

theorem Shows.state_eq_ready (h : Shows config T clock watch) (nowMs : ℚ) :
    clock.state = .ready ↔ config.stateAt watch nowMs = .ready := by
  rw [ClockConfig.stateAt_eq_ready]
  cases h with
  | unstarted => exact ⟨fun _ => rfl, fun _ => rfl⟩
  | running active segments current nonneg le shift =>
    refine ⟨fun h => ?_, fun h => nomatch h⟩
    rw [h] at active
    simp at active
  | paused state before pausable current nonneg frozen =>
    refine ⟨fun h => ?_, fun h => nomatch h⟩
    rw [state] at h
    cases h
  | ended state current elapsed watch =>
    refine ⟨fun h => ?_, fun h => nomatch h⟩
    rw [state] at h
    cases h

theorem Shows.state_eq_paused (h : Shows config T clock watch) (nowMs : ℚ) :
    clock.state = .paused ↔ config.stateAt watch nowMs = .paused := by
  rw [ClockConfig.stateAt_eq_paused]
  cases h with
  | unstarted => exact ⟨fun h => (nomatch h), fun h => (nomatch h)⟩
  | running active segments current nonneg le shift =>
    refine ⟨fun h => ?_, fun h => nomatch h⟩
    rw [h] at active
    simp at active
  | paused state before pausable current nonneg frozen => exact ⟨fun _ => ⟨_, rfl⟩, fun _ => state⟩
  | ended state current elapsed watch =>
    refine ⟨fun h => ?_, fun h => nomatch h⟩
    rw [state] at h
    cases h

theorem start_answers (h : Shows config nowMs clock watch) :
    Answers config nowMs (clock.start config roundBeat nowMs)
      (config.answer roundBeat watch .start nowMs) := by
  unfold start
  by_cases hready : clock.state = .ready
  · have hstate := (h.state_eq_ready nowMs).mp hready
    have hnext : config.next watch .start nowMs = some (.running nowMs) := if_pos hstate
    rw [if_neg (not_not.mpr hready)]
    refine answers_accept hnext ?_
    have hactive : (if config.countInMs > 0 then ClockState.countIn else .running) = .countIn ∨
        (if config.countInMs > 0 then ClockState.countIn else .running) = .running := by
      split_ifs
      · exact .inl rfl
      · exact .inr rfl
    exact startClockSegment_shows _ hactive le_rfl (sub_zero nowMs).symm
  · rw [if_pos hready]
    exact answers_error (if_neg fun h' => hready ((h.state_eq_ready nowMs).mpr h')) h

theorem pause_answers (h : Shows config T clock watch) (hT : T ≤ nowMs) :
    Answers config nowMs (clock.pause config roundBeat nowMs)
      (config.answer roundBeat watch .pause nowMs) := by
  obtain ⟨hshows, -, hstate⟩ := advanceState_shows h hT
  unfold pause
  by_cases hactive : config.stateAt watch nowMs = .countIn ∨ config.stateAt watch nowMs = .running
  · have hnext : config.next watch .pause nowMs = some (watch.pause nowMs) := if_pos hactive
    have hgo : ¬((clock.advanceState config nowMs).1.state ≠ .countIn ∧
        (clock.advanceState config nowMs).1.state ≠ .running) := by
      rw [hstate]
      tauto
    rw [if_neg hgo]
    refine answers_accept hnext ?_
    generalize (clock.advanceState config nowMs).1 = advanced at hshows hstate
    cases hshows with
    | unstarted => simp [ClockConfig.stateAt] at hactive
    | paused state before pausable current nonneg frozen => simp [ClockConfig.stateAt] at hactive
    | ended state current elapsed watch =>
      rw [← hstate, state] at hactive
      simp at hactive
    | running active segments current nonneg le shift =>
      have helapsed := activeElapsedAt_of_last nowMs active segments current
      rw [← shift] at helapsed
      refine .paused rfl ?_ hactive (finishCurrentSegment_currentSegment _ _) (le_max_left _ _) ?_
      · exact (finishCurrentSegment_state _ _).trans hstate
      · exact (finishCurrentSegment_activeElapsedMs _ _).trans helapsed
  · have hstop : (clock.advanceState config nowMs).1.state ≠ .countIn ∧
        (clock.advanceState config nowMs).1.state ≠ .running := by
      rw [hstate]
      tauto
    rw [if_pos hstop]
    exact answers_error (if_neg hactive) hshows

theorem resume_answers (h : Shows config nowMs clock watch) :
    Answers config nowMs (clock.resume config roundBeat nowMs)
      (config.answer roundBeat watch .resume nowMs) := by
  unfold resume
  by_cases hpaused : clock.state = .paused
  · rw [if_neg (not_not.mpr hpaused)]
    cases h with
    | paused state before pausable current nonneg frozen =>
      subst frozen
      refine answers_accept (ClockConfig.next_resume_paused _ nowMs)
        (startClockSegment_shows _ ?_ nonneg rfl)
      show clock.stateBeforePause = _ ∨ clock.stateBeforePause = _
      rwa [before]
    | unstarted => cases hpaused
    | running active segments current nonneg le shift =>
      rw [hpaused] at active
      simp at active
    | ended state current elapsed watch =>
      rw [state] at hpaused
      cases hpaused
  · rw [if_pos hpaused]
    exact answers_error (if_neg fun h' => hpaused ((h.state_eq_paused nowMs).mpr h')) h

/-- Each call is a call of the clock of the scope. -/
theorem call_answers (roundBeat : ℚ → ℚ) (h : Shows config T clock watch) (hT : T ≤ nowMs)
    (call : ClockCall) :
    Answers config nowMs (clock.call config roundBeat nowMs call)
      (config.answer roundBeat watch call nowMs) := by
  cases call with
  | snapshot => exact answers_accept rfl (h.mono hT)
  | start => exact start_answers (h.mono hT)
  | pause => exact pause_answers h hT
  | resume => exact resume_answers (h.mono hT)

end BrowserClock

end NoteVerse.Practice

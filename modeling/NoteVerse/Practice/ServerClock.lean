import NoteVerse.Practice.ScopeClock

/-!
# The clock of the server

`PerformanceClock` of `processing/performance/clock.py`. It keeps the time of
its start and how long it has been paused, and looks at what the time has come
to when it is called.

* `advanceTo_shows`: what a clock has come to is what its stopwatch says;
* `call_shows`: each call is a call of the clock of the scope.
-/

namespace NoteVerse.Practice

structure PerformanceClock where
  state : ClockState
  startedAtMs : Option ℚ
  pauseStartedAtMs : Option ℚ
  pausedDurationMs : ℚ
  stateBeforePause : ClockState
  deriving DecidableEq, Repr

structure PerformanceClockSnapshot where
  state : ClockState
  nowMs : ℚ
  musicalBeat : ℚ
  performanceElapsedMs : ℚ
  countInRemainingMs : ℚ
  countInRemainingPulses : ℚ
  scopeCompleted : Bool
  deriving DecidableEq, Repr

/-- The report in the terms of the scope's clock. -/
def PerformanceClockSnapshot.report (snapshot : PerformanceClockSnapshot) : ClockReport where
  state := snapshot.state
  performanceTimeMs := snapshot.performanceElapsedMs
  musicalBeat := snapshot.musicalBeat
  countInRemainingMs := snapshot.countInRemainingMs

namespace PerformanceClock

/-- `__init__`: the checks, and the count-in in milliseconds. -/
def configure (timeline : PerformanceTimeline) (scope : ResolvedPerformanceScope)
    (speedRatio countInDurationBeats countInPulses : ℚ) : Except String ClockConfig :=
  if hspeed : speedRatio ≤ 0 then .error "Performance speed ratio must be positive."
  else if countInDurationBeats < 0 then
    .error "Performance count-in duration must not be negative."
  else if countInPulses < 0 then .error "Performance count-in pulses must not be negative."
  else
    .ok {
      timeline, scope, speedRatio, countInPulses
      speed_pos := ClockConfig.speed_pos_of_not_le hspeed
      countInMs := countInDurationBeats * 60000 / timeline.bpmAtBeat scope.startBeat / speedRatio }

/-- `__init__`: the fields that change. -/
def initial : PerformanceClock where
  state := .ready
  startedAtMs := none
  pauseStartedAtMs := none
  pausedDurationMs := 0
  stateBeforePause := .ready

variable (config : ClockConfig) (roundBeat : ℚ → ℚ) (clock : PerformanceClock) (nowMs : ℚ)

def pausedFromRunning : Bool :=
  clock.state = .paused ∧ clock.stateBeforePause = .running

/-- `_active_elapsed_ms` -/
def activeElapsedMs : ℚ :=
  match clock.startedAtMs with
  | none => 0
  | some startedAtMs =>
    let pauseElapsedMs :=
      match clock.pauseStartedAtMs with
      | some pauseStartedAtMs =>
        if clock.state = .paused then max 0 (nowMs - pauseStartedAtMs) else 0
      | none => 0
    max 0 (nowMs - startedAtMs - clock.pausedDurationMs - pauseElapsedMs)

/-- `_resolved_active_state` -/
def resolvedActiveState (activeElapsedMs : ℚ) : ClockState :=
  if clock.state = .paused then .paused
  else if activeElapsedMs < config.countInMs then .countIn
  else if config.performanceElapsedMs activeElapsedMs ≥ config.scope.nominalDurationMs then .ended
  else .running

/-- `_advance_to` -/
def advanceTo : PerformanceClock × ℚ :=
  if clock.state = .ready then (clock, 0)
  else
    let activeElapsedMs := clock.activeElapsedMs nowMs
    if clock.state = .paused then (clock, activeElapsedMs)
    else
      let nextState := clock.resolvedActiveState config activeElapsedMs
      if nextState = .running ∨ nextState = .ended then
        ({ clock with state := nextState }, activeElapsedMs)
      else (clock, activeElapsedMs)

/-- `_count_in_remaining_pulses` -/
def countInRemainingPulses (activeElapsedMs : ℚ) : ℚ :=
  if config.countInPulses ≤ 0 ∨ config.countInMs ≤ 0 then 0
  else
    let remainingRatio := config.countInRemainingMs activeElapsedMs / config.countInMs
    max 0 (config.countInPulses * remainingRatio)

/-- `_snapshot` -/
def snapshotOf (nowMs : ℚ) (state : ClockState) (activeElapsedMs : ℚ) :
    PerformanceClockSnapshot :=
  let performanceElapsedMs := config.performanceElapsedMs activeElapsedMs
  { state, nowMs, performanceElapsedMs
    musicalBeat := config.musicalBeat roundBeat performanceElapsedMs
    countInRemainingMs := config.countInRemainingMs activeElapsedMs
    countInRemainingPulses := countInRemainingPulses config activeElapsedMs
    scopeCompleted := state = .ended }

def snapshot : PerformanceClock × PerformanceClockSnapshot :=
  let (clock, activeElapsedMs) := clock.advanceTo config nowMs
  (clock, snapshotOf config roundBeat nowMs clock.state activeElapsedMs)

/-- The snapshot that a call gives if it does not raise. -/
def accept (answer : PerformanceClock × PerformanceClockSnapshot) :
    PerformanceClock × Except String PerformanceClockSnapshot :=
  (answer.1, .ok answer.2)

def start : PerformanceClock × Except String PerformanceClockSnapshot :=
  if clock.state ≠ .ready then
    (clock, .error "Performance clock can only start from READY.")
  else
    let clock := { clock with
      startedAtMs := some nowMs
      state := if config.countInMs > 0 then .countIn else .running }
    accept (clock.snapshot config roundBeat nowMs)

def pause : PerformanceClock × Except String PerformanceClockSnapshot :=
  let clock := (clock.advanceTo config nowMs).1
  if clock.state ≠ .countIn ∧ clock.state ≠ .running then
    (clock, .error "Performance clock can only pause while active.")
  else
    let clock := { clock with
      stateBeforePause := clock.state
      state := .paused
      pauseStartedAtMs := some nowMs }
    accept (clock.snapshot config roundBeat nowMs)

def resume : PerformanceClock × Except String PerformanceClockSnapshot :=
  match clock.pauseStartedAtMs with
  | none => (clock, .error "Performance clock can only resume from PAUSED.")
  | some pauseStartedAtMs =>
    if clock.state ≠ .paused then
      (clock, .error "Performance clock can only resume from PAUSED.")
    else
      let clock := { clock with
        pausedDurationMs := clock.pausedDurationMs + max 0 (nowMs - pauseStartedAtMs)
        pauseStartedAtMs := none
        state := clock.stateBeforePause }
      accept (clock.snapshot config roundBeat nowMs)

/-- A call of one of the methods. -/
def call : ClockCall → PerformanceClock × Except String PerformanceClockSnapshot
  | .start => clock.start config roundBeat nowMs
  | .pause => clock.pause config roundBeat nowMs
  | .resume => clock.resume config roundBeat nowMs
  | .snapshot => accept (clock.snapshot config roundBeat nowMs)

theorem resume_of_not_paused {config : ClockConfig} {clock : PerformanceClock}
    (h : clock.state ≠ .paused) (roundBeat : ℚ → ℚ) (nowMs : ℚ) :
    clock.resume config roundBeat nowMs =
      (clock, .error "Performance clock can only resume from PAUSED.") := by
  unfold resume
  cases clock.pauseStartedAtMs with
  | none => rfl
  | some pauseStartedAtMs => exact if_pos h

/-! ## The stopwatch of a clock -/

variable {config} {roundBeat} {clock} {nowMs} {watch : Stopwatch ℚ} {T : ℚ}

/-- The stopwatch that a clock is, if it has been called until `T` at the latest.
A clock that runs may not have seen yet that its count-in or its scope is over. -/
inductive Shows (config : ClockConfig) (T : ℚ) : PerformanceClock → Stopwatch ℚ → Prop
  | unstarted : Shows config T initial .unstarted
  | running {clock : PerformanceClock} {startedAtMs origin : ℚ}
      (active : clock.state = .countIn ∨ clock.state = .running ∨ clock.state = .ended)
      (seen : clock.state = .countIn ∨
        config.countInMs ≤ (Stopwatch.running origin).elapsed T)
      (started : clock.startedAtMs = some startedAtMs)
      (notPaused : clock.pauseStartedAtMs = none)
      (shift : origin = startedAtMs + clock.pausedDurationMs)
      (le : origin ≤ T) :
      Shows config T clock (.running origin)
  | paused {clock : PerformanceClock} {startedAtMs pauseStartedAtMs elapsed : ℚ}
      (state : clock.state = .paused)
      (before : clock.stateBeforePause = config.phase elapsed)
      (pausable : config.phase elapsed = .countIn ∨ config.phase elapsed = .running)
      (started : clock.startedAtMs = some startedAtMs)
      (pauseStarted : clock.pauseStartedAtMs = some pauseStartedAtMs)
      (le : pauseStartedAtMs ≤ T)
      (nonneg : 0 ≤ elapsed)
      (frozen : elapsed = pauseStartedAtMs - startedAtMs - clock.pausedDurationMs) :
      Shows config T clock (.paused elapsed)

theorem Shows.activeElapsedMs_eq (h : Shows config T clock watch) (hT : T ≤ nowMs) :
    clock.activeElapsedMs nowMs = watch.elapsed nowMs := by
  cases h with
  | unstarted => rfl
  | running active seen started notPaused shift le =>
    unfold activeElapsedMs
    rw [started, notPaused, shift, Stopwatch.elapsed_running]
    simp only [sub_zero, sub_sub]
  | paused state before pausable started pauseStarted le nonneg frozen =>
    unfold activeElapsedMs
    rw [started, pauseStarted, Stopwatch.elapsed_paused]
    simp only [state, if_true]
    rw [max_eq_right (sub_nonneg.mpr (le.trans hT)), max_eq_right] <;> linarith

theorem resolvedActiveState_eq (h : clock.state ≠ .paused) (elapsed : ℚ) :
    clock.resolvedActiveState config elapsed = config.phase elapsed :=
  if_neg h

/-- A clock comes to what its stopwatch says. -/
theorem advanceTo_shows (h : Shows config T clock watch) (hT : T ≤ nowMs) :
    Shows config nowMs (clock.advanceTo config nowMs).1 watch ∧
      (clock.advanceTo config nowMs).2 = watch.elapsed nowMs ∧
      (clock.advanceTo config nowMs).1.state = config.stateAt watch nowMs := by
  have helapsed := h.activeElapsedMs_eq hT
  cases h with
  | unstarted => exact ⟨.unstarted, rfl, rfl⟩
  | paused state before pausable started pauseStarted le nonneg frozen =>
    have hadvance : clock.advanceTo config nowMs = (clock, clock.activeElapsedMs nowMs) := by
      unfold advanceTo
      rw [if_neg (by rw [state]; decide), if_pos state]
    rw [hadvance]
    exact ⟨.paused state before pausable started pauseStarted (le.trans hT) nonneg frozen,
      helapsed, state⟩
  | @running _ startedAtMs origin active seen started notPaused shift le =>
    have hready : clock.state ≠ .ready := by
      rintro h
      rw [h] at active
      simp at active
    have hpaused : clock.state ≠ .paused := by
      rintro h
      rw [h] at active
      simp at active
    unfold advanceTo
    simp only [hready, hpaused, if_false, resolvedActiveState_eq hpaused, helapsed]
    split_ifs with hnext
    · refine ⟨.running (hnext.elim (.inr ∘ .inl) (.inr ∘ .inr)) (.inr ?_) started notPaused shift (le.trans hT),
        rfl, rfl⟩
      by_contra hlt
      rw [ClockConfig.phase_eq_countIn.mpr (not_le.mp hlt)] at hnext
      simp at hnext
    · have hphase : config.phase ((Stopwatch.running origin).elapsed nowMs) = .countIn :=
        (ClockConfig.phase_active _).resolve_right hnext
      have hstate : clock.state = .countIn := by
        refine seen.resolve_right fun hseen => ?_
        have hlt := ClockConfig.phase_eq_countIn.mp hphase
        have hmono := (Stopwatch.running origin).elapsed_mono hT
        linarith
      exact ⟨.running active (.inl hstate) started notPaused shift (le.trans hT), rfl, hstate.trans hphase.symm⟩

theorem snapshot_eq (roundBeat : ℚ → ℚ) (h : Shows config T clock watch) (hT : T ≤ nowMs) :
    (clock.snapshot config roundBeat nowMs).2 =
      snapshotOf config roundBeat nowMs (config.stateAt watch nowMs) (watch.elapsed nowMs) := by
  obtain ⟨-, helapsed, hstate⟩ := advanceTo_shows h hT
  show snapshotOf config roundBeat nowMs
    (clock.advanceTo config nowMs).1.state (clock.advanceTo config nowMs).2 = _
  rw [helapsed, hstate]

theorem snapshot_shows (roundBeat : ℚ → ℚ) (h : Shows config T clock watch) (hT : T ≤ nowMs) :
    Shows config nowMs (clock.snapshot config roundBeat nowMs).1 watch ∧
      (clock.snapshot config roundBeat nowMs).2.report = config.reportAt roundBeat watch nowMs :=
  ⟨(advanceTo_shows h hT).1, congrArg PerformanceClockSnapshot.report (snapshot_eq roundBeat h hT)⟩

theorem Shows.mono (h : Shows config T clock watch) (hT : T ≤ nowMs) :
    Shows config nowMs clock watch := by
  cases h with
  | unstarted => exact .unstarted
  | running active seen started notPaused shift le =>
    exact .running active (seen.imp_right fun h => h.trans (Stopwatch.elapsed_mono _ hT)) started
      notPaused shift (le.trans hT)
  | paused state before pausable started pauseStarted le nonneg frozen =>
    exact .paused state before pausable started pauseStarted (le.trans hT) nonneg frozen

/-- A snapshot for an earlier time does not change what a clock shows. -/
theorem snapshot_shows_early (roundBeat : ℚ → ℚ) (h : Shows config T clock watch)
    (hnow : nowMs ≤ T) : Shows config T (clock.snapshot config roundBeat nowMs).1 watch := by
  show Shows config T (clock.advanceTo config nowMs).1 watch
  cases h with
  | unstarted => exact .unstarted
  | paused state before pausable started pauseStarted le nonneg frozen =>
    have hadvance : clock.advanceTo config nowMs = (clock, clock.activeElapsedMs nowMs) := by
      unfold advanceTo
      rw [if_neg (by rw [state]; decide), if_pos state]
    rw [hadvance]
    exact .paused state before pausable started pauseStarted le nonneg frozen
  | @running _ startedAtMs origin active seen started notPaused shift le =>
    have hpaused : clock.state ≠ .paused := by
      intro h
      rw [h] at active
      simp at active
    have helapsed : clock.activeElapsedMs nowMs = (Stopwatch.running origin).elapsed nowMs := by
      unfold activeElapsedMs
      rw [started, notPaused, shift, Stopwatch.elapsed_running]
      simp only [sub_zero, sub_sub]
    unfold advanceTo
    simp only [hpaused, if_false, resolvedActiveState_eq hpaused, helapsed]
    split_ifs with hready hnext
    · exact .running active seen started notPaused shift le
    · refine .running (hnext.elim (.inr ∘ .inl) (.inr ∘ .inr)) (.inr ?_) started notPaused shift le
      apply le_trans _ ((Stopwatch.running origin).elapsed_mono hnow)
      by_contra hlt
      rw [ClockConfig.phase_eq_countIn.mpr (not_le.mp hlt)] at hnext
      simp at hnext
    · exact .running active seen started notPaused shift le

/-- A snapshot for any time leaves what the clock shows. -/
theorem snapshot_shows_max (roundBeat : ℚ → ℚ) (h : Shows config T clock watch) (nowMs : ℚ) :
    Shows config (max T nowMs) (clock.snapshot config roundBeat nowMs).1 watch := by
  rcases le_total T nowMs with hT | hT
  · rw [max_eq_right hT]
    exact (snapshot_shows roundBeat h hT).1
  · rw [max_eq_left hT]
    exact snapshot_shows_early roundBeat h hT

theorem Shows.elapsed_nonneg {elapsed : ℚ} (h : Shows config T clock (.paused elapsed)) :
    0 ≤ elapsed := by
  cases h with
  | paused state before pausable started pauseStarted le nonneg frozen => exact nonneg

theorem Shows.pausedFromRunning_iff (h : Shows config T clock watch) :
    clock.pausedFromRunning = true ↔ ∃ e, watch = .paused e ∧ config.phase e = .running := by
  unfold pausedFromRunning
  rw [decide_eq_true_iff]
  cases h with
  | unstarted => simp [initial]
  | running active seen started notPaused shift le =>
    simp only [reduceCtorEq, false_and, exists_false, iff_false, not_and]
    intro hpaused
    rw [hpaused] at active
    simp at active
  | paused state before pausable started pauseStarted le nonneg frozen =>
    rw [before]
    simp [state]

/-- An answer of a clock is one of the scope's clock. -/
def Answers (config : ClockConfig) (nowMs : ℚ)
    (answer : PerformanceClock × Except String PerformanceClockSnapshot)
    (expected : Stopwatch ℚ × Option ClockReport) : Prop :=
  Shows config nowMs answer.1 expected.1 ∧
    answer.2.toOption.map PerformanceClockSnapshot.report = expected.2

theorem answers_accept {watch' : Stopwatch ℚ} {call : ClockCall}
    (hnext : config.next watch call nowMs = some watch') (h : Shows config nowMs clock watch') :
    Answers config nowMs (accept (clock.snapshot config roundBeat nowMs))
      (config.answer roundBeat watch call nowMs) := by
  obtain ⟨hshows, hreport⟩ := snapshot_shows roundBeat h le_rfl
  unfold ClockConfig.answer
  rw [hnext]
  exact ⟨hshows, congrArg some hreport⟩

theorem answers_error {error : String} {call : ClockCall}
    (hnext : config.next watch call nowMs = none) (h : Shows config nowMs clock watch) :
    Answers config nowMs (clock, .error error) (config.answer roundBeat watch call nowMs) := by
  unfold ClockConfig.answer
  rw [hnext]
  exact ⟨h, rfl⟩

theorem Shows.state_eq_ready (h : Shows config T clock watch) (nowMs : ℚ) :
    clock.state = .ready ↔ config.stateAt watch nowMs = .ready := by
  rw [ClockConfig.stateAt_eq_ready]
  cases h with
  | unstarted => exact ⟨fun _ => rfl, fun _ => rfl⟩
  | running active seen started notPaused shift le =>
    refine ⟨fun h => ?_, fun h => nomatch h⟩
    rw [h] at active
    simp at active
  | paused state before pausable started pauseStarted le nonneg frozen =>
    refine ⟨fun h => ?_, fun h => nomatch h⟩
    rw [state] at h
    cases h

theorem start_answers (h : Shows config nowMs clock watch) :
    Answers config nowMs (clock.start config roundBeat nowMs)
      (config.answer roundBeat watch .start nowMs) := by
  by_cases hready : clock.state = .ready
  · have hstate := (h.state_eq_ready nowMs).mp hready
    have hnext : config.next watch .start nowMs = some (.running nowMs) := if_pos hstate
    cases ClockConfig.stateAt_eq_ready.mp hstate
    cases h
    refine answers_accept hnext (.running ?_ ?_ rfl rfl (add_zero nowMs).symm le_rfl)
    · show (if config.countInMs > 0 then ClockState.countIn else .running) = _ ∨
        (if config.countInMs > 0 then ClockState.countIn else .running) = _ ∨ _
      split_ifs
      · exact .inl rfl
      · exact .inr (.inl rfl)
    · show (if config.countInMs > 0 then ClockState.countIn else .running) = _ ∨ _
      split_ifs with hcountIn
      · exact .inl rfl
      · exact .inr ((not_lt.mp hcountIn).trans (le_max_left _ _))
  · have hstart : clock.start config roundBeat nowMs =
        (clock, .error "Performance clock can only start from READY.") := if_pos hready
    rw [hstart]
    exact answers_error (if_neg fun h' => hready ((h.state_eq_ready nowMs).mpr h')) h

theorem pause_answers (h : Shows config T clock watch) (hT : T ≤ nowMs) :
    Answers config nowMs (clock.pause config roundBeat nowMs)
      (config.answer roundBeat watch .pause nowMs) := by
  obtain ⟨hshows, -, hstate⟩ := advanceTo_shows h hT
  unfold pause
  by_cases hactive : config.stateAt watch nowMs = .countIn ∨ config.stateAt watch nowMs = .running
  · have hnext : config.next watch .pause nowMs = some (watch.pause nowMs) := if_pos hactive
    have hgo : ¬((clock.advanceTo config nowMs).1.state ≠ .countIn ∧
        (clock.advanceTo config nowMs).1.state ≠ .running) := by
      rw [hstate]
      tauto
    rw [if_neg hgo]
    refine answers_accept hnext ?_
    generalize (clock.advanceTo config nowMs).1 = advanced at hshows hstate
    cases hshows with
    | unstarted =>
      simp [ClockConfig.stateAt] at hactive
    | paused state before pausable started pauseStarted le nonneg frozen =>
      simp [ClockConfig.stateAt] at hactive
    | running active seen started notPaused shift le =>
      refine .paused rfl hstate hactive started rfl le_rfl (le_max_left _ _) ?_
      rw [Stopwatch.elapsed_running, max_eq_right (sub_nonneg.mpr le), shift]
      exact (sub_sub _ _ _).symm
  · have hstop : (clock.advanceTo config nowMs).1.state ≠ .countIn ∧
        (clock.advanceTo config nowMs).1.state ≠ .running := by
      rw [hstate]
      tauto
    rw [if_pos hstop]
    exact answers_error (if_neg hactive) hshows

/-- A paused clock is resumed from where it stands. -/
theorem resume_paused {elapsed : ℚ} (roundBeat : ℚ → ℚ)
    (h : Shows config nowMs clock (.paused elapsed)) :
    ∃ resumed, Shows config nowMs resumed (.running (nowMs - elapsed)) ∧
      clock.resume config roundBeat nowMs = accept (resumed.snapshot config roundBeat nowMs) := by
  cases h with
  | @paused _ startedAtMs pauseStartedAtMs _ state before pausable started pauseStarted le
      nonneg frozen =>
    refine ⟨{ clock with
        pausedDurationMs := clock.pausedDurationMs + max 0 (nowMs - pauseStartedAtMs)
        pauseStartedAtMs := none
        state := clock.stateBeforePause },
      .running ?_ ?_ started rfl ?_ (sub_le_self nowMs nonneg), ?_⟩
    · show clock.stateBeforePause = _ ∨ clock.stateBeforePause = _ ∨ _
      rw [before]
      exact ClockConfig.phase_active elapsed
    · show clock.stateBeforePause = _ ∨ _
      rw [before, Stopwatch.elapsed_running, sub_sub_cancel]
      refine pausable.imp_right fun hrunning => ?_
      by_contra hlt
      rw [ClockConfig.phase_eq_countIn.mpr ((le_max_right _ _).trans_lt (not_le.mp hlt))] at hrunning
      cases hrunning
    · show nowMs - elapsed =
        startedAtMs + (clock.pausedDurationMs + max 0 (nowMs - pauseStartedAtMs))
      rw [max_eq_right (sub_nonneg.mpr le), frozen]
      linarith
    · unfold resume
      rw [pauseStarted]
      exact if_neg (not_not.mpr state)

theorem resume_answers (h : Shows config nowMs clock watch) :
    Answers config nowMs (clock.resume config roundBeat nowMs)
      (config.answer roundBeat watch .resume nowMs) := by
  by_cases hpaused : ∃ e, watch = .paused e
  · obtain ⟨elapsed, rfl⟩ := hpaused
    obtain ⟨resumed, hshows, hresume⟩ := resume_paused roundBeat h
    rw [hresume]
    exact answers_accept (ClockConfig.next_resume_paused elapsed nowMs) hshows
  · have hnext : config.next watch .resume nowMs = none :=
      if_neg (mt ClockConfig.stateAt_eq_paused.mp hpaused)
    have hresume : clock.resume config roundBeat nowMs =
        (clock, .error "Performance clock can only resume from PAUSED.") := by
      unfold resume
      cases h with
      | unstarted => rfl
      | running active seen started notPaused shift le => rw [notPaused]
      | paused => exact absurd ⟨_, rfl⟩ hpaused
    rw [hresume]
    exact answers_error hnext h

/-- Each call is a call of the clock of the scope. -/
theorem call_answers (roundBeat : ℚ → ℚ) (h : Shows config T clock watch) (hT : T ≤ nowMs)
    (call : ClockCall) :
    Answers config nowMs (clock.call config roundBeat nowMs call)
      (config.answer roundBeat watch call nowMs) := by
  cases call with
  | snapshot => exact answers_accept rfl (h.mono hT)
  | start => exact start_answers (h.mono hT)
  | pause => exact pause_answers h hT
  | resume => exact resume_answers (h.mono hT)

end PerformanceClock

end NoteVerse.Practice

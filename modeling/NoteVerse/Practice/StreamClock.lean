import NoteVerse.Practice.SessionRuntime

/-!
# A clock with two sources of time

The clock of a session is read at the server's times, which do not go back, and
at the times that come with MIDI, which are the client's. A time of MIDI that
the server's clock has not come to does no harm unless it ends the count-in of
a resume or comes to the end of the scope (`Harmless`).

* `ClockOk` is what a clock keeps that is read at the server's times, and
  `advanceTo_ok`, `resume_ok`, `pause_ok` keep it;
* `performanceSync_progress`, `processInput_progress` and the others: no call
  takes performance time back.
-/

namespace NoteVerse.Practice

namespace PerformanceClock

variable {config : ClockConfig} {roundBeat : ℚ → ℚ} {clock : PerformanceClock} {T t u : ℚ}

/-- A clock that the server has read until `T` at the latest. It may run before
its count-in is over, if the time of MIDI has said so. -/
inductive ClockOk (config : ClockConfig) (T : ℚ) (clock : PerformanceClock) : Prop
  | active {startedAtMs : ℚ}
      (state : clock.state = .countIn ∨ clock.state = .running ∨ clock.state = .ended)
      (started : clock.startedAtMs = some startedAtMs)
      (notPaused : clock.pauseStartedAtMs = none)
      (ended : clock.state = .ended →
        config.scope.nominalDurationMs ≤ config.performanceElapsedMs (clock.activeElapsedMs T))
  | paused {startedAtMs pauseStartedAtMs : ℚ}
      (state : clock.state = .paused)
      (started : clock.startedAtMs = some startedAtMs)
      (pauseStarted : clock.pauseStartedAtMs = some pauseStartedAtMs)
      (le : pauseStartedAtMs ≤ T)
      (before : clock.stateBeforePause = .countIn ∨ clock.stateBeforePause = .running)
      (notEnded : config.phase (clock.activeElapsedMs T) ≠ .ended)

theorem activeElapsedMs_of_active {s : ℚ} (hstarted : clock.startedAtMs = some s)
    (hpaused : clock.pauseStartedAtMs = none) (t : ℚ) :
    clock.activeElapsedMs t = max 0 (t - s - clock.pausedDurationMs) := by
  unfold activeElapsedMs
  rw [hstarted, hpaused]
  dsimp only
  rw [sub_zero]

theorem activeElapsedMs_of_paused {s p : ℚ} (hstate : clock.state = .paused)
    (hstarted : clock.startedAtMs = some s) (hpaused : clock.pauseStartedAtMs = some p)
    (ht : p ≤ t) : clock.activeElapsedMs t = max 0 (p - s - clock.pausedDurationMs) := by
  unfold activeElapsedMs
  rw [hstarted, hpaused]
  dsimp only
  rw [if_pos hstate, max_eq_right (sub_nonneg.mpr ht)]
  congr 1
  linarith

/-- The state alone is not what the time depends on. -/
theorem activeElapsedMs_with_state (hpaused : clock.pauseStartedAtMs = none) (state : ClockState)
    (t : ℚ) :
    PerformanceClock.activeElapsedMs { clock with state } t = clock.activeElapsedMs t := by
  unfold activeElapsedMs
  simp only [hpaused]

theorem activeElapsedMs_nonneg (clock : PerformanceClock) (t : ℚ) :
    0 ≤ clock.activeElapsedMs t := by
  unfold activeElapsedMs
  cases clock.startedAtMs with
  | none => exact le_rfl
  | some startedAtMs => exact le_max_left _ _

theorem ClockOk.activeElapsedMs_mono (h : ClockOk config T clock) (ht : T ≤ t) (hu : t ≤ u) :
    clock.activeElapsedMs t ≤ clock.activeElapsedMs u := by
  cases h with
  | active state started notPaused ended =>
    rw [activeElapsedMs_of_active started notPaused, activeElapsedMs_of_active started notPaused]
    exact max_le_max le_rfl (by linarith)
  | paused state started pauseStarted le before notEnded =>
    rw [activeElapsedMs_of_paused state started pauseStarted (le.trans ht),
      activeElapsedMs_of_paused state started pauseStarted (le.trans (ht.trans hu))]

theorem ClockOk.mono (h : ClockOk config T clock) (ht : T ≤ t) : ClockOk config t clock := by
  have hle := h.activeElapsedMs_mono le_rfl ht
  cases h with
  | active state started notPaused ended =>
    refine .active state started notPaused fun hended => (ended hended).trans ?_
    exact ClockConfig.performanceElapsedMs_mono hle
  | paused state started pauseStarted le before notEnded =>
    refine .paused state started pauseStarted (le.trans ht) before ?_
    rwa [activeElapsedMs_of_paused state started pauseStarted (le.trans ht),
      ← activeElapsedMs_of_paused state started pauseStarted le]

theorem ClockOk.ne_ready (h : ClockOk config T clock) : clock.state ≠ .ready := by
  intro hready
  cases h with
  | active state started notPaused ended =>
    rw [hready] at state
    simp at state
  | paused state started pauseStarted le before notEnded =>
    rw [hready] at state
    cases state

/-- A clock that is not paused is advanced to the state of its time, but does not
go back to its count-in. -/
theorem advanceTo_active (hready : clock.state ≠ .ready) (hpaused : clock.state ≠ .paused) (t : ℚ) :
    clock.advanceTo config t =
      ({ clock with
          state := if config.phase (clock.activeElapsedMs t) = .countIn then clock.state
            else config.phase (clock.activeElapsedMs t) },
        clock.activeElapsedMs t) := by
  unfold advanceTo
  simp only [hready, hpaused, if_false, resolvedActiveState_eq hpaused]
  rcases @ClockConfig.phase_active config (clock.activeElapsedMs t) with h | h | h <;>
    simp [h]

theorem advanceTo_paused (hpaused : clock.state = .paused) (t : ℚ) :
    clock.advanceTo config t = (clock, clock.activeElapsedMs t) := by
  unfold advanceTo
  rw [if_neg (by rw [hpaused]; decide), if_pos hpaused]

theorem advanceTo_activeElapsedMs (h : ClockOk config T clock) (u v : ℚ) :
    (clock.advanceTo config u).1.activeElapsedMs v = clock.activeElapsedMs v := by
  cases h with
  | active state started notPaused ended =>
    have hpaused : clock.state ≠ .paused := by
      intro h
      rw [h] at state
      simp at state
    rw [advanceTo_active (ClockOk.active state started notPaused ended).ne_ready hpaused]
    exact activeElapsedMs_with_state notPaused _ v
  | paused state started pauseStarted le before notEnded => rw [advanceTo_paused state]

theorem advanceTo_snd (h : ClockOk config T clock) (u : ℚ) :
    (clock.advanceTo config u).2 = clock.activeElapsedMs u := by
  by_cases hpaused : clock.state = .paused
  · rw [advanceTo_paused hpaused]
  · rw [advanceTo_active h.ne_ready hpaused]

/-- A time that the server has come to, or one that is not after the end of the scope. -/
theorem advanceTo_ok (h : ClockOk config T clock) (hT : T ≤ t)
    (hu : u ≤ t ∨ clock.resolvedActiveState config (clock.activeElapsedMs u) ≠ .ended) :
    ClockOk config t (clock.advanceTo config u).1 := by
  have hnow := h.mono hT
  cases hnow with
  | paused state started pauseStarted le before notEnded =>
    rw [advanceTo_paused state]
    exact .paused state started pauseStarted le before notEnded
  | active state started notPaused ended =>
    have hpaused : clock.state ≠ .paused := by
      intro h
      rw [h] at state
      simp at state
    rw [resolvedActiveState_eq hpaused] at hu
    have helapsed := activeElapsedMs_of_active started notPaused
    rw [advanceTo_active h.ne_ready hpaused]
    refine .active ?_ started notPaused fun hended => ?_
    · dsimp only
      split_ifs with hphase
      · exact state
      · exact ClockConfig.phase_active _
    · dsimp only at hended ⊢
      rw [activeElapsedMs_with_state notPaused]
      split_ifs at hended with hphase
      · exact ended hended
      · have hle : u ≤ t := hu.resolve_right fun h => h hended
        rw [← (ClockConfig.phase_eq_ended.mp hended).2]
        apply ClockConfig.performanceElapsedMs_mono
        rw [helapsed, helapsed]
        exact max_le_max le_rfl (by linarith)

/-- Once the scope has ended, it has ended at every later time of the server. -/
theorem advanceTo_ended (h : ClockOk config T clock) (hT : T ≤ t) (hended : clock.state = .ended) :
    (clock.advanceTo config t).1.state = .ended := by
  have hnow := h.mono hT
  cases hnow with
  | paused state started pauseStarted le before notEnded =>
    rw [hended] at state
    cases state
  | active state started notPaused ended =>
    rw [advanceTo_active h.ne_ready (by rw [hended]; decide)]
    dsimp only
    split_ifs with hphase
    · exact hended
    · apply ClockConfig.phase_eq_ended.mpr
      refine ⟨?_, le_antisymm ClockConfig.performanceElapsedMs_le (ended hended)⟩
      exact not_lt.mp (mt ClockConfig.phase_eq_countIn.mpr hphase)

theorem advanceTo_ne_ended (h : ClockOk config T clock) (hstate : clock.state ≠ .ended)
    (hphase : config.phase (clock.activeElapsedMs t) ≠ .ended) :
    (clock.advanceTo config t).1.state ≠ .ended := by
  by_cases hpaused : clock.state = .paused
  · rw [advanceTo_paused hpaused]
    exact hstate
  · rw [advanceTo_active h.ne_ready hpaused]
    dsimp only
    split_ifs with hcountIn
    · exact hstate
    · exact hphase

theorem ClockOk.phase_ne_ended (h : ClockOk config T clock) (hpaused : clock.state = .paused) :
    config.phase (clock.activeElapsedMs T) ≠ .ended := by
  cases h with
  | active state started notPaused ended =>
    rw [hpaused] at state
    simp at state
  | paused state started pauseStarted le before notEnded => exact notEnded

/-- A clock that has not been advanced to its end has not come to it. -/
theorem phase_of_advanceTo (h : ClockOk config T clock) (hpaused : clock.state ≠ .paused)
    (hstate : (clock.advanceTo config t).1.state ≠ .ended) :
    config.phase (clock.activeElapsedMs t) ≠ .ended := by
  intro hphase
  rw [advanceTo_active h.ne_ready hpaused] at hstate
  apply hstate
  dsimp only
  rw [hphase]
  rfl

/-- A clock that is paused now, and stands still from now on. -/
theorem pausedNow_ok (h : ClockOk config t clock)
    (hstate : clock.state = .countIn ∨ clock.state = .running)
    (hphase : config.phase (clock.activeElapsedMs t) ≠ .ended) :
    ClockOk config t { clock with
        stateBeforePause := clock.state, state := .paused, pauseStartedAtMs := some t } ∧
      PerformanceClock.activeElapsedMs { clock with
        stateBeforePause := clock.state, state := .paused, pauseStartedAtMs := some t } t =
          clock.activeElapsedMs t := by
  cases h with
  | paused state started pauseStarted le before notEnded =>
    rw [state] at hstate
    simp at hstate
  | active state started notPaused ended =>
    have helapsed : PerformanceClock.activeElapsedMs { clock with
        stateBeforePause := clock.state, state := .paused, pauseStartedAtMs := some t } t =
          clock.activeElapsedMs t := by
      rw [activeElapsedMs_of_active started notPaused]
      exact activeElapsedMs_of_paused rfl started rfl le_rfl
    refine ⟨.paused rfl started rfl le_rfl hstate ?_, helapsed⟩
    rwa [helapsed]

/-- A clock that is paused now. -/
theorem pause_ok (roundBeat : ℚ → ℚ) (h : ClockOk config T clock) (hT : T ≤ t) :
    (∃ error, clock.pause config roundBeat t = ((clock.advanceTo config t).1, .error error)) ∨
      ∃ paused, ClockOk config t paused ∧ paused.state = .paused ∧ clock.state ≠ .ended ∧
        paused.activeElapsedMs t = clock.activeElapsedMs t ∧
        clock.pause config roundBeat t = accept (paused.snapshot config roundBeat t) := by
  have hok := advanceTo_ok h hT (.inl le_rfl)
  have helapsed := advanceTo_activeElapsedMs h t t
  by_cases hstop : (clock.advanceTo config t).1.state ≠ .countIn ∧
      (clock.advanceTo config t).1.state ≠ .running
  · exact .inl ⟨_, if_pos hstop⟩
  · have hbefore : (clock.advanceTo config t).1.state = .countIn ∨
        (clock.advanceTo config t).1.state = .running := by tauto
    have hnotEnded : (clock.advanceTo config t).1.state ≠ .ended := by
      intro hended
      rw [hended] at hbefore
      simp at hbefore
    have hphase : config.phase (clock.activeElapsedMs t) ≠ .ended := by
      refine phase_of_advanceTo h (fun hpaused => ?_) hnotEnded
      rw [advanceTo_paused hpaused, hpaused] at hbefore
      simp at hbefore
    rw [← helapsed] at hphase
    obtain ⟨hpaused, hsame⟩ := pausedNow_ok hok hbefore hphase
    exact .inr ⟨_, hpaused, rfl, fun hended => hnotEnded (advanceTo_ended h hT hended),
      hsame.trans helapsed, if_neg hstop⟩

/-- A clock that is resumed at a time that the server has come to. -/
theorem resume_ok (roundBeat : ℚ → ℚ) (h : ClockOk config T clock) (hstate : clock.state = .paused)
    (hT : T ≤ t) (hu : u ≤ t) :
    ∃ resumed, ClockOk config t resumed ∧ clock.activeElapsedMs T ≤ resumed.activeElapsedMs t ∧
      (u = t → resumed.activeElapsedMs t = clock.activeElapsedMs T) ∧ resumed.state ≠ .ended ∧
      clock.resume config roundBeat u = accept (resumed.snapshot config roundBeat u) := by
  cases h with
  | active state started notPaused ended =>
    rw [hstate] at state
    simp at state
  | @paused startedAtMs pauseStartedAtMs state started pauseStarted le before notEnded =>
    have hnotEnded : clock.stateBeforePause ≠ .ended := by
      intro hended
      rw [hended] at before
      simp at before
    have hresumed : PerformanceClock.activeElapsedMs { clock with
        pausedDurationMs := clock.pausedDurationMs + max 0 (u - pauseStartedAtMs)
        pauseStartedAtMs := none
        state := clock.stateBeforePause } t =
          max 0 (t - startedAtMs - (clock.pausedDurationMs + max 0 (u - pauseStartedAtMs))) :=
      activeElapsedMs_of_active (by exact started) rfl t
    have hpaused : max 0 (u - pauseStartedAtMs) ≤ t - pauseStartedAtMs :=
      max_le (sub_nonneg.mpr (le.trans hT)) (sub_le_sub_right hu _)
    refine ⟨{ clock with
        pausedDurationMs := clock.pausedDurationMs + max 0 (u - pauseStartedAtMs)
        pauseStartedAtMs := none
        state := clock.stateBeforePause },
      .active (before.imp_right .inl) started rfl fun hended => absurd hended hnotEnded,
      ?_, fun hut => ?_, hnotEnded, ?_⟩
    · rw [activeElapsedMs_of_paused state started pauseStarted le, hresumed]
      apply max_le_max le_rfl
      linarith
    · rw [activeElapsedMs_of_paused state started pauseStarted le, hresumed, hut,
        max_eq_right (sub_nonneg.mpr (le.trans hT))]
      congr 1
      linarith
    · unfold resume
      rw [pauseStarted]
      exact if_neg (not_not.mpr state)

end PerformanceClock

/-! ## The runtime -/

namespace SessionRuntime

open PerformanceClock

variable {config : RuntimeConfig} {runtime runtime' runtime'' : SessionRuntime} {T t u : ℚ}
  {clock : PerformanceClock}

/-- A runtime whose clock the server has read until `T` at the latest. -/
structure RuntimeOk (config : RuntimeConfig) (T : ℚ) (runtime : SessionRuntime) : Prop where
  clock : ClockOk config.toClockConfig T runtime.clock
  countIn : runtime.resumeCountInStartedAtMs ≠ none → runtime.clock.pausedFromRunning = true ∧
    0 < (config.resumeCountIn (runtime.clock.activeElapsedMs T)).1 ∧
    0 < (config.resumeCountIn (runtime.clock.activeElapsedMs T)).2

/-- The performance time at a time of the server. -/
def performanceTimeAt (config : RuntimeConfig) (runtime : SessionRuntime) (t : ℚ) : ℚ :=
  config.performanceElapsedMs (runtime.clock.activeElapsedMs t)

/-- What a call between the times `T` and `t` of the server may make of a runtime:
it takes no performance time back, and leaves the clock ended. -/
structure Progress (config : RuntimeConfig) (T : ℚ) (runtime : SessionRuntime) (t : ℚ)
    (runtime' : SessionRuntime) : Prop where
  ok : RuntimeOk config t runtime'
  le : runtime.performanceTimeAt config T ≤ runtime'.performanceTimeAt config t
  ended : runtime.clock.state = .ended → runtime'.clock.state = .ended

/-- A sync that says what the runtime has come to. -/
structure Current (config : RuntimeConfig) (runtime : SessionRuntime) (t : ℚ)
    (sync : PerformanceClockSync) : Prop where
  performanceTime : sync.performanceTimeMs = runtime.performanceTimeAt config t
  ended : sync.state = .ended ↔ runtime.clock.state = .ended
  completed : sync.scopeCompleted = true ↔ sync.state = .ended
  terminal : sync.state = .ended → sync.musicalBeat = config.scope.terminalBeat

theorem pausedFromRunning_state (h : clock.pausedFromRunning = true) : clock.state = .paused :=
  (of_decide_eq_true h).1

/-- A paused clock has come to the same at every time of the server. -/
theorem activeElapsedMs_paused (h : ClockOk config.toClockConfig T clock)
    (hpaused : clock.state = .paused) (ht : T ≤ t) :
    clock.activeElapsedMs t = clock.activeElapsedMs T := by
  cases h with
  | active state started notPaused ended =>
    rw [hpaused] at state
    simp at state
  | paused state started pauseStarted le before notEnded =>
    rw [activeElapsedMs_of_paused state started pauseStarted le,
      activeElapsedMs_of_paused state started pauseStarted (le.trans ht)]

theorem RuntimeOk.mono (h : RuntimeOk config T runtime) (ht : T ≤ t) :
    RuntimeOk config t runtime := by
  refine ⟨h.clock.mono ht, fun hcountIn => ?_⟩
  have hpaused := h.countIn hcountIn
  rwa [activeElapsedMs_paused h.clock (pausedFromRunning_state hpaused.1) ht]

theorem RuntimeOk.le (h : RuntimeOk config T runtime) (ht : T ≤ t) :
    runtime.performanceTimeAt config T ≤ runtime.performanceTimeAt config t :=
  ClockConfig.performanceElapsedMs_mono (h.clock.activeElapsedMs_mono le_rfl ht)

theorem Progress.refl (h : RuntimeOk config T runtime) (ht : T ≤ t) :
    Progress config T runtime t runtime :=
  ⟨h.mono ht, h.le ht, id⟩

theorem Progress.trans (h : Progress config T runtime t runtime')
    (h' : Progress config t runtime' u runtime'') : Progress config T runtime u runtime'' :=
  ⟨h'.ok, h.le.trans h'.le, fun hended => h'.ended (h.ended hended)⟩

/-- A call that leaves no count-in pending. -/
theorem Progress.of_clock (hclock : ClockOk config.toClockConfig t runtime'.clock)
    (hidle : runtime'.resumeCountInStartedAtMs = none)
    (hle : runtime.clock.activeElapsedMs T ≤ runtime'.clock.activeElapsedMs t)
    (hended : runtime.clock.state = .ended → runtime'.clock.state = .ended) :
    Progress config T runtime t runtime' :=
  ⟨⟨hclock, fun h => absurd hidle h⟩, ClockConfig.performanceElapsedMs_mono hle, hended⟩

theorem current_snapshot (h : ClockOk config.toClockConfig t clock)
    (hruntime : runtime.clock = (clock.advanceTo config.toClockConfig t).1) :
    Current config runtime t
      (config.toSync (clock.snapshot config.toClockConfig config.roundBeat t).2) := by
  have hok : ClockOk config.toClockConfig t runtime.clock :=
    hruntime ▸ advanceTo_ok h le_rfl (.inl le_rfl)
  have helapsed : runtime.clock.activeElapsedMs t = clock.activeElapsedMs t := by
    rw [hruntime, advanceTo_activeElapsedMs h]
  have hsnapshot : (clock.snapshot config.toClockConfig config.roundBeat t).2 =
      snapshotOf config.toClockConfig config.roundBeat t runtime.clock.state
        (runtime.clock.activeElapsedMs t) := by
    rw [helapsed, hruntime, ← advanceTo_snd h t]
    rfl
  rw [hsnapshot]
  refine ⟨rfl, Iff.rfl, decide_eq_true_iff, fun hended => ?_⟩
  cases hok with
  | active state started notPaused ended => exact if_pos (ended hended)
  | paused state started pauseStarted le before notEnded =>
    have hstate : runtime.clock.state = .ended := hended
    rw [hstate] at state
    cases state

/-- A sync while the count-in of a resume is pending. -/
theorem current_countIn {sync : PerformanceClockSync} (h : Current config runtime t sync)
    (hpaused : runtime.clock.state = .paused) :
    Current config runtime t (runtime.resumeCountInSync t sync) where
  performanceTime := h.performanceTime
  ended := by
    rw [hpaused]
    show ClockState.countIn = .ended ↔ ClockState.paused = .ended
    decide
  completed := by
    show false = true ↔ ClockState.countIn = .ended
    decide
  terminal hended := absurd (show ClockState.countIn = .ended from hended) (by decide)

/-- A scope that has ended when the clock is started. -/
def Over (config : RuntimeConfig) : Prop := config.phase 0 = .ended

theorem Over.phase (h : Over config) {elapsed : ℚ} (helapsed : 0 ≤ elapsed) :
    config.phase elapsed = .ended :=
  ClockConfig.phase_ended_mono helapsed h

/-- A sync of a clock that has ended, at a time of the server or of such a scope. -/
theorem advanceTo_over (h : ClockOk config.toClockConfig T clock) (hT : T ≤ t)
    (hended : clock.state = .ended → Over config ∨ u = t) (hstate : clock.state = .ended) :
    (clock.advanceTo config.toClockConfig u).1.state = .ended := by
  rcases hended hstate with hover | rfl
  · have hphase := hover.phase (activeElapsedMs_nonneg clock u)
    rw [advanceTo_active h.ne_ready (by rw [hstate]; decide), hphase]
    rfl
  · exact advanceTo_ended h hT hstate

/-- A sync of the clock at the time `u`, which the server has come to or which is
not after the end of the scope. -/
theorem clockSync_progress (h : RuntimeOk config T runtime) (hT : T ≤ t)
    (hu : u ≤ t ∨ runtime.clock.resolvedActiveState config.toClockConfig
      (runtime.clock.activeElapsedMs u) ≠ .ended)
    (hended : runtime.clock.state = .ended → Over config ∨ u = t) :
    Progress config T runtime t (runtime.clockSync config u).1 := by
  have hclock : (runtime.clockSync config u).1.clock =
      (runtime.clock.advanceTo config.toClockConfig u).1 := rfl
  have helapsed := advanceTo_activeElapsedMs h.clock u t
  refine ⟨⟨?_, fun hcountIn => ?_⟩, ?_, fun hstate => ?_⟩
  · rw [hclock]
    exact advanceTo_ok h.clock hT hu
  · have hpaused := (h.mono hT).countIn hcountIn
    rw [hclock, advanceTo_paused (pausedFromRunning_state hpaused.1)]
    exact hpaused
  · unfold performanceTimeAt
    rw [hclock, helapsed]
    exact h.le hT
  · rw [hclock]
    exact advanceTo_over h.clock hT hended hstate

theorem clockSync_current (h : RuntimeOk config T runtime) (hT : T ≤ t) :
    Current config (runtime.clockSync config t).1 t (runtime.clockSync config t).2 :=
  current_snapshot (h.clock.mono hT) rfl

/-- The clock is resumed at the time `u`, which the server has come to. -/
theorem resumeClock_progress (h : ClockOk config.toClockConfig t runtime.clock) (hu : u ≤ t)
    (hpaused : runtime.clock.state = .paused) (hidle : runtime.resumeCountInStartedAtMs = none) :
    Progress config t runtime t (runtime.resumeClock config u).1 ∧
      ∃ sync, (runtime.resumeClock config u).2 = .ok sync ∧
        (u = t → Current config (runtime.resumeClock config u).1 t sync ∧ sync.state ≠ .ended) := by
  obtain ⟨resumed, hok, hle, heq, hstate, hresume⟩ :=
    resume_ok config.roundBeat h hpaused le_rfl hu
  unfold resumeClock
  rw [hresume]
  refine ⟨.of_clock (advanceTo_ok hok le_rfl (.inl hu)) hidle ?_ fun hended => ?_, _, rfl,
    fun hut => ?_⟩
  · show _ ≤ (resumed.advanceTo config.toClockConfig u).1.activeElapsedMs t
    rwa [advanceTo_activeElapsedMs hok]
  · rw [hpaused] at hended
    cases hended
  · subst hut
    refine ⟨current_snapshot hok rfl, advanceTo_ne_ended hok hstate ?_⟩
    rw [heq rfl]
    exact h.phase_ne_ended hpaused

/-- A time of a sync that does not go beyond what the server has seen. -/
def Harmless (config : RuntimeConfig) (runtime : SessionRuntime) (u : ℚ) : Prop :=
  match runtime.resumeCountInStartedAtMs with
  | some startedAtMs => max 0 (u - startedAtMs) < runtime.resumeCountInDurationMs
  | none => runtime.clock.resolvedActiveState config.toClockConfig
      (runtime.clock.activeElapsedMs u) ≠ .ended

instance : Decidable (Harmless config runtime u) :=
  match h : runtime.resumeCountInStartedAtMs with
  | some startedAtMs =>
    decidable_of_iff (max 0 (u - startedAtMs) < runtime.resumeCountInDurationMs)
      (by simp only [Harmless, h])
  | none =>
    decidable_of_iff (runtime.clock.resolvedActiveState config.toClockConfig
      (runtime.clock.activeElapsedMs u) ≠ .ended) (by simp only [Harmless, h])

/-- A sync at the time `u`. -/
theorem performanceSync_progress (h : RuntimeOk config T runtime) (hT : T ≤ t)
    (hu : u ≤ t ∨ Harmless config runtime u)
    (hended : runtime.clock.state = .ended → Over config ∨ u = t) :
    Progress config T runtime t (runtime.performanceSync config u).1 ∧
      ∃ sync, (runtime.performanceSync config u).2 = .ok sync ∧
        (u = t → Current config (runtime.performanceSync config u).1 t sync) := by
  cases hstarted : runtime.resumeCountInStartedAtMs with
  | none =>
    unfold Harmless at hu
    rw [hstarted] at hu
    rw [performanceSync_idle hstarted]
    refine ⟨clockSync_progress h hT hu hended, _, rfl, fun hut => ?_⟩
    subst hut
    exact clockSync_current h hT
  | some s =>
    unfold Harmless at hu
    rw [hstarted] at hu
    have hpaused : runtime.clock.state = .paused :=
      pausedFromRunning_state (h.countIn (by rw [hstarted]; exact Option.some_ne_none s)).1
    have hclock : (runtime.clockSync config u).1.clock = runtime.clock :=
      congrArg Prod.fst (advanceTo_paused hpaused u)
    have hsync : Progress config T runtime t (runtime.clockSync config u).1 := by
      refine clockSync_progress h hT (.inr ?_) fun hended => ?_
      · unfold resolvedActiveState
        rw [if_pos hpaused]
        decide
      · rw [hpaused] at hended
        cases hended
    rw [performanceSync_pending hstarted]
    split_ifs with hlt
    · refine ⟨hsync, _, rfl, fun hut => ?_⟩
      subst hut
      exact current_countIn (clockSync_current h hT) (hclock ▸ hpaused)
    · have hstate : (runtime.clockSync config u).1.clearResumeCountIn.clock.state = .paused :=
        (congrArg PerformanceClock.state hclock).trans hpaused
      have hok : ClockOk config.toClockConfig t
          (runtime.clockSync config u).1.clearResumeCountIn.clock := hsync.ok.clock
      have hidle : (runtime.clockSync config u).1.clearResumeCountIn.resumeCountInStartedAtMs =
          none := rfl
      obtain ⟨hprogress, sync, hresult, hcurrent⟩ :=
        resumeClock_progress hok (hu.resolve_right hlt) hstate hidle
      refine ⟨⟨hprogress.ok, hsync.le.trans hprogress.le, fun hstate' => ?_⟩, sync, hresult,
        fun hut => (hcurrent hut).1⟩
      rw [hpaused] at hstate'
      cases hstate'

theorem pausePerformance_progress (h : RuntimeOk config T runtime) (hT : T ≤ t) :
    Progress config T runtime t (runtime.pausePerformance config t).1 ∧
      ∀ sync, (runtime.pausePerformance config t).2 = .ok sync →
        Current config (runtime.pausePerformance config t).1 t sync ∧ sync.state ≠ .ended := by
  cases hstarted : runtime.resumeCountInStartedAtMs with
  | some s =>
    have hpaused : runtime.clock.state = .paused :=
      pausedFromRunning_state (h.countIn (by rw [hstarted]; exact Option.some_ne_none s)).1
    have hpause : runtime.pausePerformance config t =
        ((runtime.clearResumeCountIn.clockSync config t).1,
          .ok (runtime.clearResumeCountIn.clockSync config t).2) := by
      unfold pausePerformance
      rw [hstarted]
    have hclear : RuntimeOk config T runtime.clearResumeCountIn :=
      ⟨h.clock, fun hcountIn => absurd rfl hcountIn⟩
    have hprogress := clockSync_progress hclear hT (.inl le_rfl) fun _ => .inr rfl
    have hcurrent := clockSync_current hclear hT
    rw [hpause]
    refine ⟨⟨hprogress.ok, hprogress.le, hprogress.ended⟩, fun sync hsync => ?_⟩
    cases hsync
    refine ⟨hcurrent, ?_⟩
    rw [Ne, hcurrent.ended]
    show (runtime.clock.advanceTo config.toClockConfig t).1.state ≠ .ended
    rw [advanceTo_paused hpaused, hpaused]
    decide
  | none =>
    have hpause : runtime.pausePerformance config t = runtime.onClock config
        (runtime.clock.pause config.toClockConfig config.roundBeat t) := by
      unfold pausePerformance
      rw [hstarted]
    rw [hpause]
    rcases pause_ok config.roundBeat h.clock hT with ⟨error, hclock⟩ | ⟨paused, hok, hstate, hne,
      helapsed, hclock⟩
    · rw [hclock]
      have hprogress := clockSync_progress h hT (.inl le_rfl) fun _ => .inr rfl
      exact ⟨⟨hprogress.ok, hprogress.le, hprogress.ended⟩, fun sync hsync => nomatch hsync⟩
    · rw [hclock]
      have hclock' : (paused.snapshot config.toClockConfig config.roundBeat t).1 = paused :=
        congrArg Prod.fst (advanceTo_paused hstate t)
      refine ⟨.of_clock ?_ hstarted ?_ fun hended => absurd hended hne, fun sync hsync => ?_⟩
      · show ClockOk _ t (paused.snapshot config.toClockConfig config.roundBeat t).1
        rw [hclock']
        exact hok
      · show _ ≤ (paused.snapshot config.toClockConfig config.roundBeat t).1.activeElapsedMs t
        rw [hclock', helapsed]
        exact h.clock.activeElapsedMs_mono le_rfl hT
      · cases hsync
        refine ⟨current_snapshot hok rfl, ?_⟩
        show (paused.advanceTo config.toClockConfig t).1.state ≠ .ended
        rw [advanceTo_paused hstate, hstate]
        decide

/-- A clock that is not paused cannot be resumed. -/
theorem resumeClock_of_not_paused (h : runtime.clock.state ≠ .paused) (t : ℚ) :
    runtime.resumeClock config t =
      (runtime, .error "Performance clock can only resume from PAUSED.") := by
  unfold resumeClock
  rw [resume_of_not_paused h]
  rfl

theorem resumePerformance_progress (h : RuntimeOk config T runtime) (hT : T ≤ t) :
    Progress config T runtime t (runtime.resumePerformance config t).1 ∧
      ∀ sync, (runtime.resumePerformance config t).2 = .ok sync →
        Current config (runtime.resumePerformance config t).1 t sync ∧ sync.state ≠ .ended := by
  have hnow := h.mono hT
  by_cases hrunning : runtime.clock.pausedFromRunning
  · have hpaused := pausedFromRunning_state hrunning
    have hclock : (runtime.clockSync config t).1.clock = runtime.clock :=
      congrArg Prod.fst (advanceTo_paused hpaused t)
    have hcountIn : config.countInForBeat (runtime.clockSync config t).2.musicalBeat =
        config.resumeCountIn (runtime.clock.activeElapsedMs t) := by
      show config.countInForBeat (config.musicalBeat config.roundBeat (config.performanceElapsedMs
        (runtime.clock.advanceTo config.toClockConfig t).2)) = _
      rw [advanceTo_paused hpaused]
      rfl
    rw [resumePerformance_of_pausedFromRunning hrunning hcountIn]
    have hsync := clockSync_progress h hT (.inl le_rfl) fun _ => .inr rfl
    have hcurrent := clockSync_current h hT
    split_ifs with hnone
    · have hidle : (runtime.clockSync config t).1.resumeCountInStartedAtMs = none := by
        by_contra hne
        obtain ⟨-, hduration, hpulses⟩ := hnow.countIn hne
        rcases hnone with hle | hle
        · exact absurd hduration (not_lt.mpr hle)
        · exact absurd hpulses (not_lt.mpr hle)
      obtain ⟨hprogress, sync, hresult, hcurrent⟩ :=
        resumeClock_progress hsync.ok.clock le_rfl (hclock ▸ hpaused) hidle
      refine ⟨hsync.trans hprogress, fun sync' hsync' => ?_⟩
      rw [hresult] at hsync'
      cases hsync'
      exact hcurrent rfl
    · rw [not_or, not_le, not_le] at hnone
      refine ⟨⟨⟨hsync.ok.clock, fun _ => ?_⟩, hsync.le, hsync.ended⟩, fun sync hresult => ?_⟩
      · show (runtime.clockSync config t).1.clock.pausedFromRunning = true ∧
          0 < (config.resumeCountIn ((runtime.clockSync config t).1.clock.activeElapsedMs t)).1 ∧
          0 < (config.resumeCountIn ((runtime.clockSync config t).1.clock.activeElapsedMs t)).2
        rw [hclock]
        exact ⟨hrunning, hnone⟩
      · cases hresult
        have hcounting : Current config ((runtime.clockSync config t).1.countingIn t
            (config.resumeCountIn (runtime.clock.activeElapsedMs t))) t
              (runtime.clockSync config t).2 := ⟨hcurrent.performanceTime, hcurrent.ended,
                hcurrent.completed, hcurrent.terminal⟩
        have hstate : ((runtime.clockSync config t).1.countingIn t
            (config.resumeCountIn (runtime.clock.activeElapsedMs t))).clock.state = .paused := by
          show (runtime.clockSync config t).1.clock.state = .paused
          rw [hclock, hpaused]
        refine ⟨current_countIn hcounting hstate, ?_⟩
        show ClockState.countIn ≠ .ended
        decide
  · have hidle : runtime.resumeCountInStartedAtMs = none :=
      not_not.mp fun hne => hrunning (h.countIn hne).1
    rw [resumePerformance_of_not hrunning]
    by_cases hpaused : runtime.clock.state = .paused
    · obtain ⟨hprogress, sync, hresult, hcurrent⟩ :=
        resumeClock_progress hnow.clock le_rfl hpaused hidle
      refine ⟨⟨hprogress.ok, (h.le hT).trans hprogress.le, hprogress.ended⟩, fun sync' hsync' => ?_⟩
      rw [hresult] at hsync'
      cases hsync'
      exact hcurrent rfl
    · rw [resumeClock_of_not_paused hpaused]
      exact ⟨.refl h hT, fun sync hsync => nomatch hsync⟩

/-- An input at the time `u`. -/
theorem processInput_progress (source : PracticeInputSource) (error : String)
    (h : RuntimeOk config T runtime) (hT : T ≤ t)
    (hu : runtime.inputSource = source → u ≤ t ∨ Harmless config runtime u)
    (hended : runtime.clock.state = .ended → Over config ∨ u = t) :
    Progress config T runtime t (runtime.processInput config u source error).1 := by
  unfold processInput
  split_ifs with hsource
  · exact .refl h hT
  · exact (performanceSync_progress h hT (hu (not_not.mp hsource)) hended).1

end SessionRuntime

end NoteVerse.Practice

import NoteVerse.Lib.Stopwatch
import NoteVerse.Practice.Timeline

/-!
# What the clock of a performance is for

A stopwatch with the count-in and the scope of a performance: its state is what
the elapsed time says. The server's clock and the browser's are both shown to be
this one, in `ServerClock` and `BrowserClock`.
-/

namespace NoteVerse.Practice

inductive ClockCall
  | start | pause | resume | snapshot
  deriving DecidableEq, Repr

/-- A call with its time. -/
abbrev TimedCall := ClockCall × ℚ

/-- Calls at times that do not go back. -/
abbrev InOrder (calls : List TimedCall) : Prop := calls.Pairwise (·.2 ≤ ·.2)

/-- What a clock reports. -/
structure ClockReport where
  state : ClockState
  performanceTimeMs : ℚ
  musicalBeat : ℚ
  countInRemainingMs : ℚ
  deriving DecidableEq, Repr

namespace ClockConfig

variable (config : ClockConfig) (roundBeat : ℚ → ℚ)

/-- The state of a clock that runs, by the time that has run. -/
def phase (activeElapsedMs : ℚ) : ClockState :=
  if activeElapsedMs < config.countInMs then .countIn
  else if config.performanceElapsedMs activeElapsedMs ≥ config.scope.nominalDurationMs then .ended
  else .running

def stateAt (watch : Stopwatch ℚ) (now : ℚ) : ClockState :=
  match watch with
  | .unstarted => .ready
  | .running _ => config.phase (watch.elapsed now)
  | .paused _ => .paused

def reportAt (watch : Stopwatch ℚ) (now : ℚ) : ClockReport where
  state := config.stateAt watch now
  performanceTimeMs := config.performanceElapsedMs (watch.elapsed now)
  musicalBeat := config.musicalBeat roundBeat (config.performanceElapsedMs (watch.elapsed now))
  countInRemainingMs := config.countInRemainingMs (watch.elapsed now)

/-- The stopwatch after a call; none if the call is refused. -/
def next (watch : Stopwatch ℚ) (call : ClockCall) (now : ℚ) : Option (Stopwatch ℚ) :=
  match call with
  | .start => if config.stateAt watch now = .ready then some (.running now) else none
  | .pause =>
    if config.stateAt watch now = .countIn ∨ config.stateAt watch now = .running then
      some (watch.pause now)
    else none
  | .resume => if config.stateAt watch now = .paused then some (watch.resume now) else none
  | .snapshot => some watch

/-- The answer to a call, with the stopwatch after it. -/
def answer (watch : Stopwatch ℚ) (call : ClockCall) (now : ℚ) :
    Stopwatch ℚ × Option ClockReport :=
  match config.next watch call now with
  | none => (watch, none)
  | some watch => (watch, some (config.reportAt roundBeat watch now))

variable {config} {roundBeat} {elapsed later now : ℚ} {watch : Stopwatch ℚ}

theorem answer_fst (watch : Stopwatch ℚ) (call : ClockCall) (now : ℚ) :
    (config.answer roundBeat watch call now).1 = (config.next watch call now).getD watch := by
  unfold answer
  cases config.next watch call now <;> rfl

theorem next_resume_paused (e now : ℚ) :
    config.next (.paused e) .resume now = some (.running (now - e)) := rfl

theorem phase_active (elapsed : ℚ) : config.phase elapsed = .countIn ∨
    config.phase elapsed = .running ∨ config.phase elapsed = .ended := by
  unfold phase
  split_ifs
  · exact .inl rfl
  · exact .inr (.inr rfl)
  · exact .inr (.inl rfl)

theorem phase_eq_countIn : config.phase elapsed = .countIn ↔ elapsed < config.countInMs := by
  unfold phase
  split_ifs with h1 h2 <;> simp [h1]

theorem phase_eq_ended : config.phase elapsed = .ended ↔
    config.countInMs ≤ elapsed ∧
      config.performanceElapsedMs elapsed = config.scope.nominalDurationMs := by
  have hle : config.performanceElapsedMs elapsed ≤ _ := performanceElapsedMs_le
  unfold phase
  split_ifs with h1 h2
  · simp [h1]
  · simp only [true_iff]
    exact ⟨not_lt.mp h1, le_antisymm hle h2⟩
  · simp only [false_iff, not_and]
    intro _ heq
    exact h2 heq.ge

theorem phase_ended_mono (h : elapsed ≤ later) (hended : config.phase elapsed = .ended) :
    config.phase later = .ended := by
  rw [phase_eq_ended] at hended ⊢
  refine ⟨hended.1.trans h, le_antisymm performanceElapsedMs_le ?_⟩
  rw [← hended.2]
  exact performanceElapsedMs_mono h

/-- While a clock may be paused, its performance has not come to the end. -/
theorem performanceElapsedMs_lt_of_phase
    (h : config.phase elapsed = .countIn ∨ config.phase elapsed = .running)
    (hpos : 0 < config.performanceElapsedMs elapsed) :
    config.performanceElapsedMs elapsed < config.scope.nominalDurationMs := by
  have hcountIn : config.countInMs ≤ elapsed := by
    by_contra hlt
    rw [performanceElapsedMs_of_le (not_le.mp hlt).le] at hpos
    exact lt_irrefl _ hpos
  apply lt_of_le_of_ne performanceElapsedMs_le
  intro heq
  have hended : config.phase elapsed = .ended := phase_eq_ended.mpr ⟨hcountIn, heq⟩
  rw [hended] at h
  rcases h with h | h <;> cases h

theorem stateAt_eq_ready : config.stateAt watch now = .ready ↔ watch = .unstarted := by
  cases watch with
  | unstarted => exact ⟨fun _ => rfl, fun _ => rfl⟩
  | running origin =>
    simp only [stateAt, reduceCtorEq, iff_false]
    intro h
    rcases phase_active ((Stopwatch.running origin).elapsed now) with h' | h' | h' <;>
      rw [h] at h' <;> cases h'
  | paused e => simp [stateAt]

theorem stateAt_eq_paused : config.stateAt watch now = .paused ↔ ∃ e, watch = .paused e := by
  cases watch with
  | unstarted => simp [stateAt]
  | running origin =>
    simp only [stateAt, reduceCtorEq, exists_false, iff_false]
    intro h
    rcases phase_active ((Stopwatch.running origin).elapsed now) with h' | h' | h' <;>
      rw [h] at h' <;> cases h'
  | paused e => simp [stateAt]

end ClockConfig

end NoteVerse.Practice

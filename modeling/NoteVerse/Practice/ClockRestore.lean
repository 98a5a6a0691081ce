import NoteVerse.Practice.CaptureTime

/-!
# Two clocks of the browser that go on together

A clock that is restored has no segments of the time before, and its session
time has another origin: it is later by `shift` than that of the clock which was
saved at `saved`. `Together` says what the two have in common. It is kept by
every call at the same times, and the answers are the same but for the time
(`Together.call`); so is what they say of a capture after `saved`
(`Together.capture`).

* `Sound`: what a clock is at any time, restored or not;
* `Active`, with what each call does to a clock that runs.
-/

namespace NoteVerse.Practice

namespace ClockSegment

variable (segment : ClockSegment) (nowMs : ℚ)

/-- The time that has run while the segment is the current one. -/
def elapsedAt : ℚ := max 0 (segment.activeElapsedStartMs + nowMs - segment.clockStartMs)

def closedAt : ClockSegment := { segment with clockEndMs := some nowMs }

/-- A capture time is in a segment that is over. -/
def Covers (captureTimeMs : ℚ) : Prop :=
  segment.clockStartMs ≤ captureTimeMs ∧
    ∃ clockEndMs ∈ segment.clockEndMs, captureTimeMs ≤ clockEndMs

instance (captureTimeMs : ℚ) : Decidable (segment.Covers captureTimeMs) :=
  inferInstanceAs (Decidable (_ ∧ _))

end ClockSegment

/-- What the segments that are over say of a capture time. -/
def lookup (segments : List ClockSegment) (captureTimeMs : ℚ) : Option ℚ :=
  (segments.find? (·.Covers captureTimeMs)).map (·.elapsedAt captureTimeMs)

/-- Segments that are over by `T`. -/
def OverBy (T : ℚ) (segments : List ClockSegment) : Prop :=
  ∀ segment ∈ segments, ∃ clockEndMs, segment.clockEndMs = some clockEndMs ∧ clockEndMs ≤ T

section

variable {T n c : ℚ} {segments : List ClockSegment} {segment : ClockSegment}

theorem OverBy.mono (h : OverBy T segments) (hT : T ≤ n) : OverBy n segments := by
  intro segment hsegment
  obtain ⟨clockEndMs, hend, hle⟩ := h segment hsegment
  exact ⟨clockEndMs, hend, hle.trans hT⟩

theorem OverBy.nil : OverBy T [] := fun _ h => absurd h List.not_mem_nil

theorem OverBy.snoc (h : OverBy n segments) : OverBy n (segments ++ [segment.closedAt n]) := by
  intro other hother
  rcases List.mem_append.mp hother with hother | hother
  · exact h other hother
  · rw [List.mem_singleton.mp hother]
    exact ⟨n, rfl, le_rfl⟩

/-- Segments that are over say nothing of what comes after them. -/
theorem OverBy.lookup_eq_none (h : OverBy T segments) (hc : T < c) : lookup segments c = none := by
  unfold lookup
  rw [Option.map_eq_none_iff, List.find?_eq_none]
  intro segment hsegment
  obtain ⟨clockEndMs, hend, hle⟩ := h segment hsegment
  simp only [decide_eq_true_eq]
  rintro ⟨-, last, hlast, hcovered⟩
  rw [hend] at hlast
  cases hlast
  exact absurd (hcovered.trans hle) hc.not_ge

theorem lookup_snoc : lookup (segments ++ [segment.closedAt n]) c =
    (lookup segments c).or
      (if segment.clockStartMs ≤ c ∧ c ≤ n then some (segment.elapsedAt c) else none) := by
  unfold lookup
  rw [List.find?_append]
  cases hfind : segments.find? (·.Covers c) with
  | some found => rfl
  | none =>
    have hcovers : (segment.closedAt n).Covers c ↔ segment.clockStartMs ≤ c ∧ c ≤ n := by
      unfold ClockSegment.Covers ClockSegment.closedAt
      simp
    rw [List.find?_singleton]
    simp only [hcovers, decide_eq_true_eq]
    by_cases h : segment.clockStartMs ≤ c ∧ c ≤ n
    · rw [if_pos h, if_pos h]
      rfl
    · rw [if_neg h, if_neg h]
      rfl

end

/-- A snapshot as a clock shows it whose session time is later. -/
def BrowserClockSnapshot.later (shift : ℚ) (snapshot : BrowserClockSnapshot) :
    BrowserClockSnapshot := { snapshot with nowMs := snapshot.nowMs + shift }

namespace BrowserClock

/-! ## A clock that runs -/

/-- A clock runs, and its last segment is the current one. -/
structure Active (clock : BrowserClock) (finished : List ClockSegment) (segment : ClockSegment) :
    Prop where
  state : clock.state = .countIn ∨ clock.state = .running
  segments : clock.clockSegments = finished ++ [segment]
  current : clock.currentSegment = some finished.length
  isOpen : segment.clockEndMs = none

variable {config : BrowserConfig} {roundBeat : ℚ → ℚ} {clock : BrowserClock} {T n c : ℚ}
  {finished : List ClockSegment} {segment : ClockSegment}

namespace Active

theorem state_ne (h : Active clock finished segment) {state : ClockState}
    (hstate : state ≠ .countIn ∧ state ≠ .running) : clock.state ≠ state := by
  rintro rfl
  exact h.state.elim hstate.1 hstate.2

theorem current_eq (h : Active clock finished segment) : clock.current = some segment :=
  current_eq_last h.segments h.current

theorem activeElapsedAt_eq (h : Active clock finished segment) :
    clock.activeElapsedAt n = segment.elapsedAt n := by
  have hnot : ¬(clock.state = .paused ∨ clock.state = .ended) :=
    not_or.mpr ⟨h.state_ne (by decide), h.state_ne (by decide)⟩
  unfold activeElapsedAt
  rw [h.current_eq]
  exact if_neg hnot

theorem finish_eq (h : Active clock finished segment) : clock.finishCurrentSegment n =
    { clock with currentSegment := none, clockSegments := finished ++ [segment.closedAt n] } := by
  unfold finishCurrentSegment
  rw [h.current]
  show { clock with
    currentSegment := none
    clockSegments := clock.clockSegments.modify finished.length fun segment => segment.closedAt n } = _
  rw [h.segments, Lists.modify_append_last]

/-- The clock has come to the end of the scope when it is asked. -/
theorem advance_ended (h : Active clock finished segment)
    (hphase : config.phase (segment.elapsedAt n) = .ended) :
    clock.advanceState config n = ({ clock with
      state := .ended
      activeElapsedMs := segment.elapsedAt n
      currentSegment := none
      clockSegments := finished ++ [segment.closedAt n] }, segment.elapsedAt n) := by
  have hended := ClockConfig.phase_eq_ended.mp hphase
  unfold advanceState
  rw [if_neg (h.state_ne (by decide)), h.activeElapsedAt_eq]
  show (if clock.state = .paused then _ else _) = _
  rw [if_neg (h.state_ne (by decide)), if_neg hended.1.not_gt, if_pos hended.2.ge]
  have hclock : Active { clock with activeElapsedMs := segment.elapsedAt n } finished segment :=
    ⟨h.state, h.segments, h.current, h.isOpen⟩
  show ({ finishCurrentSegment { clock with activeElapsedMs := segment.elapsedAt n } n with
    state := .ended }, segment.elapsedAt n) = _
  rw [hclock.finish_eq]

theorem advance_going (h : Active clock finished segment)
    (hphase : config.phase (segment.elapsedAt n) ≠ .ended) :
    clock.advanceState config n =
      ({ clock with state := config.phase (segment.elapsedAt n) }, segment.elapsedAt n) := by
  unfold advanceState
  rw [if_neg (h.state_ne (by decide)), h.activeElapsedAt_eq]
  show (if clock.state = .paused then _ else _) = _
  rw [if_neg (h.state_ne (by decide))]
  by_cases hcountIn : segment.elapsedAt n < config.countInMs
  · rw [if_pos hcountIn, ClockConfig.phase_eq_countIn.mpr hcountIn]
  · have hgo : ¬config.performanceElapsedMs (segment.elapsedAt n) ≥
        config.scope.nominalDurationMs := by
      intro hended
      exact hphase (ClockConfig.phase_eq_ended.mpr ⟨not_lt.mp hcountIn,
        le_antisymm ClockConfig.performanceElapsedMs_le hended⟩)
    have hrunning : config.phase (segment.elapsedAt n) = .running := by
      unfold ClockConfig.phase
      rw [if_neg hcountIn, if_neg hgo]
    rw [if_neg hcountIn, if_neg hgo, hrunning]

theorem going (h : Active clock finished segment)
    (hphase : config.phase (segment.elapsedAt n) ≠ .ended) :
    Active { clock with state := config.phase (segment.elapsedAt n) } finished segment :=
  ⟨(ClockConfig.phase_active _).imp_right fun h => h.resolve_right hphase, h.segments, h.current,
    h.isOpen⟩

end Active

variable (clock) in
/-- The clock that a pause leaves. -/
def freeze (nowMs : ℚ) : BrowserClock :=
  let finished := { clock with activeElapsedMs := clock.activeElapsedAt nowMs }.finishCurrentSegment nowMs
  { finished with stateBeforePause := finished.state, state := .paused }

theorem Active.freeze_eq (h : Active clock finished segment) : clock.freeze n =
    { state := .paused
      stateBeforePause := clock.state
      activeElapsedMs := segment.elapsedAt n
      currentSegment := none
      clockSegments := finished ++ [segment.closedAt n] } := by
  have hclock : Active { clock with activeElapsedMs := clock.activeElapsedAt n } finished segment :=
    ⟨h.state, h.segments, h.current, h.isOpen⟩
  unfold freeze
  rw [hclock.finish_eq, h.activeElapsedAt_eq]

variable (clock) in
/-- The clock that a start or a resumption leaves. -/
def runOn (nowMs : ℚ) (state : ClockState) (elapsed : ℚ) : BrowserClock :=
  { clock with state, activeElapsedMs := elapsed }.startClockSegment nowMs state elapsed

theorem active_runOn {state : ClockState} {elapsed : ℚ} (h : state = .countIn ∨ state = .running) :
    Active (clock.runOn n state elapsed) clock.clockSegments ⟨state, n, none, elapsed⟩ :=
  ⟨h, rfl, rfl, rfl⟩

theorem advance_of_paused (state : clock.state = .paused) (current : clock.currentSegment = none) :
    clock.advanceState config n = (clock, clock.activeElapsedMs) := by
  unfold advanceState
  rw [if_neg (by rw [state]; decide), activeElapsedAt_of_none current]
  exact if_pos state

theorem advance_of_ended (state : clock.state = .ended) (current : clock.currentSegment = none)
    (elapsed : config.phase clock.activeElapsedMs = .ended) :
    clock.advanceState config n = (clock, clock.activeElapsedMs) := by
  have hended := ClockConfig.phase_eq_ended.mp elapsed
  unfold advanceState
  rw [if_neg (by rw [state]; decide), activeElapsedAt_of_none current]
  show (if clock.state = .paused then _ else _) = _
  rw [if_neg (by rw [state]; decide), if_neg hended.1.not_gt, if_pos hended.2.ge]
  show ({ finishCurrentSegment { clock with activeElapsedMs := clock.activeElapsedMs } n with
    state := .ended }, clock.activeElapsedMs) = _
  unfold finishCurrentSegment
  rw [current]
  cases clock
  cases state
  cases current
  rfl

/-! ## The calls, by what they do -/

variable (config roundBeat) in
/-- What a clock shows that has come to a state after some time. -/
def shown (nowMs : ℚ) (state : ClockState) (elapsed : ℚ) : BrowserClockSnapshot where
  state
  nowMs
  musicalBeat := config.musicalBeat roundBeat (config.performanceElapsedMs elapsed)
  performanceTimeMs := config.performanceElapsedMs elapsed
  countInRemainingMs := config.countInRemainingMs elapsed
  countInBeats := config.countInBeats
  countInPulses := config.countInPulses
  scopeCompleted := state = .ended
  scopeStartBeat := config.scope.startBeat
  scopeTerminalBeat := config.scope.terminalBeat
  speedRatio := config.speedRatio

theorem snapshot_eq (clock : BrowserClock) : clock.snapshot config roundBeat n =
    ((clock.advanceState config n).1, shown config roundBeat n (clock.advanceState config n).1.state
      (clock.advanceState config n).2) := rfl

theorem start_of_ready (h : clock.state = .ready) : clock.start config roundBeat n =
    accept ((clock.runOn n (if config.countInMs > 0 then .countIn else .running) 0).snapshot config
      roundBeat n) := if_neg (not_not.mpr h)

theorem start_of_ne (h : clock.state ≠ .ready) : clock.start config roundBeat n =
    (clock, .error "Performance runtime can only start from READY.") := if_pos h

theorem resume_of_paused (h : clock.state = .paused) : clock.resume config roundBeat n =
    accept ((clock.runOn n clock.stateBeforePause clock.activeElapsedMs).snapshot config roundBeat
      n) := if_neg (not_not.mpr h)

theorem resume_of_ne (h : clock.state ≠ .paused) : clock.resume config roundBeat n =
    (clock, .error "Performance runtime can only resume from PAUSED.") := if_pos h

theorem pause_of_active (h : Active (clock.advanceState config n).1 finished segment) :
    clock.pause config roundBeat n =
      accept (((clock.advanceState config n).1.freeze n).snapshot config roundBeat n) :=
  if_neg fun hstate => h.state.elim hstate.1 hstate.2

theorem pause_of_ne (h : (clock.advanceState config n).1.state ≠ .countIn ∧
    (clock.advanceState config n).1.state ≠ .running) : clock.pause config roundBeat n =
      ((clock.advanceState config n).1,
        .error "Performance runtime can only pause while active.") := if_pos h

/-! ## Any clock -/

/-- What a clock is that has been called until `T`, whether it was restored or
not. A clock that was restored may have more time behind it than its state says. -/
inductive Sound (config : BrowserConfig) (T : ℚ) : BrowserClock → Prop
  | ready : Sound config T initial
  | active {clock : BrowserClock} {finished : List ClockSegment} {segment : ClockSegment}
      (active : Active clock finished segment)
      (segments : OverBy T finished)
      (nonneg : 0 ≤ segment.activeElapsedStartMs)
      (started : segment.clockStartMs ≤ T) : Sound config T clock
  | paused {clock : BrowserClock}
      (state : clock.state = .paused)
      (before : clock.stateBeforePause = .countIn ∨ clock.stateBeforePause = .running)
      (current : clock.currentSegment = none)
      (segments : OverBy T clock.clockSegments)
      (nonneg : 0 ≤ clock.activeElapsedMs) : Sound config T clock
  | ended {clock : BrowserClock}
      (state : clock.state = .ended)
      (current : clock.currentSegment = none)
      (segments : OverBy T clock.clockSegments)
      (nonneg : 0 ≤ clock.activeElapsedMs)
      (elapsed : config.phase clock.activeElapsedMs = .ended) : Sound config T clock

namespace Sound

theorem mono (h : Sound config T clock) (hT : T ≤ n) : Sound config n clock := by
  cases h with
  | ready => exact .ready
  | active active segments nonneg started =>
    exact .active active (segments.mono hT) nonneg (started.trans hT)
  | paused state before current segments nonneg =>
    exact .paused state before current (segments.mono hT) nonneg
  | ended state current segments nonneg elapsed =>
    exact .ended state current (segments.mono hT) nonneg elapsed

theorem nonneg (h : Sound config T clock) : 0 ≤ clock.activeElapsedAt n := by
  cases h with
  | ready => exact le_rfl
  | active active segments nonneg started =>
    rw [active.activeElapsedAt_eq]
    exact le_max_left _ _
  | paused state before current segments nonneg => rwa [activeElapsedAt_of_none current]
  | ended state current segments nonneg elapsed => rwa [activeElapsedAt_of_none current]

theorem advance (h : Sound config n clock) : Sound config n (clock.advanceState config n).1 := by
  cases h with
  | ready => exact .ready
  | @active _ finished segment active segments nonneg started =>
    by_cases hphase : config.phase (segment.elapsedAt n) = .ended
    · rw [active.advance_ended hphase]
      exact .ended rfl rfl segments.snoc (le_max_left _ _) hphase
    · rw [active.advance_going hphase]
      exact .active (active.going hphase) segments nonneg started
  | paused state before current segments nonneg =>
    rw [advance_of_paused state current]
    exact .paused state before current segments nonneg
  | ended state current segments nonneg elapsed =>
    rw [advance_of_ended state current elapsed]
    exact .ended state current segments nonneg elapsed

theorem runOn {elapsed : ℚ} {state : ClockState} (segments : OverBy n clock.clockSegments)
    (hstate : state = .countIn ∨ state = .running) (helapsed : 0 ≤ elapsed) :
    Sound config n (clock.runOn n state elapsed) :=
  .active (active_runOn hstate) segments helapsed le_rfl

/-- A clock that runs is active, and no other is. -/
theorem active_or (h : Sound config T clock) : (∃ finished segment, Active clock finished segment) ∨
    clock.state ≠ .countIn ∧ clock.state ≠ .running := by
  cases h with
  | ready => exact .inr (by decide)
  | active active => exact .inl ⟨_, _, active⟩
  | paused state => exact .inr (by rw [state]; decide)
  | ended state => exact .inr (by rw [state]; decide)

theorem freeze (h : Sound config n clock) (active : Active clock finished segment) :
    Sound config n (clock.freeze n) := by
  rw [active.freeze_eq]
  cases h with
  | ready => exact absurd rfl (@Active.state_ne _ _ _ active .ready (by decide))
  | active active' segments nonneg started =>
    obtain ⟨rfl, hsegment⟩ := List.append_inj' (active'.segments.symm.trans active.segments) rfl
    cases hsegment
    exact .paused rfl active.state rfl segments.snoc (le_max_left _ _)
  | paused state => exact absurd state (active.state_ne (by decide))
  | ended state => exact absurd state (active.state_ne (by decide))

/-- A call keeps what a clock is. -/
theorem call (roundBeat : ℚ → ℚ) (h : Sound config T clock) (hT : T ≤ n) (call : ClockCall) :
    Sound config n (clock.call config roundBeat n call).1 := by
  have hnow := h.mono hT
  cases call with
  | snapshot => exact hnow.advance
  | start =>
    show Sound config n (clock.start config roundBeat n).1
    by_cases hready : clock.state = .ready
    · rw [start_of_ready hready]
      have hactive : (if config.countInMs > 0 then ClockState.countIn else .running) = .countIn ∨
          (if config.countInMs > 0 then ClockState.countIn else .running) = .running :=
        ite_eq_or_eq _ _ _
      have hsegments : OverBy n clock.clockSegments := by
        cases hnow with
        | ready => exact .nil
        | active active => exact absurd hready (active.state_ne (by decide))
        | paused state => exact absurd (state.symm.trans hready) (by decide)
        | ended state => exact absurd (state.symm.trans hready) (by decide)
      exact (runOn hsegments hactive le_rfl).advance
    · rw [start_of_ne hready]
      exact hnow
  | pause =>
    show Sound config n (clock.pause config roundBeat n).1
    rcases hnow.advance.active_or with ⟨_, _, hactive⟩ | hstate
    · rw [pause_of_active hactive]
      exact (hnow.advance.freeze hactive).advance
    · rw [pause_of_ne hstate]
      exact hnow.advance
  | resume =>
    show Sound config n (clock.resume config roundBeat n).1
    by_cases hpaused : clock.state = .paused
    · rw [resume_of_paused hpaused]
      cases hnow with
      | ready => cases hpaused
      | active active => exact absurd hpaused (active.state_ne (by decide))
      | paused state before current segments nonneg =>
        exact (runOn segments before nonneg).advance
      | ended state => exact absurd (state.symm.trans hpaused) (by decide)
    · rw [resume_of_ne hpaused]
      exact hnow

end Sound

/-! ## Captures -/

/-- Among segments that are over, the one of a capture does not depend on the clock. -/
theorem find?_zipIdx {segments : List ClockSegment} (h : OverBy T segments) (k : Nat) :
    ((segments.zipIdx k).find? fun (segment, index) =>
      segment.clockStartMs ≤ c ∧ c ≤ clock.segmentEnd n index segment).map (·.1) =
        segments.find? (·.Covers c) := by
  induction segments generalizing k with
  | nil => rfl
  | cons segment segments ih =>
    obtain ⟨clockEndMs, hend, -⟩ := h segment List.mem_cons_self
    have hcovers : segment.Covers c ↔
        segment.clockStartMs ≤ c ∧ c ≤ clock.segmentEnd n k segment := by
      unfold ClockSegment.Covers segmentEnd
      simp [hend]
    rw [List.zipIdx_cons, List.find?_cons, List.find?_cons]
    by_cases hc : segment.Covers c
    · simp only [hc, hcovers.mp hc, and_self, decide_true]
      rfl
    · have hnot : ¬(segment.clockStartMs ≤ c ∧ c ≤ clock.segmentEnd n k segment) :=
        fun h => hc (hcovers.mpr h)
      simp only [hc, hnot, decide_false]
      exact ih (fun segment hsegment => h segment (List.mem_cons_of_mem _ hsegment)) (k + 1)

/-- What a capture is mapped to if no segment that is over has it. -/
theorem Active.capture_eq (h : Active clock finished segment) (segments : OverBy T finished) :
    clock.activeElapsedForCapture n c = (lookup finished c).getD (segment.elapsedAt c) := by
  have hfind := @find?_zipIdx clock _ n c _ segments 0
  unfold activeElapsedForCapture lookup
  rw [h.segments, List.zipIdx_append, List.find?_append, ← hfind, h.current_eq]
  cases (finished.zipIdx.find? fun (segment, index) =>
      segment.clockStartMs ≤ c ∧ c ≤ clock.segmentEnd n index segment) with
  | some found => rfl
  | none =>
    have hrest : (if segment.clockStartMs ≤ c ∧ c ≤ n then
        max 0 (segment.activeElapsedStartMs + c - segment.clockStartMs)
        else clock.activeElapsedAt c) = segment.elapsedAt c := by
      rw [h.activeElapsedAt_eq]
      exact ite_self _
    rw [Option.none_or, List.zipIdx_singleton, List.find?_singleton]
    by_cases hlast : segment.clockStartMs ≤ c ∧
        c ≤ clock.segmentEnd n (0 + finished.length) segment
    · rw [if_pos (decide_eq_true hlast)]
      rfl
    · rw [if_neg (by simpa only [decide_eq_true_eq] using hlast)]
      exact hrest

theorem capture_of_idle (current : clock.currentSegment = none)
    (segments : OverBy T clock.clockSegments) :
    clock.activeElapsedForCapture n c =
      (lookup clock.clockSegments c).getD clock.activeElapsedMs := by
  have hfind := @find?_zipIdx clock _ n c _ segments 0
  have hnone : clock.current = none := by
    unfold BrowserClock.current
    rw [current]
    rfl
  unfold activeElapsedForCapture lookup
  rw [← hfind, hnone, activeElapsedAt_of_none current]
  cases (clock.clockSegments.zipIdx.find? fun (segment, index) =>
      segment.clockStartMs ≤ c ∧ c ≤ clock.segmentEnd n index segment) <;> rfl

/-! ## Two clocks -/

variable {saved shift : ℚ}

/-- What segments that are over say of captures after `saved`, in two clocks. -/
def SameLookups (saved shift : ℚ) (segments segments' : List ClockSegment) : Prop :=
  ∀ c, saved < c → lookup segments' (c + shift) = lookup segments c

/-- What a clock that stands says of a capture. -/
def captured (segments : List ClockSegment) (elapsed captureTimeMs : ℚ) : ℚ :=
  (lookup segments captureTimeMs).getD elapsed

/-- A segment goes on as another one does. -/
structure SameSegment (saved shift : ℚ) (segment segment' : ClockSegment) : Prop where
  origin : segment'.clockStartMs - segment'.activeElapsedStartMs =
    segment.clockStartMs - segment.activeElapsedStartMs + shift
  starts : ∀ c, saved < c → (segment'.clockStartMs ≤ c + shift ↔ segment.clockStartMs ≤ c)

/-- A clock and one that was restored from it, at any time after. Until the first
call the former may not have noticed the end of the scope (`late`). -/
inductive Together (config : BrowserConfig) (saved shift : ℚ) : BrowserClock → BrowserClock → Prop
  | ready : Together config saved shift initial initial
  | active {clock restored : BrowserClock} {finished finished' : List ClockSegment}
      {segment segment' : ClockSegment}
      (active : Active clock finished segment)
      (active' : Active restored finished' segment')
      (segments : SameSegment saved shift segment segment')
      (lookups : SameLookups saved shift finished finished') :
      Together config saved shift clock restored
  | paused {clock restored : BrowserClock}
      (state : clock.state = .paused)
      (state' : restored.state = .paused)
      (before : clock.stateBeforePause = .countIn ∨ clock.stateBeforePause = .running)
      (before' : restored.stateBeforePause = .countIn ∨ restored.stateBeforePause = .running)
      (current : clock.currentSegment = none)
      (current' : restored.currentSegment = none)
      (elapsed : restored.activeElapsedMs = clock.activeElapsedMs)
      (lookups : SameLookups saved shift clock.clockSegments restored.clockSegments) :
      Together config saved shift clock restored
  | ended {clock restored : BrowserClock}
      (state : clock.state = .ended)
      (state' : restored.state = .ended)
      (current : clock.currentSegment = none)
      (current' : restored.currentSegment = none)
      (elapsed : config.phase clock.activeElapsedMs = .ended)
      (elapsed' : config.phase restored.activeElapsedMs = .ended)
      (captures : ∀ c, saved < c → config.performanceElapsedMs
          (captured restored.clockSegments restored.activeElapsedMs (c + shift)) =
        config.performanceElapsedMs (captured clock.clockSegments clock.activeElapsedMs c)) :
      Together config saved shift clock restored
  | late {clock restored : BrowserClock} {finished : List ClockSegment} {segment : ClockSegment}
      (active : Active clock finished segment)
      (state' : restored.state = .ended)
      (current' : restored.currentSegment = none)
      (elapsed : config.phase (segment.elapsedAt saved) = .ended)
      (elapsed' : config.phase restored.activeElapsedMs = .ended)
      (lookups : ∀ c, saved < c → lookup finished c = none)
      (captures' : ∀ c, saved < c → config.phase
        (captured restored.clockSegments restored.activeElapsedMs (c + shift)) = .ended) :
      Together config saved shift clock restored

theorem elapsedAt_mono (segment : ClockSegment) (h : c ≤ n) :
    segment.elapsedAt c ≤ segment.elapsedAt n := by
  unfold ClockSegment.elapsedAt
  gcongr

theorem SameSegment.elapsedAt_eq {segment' : ClockSegment}
    (h : SameSegment saved shift segment segment') (n : ℚ) :
    segment'.elapsedAt (n + shift) = segment.elapsedAt n := by
  have horigin := h.origin
  unfold ClockSegment.elapsedAt
  congr 1
  linarith

/-- Two segments end at the same time. -/
theorem SameLookups.snoc {finished' : List ClockSegment} {segment' : ClockSegment}
    (h : SameLookups saved shift finished finished')
    (hsegment : SameSegment saved shift segment segment') :
    SameLookups saved shift (finished ++ [segment.closedAt n])
      (finished' ++ [segment'.closedAt (n + shift)]) := by
  intro c hc
  rw [lookup_snoc, lookup_snoc, h c hc, hsegment.elapsedAt_eq]
  simp only [hsegment.starts c hc, add_le_add_iff_right]

theorem SameLookups.captured_eq {segments segments' : List ClockSegment}
    (h : SameLookups saved shift segments segments') (elapsed : ℚ) (hc : saved < c) :
    captured segments' elapsed (c + shift) = captured segments elapsed c := by
  unfold captured
  rw [h c hc]

namespace Together

variable {restored : BrowserClock}

/-- Both come to the same state, and to the same report. -/
theorem advance (h : Together config saved shift clock restored) (hn : saved ≤ n) :
    Together config saved shift (clock.advanceState config n).1
        (restored.advanceState config (n + shift)).1 ∧
      (restored.advanceState config (n + shift)).1.state = (clock.advanceState config n).1.state ∧
      SameReports config.toClockConfig (restored.advanceState config (n + shift)).2
        (clock.advanceState config n).2 := by
  cases h with
  | ready => exact ⟨.ready, rfl, rfl, rfl⟩
  | @active _ _ finished finished' segment segment' active active' segments lookups =>
    have helapsed := segments.elapsedAt_eq n
    by_cases hphase : config.phase (segment.elapsedAt n) = .ended
    · have hphase' : config.phase (segment'.elapsedAt (n + shift)) = .ended := by rwa [helapsed]
      rw [active.advance_ended hphase, active'.advance_ended hphase', helapsed]
      exact ⟨.ended rfl rfl rfl rfl hphase hphase fun c hc =>
        congrArg config.performanceElapsedMs ((lookups.snoc segments).captured_eq _ hc), rfl, rfl,
        rfl⟩
    · have hphase' : config.phase (segment'.elapsedAt (n + shift)) ≠ .ended := by rwa [helapsed]
      have hactive' := active'.going hphase'
      rw [active.advance_going hphase, active'.advance_going hphase']
      rw [helapsed] at hactive' ⊢
      exact ⟨.active (active.going hphase) hactive' segments lookups, rfl, rfl, rfl⟩
  | paused state state' before before' current current' elapsed lookups =>
    rw [advance_of_paused state current, advance_of_paused state' current']
    refine ⟨.paused state state' before before' current current' elapsed lookups, ?_, ?_⟩
    · rw [state, state']
    · show SameReports config.toClockConfig restored.activeElapsedMs clock.activeElapsedMs
      rw [elapsed]
      exact ⟨rfl, rfl⟩
  | ended state state' current current' elapsed elapsed' captures =>
    rw [advance_of_ended state current elapsed, advance_of_ended state' current' elapsed']
    refine ⟨.ended state state' current current' elapsed elapsed' captures, ?_,
      report_of_ended elapsed' elapsed⟩
    rw [state, state']
  | @late _ _ finished segment active state' current' elapsed elapsed' lookups captures' =>
    have hphase : config.phase (segment.elapsedAt n) = .ended :=
      ClockConfig.phase_ended_mono (elapsedAt_mono segment hn) elapsed
    rw [active.advance_ended hphase, advance_of_ended state' current' elapsed']
    refine ⟨.ended rfl state' rfl current' hphase elapsed' fun c hc => ?_, state',
      report_of_ended elapsed' hphase⟩
    refine (report_of_ended (captures' c hc) ?_).1
    show config.phase ((lookup (finished ++ [segment.closedAt n]) c).getD (segment.elapsedAt n)) = _
    rw [lookup_snoc, lookups c hc]
    by_cases hsegment : segment.clockStartMs ≤ c ∧ c ≤ n
    · rw [if_pos hsegment]
      exact ClockConfig.phase_ended_mono (elapsedAt_mono segment hc.le) elapsed
    · rw [if_neg hsegment]
      exact hphase

/-- What is the same in a snapshot of the two. -/
theorem snapshot (roundBeat : ℚ → ℚ) (h : Together config saved shift clock restored)
    (hn : saved ≤ n) :
    Together config saved shift (clock.snapshot config roundBeat n).1
        (restored.snapshot config roundBeat (n + shift)).1 ∧
      (restored.snapshot config roundBeat (n + shift)).2 =
        (clock.snapshot config roundBeat n).2.later shift := by
  obtain ⟨htogether, hstate, hperformance, hremaining⟩ := h.advance hn
  refine ⟨htogether, ?_⟩
  rw [snapshot_eq, snapshot_eq]
  unfold shown BrowserClockSnapshot.later
  simp only [hstate, hperformance, hremaining]

theorem runOn {elapsed : ℚ} {state state' : ClockState}
    (hstate : state = .countIn ∨ state = .running) (hstate' : state' = .countIn ∨ state' = .running)
    (h : SameLookups saved shift clock.clockSegments restored.clockSegments) :
    Together config saved shift (clock.runOn n state elapsed)
      (restored.runOn (n + shift) state' elapsed) := by
  refine .active (active_runOn hstate) (active_runOn hstate') ⟨?_, fun c hc => ?_⟩ h
  · show n + shift - elapsed = n - elapsed + shift
    exact add_sub_right_comm n shift elapsed
  · show n + shift ≤ c + shift ↔ n ≤ c
    exact add_le_add_iff_right shift

theorem freeze (h : Together config saved shift clock restored)
    (hstate : restored.state = clock.state) (active : Active clock finished segment) :
    ∃ finished' segment', Active restored finished' segment' ∧
      Together config saved shift (clock.freeze n) (restored.freeze (n + shift)) := by
  cases h with
  | ready => exact absurd rfl (@Active.state_ne _ _ _ active .ready (by decide))
  | active active₁ active' segments lookups =>
    refine ⟨_, _, active', ?_⟩
    rw [active₁.freeze_eq, active'.freeze_eq]
    exact .paused rfl rfl active₁.state active'.state rfl rfl (segments.elapsedAt_eq n)
      (lookups.snoc segments)
  | paused state => exact absurd state (active.state_ne (by decide))
  | ended state => exact absurd state (active.state_ne (by decide))
  | late active₁ state' =>
    exact absurd (hstate.symm.trans state') (active₁.state_ne (by decide))

theorem state_eq_ready (h : Together config saved shift clock restored) :
    restored.state = .ready ↔ clock.state = .ready := by
  cases h with
  | ready => exact Iff.rfl
  | active active active' =>
    exact iff_of_false (active'.state_ne (by decide)) (active.state_ne (by decide))
  | paused state state' => rw [state, state']
  | ended state state' => rw [state, state']
  | late active state' =>
    exact iff_of_false (by rw [state']; decide) (active.state_ne (by decide))

theorem state_eq_paused (h : Together config saved shift clock restored) :
    restored.state = .paused ↔ clock.state = .paused := by
  cases h with
  | ready => exact Iff.rfl
  | active active active' =>
    exact iff_of_false (active'.state_ne (by decide)) (active.state_ne (by decide))
  | paused state state' => rw [state, state']
  | ended state state' => rw [state, state']
  | late active state' =>
    exact iff_of_false (by rw [state']; decide) (active.state_ne (by decide))

theorem start (roundBeat : ℚ → ℚ) (h : Together config saved shift clock restored)
    (hn : saved ≤ n) :
    Together config saved shift (clock.start config roundBeat n).1
        (restored.start config roundBeat (n + shift)).1 ∧
      (restored.start config roundBeat (n + shift)).2 =
        (clock.start config roundBeat n).2.map (·.later shift) := by
  by_cases hready : clock.state = .ready
  · rw [start_of_ready hready, start_of_ready (h.state_eq_ready.mpr hready)]
    have hactive : (if config.countInMs > 0 then ClockState.countIn else .running) = .countIn ∨
        (if config.countInMs > 0 then ClockState.countIn else .running) = .running :=
      ite_eq_or_eq _ _ _
    have hlookups : SameLookups saved shift clock.clockSegments restored.clockSegments := by
      cases h with
      | ready => exact fun _ _ => rfl
      | active active => exact absurd hready (active.state_ne (by decide))
      | paused state => exact absurd (state.symm.trans hready) (by decide)
      | ended state => exact absurd (state.symm.trans hready) (by decide)
      | late active => exact absurd hready (active.state_ne (by decide))
    obtain ⟨htogether, hsnapshot⟩ :=
      (@Together.runOn _ _ n _ _ _ 0 _ _ hactive hactive hlookups).snapshot roundBeat hn
    exact ⟨htogether, congrArg Except.ok hsnapshot⟩
  · rw [start_of_ne hready, start_of_ne (mt h.state_eq_ready.mp hready)]
    exact ⟨h, rfl⟩

theorem pause (roundBeat : ℚ → ℚ) (h : Together config saved shift clock restored)
    (hn : saved ≤ n) (hsound : (∃ finished segment,
      Active (clock.advanceState config n).1 finished segment) ∨
        (clock.advanceState config n).1.state ≠ .countIn ∧
          (clock.advanceState config n).1.state ≠ .running) :
    Together config saved shift (clock.pause config roundBeat n).1
        (restored.pause config roundBeat (n + shift)).1 ∧
      (restored.pause config roundBeat (n + shift)).2 =
        (clock.pause config roundBeat n).2.map (·.later shift) := by
  obtain ⟨htogether, hstate, -⟩ := h.advance hn
  rcases hsound with ⟨_, _, hactive⟩ | hnot
  · obtain ⟨_, _, hactive', hfrozen⟩ := htogether.freeze hstate hactive
    obtain ⟨hnext, hsnapshot⟩ := hfrozen.snapshot roundBeat hn
    rw [pause_of_active hactive, pause_of_active hactive']
    exact ⟨hnext, congrArg Except.ok hsnapshot⟩
  · rw [pause_of_ne hnot, pause_of_ne (by rwa [hstate])]
    exact ⟨htogether, rfl⟩

theorem resume (roundBeat : ℚ → ℚ) (h : Together config saved shift clock restored)
    (hn : saved ≤ n) :
    Together config saved shift (clock.resume config roundBeat n).1
        (restored.resume config roundBeat (n + shift)).1 ∧
      (restored.resume config roundBeat (n + shift)).2 =
        (clock.resume config roundBeat n).2.map (·.later shift) := by
  by_cases hpaused : clock.state = .paused
  · rw [resume_of_paused hpaused, resume_of_paused (h.state_eq_paused.mpr hpaused)]
    cases h with
    | ready => cases hpaused
    | active active => exact absurd hpaused (active.state_ne (by decide))
    | paused state state' before before' current current' elapsed lookups =>
      rw [elapsed]
      obtain ⟨hnext, hsnapshot⟩ := (@Together.runOn _ _ n _ _ _ clock.activeElapsedMs _ _ before
        before' lookups).snapshot roundBeat hn
      exact ⟨hnext, congrArg Except.ok hsnapshot⟩
    | ended state => exact absurd (state.symm.trans hpaused) (by decide)
    | late active => exact absurd hpaused (active.state_ne (by decide))
  · rw [resume_of_ne hpaused, resume_of_ne (mt h.state_eq_paused.mp hpaused)]
    exact ⟨h, rfl⟩

/-- A call at the same time keeps two clocks together, with the same answer. -/
theorem call (roundBeat : ℚ → ℚ) (h : Together config saved shift clock restored)
    (hsound : Sound config n clock) (hn : saved ≤ n) (call : ClockCall) :
    Together config saved shift (clock.call config roundBeat n call).1
        (restored.call config roundBeat (n + shift) call).1 ∧
      (restored.call config roundBeat (n + shift) call).2 =
        (clock.call config roundBeat n call).2.map (·.later shift) := by
  cases call with
  | start => exact h.start roundBeat hn
  | pause => exact h.pause roundBeat hn hsound.advance.active_or
  | resume => exact h.resume roundBeat hn
  | snapshot =>
    obtain ⟨hnext, hsnapshot⟩ := h.snapshot roundBeat hn
    exact ⟨hnext, congrArg Except.ok hsnapshot⟩

end Together

theorem Sound.overBy (h : Sound config T clock) (active : Active clock finished segment) :
    OverBy T finished := by
  cases h with
  | ready => exact absurd rfl (@Active.state_ne _ _ _ active .ready (by decide))
  | active active' segments =>
    rwa [(List.append_inj' (active'.segments.symm.trans active.segments) rfl).1] at segments
  | paused state => exact absurd state (active.state_ne (by decide))
  | ended state => exact absurd state (active.state_ne (by decide))

theorem Sound.capture_of_idle (h : Sound config T clock) (current : clock.currentSegment = none) :
    clock.activeElapsedForCapture n c =
      captured clock.clockSegments clock.activeElapsedMs c := by
  cases h with
  | ready => rfl
  | active active => exact absurd (active.current.symm.trans current) (by simp)
  | paused state before current segments => exact BrowserClock.capture_of_idle current segments
  | ended state current segments => exact BrowserClock.capture_of_idle current segments

/-- Both say the same of a capture after `saved`. -/
theorem Together.capture {restored : BrowserClock} (h : Together config saved shift clock restored)
    {T' n' : ℚ} (hsound : Sound config T clock) (hsound' : Sound config T' restored)
    (hc : saved < c) :
    restored.performanceTimeAtCapture config n' (c + shift) =
      clock.performanceTimeAtCapture config n c := by
  unfold performanceTimeAtCapture
  cases h with
  | ready => rfl
  | active active active' segments lookups =>
    rw [active.capture_eq (hsound.overBy active), active'.capture_eq (hsound'.overBy active'),
      lookups c hc, segments.elapsedAt_eq]
  | paused state state' before before' current current' elapsed lookups =>
    rw [hsound.capture_of_idle current, hsound'.capture_of_idle current', elapsed,
      lookups.captured_eq _ hc]
  | ended state state' current current' elapsed elapsed' captures =>
    rw [hsound.capture_of_idle current, hsound'.capture_of_idle current', captures c hc]
  | @late _ _ finished segment active state' current' elapsed elapsed' lookups captures' =>
    rw [active.capture_eq (hsound.overBy active), hsound'.capture_of_idle current', lookups c hc]
    exact (report_of_ended (captures' c hc)
      (ClockConfig.phase_ended_mono (elapsedAt_mono segment hc.le) elapsed)).1

/-! ## The restored clock -/

variable (clock) in
/-- The clock that is restored from one that was saved. -/
def standing (saved : ℚ) : BrowserClock where
  state := if clock.state = .ready ∨ clock.state = .ended then clock.state else .paused
  stateBeforePause := if clock.state = .paused then clock.stateBeforePause else clock.state
  activeElapsedMs := clock.activeElapsedAt saved
  currentSegment := none
  clockSegments := []

theorem Active.standing_eq (h : Active clock finished segment) : clock.standing saved =
    ⟨.paused, clock.state, segment.elapsedAt saved, none, []⟩ := by
  have hnot : ¬(clock.state = .ready ∨ clock.state = .ended) :=
    not_or.mpr ⟨h.state_ne (by decide), h.state_ne (by decide)⟩
  unfold standing
  rw [if_neg hnot, if_neg (h.state_ne (by decide)), h.activeElapsedAt_eq]

theorem standing_of_paused (state : clock.state = .paused) (current : clock.currentSegment = none) :
    clock.standing saved = ⟨.paused, clock.stateBeforePause, clock.activeElapsedMs, none, []⟩ := by
  unfold standing
  rw [if_neg (by rw [state]; decide), if_pos state, activeElapsedAt_of_none current]

theorem standing_of_ended (state : clock.state = .ended) (current : clock.currentSegment = none) :
    clock.standing saved = ⟨.ended, .ended, clock.activeElapsedMs, none, []⟩ := by
  unfold standing
  rw [if_pos (.inr state), if_neg (by rw [state]; decide), activeElapsedAt_of_none current, state]

theorem Sound.standing (h : Sound config saved clock) (T : ℚ) :
    Sound config T (clock.standing saved) := by
  cases h with
  | ready => exact .ready
  | active active =>
    rw [active.standing_eq]
    exact .paused rfl active.state rfl .nil (le_max_left _ _)
  | paused state before current segments nonneg =>
    rw [standing_of_paused state current]
    exact .paused rfl before rfl .nil nonneg
  | ended state current segments nonneg elapsed =>
    rw [standing_of_ended state current]
    exact .ended rfl rfl .nil nonneg elapsed

/-- The state and the time of a clock that was restored, whenever it is asked. -/
theorem Sound.advance_standing (h : Sound config saved clock) :
    (clock.standing saved).advanceState config n =
      (clock.standing saved, clock.activeElapsedAt saved) := by
  cases h with
  | ready => rfl
  | active active =>
    rw [active.standing_eq, active.activeElapsedAt_eq]
    exact advance_of_paused rfl rfl
  | paused state before current =>
    rw [standing_of_paused state current, activeElapsedAt_of_none current]
    exact advance_of_paused rfl rfl
  | ended state current segments nonneg elapsed =>
    rw [standing_of_ended state current, activeElapsedAt_of_none current]
    exact advance_of_ended rfl rfl elapsed

/-- The time that a clock comes to is what it says has run. -/
theorem Sound.advance_snd (h : Sound config T clock) :
    (clock.advanceState config n).2 = clock.activeElapsedAt n := by
  cases h with
  | ready => rfl
  | @active _ finished segment active =>
    rw [active.activeElapsedAt_eq]
    by_cases hphase : config.phase (segment.elapsedAt n) = .ended
    · rw [active.advance_ended hphase]
    · rw [active.advance_going hphase]
  | paused state before current =>
    rw [advance_of_paused state current, activeElapsedAt_of_none current]
  | ended state current segments nonneg elapsed =>
    rw [advance_of_ended state current elapsed, activeElapsedAt_of_none current]

/-- The state that a clock comes to: one that runs may have ended. -/
theorem Sound.advance_state (h : Sound config T clock) :
    (clock.advanceState config n).1.state =
      if clock.state = .countIn ∨ clock.state = .running then
        config.phase (clock.activeElapsedAt n) else clock.state := by
  cases h with
  | ready => rfl
  | @active _ finished segment active =>
    rw [if_pos active.state, active.activeElapsedAt_eq]
    by_cases hphase : config.phase (segment.elapsedAt n) = .ended
    · rw [active.advance_ended hphase, hphase]
    · rw [active.advance_going hphase]
  | paused state before current =>
    rw [advance_of_paused state current, if_neg (by rw [state]; decide)]
  | ended state current segments nonneg elapsed =>
    rw [advance_of_ended state current elapsed, if_neg (by rw [state]; decide)]

/-- A clock that ran, and was restored, goes on with the saved one when it is resumed. -/
theorem Sound.together_resumed (roundBeat : ℚ → ℚ) (h : Sound config saved clock)
    (active : Active clock finished segment) :
    Together config saved shift clock (BrowserClock.call config roundBeat
      ⟨.paused, clock.state, segment.elapsedAt saved, none, []⟩ (saved + shift) .resume).1 := by
  have hlookups : ∀ c, saved < c → lookup finished c = none :=
    fun c hc => (h.overBy active).lookup_eq_none hc
  have hstart : 0 ≤ segment.activeElapsedStartMs ∧ segment.clockStartMs ≤ saved := by
    cases h with
    | ready => exact absurd rfl (@Active.state_ne _ _ _ active .ready (by decide))
    | active active' segments nonneg started =>
      obtain ⟨-, hsegment⟩ := List.append_inj' (active'.segments.symm.trans active.segments) rfl
      cases hsegment
      exact ⟨nonneg, started⟩
    | paused state => exact absurd state (active.state_ne (by decide))
    | ended state => exact absurd state (active.state_ne (by decide))
  have helapsed : segment.elapsedAt saved =
      segment.activeElapsedStartMs + saved - segment.clockStartMs :=
    max_eq_right (by linarith [hstart.1, hstart.2])
  have hactive : Active (BrowserClock.runOn ⟨.paused, clock.state, segment.elapsedAt saved, none, []⟩
      (saved + shift) clock.state (segment.elapsedAt saved)) []
      ⟨clock.state, saved + shift, none, segment.elapsedAt saved⟩ := active_runOn active.state
  have hnow : ClockSegment.elapsedAt ⟨clock.state, saved + shift, none, segment.elapsedAt saved⟩
      (saved + shift) = segment.elapsedAt saved := by
    show max 0 (segment.elapsedAt saved + (saved + shift) - (saved + shift)) = _
    rw [add_sub_cancel_right]
    exact max_eq_right (le_max_left _ _)
  show Together config saved shift clock (BrowserClock.resume config roundBeat _ (saved + shift)).1
  rw [resume_of_paused rfl]
  show Together config saved shift clock (advanceState config (BrowserClock.runOn
    ⟨.paused, clock.state, segment.elapsedAt saved, none, []⟩ (saved + shift) clock.state
    (segment.elapsedAt saved)) (saved + shift)).1
  by_cases hphase : config.phase (segment.elapsedAt saved) = .ended
  · rw [hactive.advance_ended (by rwa [hnow]), hnow]
    refine .late active rfl rfl hphase hphase hlookups fun c hc => ?_
    show config.phase ((lookup [ClockSegment.closedAt _ (saved + shift)] (c + shift)).getD
      (segment.elapsedAt saved)) = .ended
    have hnone : lookup [ClockSegment.closedAt
        ⟨clock.state, saved + shift, none, segment.elapsedAt saved⟩ (saved + shift)] (c + shift) =
          none :=
      (OverBy.nil (T := saved + shift)).snoc.lookup_eq_none (by linarith)
    rw [hnone]
    exact hphase
  · rw [hactive.advance_going (by rwa [hnow]), hnow]
    have hgoing := @Active.going config _ (saved + shift) _ _ hactive (by rwa [hnow])
    rw [hnow] at hgoing
    refine .active active hgoing ⟨?_, fun c hc => ?_⟩ fun c hc => (hlookups c hc).symm
    · show saved + shift - segment.elapsedAt saved = _
      rw [helapsed]
      linarith
    · show saved + shift ≤ c + shift ↔ segment.clockStartMs ≤ c
      exact iff_of_true (by linarith) (hstart.2.trans hc.le)

/-- A restored clock goes on with the one that was saved: at once if that stood, and
from the time at which it is resumed if that ran. -/
theorem Sound.together (roundBeat : ℚ → ℚ) (h : Sound config saved clock) :
    Together config saved shift clock
      (if clock.state = .countIn ∨ clock.state = .running then
        ((clock.standing saved).call config roundBeat (saved + shift) .resume).1
      else clock.standing saved) := by
  cases hclock : h with
  | ready => exact .ready
  | active active =>
    rw [if_pos active.state, active.standing_eq]
    exact h.together_resumed roundBeat active
  | paused state before current segments =>
    rw [if_neg (by rw [state]; decide), standing_of_paused state current]
    exact .paused state rfl before before current rfl rfl
      fun c hc => (segments.lookup_eq_none hc).symm
  | ended state current segments nonneg elapsed =>
    rw [if_neg (by rw [state]; decide), standing_of_ended state current]
    refine .ended state rfl current rfl elapsed elapsed fun c hc => ?_
    unfold captured
    rw [segments.lookup_eq_none hc]
    rfl

end BrowserClock

end NoteVerse.Practice

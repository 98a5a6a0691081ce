import NoteVerse.Lib.Transition
import NoteVerse.Practice.BrowserClock

/-!
# Capture times

Evidence comes later than it was captured, so `performanceTimeAtCapture` looks
for the segment of the clock in which it was. A capture in a segment is mapped
to what the clock reported then (`activeElapsedForCapture_inside`). A capture in
no segment is mapped by what the clock does when it is asked: from the current
segment backwards, or to the time at which the clock stands
(`activeElapsedForCapture_outside`). So a capture in a pause that is over goes
wrong: `capture_time` says exactly when, `resumed_pause_goes_back` is such a run.
-/

namespace NoteVerse.Practice

open Transition

namespace BrowserClock

variable (config : BrowserConfig) (clock : BrowserClock) (nowMs captureTimeMs : ℚ)

/-- The end of a segment, as a capture sees it. -/
def segmentEnd (index : Nat) (segment : ClockSegment) : ℚ :=
  segment.clockEndMs.getD
    (if clock.currentSegment = some index then nowMs else segment.clockStartMs)

def activeElapsedForCapture : ℚ :=
  match clock.clockSegments.zipIdx.find? fun (segment, index) =>
      segment.clockStartMs ≤ captureTimeMs ∧
        captureTimeMs ≤ clock.segmentEnd nowMs index segment with
  | some (segment, _) =>
    max 0 (segment.activeElapsedStartMs + captureTimeMs - segment.clockStartMs)
  | none =>
    match clock.current with
    | some segment =>
      if segment.clockStartMs ≤ captureTimeMs ∧ captureTimeMs ≤ nowMs then
        max 0 (segment.activeElapsedStartMs + captureTimeMs - segment.clockStartMs)
      else clock.activeElapsedAt captureTimeMs
    | none => clock.activeElapsedAt captureTimeMs

def performanceTimeAtCapture : ℚ :=
  config.performanceElapsedMs (clock.activeElapsedForCapture nowMs captureTimeMs)

/-- A capture time is in a segment. -/
def InSegment : Prop :=
  ∃ index segment, clock.clockSegments[index]? = some segment ∧
    segment.clockStartMs ≤ captureTimeMs ∧
    captureTimeMs ≤ clock.segmentEnd nowMs index segment

end BrowserClock

/-! ## What the segments say of a capture time -/

/-- A capture time is in one of some segments that are over. -/
def Covered (segments : List ClockSegment) (captureTimeMs : ℚ) : Prop :=
  ∃ segment ∈ segments, segment.clockStartMs ≤ captureTimeMs ∧
    ∃ clockEndMs, segment.clockEndMs = some clockEndMs ∧ captureTimeMs ≤ clockEndMs

/-- Segments that are over by `T` and say `A` of a capture time. -/
def Finished (T captureTimeMs A : ℚ) (segments : List ClockSegment) : Prop :=
  ∀ segment ∈ segments, ∃ clockEndMs, segment.clockEndMs = some clockEndMs ∧ clockEndMs ≤ T ∧
    (segment.clockStartMs ≤ captureTimeMs → captureTimeMs ≤ clockEndMs →
      segment.activeElapsedStartMs + captureTimeMs - segment.clockStartMs = A)

theorem Finished.mono {T n c A : ℚ} {segments : List ClockSegment} (h : Finished T c A segments)
    (hT : T ≤ n) : Finished n c A segments := by
  intro segment hsegment
  obtain ⟨clockEndMs, hend, hle, hreads⟩ := h segment hsegment
  exact ⟨clockEndMs, hend, hle.trans hT, hreads⟩

/-- A clock has been called until `T`, and at the time of a capture before it the
time `A` had run. If no segment says so, then the time that ran since is less
than the time since. -/
inductive Recorded (config : ClockConfig) (T captureTimeMs A : ℚ) : BrowserClock → Prop
  | idle {clock : BrowserClock}
      (current : clock.currentSegment = none)
      (finished : Finished T captureTimeMs A clock.clockSegments)
      (nonneg : 0 ≤ clock.activeElapsedMs)
      (le : A ≤ clock.activeElapsedMs)
      (past : captureTimeMs < T →
        clock.activeElapsedMs + captureTimeMs - T < A ∨ Covered clock.clockSegments captureTimeMs)
      (now : captureTimeMs = T → clock.activeElapsedMs = A) :
      Recorded config T captureTimeMs A clock
  | active {clock : BrowserClock} {earlier : List ClockSegment} {segment : ClockSegment}
      (current : clock.currentSegment = some earlier.length)
      (segments : clock.clockSegments = earlier ++ [segment])
      (clockEnd : segment.clockEndMs = none)
      (finished : Finished T captureTimeMs A earlier)
      (nonneg : 0 ≤ segment.activeElapsedStartMs)
      (started : segment.clockStartMs ≤ T)
      (fresh : segment.activeElapsedStartMs = 0 ∨
        config.phase segment.activeElapsedStartMs ≠ .ended)
      (inside : segment.clockStartMs ≤ captureTimeMs →
        segment.activeElapsedStartMs + captureTimeMs - segment.clockStartMs = A)
      (past : captureTimeMs < segment.clockStartMs → A ≤ segment.activeElapsedStartMs ∧
        (segment.activeElapsedStartMs + captureTimeMs - segment.clockStartMs < A ∨
          Covered earlier captureTimeMs)) :
      Recorded config T captureTimeMs A clock

namespace Recorded

variable {config : ClockConfig} {T n c A : ℚ} {clock : BrowserClock}

theorem mono (h : Recorded config T c A clock) (hc : c ≤ T) (hT : T ≤ n) :
    Recorded config n c A clock := by
  cases h with
  | idle current finished nonneg le past now =>
    refine .idle current (finished.mono hT) nonneg le (fun hlt => ?_) fun heq => ?_
    · rcases hc.lt_or_eq with hct | hct
      · exact (past hct).imp_left fun h => by linarith
      · have hA := now hct
        exact .inl (by linarith)
    · exact now (le_antisymm hc (by linarith))
  | active current segments clockEnd finished nonneg started fresh inside past =>
    exact .active current segments clockEnd (finished.mono hT) nonneg (started.trans hT) fresh inside
      past

/-- A clock says now how much time has run. -/
theorem at_now (h : Recorded config T T A clock) (hT : T < n) :
    ∃ A', Recorded config n n A' clock := by
  have hnone : ∀ {segments A'}, Finished T T A segments → Finished n n A' segments := by
    intro segments A' hfinished segment hsegment
    obtain ⟨clockEndMs, hend, hle, -⟩ := hfinished segment hsegment
    exact ⟨clockEndMs, hend, hle.trans hT.le, fun _ h => absurd (h.trans hle) hT.not_ge⟩
  cases h with
  | idle current finished nonneg le past now =>
    exact ⟨_, .idle current (hnone finished) nonneg le_rfl (fun h => absurd h (lt_irrefl _))
      fun _ => rfl⟩
  | active current segments clockEnd finished nonneg started fresh inside past =>
    exact ⟨_, .active current segments clockEnd (hnone finished) nonneg (started.trans hT.le) fresh
      (fun _ => rfl) fun h => absurd (started.trans hT.le) h.not_ge⟩

theorem congr {clock' : BrowserClock} (h : Recorded config T c A clock)
    (hcurrent : clock'.currentSegment = clock.currentSegment)
    (hsegments : clock'.clockSegments = clock.clockSegments)
    (helapsed : clock'.activeElapsedMs = clock.activeElapsedMs) : Recorded config T c A clock' := by
  cases clock
  cases clock'
  cases hcurrent
  cases hsegments
  cases helapsed
  cases h with
  | idle current finished nonneg le past now => exact .idle current finished nonneg le past now
  | active current segments clockEnd finished nonneg started fresh inside past =>
    exact .active current segments clockEnd finished nonneg started fresh inside past

/-- The end of a segment, with the time that has run by then. -/
theorem finish {earlier : List ClockSegment} {segment : ClockSegment} {clock' : BrowserClock}
    (h : Recorded config n c A clock) (hc : c ≤ n)
    (segments : clock.clockSegments = earlier ++ [segment])
    (current : clock.currentSegment = some earlier.length)
    (hcurrent : clock'.currentSegment = none)
    (hsegments : clock'.clockSegments = earlier ++ [{ segment with clockEndMs := some n }])
    (helapsed : clock'.activeElapsedMs =
      segment.activeElapsedStartMs + n - segment.clockStartMs) : Recorded config n c A clock' := by
  cases h with
  | idle none => cases none.symm.trans current
  | @active earlier' segment' current' segments' clockEnd finished nonneg started fresh inside past =>
    obtain ⟨rfl, hsegment⟩ := List.append_inj' (segments'.symm.trans segments) rfl
    cases hsegment
    have hclosed : segment.clockStartMs ≤ c → Covered clock'.clockSegments c := by
      intro hstart
      rw [hsegments]
      exact ⟨_, List.mem_append_right _ (List.mem_singleton_self _), hstart, n, rfl, hc⟩
    refine .idle hcurrent ?_ ?_ ?_ ?_ ?_
    · rw [hsegments]
      intro s hs
      rcases List.mem_append.mp hs with hs | hs
      · exact finished s hs
      · cases List.mem_singleton.mp hs
        exact ⟨n, rfl, le_rfl, fun hstart _ => inside hstart⟩
    · rw [helapsed]
      linarith
    · rw [helapsed]
      rcases le_or_gt segment.clockStartMs c with hstart | hstart
      · have hA := inside hstart
        linarith
      · have hA := (past hstart).1
        linarith
    · intro hlt
      rcases le_or_gt segment.clockStartMs c with hstart | hstart
      · exact .inr (hclosed hstart)
      · rcases (past hstart).2 with hbehind | ⟨s, hs, hcovered⟩
        · left
          rw [helapsed]
          linarith
        · right
          rw [hsegments]
          exact ⟨s, List.mem_append_left _ hs, hcovered⟩
    · rintro rfl
      rw [helapsed]
      exact inside started

/-- The begin of a segment. -/
theorem begin (h : Recorded config n c A clock) (hc : c ≤ n) (current : clock.currentSegment = none)
    (hfresh : clock.activeElapsedMs = 0 ∨ config.phase clock.activeElapsedMs ≠ .ended)
    (state : ClockState) :
    Recorded config n c A (clock.startClockSegment n state clock.activeElapsedMs) := by
  cases h with
  | active some => cases current.symm.trans some
  | idle _ finished nonneg le past now =>
    refine .active rfl rfl rfl finished nonneg le_rfl hfresh ?_ ?_
    · intro hstart
      have heq := le_antisymm hc hstart
      have hA := now heq
      show clock.activeElapsedMs + c - n = A
      linarith
    · intro hlt
      exact ⟨le, past hlt⟩

end Recorded

/-! ## Steps of the clock -/

namespace BrowserClock

variable {config : BrowserConfig} {roundBeat : ℚ → ℚ} {clock : BrowserClock} {n T c A : ℚ}
  {watch : Stopwatch ℚ}

/-- A clock that runs stops. -/
theorem finish_recorded (h : Recorded config.toClockConfig n c A clock) (hc : c ≤ n)
    (hshows : Shows config n clock watch)
    (hactive : clock.state = .countIn ∨ clock.state = .running) (state : ClockState)
    (stateBeforePause : ClockState) :
    Recorded config.toClockConfig n c A
      { ({ clock with activeElapsedMs := clock.activeElapsedAt n } :
          BrowserClock).finishCurrentSegment n with state, stateBeforePause } := by
  cases hshows with
  | unstarted => simp [initial] at hactive
  | paused hstate => simp [hstate] at hactive
  | ended hstate => simp [hstate] at hactive
  | @running _ earlier segment origin active segments current nonneg le shift =>
    have helapsed : clock.activeElapsedAt n =
        segment.activeElapsedStartMs + n - segment.clockStartMs := by
      rw [activeElapsedAt_of_last n active segments current, Stopwatch.elapsed_running,
        max_eq_right] <;> linarith
    have hfinish : ({ clock with activeElapsedMs := clock.activeElapsedAt n } :
        BrowserClock).finishCurrentSegment n = { clock with
          activeElapsedMs := clock.activeElapsedAt n
          currentSegment := none
          clockSegments := earlier ++ [{ segment with clockEndMs := some n }] } := by
      unfold finishCurrentSegment
      simp only [current, segments, Lists.modify_append_last]
    rw [hfinish]
    exact h.finish hc segments current rfl rfl helapsed

theorem Shows.active_or_idle (h : Shows config T clock watch) :
    (clock.state = .countIn ∨ clock.state = .running) ∨ clock.currentSegment = none := by
  cases h with
  | unstarted => exact .inr rfl
  | running active => exact .inl active
  | paused _ _ _ current => exact .inr current
  | ended _ current => exact .inr current

theorem Shows.active_of_some (h : Shows config T clock watch) {index : Nat}
    (hcurrent : clock.currentSegment = some index) :
    clock.state = .countIn ∨ clock.state = .running := by
  refine h.active_or_idle.resolve_right fun hidle => ?_
  rw [hidle] at hcurrent
  cases hcurrent

theorem advanceState_recorded (h : Recorded config.toClockConfig n c A clock) (hc : c ≤ n)
    (hshows : Shows config n clock watch) :
    Recorded config.toClockConfig n c A (clock.advanceState config n).1 := by
  unfold advanceState
  dsimp only
  split_ifs
  · exact h
  · exact h
  · exact h.congr rfl rfl rfl
  · rcases hshows.active_or_idle with hactive | hidle
    · exact finish_recorded h hc hshows hactive .ended _
    · -- the clock has stopped before: nothing is left to finish
      apply h.congr
      · exact (finishCurrentSegment_currentSegment _ n).trans hidle.symm
      · unfold finishCurrentSegment
        simp only [hidle]
      · exact (finishCurrentSegment_activeElapsedMs _ n).trans (activeElapsedAt_of_none hidle)
  · exact h.congr rfl rfl rfl

theorem advanceState_of_paused (h : clock.state = .paused) :
    (clock.advanceState config n).1 = clock := by
  unfold advanceState
  simp only [h, reduceCtorEq, if_false, if_true]

theorem accept_snapshot (clock : BrowserClock) :
    (accept (clock.snapshot config roundBeat n)).1 = (clock.advanceState config n).1 := rfl

theorem start_recorded (h : Recorded config.toClockConfig n c A clock) (hc : c ≤ n)
    (hshows : Shows config n clock watch) :
    Recorded config.toClockConfig n c A (clock.start config roundBeat n).1 := by
  unfold start
  dsimp only
  split_ifs with hready
  · exact h
  all_goals
    have hstate := (hshows.state_eq_ready n).mp (not_not.mp hready)
    cases ClockConfig.stateAt_eq_ready.mp hstate
    cases hshows
    rw [accept_snapshot]
    refine advanceState_recorded ?_ hc (startClockSegment_shows _ ?_ le_rfl rfl)
    · exact (h.begin hc rfl (.inl rfl) _).congr rfl rfl rfl
    · simp

theorem pause_recorded (h : Recorded config.toClockConfig n c A clock) (hc : c ≤ n)
    (hshows : Shows config n clock watch) :
    Recorded config.toClockConfig n c A (clock.pause config roundBeat n).1 := by
  obtain ⟨hshows', -, -⟩ := advanceState_shows hshows le_rfl
  have hadvance := advanceState_recorded h hc hshows
  unfold pause
  dsimp only
  split_ifs with hstop
  · exact hadvance
  · have hactive : (clock.advanceState config n).1.state = .countIn ∨
        (clock.advanceState config n).1.state = .running := by tauto
    have hfinish := finish_recorded hadvance hc hshows' hactive .paused
    rw [accept_snapshot, advanceState_of_paused rfl]
    exact hfinish _

theorem resume_recorded (h : Recorded config.toClockConfig n c A clock) (hc : c ≤ n)
    (hshows : Shows config n clock watch) :
    Recorded config.toClockConfig n c A (clock.resume config roundBeat n).1 := by
  unfold resume
  dsimp only
  split_ifs with hpaused
  · exact h
  · rw [not_not] at hpaused
    cases hshows with
    | unstarted => cases hpaused
    | running active => simp [hpaused] at active
    | ended state => simp [hpaused] at state
    | paused state before pausable current nonneg frozen =>
      subst frozen
      have hfresh : config.phase clock.activeElapsedMs ≠ .ended := by
        intro hended
        rw [hended] at pausable
        simp at pausable
      rw [accept_snapshot]
      refine advanceState_recorded ?_ hc (startClockSegment_shows _ ?_ nonneg rfl)
      · exact (h.begin hc current (.inr hfresh) _).congr rfl rfl rfl
      · show clock.stateBeforePause = _ ∨ clock.stateBeforePause = _
        rwa [before]

theorem call_recorded (h : Recorded config.toClockConfig n c A clock) (hc : c ≤ n)
    (hshows : Shows config n clock watch) (call : ClockCall) :
    Recorded config.toClockConfig n c A (clock.call config roundBeat n call).1 := by
  cases call with
  | start => exact start_recorded h hc hshows
  | pause => exact pause_recorded h hc hshows
  | resume => exact resume_recorded h hc hshows
  | snapshot => exact advanceState_recorded h hc hshows

/-! ## What a capture time is mapped to -/

theorem activeElapsedAt_eq (h : Recorded config.toClockConfig n n A clock)
    (hshows : Shows config n clock watch) : clock.activeElapsedAt n = A ∧ 0 ≤ A := by
  cases h with
  | idle current finished nonneg le past now =>
    rw [activeElapsedAt_of_none current]
    exact ⟨now rfl, now rfl ▸ nonneg⟩
  | @active earlier segment current segments clockEnd finished nonneg started fresh inside past =>
    have hA := inside started
    have hactive := hshows.active_of_some current
    rw [activeElapsedAt_of_last n hactive segments current, Stopwatch.elapsed_running, max_eq_right]
    · constructor <;> linarith
    · linarith

/-- What a snapshot reports is the time that has run. -/
theorem snapshot_performanceTimeMs (hshows : Shows config T clock watch) :
    (clock.snapshot config roundBeat n).2.performanceTimeMs =
      config.performanceElapsedMs (clock.activeElapsedAt n) := by
  show config.performanceElapsedMs (clock.advanceState config n).2 = _
  unfold advanceState
  dsimp only
  split_ifs with hready
  · cases ClockConfig.stateAt_eq_ready.mp ((hshows.state_eq_ready n).mp hready)
    cases hshows
    rfl
  all_goals rfl

/-- In a segment. -/
theorem activeElapsedForCapture_inside (h : Recorded config.toClockConfig T c A clock)
    (hA : 0 ≤ A) (hin : clock.InSegment n c) : clock.activeElapsedForCapture n c = A := by
  obtain ⟨index, segment, hget, hstart, hend⟩ := hin
  unfold activeElapsedForCapture
  cases hfind : clock.clockSegments.zipIdx.find? fun (segment, index) =>
      segment.clockStartMs ≤ c ∧ c ≤ clock.segmentEnd n index segment with
  | none =>
    have hno := List.find?_eq_none.mp hfind (segment, index)
      (List.mem_zipIdx_iff_getElem?.mpr hget)
    simp only [decide_eq_true_eq] at hno
    exact absurd ⟨hstart, hend⟩ hno
  | some found =>
    obtain ⟨segment', index'⟩ := found
    have hget' := List.mem_zipIdx_iff_getElem?.mp (List.mem_of_find?_eq_some hfind)
    have hfound := List.find?_some hfind
    simp only [decide_eq_true_eq] at hfound
    show max 0 (segment'.activeElapsedStartMs + c - segment'.clockStartMs) = A
    suffices hreads : segment'.activeElapsedStartMs + c - segment'.clockStartMs = A by
      rw [hreads, max_eq_right hA]
    have hclosed : ∀ {segments}, Finished T c A segments → segment' ∈ segments →
        segment'.activeElapsedStartMs + c - segment'.clockStartMs = A := by
      intro segments hfinished hmem
      obtain ⟨clockEndMs, hclockEnd, -, hreads⟩ := hfinished segment' hmem
      refine hreads hfound.1 (hfound.2.trans_eq ?_)
      unfold segmentEnd
      rw [hclockEnd, Option.getD_some]
    have hmem := List.mem_of_getElem? hget'
    cases h with
    | idle current finished => exact hclosed finished hmem
    | active current segments clockEnd finished nonneg started fresh inside past =>
      rw [segments] at hmem
      rcases List.mem_append.mp hmem with hmem | hmem
      · exact hclosed finished hmem
      · cases List.mem_singleton.mp hmem
        exact inside hfound.1

/-- In no segment. -/
theorem activeElapsedForCapture_outside {c' : ℚ} (h : Recorded config.toClockConfig T c' A clock)
    (hin : ¬clock.InSegment n c) :
    clock.activeElapsedForCapture n c = clock.activeElapsedAt c := by
  have hnone : ∀ index segment, clock.clockSegments[index]? = some segment →
      ¬(segment.clockStartMs ≤ c ∧ c ≤ clock.segmentEnd n index segment) :=
    fun index segment hget h => hin ⟨index, segment, hget, h⟩
  unfold activeElapsedForCapture
  cases hfind : clock.clockSegments.zipIdx.find? fun (segment, index) =>
      segment.clockStartMs ≤ c ∧ c ≤ clock.segmentEnd n index segment with
  | some found =>
    obtain ⟨segment, index⟩ := found
    have hget := List.mem_zipIdx_iff_getElem?.mp (List.mem_of_find?_eq_some hfind)
    have hfound := List.find?_some hfind
    simp only [decide_eq_true_eq] at hfound
    exact absurd hfound (hnone index segment hget)
  | none =>
    cases h with
    | idle current =>
      have hcurrent : clock.current = none := by
        unfold BrowserClock.current
        rw [current]
        rfl
      simp only [hcurrent]
    | @active earlier segment current segments clockEnd finished nonneg started fresh inside past =>
      have hget : clock.clockSegments[earlier.length]? = some segment := by
        rw [segments]
        simp
      have hend : clock.segmentEnd n earlier.length segment = n := by
        unfold segmentEnd
        rw [clockEnd, Option.getD_none, if_pos current]
      simp only [current_eq_last segments current]
      rw [if_neg fun hinside => hnone _ _ hget ⟨hinside.1, hinside.2.trans_eq hend.symm⟩]

/-- No performance time is between two elapsed times, if one of them is before a
time that was not the end, and the other is before it only if no time was. -/
theorem performanceElapsedMs_eq_iff {config : ClockConfig} {x A a : ℚ} (hA : 0 ≤ A) (hx : x < A)
    (hle : A ≤ a) (hfresh : a = 0 ∨ config.phase a ≠ .ended) :
    config.performanceElapsedMs (max 0 x) = config.performanceElapsedMs A ↔
      config.performanceElapsedMs A = config.performanceElapsedMs 0 := by
  have hzero : config.performanceElapsedMs 0 ≤ config.performanceElapsedMs (max 0 x) :=
    ClockConfig.performanceElapsedMs_mono (le_max_left _ _)
  have hmono : config.performanceElapsedMs (max 0 x) ≤ config.performanceElapsedMs A :=
    ClockConfig.performanceElapsedMs_mono (max_le hA hx.le)
  constructor
  · intro heq
    by_contra hne
    have hlt : config.performanceElapsedMs 0 < config.performanceElapsedMs A :=
      lt_of_le_of_ne (hzero.trans hmono) (Ne.symm hne)
    have hpos : 0 < config.performanceElapsedMs A :=
      ClockConfig.performanceElapsedMs_nonneg.trans_lt hlt
    have hApos : 0 < A := by
      refine lt_of_le_of_ne hA fun h => ?_
      rw [← h] at hlt
      exact lt_irrefl _ hlt
    have hend : config.performanceElapsedMs A < config.scope.nominalDurationMs := by
      have hphase := hfresh.resolve_left (by linarith)
      have hpausable := (or_assoc.mpr (ClockConfig.phase_active a)).resolve_right hphase
      have ha : config.performanceElapsedMs A ≤ config.performanceElapsedMs a :=
        ClockConfig.performanceElapsedMs_mono hle
      exact ha.trans_lt
        (ClockConfig.performanceElapsedMs_lt_of_phase hpausable (hpos.trans_le ha))
    exact (ClockConfig.performanceElapsedMs_lt (max_lt hApos hx) hpos hend).ne heq
  · intro heq
    exact le_antisymm hmono (heq ▸ hzero)

/-- Where a capture time has to be to be mapped to the performance time `p` that
was reported then: in a segment; or else no performance time was before it, if
the clock runs when it is asked, or none was since, if the clock stands at `q`. -/
def Placed (config : BrowserConfig) (clock : BrowserClock) (nowMs captureTimeMs p q : ℚ) : Prop :=
  clock.InSegment nowMs captureTimeMs ∨
    if clock.currentSegment.isSome then p = config.performanceElapsedMs 0 else p = q

theorem performanceTimeAtCapture_iff (h : Recorded config.toClockConfig T c A clock) (hA : 0 ≤ A)
    (hshows : Shows config T clock watch) (hc : c ≤ T) (hT : T ≤ n) :
    clock.performanceTimeAtCapture config n c = config.performanceElapsedMs A ↔
      Placed config clock n c (config.performanceElapsedMs A)
        (config.performanceElapsedMs (clock.activeElapsedAt n)) := by
  unfold performanceTimeAtCapture
  by_cases hin : clock.InSegment n c
  · rw [activeElapsedForCapture_inside h hA hin]
    exact ⟨fun _ => .inl hin, fun _ => rfl⟩
  · rw [activeElapsedForCapture_outside h hin]
    unfold Placed
    rw [or_iff_right hin]
    cases h with
    | idle current finished nonneg le past now =>
      rw [activeElapsedAt_of_none current, activeElapsedAt_of_none current, current]
      exact eq_comm
    | @active earlier segment current segments clockEnd finished nonneg started fresh inside past =>
      have hactive := hshows.active_of_some current
      have hlater : c < segment.clockStartMs := by
        by_contra hstart
        refine hin ⟨earlier.length, segment, ?_, not_lt.mp hstart, ?_⟩
        · rw [segments]
          simp
        · unfold segmentEnd
          rw [clockEnd, Option.getD_none, if_pos current]
          exact hc.trans hT
      obtain ⟨hle, hbehind⟩ := past hlater
      have hbehind := hbehind.resolve_right fun ⟨covering, hmem, hstart, clockEndMs, hend, hle⟩ => by
        obtain ⟨index, hget⟩ := List.mem_iff_getElem?.mp hmem
        refine hin ⟨index, covering, ?_, hstart, ?_⟩
        · rw [segments, List.getElem?_append_left]
          · exact hget
          · exact (List.getElem?_eq_some_iff.mp hget).1
        · unfold segmentEnd
          rwa [hend, Option.getD_some]
      rw [activeElapsedAt_of_last c hactive segments current, Stopwatch.elapsed_running, current]
      have hshift : c - (segment.clockStartMs - segment.activeElapsedStartMs) =
          segment.activeElapsedStartMs + c - segment.clockStartMs := by linarith
      rw [hshift]
      exact performanceElapsedMs_eq_iff hA hbehind hle fresh

/-! ## Runs -/

/-- The clock after some calls. -/
def afterCalls (config : BrowserConfig) (roundBeat : ℚ → ℚ) (calls : List TimedCall) :
    BrowserClock :=
  after (fun clock call => BrowserClock.call config roundBeat clock call.2 call.1) .initial calls

/-- A clock knows the time that has run, and what its segments say of a capture. -/
def Tracks (config : BrowserConfig) (c A T : ℚ) (clock : BrowserClock) : Prop :=
  c ≤ T ∧ (∃ watch, Shows config T clock watch) ∧ Recorded config.toClockConfig T c A clock

theorem Tracks.mono (h : Tracks config c A T clock) (hT : T ≤ n) : Tracks config c A n clock :=
  ⟨h.1.trans hT, h.2.1.imp fun _ hshows => hshows.mono hT, h.2.2.mono h.1 hT⟩

theorem Tracks.call (roundBeat : ℚ → ℚ) (h : Tracks config c A n clock) (call : ClockCall) :
    Tracks config c A n (clock.call config roundBeat n call).1 := by
  obtain ⟨hc, ⟨watch, hshows⟩, hrecorded⟩ := h
  exact ⟨hc, ⟨_, (call_answers roundBeat hshows le_rfl call).1⟩,
    call_recorded hrecorded hc hshows call⟩

theorem Tracks.after (roundBeat : ℚ → ℚ) {calls : List TimedCall}
    (h : Tracks config c A T clock) (hfirst : ∀ call ∈ calls, T ≤ call.2)
    (hsorted : InOrder calls) (hT : T ≤ n) (hlast : ∀ call ∈ calls, call.2 ≤ n) :
    Tracks config c A n (after (fun clock call => BrowserClock.call config roundBeat clock call.2
      call.1) clock calls) :=
  after_invariant Prod.snd (fun _ _ _ hij h => h.mono hij)
    (fun _ call h => h.call roundBeat call.1) h hfirst hsorted hT hlast

/-- After any calls a clock tracks the time that has run. -/
theorem tracks_now (config : BrowserConfig) (roundBeat : ℚ → ℚ) {calls : List TimedCall}
    (hsorted : InOrder calls) (hlast : ∀ call ∈ calls, call.2 ≤ n) :
    Tracks config n ((afterCalls config roundBeat calls).activeElapsedAt n) n
      (afterCalls config roundBeat calls) := by
  have hinitial : ∀ T, ∃ A, Tracks config T A T initial := fun T =>
    ⟨0, le_rfl, ⟨_, .unstarted⟩, .idle rfl (fun _ h => absurd h List.not_mem_nil) le_rfl le_rfl
      (fun h => absurd h (lt_irrefl T)) fun _ => rfl⟩
  have hnow : ∃ A, Tracks config n A n (afterCalls config roundBeat calls) := by
    cases calls with
    | nil => exact hinitial n
    | cons first calls =>
      refine after_invariant Prod.snd (P := fun T clock => ∃ A, Tracks config T A T clock) ?_ ?_
        (hinitial first.2) ?_ hsorted (hlast first List.mem_cons_self) hlast
      · rintro T later clock hle ⟨A, -, ⟨watch, hshows⟩, hrecorded⟩
        rcases hle.eq_or_lt with rfl | hlt
        · exact ⟨A, le_rfl, ⟨watch, hshows⟩, hrecorded⟩
        · obtain ⟨A', hrecorded'⟩ := hrecorded.at_now hlt
          exact ⟨A', le_rfl, ⟨watch, hshows.mono hle⟩, hrecorded'⟩
      · rintro clock call ⟨A, h⟩
        exact ⟨A, h.call roundBeat call.1⟩
      · intro call hcall
        rcases List.mem_cons.mp hcall with rfl | hcall
        · exact le_rfl
        · exact (List.pairwise_cons.mp hsorted).1 call hcall
  obtain ⟨A, hle, ⟨watch, hshows⟩, hrecorded⟩ := hnow
  rw [(activeElapsedAt_eq hrecorded hshows).1]
  exact ⟨hle, ⟨watch, hshows⟩, hrecorded⟩

/-- What a tracked clock reports, and where it takes its captures. -/
theorem Tracks.captured_iff (roundBeat : ℚ → ℚ) (h : Tracks config c A n clock) (hA : 0 ≤ A) :
    clock.performanceTimeAtCapture config n c = config.performanceElapsedMs A ↔
      Placed config clock n c (config.performanceElapsedMs A)
        (clock.snapshot config roundBeat n).2.performanceTimeMs := by
  obtain ⟨hc, ⟨watch, hshows⟩, hrecorded⟩ := h
  rw [snapshot_performanceTimeMs hshows]
  exact performanceTimeAtCapture_iff hrecorded hA hshows hc le_rfl

theorem Tracks.le_captured (h : Tracks config c A n clock) (hA : 0 ≤ A) :
    config.performanceElapsedMs 0 ≤ clock.performanceTimeAtCapture config n c := by
  obtain ⟨hc, ⟨watch, hshows⟩, hrecorded⟩ := h
  apply ClockConfig.performanceElapsedMs_mono
  by_cases hin : clock.InSegment n c
  · rwa [activeElapsedForCapture_inside hrecorded hA hin]
  · rw [activeElapsedForCapture_outside hrecorded hin]
    cases hrecorded with
    | idle current finished nonneg => rwa [activeElapsedAt_of_none current]
    | active current segments =>
      rw [activeElapsedAt_of_last c (hshows.active_of_some current) segments current]
      exact le_max_left _ _

theorem reported_eq (roundBeat : ℚ → ℚ) {calls : List TimedCall}
    (hsorted : InOrder calls) (hlast : ∀ call ∈ calls, call.2 ≤ n) :
    ((afterCalls config roundBeat calls).snapshot config roundBeat n).2.performanceTimeMs =
      config.performanceElapsedMs ((afterCalls config roundBeat calls).activeElapsedAt n) ∧
    0 ≤ (afterCalls config roundBeat calls).activeElapsedAt n ∧
    ((afterCalls config roundBeat calls).state = .ready →
      ((afterCalls config roundBeat calls).snapshot config roundBeat n).2.performanceTimeMs =
        config.performanceElapsedMs 0) := by
  obtain ⟨-, ⟨watch, hshows⟩, hrecorded⟩ := tracks_now config roundBeat hsorted hlast
  refine ⟨snapshot_performanceTimeMs hshows, (activeElapsedAt_eq hrecorded hshows).2, fun hready => ?_⟩
  rw [snapshot_performanceTimeMs hshows]
  have hwatch := ClockConfig.stateAt_eq_ready.mp ((hshows.state_eq_ready n).mp hready)
  subst hwatch
  generalize afterCalls config roundBeat calls = clock at *
  cases hshows
  rfl

/-- From a snapshot on, a run tracks the time that had run then. -/
theorem tracks_snapshot (roundBeat : ℚ → ℚ) (calls later : List TimedCall)
    (hsorted : InOrder (calls ++ (.snapshot, c) :: (later ++ [(.snapshot, n)]))) :
    Tracks config c ((afterCalls config roundBeat calls).activeElapsedAt c) n
      (afterCalls config roundBeat (calls ++ (.snapshot, c) :: later)) := by
  obtain ⟨hcalls, hlater, hle⟩ := List.pairwise_append.mp hsorted
  obtain ⟨hc, hlater⟩ := List.pairwise_cons.mp hlater
  obtain ⟨hlater, -, hn⟩ := List.pairwise_append.mp hlater
  have hnow := tracks_now config roundBeat hcalls fun call h =>
    hle call h _ List.mem_cons_self
  unfold afterCalls
  rw [after_append, after_cons]
  exact (hnow.call roundBeat .snapshot).after roundBeat
    (fun call h => hc call (List.mem_append_left _ h)) hlater
    (hc _ (List.mem_append_right _ (List.mem_singleton_self _)))
    fun call h => hn call h _ (List.mem_singleton_self _)

theorem Tracks.le (h : Tracks config c A n clock) : A ≤ clock.activeElapsedAt n := by
  obtain ⟨hc, ⟨watch, hshows⟩, hrecorded⟩ := h
  cases hrecorded with
  | idle current finished nonneg le past now => rwa [activeElapsedAt_of_none current]
  | @active earlier segment current segments clockEnd finished nonneg started fresh inside past =>
    have hactive := hshows.active_of_some current
    rw [activeElapsedAt_of_last n hactive segments current, Stopwatch.elapsed_running]
    apply le_max_of_le_right
    rcases le_or_gt segment.clockStartMs c with hstart | hstart
    · have hA := inside hstart
      linarith
    · have hA := (past hstart).1
      linarith

end BrowserClock

/-! ## Two captures of a run -/

/-- A run with two instants of it, at which the clock is looked at, and the time
at which one asks for captures at these instants. -/
structure CaptureRun where
  before : List TimedCall
  first : ℚ
  between : List TimedCall
  second : ℚ
  afterwards : List TimedCall
  now : ℚ
  sorted : InOrder (before ++ (.snapshot, first) :: (between ++ (.snapshot, second) ::
    (afterwards ++ [(.snapshot, now)])))

namespace CaptureRun

variable (config : BrowserConfig) (roundBeat : ℚ → ℚ) (run : CaptureRun)

/-- The clock at the first instant, at the second one and when it is asked. -/
def clockAtFirst : BrowserClock := .afterCalls config roundBeat run.before

def clockAtSecond : BrowserClock :=
  .afterCalls config roundBeat (run.before ++ (.snapshot, run.first) :: run.between)

def clock : BrowserClock :=
  .afterCalls config roundBeat (run.before ++ (.snapshot, run.first) ::
    (run.between ++ (.snapshot, run.second) :: run.afterwards))

/-- The performance times that were reported at these times. -/
def reportedAtFirst : ℚ :=
  ((run.clockAtFirst config roundBeat).snapshot config roundBeat run.first).2.performanceTimeMs

def reportedAtSecond : ℚ :=
  ((run.clockAtSecond config roundBeat).snapshot config roundBeat run.second).2.performanceTimeMs

def reportedNow : ℚ :=
  ((run.clock config roundBeat).snapshot config roundBeat run.now).2.performanceTimeMs

/-- The performance time of a capture. -/
def captured (captureTimeMs : ℚ) : ℚ :=
  (run.clock config roundBeat).performanceTimeAtCapture config run.now captureTimeMs

/-- Captures are mapped in their order, and once the performance was started to
what was reported at their time. -/
structure Lawful : Prop where
  ordered : run.captured config roundBeat run.first ≤ run.captured config roundBeat run.second
  first : (run.clockAtFirst config roundBeat).state ≠ .ready →
    run.captured config roundBeat run.first = run.reportedAtFirst config roundBeat
  second : (run.clockAtSecond config roundBeat).state ≠ .ready →
    run.captured config roundBeat run.second = run.reportedAtSecond config roundBeat

variable {config} {roundBeat} {run}

theorem tracks_first : BrowserClock.Tracks config run.first
    ((run.clockAtFirst config roundBeat).activeElapsedAt run.first) run.now
    (run.clock config roundBeat) := by
  apply BrowserClock.tracks_snapshot
  rw [List.append_assoc, List.cons_append]
  exact run.sorted

theorem sorted_second (run : CaptureRun) :
    InOrder (run.before ++ (.snapshot, run.first) :: (run.between ++ [(.snapshot, run.second)])) := by
  have hsorted := run.sorted
  rw [InOrder, show run.before ++ (.snapshot, run.first) :: (run.between ++
      (.snapshot, run.second) :: (run.afterwards ++ [(.snapshot, run.now)])) =
    (run.before ++ (.snapshot, run.first) :: (run.between ++ [(.snapshot, run.second)])) ++
      (run.afterwards ++ [(.snapshot, run.now)]) by simp] at hsorted
  exact (List.pairwise_append.mp hsorted).1

theorem tracks_first_second : BrowserClock.Tracks config run.first
    ((run.clockAtFirst config roundBeat).activeElapsedAt run.first) run.second
    (run.clockAtSecond config roundBeat) :=
  BrowserClock.tracks_snapshot _ _ _ run.sorted_second

theorem tracks_second : BrowserClock.Tracks config run.second
    ((run.clockAtSecond config roundBeat).activeElapsedAt run.second) run.now
    (run.clock config roundBeat) := by
  have hcalls : run.before ++ (.snapshot, run.first) :: (run.between ++
      (.snapshot, run.second) :: run.afterwards) =
    (run.before ++ (.snapshot, run.first) :: run.between) ++
      (.snapshot, run.second) :: run.afterwards := by simp
  unfold clock
  rw [hcalls]
  apply BrowserClock.tracks_snapshot
  rw [InOrder, List.append_assoc, List.cons_append]
  exact run.sorted

theorem reportedAtFirst_eq : run.reportedAtFirst config roundBeat =
      config.performanceElapsedMs ((run.clockAtFirst config roundBeat).activeElapsedAt run.first) ∧
    0 ≤ (run.clockAtFirst config roundBeat).activeElapsedAt run.first ∧
    ((run.clockAtFirst config roundBeat).state = .ready →
      run.reportedAtFirst config roundBeat = config.performanceElapsedMs 0) := by
  obtain ⟨hcalls, -, hle⟩ := List.pairwise_append.mp run.sorted
  exact BrowserClock.reported_eq roundBeat hcalls fun call h => hle call h _ List.mem_cons_self

theorem reportedAtSecond_eq : run.reportedAtSecond config roundBeat =
      config.performanceElapsedMs
        ((run.clockAtSecond config roundBeat).activeElapsedAt run.second) ∧
    0 ≤ (run.clockAtSecond config roundBeat).activeElapsedAt run.second ∧
    ((run.clockAtSecond config roundBeat).state = .ready →
      run.reportedAtSecond config roundBeat = config.performanceElapsedMs 0) := by
  have hsorted := run.sorted_second
  rw [InOrder, show run.before ++ (.snapshot, run.first) :: (run.between ++
      [(.snapshot, run.second)]) =
    (run.before ++ (.snapshot, run.first) :: run.between) ++ [(.snapshot, run.second)] by simp]
    at hsorted
  obtain ⟨hcalls, -, hle⟩ := List.pairwise_append.mp hsorted
  exact BrowserClock.reported_eq roundBeat hcalls fun call h =>
    hle call h _ (List.mem_singleton_self _)

/-- Reports do not go back. -/
theorem reported_ordered :
    run.reportedAtFirst config roundBeat ≤ run.reportedAtSecond config roundBeat ∧
      run.reportedAtSecond config roundBeat ≤ run.reportedNow config roundBeat := by
  have htracks : BrowserClock.Tracks config run.second _ run.now (run.clock config roundBeat) :=
    tracks_second
  obtain ⟨-, ⟨watch, hshows⟩, -⟩ := htracks
  rw [reportedAtFirst_eq.1, reportedAtSecond_eq.1, reportedNow,
    BrowserClock.snapshot_performanceTimeMs hshows]
  exact ⟨ClockConfig.performanceElapsedMs_mono tracks_first_second.le,
    ClockConfig.performanceElapsedMs_mono tracks_second.le⟩

theorem captured_first_iff :
    run.captured config roundBeat run.first = run.reportedAtFirst config roundBeat ↔
      BrowserClock.Placed config (run.clock config roundBeat) run.now run.first
        (run.reportedAtFirst config roundBeat) (run.reportedNow config roundBeat) := by
  rw [reportedAtFirst_eq.1]
  exact run.tracks_first.captured_iff roundBeat reportedAtFirst_eq.2.1

theorem captured_second_iff :
    run.captured config roundBeat run.second = run.reportedAtSecond config roundBeat ↔
      BrowserClock.Placed config (run.clock config roundBeat) run.now run.second
        (run.reportedAtSecond config roundBeat) (run.reportedNow config roundBeat) := by
  rw [reportedAtSecond_eq.1]
  exact run.tracks_second.captured_iff roundBeat reportedAtSecond_eq.2.1

/-- A capture in no segment, if the clock stands when it is asked. -/
theorem captured_of_idle {captureTimeMs : ℚ}
    (hidle : (run.clock config roundBeat).currentSegment = none)
    (hin : ¬(run.clock config roundBeat).InSegment run.now captureTimeMs) :
    run.captured config roundBeat captureTimeMs = run.reportedNow config roundBeat := by
  have htracks : BrowserClock.Tracks config run.second _ run.now (run.clock config roundBeat) :=
    tracks_second
  obtain ⟨-, ⟨watch, hshows⟩, hrecorded⟩ := htracks
  rw [reportedNow, BrowserClock.snapshot_performanceTimeMs hshows,
    BrowserClock.activeElapsedAt_of_none hidle, captured, BrowserClock.performanceTimeAtCapture,
    BrowserClock.activeElapsedForCapture_outside hrecorded hin,
    BrowserClock.activeElapsedAt_of_none hidle]

/-- Captures follow the law exactly if each that comes after the start is in its
place, and one before the start is too, or comes with the second one to where
the clock stands. -/
theorem capture_time (config : BrowserConfig) (roundBeat : ℚ → ℚ) (run : CaptureRun) :
    run.Lawful config roundBeat ↔
      ((run.clockAtFirst config roundBeat).state ≠ .ready →
        BrowserClock.Placed config (run.clock config roundBeat) run.now run.first
          (run.reportedAtFirst config roundBeat) (run.reportedNow config roundBeat)) ∧
      ((run.clockAtSecond config roundBeat).state ≠ .ready →
        BrowserClock.Placed config (run.clock config roundBeat) run.now run.second
          (run.reportedAtSecond config roundBeat) (run.reportedNow config roundBeat)) ∧
      ((run.clockAtFirst config roundBeat).state = .ready →
        BrowserClock.Placed config (run.clock config roundBeat) run.now run.first
          (run.reportedAtFirst config roundBeat) (run.reportedNow config roundBeat) ∨
        run.reportedAtSecond config roundBeat = run.reportedNow config roundBeat ∨
        (run.clockAtSecond config roundBeat).state = .ready ∧
          ¬(run.clock config roundBeat).InSegment run.now run.second) := by
  obtain ⟨hordered, hnow⟩ : run.reportedAtFirst config roundBeat ≤ run.reportedAtSecond config roundBeat ∧
      run.reportedAtSecond config roundBeat ≤ run.reportedNow config roundBeat := reported_ordered
  have hstart : config.performanceElapsedMs 0 ≤ run.captured config roundBeat run.second :=
    run.tracks_second.le_captured reportedAtSecond_eq.2.1
  -- a first capture out of its place before the start
  have hstands : (run.clockAtFirst config roundBeat).state = .ready →
      ¬BrowserClock.Placed config (run.clock config roundBeat) run.now run.first
        (run.reportedAtFirst config roundBeat) (run.reportedNow config roundBeat) →
      (run.clock config roundBeat).currentSegment = none ∧
        run.captured config roundBeat run.first = run.reportedNow config roundBeat := by
    intro hready hplaced
    unfold BrowserClock.Placed at hplaced
    obtain ⟨hin, hreported⟩ := not_or.mp hplaced
    have hidle : (run.clock config roundBeat).currentSegment = none := by
      cases hcurrent : (run.clock config roundBeat).currentSegment with
      | none => rfl
      | some index =>
        rw [hcurrent] at hreported
        exact absurd (reportedAtFirst_eq.2.2 hready) hreported
    exact ⟨hidle, captured_of_idle hidle hin⟩
  constructor
  · rintro ⟨hle, hfirst, hsecond⟩
    refine ⟨fun h => captured_first_iff.mp (hfirst h), fun h => captured_second_iff.mp (hsecond h),
      fun hready => ?_⟩
    by_cases hplaced : BrowserClock.Placed config (run.clock config roundBeat) run.now run.first
        (run.reportedAtFirst config roundBeat) (run.reportedNow config roundBeat)
    · exact .inl hplaced
    · right
      obtain ⟨-, hcaptured⟩ := hstands hready hplaced
      by_cases hmapped : run.captured config roundBeat run.second =
          run.reportedAtSecond config roundBeat
      · left
        exact le_antisymm hnow (by rw [← hcaptured, ← hmapped]; exact hle)
      · right
        refine ⟨by_contra fun h => hmapped (hsecond h), fun hin => hmapped ?_⟩
        exact captured_second_iff.mpr (.inl hin)
  · rintro ⟨hfirst, hsecond, hbefore⟩
    refine ⟨?_, fun h => captured_first_iff.mpr (hfirst h), fun h => captured_second_iff.mpr (hsecond h)⟩
    by_cases hplaced : BrowserClock.Placed config (run.clock config roundBeat) run.now run.first
        (run.reportedAtFirst config roundBeat) (run.reportedNow config roundBeat)
    · rw [captured_first_iff.mpr hplaced]
      by_cases hready : (run.clockAtSecond config roundBeat).state = .ready
      · rw [reportedAtSecond_eq.2.2 hready] at hordered
        exact hordered.trans hstart
      · rwa [captured_second_iff.mpr (hsecond hready)]
    · have hready : (run.clockAtFirst config roundBeat).state = .ready :=
        by_contra fun h => hplaced (hfirst h)
      obtain ⟨hidle, hcaptured⟩ := hstands hready hplaced
      rw [hcaptured]
      rcases (hbefore hready).resolve_left hplaced with heq | ⟨-, hin⟩
      · rw [← heq]
        by_cases hready : (run.clockAtSecond config roundBeat).state = .ready
        · rw [reportedAtSecond_eq.2.2 hready]
          exact hstart
        · rw [captured_second_iff.mpr (hsecond hready)]
      · rw [captured_of_idle hidle hin]

/-- A performance at 120 beats a minute without a count-in. -/
def plainConfig : BrowserConfig where
  timeline := ⟨8, [⟨0, 8, 0, 120, defaultBpm_pos⟩]⟩
  scope := ⟨none, none, 0, 8, 0, 4000⟩
  speedRatio := 1
  speed_pos := ClockConfig.unitSpeed_pos
  countInMs := 0
  countInPulses := 0
  countInBeats := 0

/-- A capture at 250 and one in the pause from 300 to 5300, asked for at 5800. -/
def resumedRun : CaptureRun where
  before := [(.start, 0)]
  first := 250
  between := [(.pause, 300)]
  second := 5200
  afterwards := [(.resume, 5300)]
  now := 5800
  sorted := by decide

/-- The clock stood at 300 in the pause, but the capture in it is mapped to 200,
before the one that came before it. -/
theorem resumed_pause_goes_back :
    resumedRun.reportedAtSecond plainConfig id = 300 ∧
      resumedRun.captured plainConfig id resumedRun.second = 200 ∧
      resumedRun.captured plainConfig id resumedRun.first = 250 ∧
      ¬resumedRun.Lawful plainConfig id := by
  have hfirst : resumedRun.captured plainConfig id resumedRun.first = 250 := by decide +kernel
  have hsecond : resumedRun.captured plainConfig id resumedRun.second = 200 := by decide +kernel
  refine ⟨by decide +kernel, hsecond, hfirst, fun h => ?_⟩
  have hordered := h.ordered
  rw [hfirst, hsecond] at hordered
  norm_num at hordered

end CaptureRun

end NoteVerse.Practice

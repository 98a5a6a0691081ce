import NoteVerse.Practice.SessionRuntime

/-!
# Who looks at a session, and when

The requests that start, pause and resume a session, and the calls that only
look at its clock: a sync, and an input of audio or of MIDI. A session is told
about the end of a resume's count-in by the first call after it, and takes that
call's time for the end (`polled_late`).

* `SessionWatch` is a session whose count-in ends when it is over;
* `poll_follows`, `request_follows`: a call of a session is one of its
  `SessionWatch`, if a pending count-in is not over yet;
* `run_follows`: so a run is what its requests make of it.
-/

namespace NoteVerse.Practice

/-! ## The calls of a session -/

inductive SessionRequest
  | start | pause | resume
  deriving DecidableEq, Repr

/-- A call that looks at the clock. -/
inductive SessionPoll
  | sync | audio | midi
  deriving DecidableEq, Repr

inductive SessionCall
  | request (request : SessionRequest)
  | poll (poll : SessionPoll)
  deriving DecidableEq, Repr

/-- A call with its time. -/
abbrev TimedSessionCall := SessionCall × ℚ

def SessionCall.isRequest : SessionCall → Bool
  | request _ => true
  | poll _ => false

/-- The requests of a run, with their times. -/
def requestsOf (calls : List TimedSessionCall) : List (SessionRequest × ℚ) :=
  calls.filterMap fun call =>
    match call.1 with
    | .request request => some (request, call.2)
    | .poll _ => none

/-- Requests at times that do not go back, each poll at a time between the
requests around it, and none after `t`. -/
def Between (calls : List TimedSessionCall) (t : ℚ) : Prop :=
  calls.Pairwise (fun a b => a.1.isRequest ∨ b.1.isRequest → a.2 ≤ b.2) ∧ ∀ call ∈ calls, call.2 ≤ t

instance (calls : List TimedSessionCall) (t : ℚ) : Decidable (Between calls t) :=
  inferInstanceAs (Decidable (_ ∧ _))

namespace SessionRuntime

variable (config : RuntimeConfig) (runtime : SessionRuntime)

/-- The session after a call; one that raises may have looked at the clock. -/
def step (runtime : SessionRuntime) (call : TimedSessionCall) : SessionRuntime :=
  match call.1 with
  | .request .start => (runtime.startPerformance config call.2).1
  | .request .pause => (runtime.pausePerformance config call.2).1
  | .request .resume => (runtime.resumePerformance config call.2).1
  | .poll .sync => (runtime.performanceSync config call.2).1
  | .poll .audio => (runtime.processAudioChunk config call.2).1
  | .poll .midi => (runtime.processMidiEvent config call.2).1

/-- The session after a run. -/
def run (calls : List TimedSessionCall) : SessionRuntime := calls.foldl (step config) runtime

/-- A sync, and the input of the session's source. -/
def Looks : SessionCall → Prop
  | .request _ => True
  | .poll .sync => True
  | .poll .audio => runtime.inputSource = .microphone
  | .poll .midi => runtime.inputSource = .midi

instance (call : SessionCall) : Decidable (runtime.Looks call) :=
  match call with
  | .request _ => isTrue trivial
  | .poll .sync => isTrue trivial
  | .poll .audio => inferInstanceAs (Decidable (_ = _))
  | .poll .midi => inferInstanceAs (Decidable (_ = _))

/-- A pending count-in is not over: no call looks at the session after its end,
and no resume comes at its end. -/
def Prompt (call : TimedSessionCall) : Prop :=
  match runtime.resumeCountInStartedAtMs with
  | none => True
  | some startedAtMs =>
    (runtime.Looks call.1 → call.2 ≤ startedAtMs + runtime.resumeCountInDurationMs) ∧
      (call.1 = .request .resume → call.2 ≠ startedAtMs + runtime.resumeCountInDurationMs)

instance (call : TimedSessionCall) : Decidable (runtime.Prompt call) := by
  unfold Prompt
  cases runtime.resumeCountInStartedAtMs
  · exact isTrue trivial
  · exact inferInstanceAs (Decidable (_ ∧ _))

/-- A run all of whose calls are prompt. -/
def PromptRun (config : RuntimeConfig) : SessionRuntime → List TimedSessionCall → Prop
  | _, [] => True
  | runtime, call :: calls => runtime.Prompt call ∧ PromptRun config (runtime.step config call) calls

instance decidablePromptRun (config : RuntimeConfig) :
    (runtime : SessionRuntime) → (calls : List TimedSessionCall) →
      Decidable (PromptRun config runtime calls)
  | _, [] => isTrue trivial
  | runtime, call :: calls =>
    have := decidablePromptRun config (runtime.step config call) calls
    inferInstanceAs (Decidable (_ ∧ _))

end SessionRuntime

/-! ## A session whose count-in ends when it is over -/

inductive SessionWatch
  | clock (watch : Stopwatch ℚ)
  /-- Paused with some time elapsed, and to be resumed after a count-in. -/
  | countIn (elapsed startedAtMs : ℚ)

namespace RuntimeConfig

variable (config : RuntimeConfig)

/-- The session at a time. -/
def settle (session : SessionWatch) (t : ℚ) : SessionWatch :=
  match session with
  | .clock watch => .clock watch
  | .countIn elapsed startedAtMs =>
    if startedAtMs + (config.resumeCountIn elapsed).1 ≤ t then
      .clock (.running (startedAtMs + (config.resumeCountIn elapsed).1 - elapsed))
    else .countIn elapsed startedAtMs

/-- What a request makes of a session whose count-in is not over. -/
def request (session : SessionWatch) (r : SessionRequest) (t : ℚ) : SessionWatch :=
  match session, r with
  | .clock watch, .start => .clock ((config.next watch .start t).getD watch)
  | .clock watch, .pause => .clock ((config.next watch .pause t).getD watch)
  | .clock (.paused elapsed), .resume =>
    if config.phase elapsed = .running ∧ 0 < (config.resumeCountIn elapsed).1 ∧
        0 < (config.resumeCountIn elapsed).2 then .countIn elapsed t
    else .clock ((Stopwatch.paused elapsed).resume t)
  | .clock watch, .resume => .clock watch
  | .countIn elapsed startedAtMs, .start => .countIn elapsed startedAtMs
  | .countIn elapsed _, .pause => .clock (.paused elapsed)
  | .countIn elapsed _, .resume => .countIn elapsed t

/-- What the requests make of a session. -/
def afterRequests (session : SessionWatch) (requests : List (SessionRequest × ℚ)) : SessionWatch :=
  requests.foldl (fun session r => config.request (config.settle session r.2) r.1 r.2) session

/-- What a sync reports of a session whose count-in is not over. -/
def syncAt (session : SessionWatch) (t : ℚ) : PerformanceClockSync :=
  match session with
  | .clock watch =>
    config.toSync (PerformanceClock.snapshotOf config.toClockConfig config.roundBeat t
      (config.stateAt watch t) (watch.elapsed t))
  | .countIn elapsed startedAtMs =>
    let (durationMs, pulses) := config.resumeCountIn elapsed
    let remainingMs := max 0 (durationMs - max 0 (t - startedAtMs))
    { config.toSync (PerformanceClock.snapshotOf config.toClockConfig config.roundBeat t
        .paused elapsed) with
      state := .countIn
      countInRemainingMs := remainingMs
      countInRemainingPulses := pulses * remainingMs / durationMs
      scopeCompleted := false }

variable {config} {session : SessionWatch} {s t : ℚ}

@[simp] theorem settle_clock (watch : Stopwatch ℚ) (t : ℚ) :
    config.settle (.clock watch) t = .clock watch := rfl

theorem settle_countIn_of_lt {elapsed : ℚ} (h : t < s + (config.resumeCountIn elapsed).1) :
    config.settle (.countIn elapsed s) t = .countIn elapsed s :=
  if_neg (not_le.mpr h)

theorem settle_countIn_of_le {elapsed : ℚ} (h : s + (config.resumeCountIn elapsed).1 ≤ t) :
    config.settle (.countIn elapsed s) t =
      .clock (.running (s + (config.resumeCountIn elapsed).1 - elapsed)) :=
  if_pos h

/-- What the requests make of a session only depends on what it is when they come. -/
theorem settle_afterRequests {one other : SessionWatch} {requests : List (SessionRequest × ℚ)}
    (h : ∀ u, s ≤ u → config.settle one u = config.settle other u)
    (hrequests : ∀ r ∈ requests, s ≤ r.2) (ht : s ≤ t) :
    config.settle (config.afterRequests one requests) t =
      config.settle (config.afterRequests other requests) t := by
  cases requests with
  | nil => exact h t ht
  | cons r rest =>
    unfold afterRequests
    rw [List.foldl_cons, List.foldl_cons, h r.2 (hrequests r List.mem_cons_self)]

end RuntimeConfig

/-! ## A session is such a session -/

namespace SessionRuntime

variable {config : RuntimeConfig} {runtime : SessionRuntime} {session : SessionWatch} {T t : ℚ}

/-- The session that a runtime follows, if it has been called until `T` at the
latest: a pending count-in is not over by then. -/
inductive Follows (config : RuntimeConfig) (T : ℚ) : SessionRuntime → SessionWatch → Prop
  | clock {runtime : SessionRuntime} {watch : Stopwatch ℚ}
      (shows : PerformanceClock.Shows config.toClockConfig T runtime.clock watch)
      (idle : runtime.resumeCountInStartedAtMs = none) :
      Follows config T runtime (.clock watch)
  | countIn {runtime : SessionRuntime} {elapsed startedAtMs : ℚ}
      (shows : PerformanceClock.Shows config.toClockConfig T runtime.clock (.paused elapsed))
      (running : config.phase elapsed = .running)
      (started : runtime.resumeCountInStartedAtMs = some startedAtMs)
      (duration : runtime.resumeCountInDurationMs = (config.resumeCountIn elapsed).1)
      (pulses : runtime.resumeCountInPulses = (config.resumeCountIn elapsed).2)
      (duration_pos : 0 < (config.resumeCountIn elapsed).1)
      (pulses_pos : 0 < (config.resumeCountIn elapsed).2)
      (inTime : T ≤ startedAtMs + (config.resumeCountIn elapsed).1) :
      Follows config T runtime (.countIn elapsed startedAtMs)

theorem initial_follows (config : RuntimeConfig) (inputSource : PracticeInputSource) (T : ℚ) :
    Follows config T (initial inputSource) (.clock .unstarted) :=
  .clock .unstarted rfl

variable {watch : Stopwatch ℚ} {elapsed : ℚ} {calls : List TimedSessionCall}

/-- A call of the clock of a session that has no count-in pending. -/
theorem onClock_follows (call : ClockCall)
    (h : PerformanceClock.Shows config.toClockConfig T runtime.clock watch)
    (hidle : runtime.resumeCountInStartedAtMs = none) (ht : T ≤ t) :
    Follows config t (runtime.onClock config
        (runtime.clock.call config.toClockConfig config.roundBeat t call)).1
      (.clock ((config.next watch call t).getD watch)) := by
  have hshows := (PerformanceClock.call_answers config.roundBeat h ht call).1
  rw [ClockConfig.answer_fst] at hshows
  exact .clock hshows hidle

theorem clockSync_shows (h : PerformanceClock.Shows config.toClockConfig T runtime.clock watch)
    (t : ℚ) :
    PerformanceClock.Shows config.toClockConfig (max T t) (runtime.clockSync config t).1.clock watch :=
  PerformanceClock.snapshot_shows_max config.roundBeat h t

theorem clockSync_snd (h : PerformanceClock.Shows config.toClockConfig T runtime.clock watch)
    (ht : T ≤ t) :
    (runtime.clockSync config t).2 =
      config.toSync (PerformanceClock.snapshotOf config.toClockConfig config.roundBeat t
        (config.stateAt watch t) (watch.elapsed t)) :=
  congrArg config.toSync (PerformanceClock.snapshot_eq config.roundBeat h ht)

/-- A sync before the end of the count-in. -/
theorem performanceSync_of_lt {s : ℚ} (h : runtime.resumeCountInStartedAtMs = some s)
    (hpos : 0 < runtime.resumeCountInDurationMs) (ht : t < s + runtime.resumeCountInDurationMs) :
    runtime.performanceSync config t =
      ((runtime.clockSync config t).1,
        .ok ((runtime.clockSync config t).1.resumeCountInSync t (runtime.clockSync config t).2)) := by
  rw [performanceSync_pending h]
  exact if_pos (max_lt hpos (sub_lt_iff_lt_add'.mpr ht))

/-- A sync after it resumes the clock, at its own time. -/
theorem performanceSync_of_le {s : ℚ} (h : runtime.resumeCountInStartedAtMs = some s)
    (ht : s + runtime.resumeCountInDurationMs ≤ t) :
    runtime.performanceSync config t =
      (runtime.clockSync config t).1.clearResumeCountIn.resumeClock config t := by
  rw [performanceSync_pending h]
  exact if_neg (not_lt.mpr (le_max_of_le_right (le_sub_iff_add_le'.mpr ht)))

/-- A resume at the end of the count-in. -/
theorem resumeAfterSync_follows
    (h : PerformanceClock.Shows config.toClockConfig T runtime.clock (.paused elapsed))
    (ht : T ≤ t) :
    Follows config t ((runtime.clockSync config t).1.clearResumeCountIn.resumeClock config t).1
      (.clock (.running (t - elapsed))) := by
  have hpaused : PerformanceClock.Shows config.toClockConfig t
      (runtime.clockSync config t).1.clearResumeCountIn.clock (.paused elapsed) := by
    have hshows := clockSync_shows h t
    rwa [max_eq_right ht] at hshows
  exact onClock_follows .resume hpaused rfl le_rfl

/-- A sync at any time, if a pending count-in is not over before it. -/
theorem performanceSync_follows (h : Follows config T runtime session)
    (hprompt : runtime.Prompt (.poll .sync, t)) :
    ∃ session', Follows config (max T t) (runtime.performanceSync config t).1 session' ∧
      ∀ u, max T t ≤ u → config.settle session' u = config.settle session u := by
  cases h with
  | @clock watch shows idle =>
    rw [performanceSync_idle idle]
    exact ⟨.clock watch, .clock (clockSync_shows shows t) idle, fun _ _ => rfl⟩
  | @countIn elapsed startedAtMs shows running started duration pulses duration_pos pulses_pos
      inTime =>
    unfold Prompt at hprompt
    rw [started] at hprompt
    have hle : t ≤ startedAtMs + runtime.resumeCountInDurationMs := hprompt.1 trivial
    by_cases hlt : t < startedAtMs + runtime.resumeCountInDurationMs
    · rw [performanceSync_of_lt started (duration ▸ duration_pos) hlt]
      rw [duration] at hle
      exact ⟨.countIn elapsed startedAtMs, .countIn (clockSync_shows shows t) running started duration
        pulses duration_pos pulses_pos (max_le inTime hle), fun _ _ => rfl⟩
    · -- the sync comes at the end itself
      have hend : startedAtMs + runtime.resumeCountInDurationMs ≤ t := not_lt.mp hlt
      rw [performanceSync_of_le started hend]
      have hT : T ≤ t := inTime.trans (duration ▸ hend)
      rw [max_eq_right hT]
      refine ⟨.clock (.running (t - elapsed)), resumeAfterSync_follows shows hT, fun u hu => ?_⟩
      have heq := le_antisymm hle hend
      rw [duration] at heq
      rw [RuntimeConfig.settle_countIn_of_le (heq ▸ hu), heq]
      rfl

theorem step_poll (p : SessionPoll) (t : ℚ) :
    runtime.step config (.poll p, t) =
      if runtime.Looks (.poll p) then (runtime.performanceSync config t).1 else runtime := by
  cases p with
  | sync => exact (if_pos trivial).symm
  | audio =>
    show (processInput config runtime t .microphone _).1 =
      if runtime.inputSource = .microphone then _ else _
    unfold processInput
    split_ifs <;> first | rfl | contradiction
  | midi =>
    show (processInput config runtime t .midi _).1 = if runtime.inputSource = .midi then _ else _
    unfold processInput
    split_ifs <;> first | rfl | contradiction

theorem Follows.mono (h : Follows config T runtime session) (hT : T ≤ t)
    (hin : ∀ s, runtime.resumeCountInStartedAtMs = some s →
      t ≤ s + runtime.resumeCountInDurationMs) : Follows config t runtime session := by
  cases h with
  | clock shows idle => exact .clock (shows.mono hT) idle
  | countIn shows running started duration pulses duration_pos pulses_pos inTime =>
    exact .countIn (shows.mono hT) running started duration pulses duration_pos pulses_pos
      (duration ▸ hin _ started)

/-- A poll changes nothing that shows. -/
theorem poll_follows (h : Follows config T runtime session) (p : SessionPoll)
    (hprompt : runtime.Prompt (.poll p, t)) :
    ∃ T' ≤ max T t, ∃ session', T ≤ T' ∧
      Follows config T' (runtime.step config (.poll p, t)) session' ∧
      ∀ u, max T t ≤ u → config.settle session' u = config.settle session u := by
  rw [step_poll]
  by_cases hlooks : runtime.Looks (.poll p)
  · rw [if_pos hlooks]
    have hsync : runtime.Prompt (.poll .sync, t) := by
      unfold Prompt at hprompt ⊢
      cases hstarted : runtime.resumeCountInStartedAtMs with
      | none => trivial
      | some s =>
        rw [hstarted] at hprompt
        exact ⟨fun _ => hprompt.1 hlooks, fun h => nomatch h⟩
    obtain ⟨session', hfollows, hsettle⟩ := performanceSync_follows h hsync
    exact ⟨_, le_rfl, session', le_max_left _ _, hfollows, hsettle⟩
  · rw [if_neg hlooks]
    exact ⟨T, le_max_left _ _, session, le_rfl, h, fun _ _ => rfl⟩

/-- A request that comes before the end of a pending count-in, or at it. -/
theorem Prompt.request_le {s : ℚ} {r : SessionRequest} (h : runtime.Prompt (.request r, t))
    (hstarted : runtime.resumeCountInStartedAtMs = some s) :
    t ≤ s + runtime.resumeCountInDurationMs := by
  unfold Prompt at h
  rw [hstarted] at h
  exact h.1 trivial

theorem Prompt.resume_lt {s : ℚ} (h : runtime.Prompt (.request .resume, t))
    (hstarted : runtime.resumeCountInStartedAtMs = some s) :
    t < s + runtime.resumeCountInDurationMs := by
  refine lt_of_le_of_ne (h.request_le hstarted) ?_
  unfold Prompt at h
  rw [hstarted] at h
  exact h.2 rfl

theorem start_follows (h : Follows config T runtime session) (hT : T ≤ t)
    (hprompt : runtime.Prompt (.request .start, t)) :
    ∃ session', Follows config t (runtime.startPerformance config t).1 session' ∧
      ∀ u, t ≤ u → config.settle session' u =
        config.settle (config.request (config.settle session t) .start t) u := by
  cases h with
  | clock shows idle => exact ⟨_, onClock_follows .start shows idle hT, fun _ _ => rfl⟩
  | @countIn elapsed startedAtMs shows running started duration pulses duration_pos pulses_pos
      inTime =>
    have hfollows : Follows config T runtime (.countIn elapsed startedAtMs) :=
      .countIn shows running started duration pulses duration_pos pulses_pos inTime
    have hstart : runtime.clock.start config.toClockConfig config.roundBeat t =
        (runtime.clock, .error "Performance clock can only start from READY.") := by
      apply if_pos
      rw [Ne, shows.state_eq_ready t]
      exact fun h => nomatch h
    refine ⟨.countIn elapsed startedAtMs, ?_, fun u hu => ?_⟩
    · show Follows config t (runtime.onClock config (runtime.clock.start _ _ t)).1 _
      rw [hstart]
      exact hfollows.mono hT fun s hs => hprompt.request_le hs
    · by_cases hlt : t < startedAtMs + (config.resumeCountIn elapsed).1
      · rw [RuntimeConfig.settle_countIn_of_lt hlt]
        rfl
      · -- the clock runs, and cannot be started either
        have hend := not_lt.mp hlt
        rw [RuntimeConfig.settle_countIn_of_le hend, RuntimeConfig.settle_countIn_of_le (hend.trans hu)]
        have hnext : config.next (.running (startedAtMs + (config.resumeCountIn elapsed).1 - elapsed))
            .start t = none := by
          apply if_neg
          rw [ClockConfig.stateAt_eq_ready]
          exact fun h => nomatch h
        show _ = config.settle (.clock ((config.next _ .start t).getD _)) u
        rw [hnext]
        rfl

theorem pause_follows (h : Follows config T runtime session) (hT : T ≤ t)
    (hprompt : runtime.Prompt (.request .pause, t)) :
    ∃ session', Follows config t (runtime.pausePerformance config t).1 session' ∧
      ∀ u, t ≤ u → config.settle session' u =
        config.settle (config.request (config.settle session t) .pause t) u := by
  unfold pausePerformance
  cases h with
  | clock shows idle =>
    rw [idle]
    exact ⟨_, onClock_follows .pause shows idle hT, fun _ _ => rfl⟩
  | @countIn elapsed startedAtMs shows running started duration pulses duration_pos pulses_pos
      inTime =>
    have hle := hprompt.request_le started
    rw [started]
    refine ⟨.clock (.paused elapsed), .clock ?_ rfl, fun u _ => ?_⟩
    · have hshows := clockSync_shows shows t
      rwa [max_eq_right hT] at hshows
    · by_cases hlt : t < startedAtMs + (config.resumeCountIn elapsed).1
      · rw [RuntimeConfig.settle_countIn_of_lt hlt]
        rfl
      · -- the clock has just been resumed
        have hend : startedAtMs + (config.resumeCountIn elapsed).1 = t :=
          le_antisymm (not_lt.mp hlt) (duration ▸ hle)
        have hnonneg : 0 ≤ elapsed := shows.elapsed_nonneg
        have helapsed : (Stopwatch.running (t - elapsed)).elapsed t = elapsed := by
          rw [Stopwatch.elapsed_running, sub_sub_cancel, max_eq_right hnonneg]
        have hnext : config.next (.running (t - elapsed)) .pause t = some (.paused elapsed) := by
          have hstate : config.stateAt (.running (t - elapsed)) t = .running := by
            show config.phase ((Stopwatch.running (t - elapsed)).elapsed t) = _
            rw [helapsed, running]
          show (if _ then some (Stopwatch.paused ((Stopwatch.running (t - elapsed)).elapsed t)) else _) = _
          rw [if_pos (.inr hstate), helapsed]
        rw [RuntimeConfig.settle_countIn_of_le hend.le, hend]
        show _ = config.settle (.clock ((config.next _ .pause t).getD _)) u
        rw [hnext]
        rfl

/-- A resume of a performance that was paused with some time elapsed. -/
theorem resumePerformance_fst
    (h : PerformanceClock.Shows config.toClockConfig T runtime.clock (.paused elapsed)) (ht : T ≤ t)
    (hrunning : config.phase elapsed = .running) :
    (runtime.resumePerformance config t).1 =
      if (config.resumeCountIn elapsed).1 ≤ 0 ∨ (config.resumeCountIn elapsed).2 ≤ 0 then
        ((runtime.clockSync config t).1.resumeClock config t).1
      else (runtime.clockSync config t).1.countingIn t (config.resumeCountIn elapsed) := by
  have hcountIn : config.countInForBeat (runtime.clockSync config t).2.musicalBeat =
      config.resumeCountIn elapsed := by
    rw [clockSync_snd h ht]
    rfl
  rw [resumePerformance_of_pausedFromRunning
    (h.pausedFromRunning_iff.mpr ⟨elapsed, rfl, hrunning⟩) hcountIn]
  split_ifs <;> rfl

/-- It begins with a count-in. -/
theorem resumePerformance_countIn
    (h : PerformanceClock.Shows config.toClockConfig T runtime.clock (.paused elapsed)) (ht : T ≤ t)
    (hrunning : config.phase elapsed = .running) (hduration : 0 < (config.resumeCountIn elapsed).1)
    (hpulses : 0 < (config.resumeCountIn elapsed).2) :
    Follows config t (runtime.resumePerformance config t).1 (.countIn elapsed t) := by
  have hpos : ¬((config.resumeCountIn elapsed).1 ≤ 0 ∨ (config.resumeCountIn elapsed).2 ≤ 0) := by
    rw [not_or, not_le, not_le]
    exact ⟨hduration, hpulses⟩
  rw [resumePerformance_fst h ht hrunning, if_neg hpos]
  have hshows := clockSync_shows h t
  rw [max_eq_right ht] at hshows
  exact .countIn hshows hrunning rfl rfl rfl hduration hpulses (le_add_of_nonneg_right hduration.le)

theorem resume_follows (h : Follows config T runtime session) (hT : T ≤ t)
    (hprompt : runtime.Prompt (.request .resume, t)) :
    ∃ session', Follows config t (runtime.resumePerformance config t).1 session' ∧
      ∀ u, t ≤ u → config.settle session' u =
        config.settle (config.request (config.settle session t) .resume t) u := by
  cases h with
  | @clock watch shows idle =>
    by_cases hpaused : ∃ e, watch = .paused e ∧ config.phase e = .running
    · obtain ⟨elapsed, rfl, hrunning⟩ := hpaused
      by_cases hpos : 0 < (config.resumeCountIn elapsed).1 ∧ 0 < (config.resumeCountIn elapsed).2
      · have hrequest : config.request (.clock (.paused elapsed)) .resume t = .countIn elapsed t :=
          if_pos ⟨hrunning, hpos⟩
        rw [RuntimeConfig.settle_clock, hrequest]
        exact ⟨_, resumePerformance_countIn shows hT hrunning hpos.1 hpos.2, fun _ _ => rfl⟩
      · have hrequest : config.request (.clock (.paused elapsed)) .resume t =
            .clock ((Stopwatch.paused elapsed).resume t) := if_neg fun h => hpos h.2
        have hnone : (config.resumeCountIn elapsed).1 ≤ 0 ∨ (config.resumeCountIn elapsed).2 ≤ 0 := by
          rwa [not_and_or, not_lt, not_lt] at hpos
        rw [RuntimeConfig.settle_clock, hrequest, resumePerformance_fst shows hT hrunning, if_pos hnone]
        have hshows := clockSync_shows shows t
        rw [max_eq_right hT] at hshows
        exact ⟨_, onClock_follows .resume hshows idle le_rfl, fun _ _ => rfl⟩
    · rw [resumePerformance_of_not (mt shows.pausedFromRunning_iff.mp hpaused)]
      refine ⟨_, onClock_follows .resume shows idle hT, fun u _ => ?_⟩
      cases watch with
      | unstarted => rfl
      | running origin =>
        have hnext : config.next (.running origin) .resume t = none := by
          apply if_neg
          rw [ClockConfig.stateAt_eq_paused]
          rintro ⟨e, he⟩
          cases he
        rw [hnext]
        rfl
      | paused elapsed =>
        have hrequest : config.request (.clock (.paused elapsed)) .resume t =
            .clock ((Stopwatch.paused elapsed).resume t) :=
          if_neg fun h => hpaused ⟨elapsed, rfl, h.1⟩
        rw [RuntimeConfig.settle_clock, RuntimeConfig.settle_clock, hrequest]
        rfl
  | @countIn elapsed startedAtMs shows running started duration pulses duration_pos pulses_pos
      inTime =>
    have hlt := hprompt.resume_lt started
    rw [duration] at hlt
    rw [RuntimeConfig.settle_countIn_of_lt hlt]
    exact ⟨_, resumePerformance_countIn shows hT running duration_pos pulses_pos, fun _ _ => rfl⟩

/-- A request is one of the session that has come to the time of the request. -/
theorem request_follows (h : Follows config T runtime session) (hT : T ≤ t) (r : SessionRequest)
    (hprompt : runtime.Prompt (.request r, t)) :
    ∃ session', Follows config t (runtime.step config (.request r, t)) session' ∧
      ∀ u, t ≤ u → config.settle session' u =
        config.settle (config.request (config.settle session t) r t) u := by
  cases r with
  | start => exact start_follows h hT hprompt
  | pause => exact pause_follows h hT hprompt
  | resume => exact resume_follows h hT hprompt

/-! ## Runs -/

/-- A run is what its requests make of it. -/
theorem run_follows (h : Follows config T runtime session)
    (hprompt : PromptRun config runtime calls) (hbetween : Between calls t)
    (hfirst : ∀ r ∈ requestsOf calls, T ≤ r.2) (hT : T ≤ t) :
    ∃ T' ≤ t, ∃ session', Follows config T' (runtime.run config calls) session' ∧
      ∀ u, t ≤ u → config.settle session' u =
        config.settle (config.afterRequests session (requestsOf calls)) u := by
  induction calls generalizing runtime session T with
  | nil => exact ⟨T, hT, session, h, fun _ _ => rfl⟩
  | cons call calls ih =>
    obtain ⟨call, now⟩ := call
    obtain ⟨hsorted, hlast⟩ := hbetween
    rw [List.pairwise_cons] at hsorted
    have hnow : now ≤ t := hlast _ List.mem_cons_self
    have hrest : Between calls t :=
      ⟨hsorted.2, fun call hcall => hlast call (List.mem_cons_of_mem _ hcall)⟩
    have hafter : ∀ r ∈ requestsOf calls, now ≤ r.2 := by
      intro r hr
      obtain ⟨⟨other, later⟩, hmem, hother⟩ := List.mem_filterMap.mp hr
      cases other with
      | poll p => cases hother
      | request r' =>
        cases hother
        exact hsorted.1 _ hmem (.inr rfl)
    cases call with
    | poll p =>
      obtain ⟨T₁, hT₁, session₁, hle, hfollows, hsettle⟩ := poll_follows h p hprompt.1
      have hmax : ∀ r ∈ requestsOf calls, max T now ≤ r.2 :=
        fun r hr => max_le (hfirst r hr) (hafter r hr)
      have hmaxt : max T now ≤ t := max_le hT hnow
      obtain ⟨T', hT', session', hfollows', hsettle'⟩ := ih hfollows hprompt.2 hrest
        (fun r hr => hT₁.trans (hmax r hr)) (hT₁.trans hmaxt)
      refine ⟨T', hT', session', hfollows', fun u hu => ?_⟩
      rw [hsettle' u hu]
      exact RuntimeConfig.settle_afterRequests hsettle hmax (hmaxt.trans hu)
    | request r =>
      have hTnow : T ≤ now := hfirst (r, now) List.mem_cons_self
      obtain ⟨session₁, hfollows, hsettle⟩ := request_follows h hTnow r hprompt.1
      obtain ⟨T', hT', session', hfollows', hsettle'⟩ := ih hfollows hprompt.2 hrest hafter hnow
      refine ⟨T', hT', session', hfollows', fun u hu => ?_⟩
      rw [hsettle' u hu]
      exact RuntimeConfig.settle_afterRequests hsettle hafter (hnow.trans hu)

/-- What a sync reports. -/
theorem performanceSync_snd (h : Follows config T runtime session) (hT : T ≤ t)
    (hprompt : runtime.Prompt (.poll .sync, t)) :
    (runtime.performanceSync config t).2 = .ok (config.syncAt (config.settle session t) t) := by
  cases h with
  | clock shows idle =>
    rw [performanceSync_idle idle, clockSync_snd shows hT]
    rfl
  | @countIn elapsed startedAtMs shows running started duration pulses duration_pos pulses_pos
      inTime =>
    unfold Prompt at hprompt
    rw [started] at hprompt
    have hle : t ≤ startedAtMs + runtime.resumeCountInDurationMs := hprompt.1 trivial
    by_cases hlt : t < startedAtMs + runtime.resumeCountInDurationMs
    · rw [performanceSync_of_lt started (duration ▸ duration_pos) hlt, clockSync_snd shows hT,
        RuntimeConfig.settle_countIn_of_lt (duration ▸ hlt)]
      have hstarted : (runtime.clockSync config t).1.resumeCountInStartedAtMs = some startedAtMs :=
        started
      have hduration : (runtime.clockSync config t).1.resumeCountInDurationMs =
          (config.resumeCountIn elapsed).1 := duration
      have hpulses : (runtime.clockSync config t).1.resumeCountInPulses =
          (config.resumeCountIn elapsed).2 := pulses
      unfold resumeCountInSync
      rw [hstarted, hduration, hpulses]
      dsimp only
      rw [if_neg (not_le.mpr duration_pos)]
      rfl
    · have hend : startedAtMs + runtime.resumeCountInDurationMs ≤ t := not_lt.mp hlt
      have heq := le_antisymm hle hend
      rw [duration] at heq
      rw [performanceSync_of_le started hend, RuntimeConfig.settle_countIn_of_le heq.ge, ← heq]
      have hpaused : PerformanceClock.Shows config.toClockConfig t
          (runtime.clockSync config t).1.clearResumeCountIn.clock (.paused elapsed) := by
        have hshows := clockSync_shows shows t
        rwa [max_eq_right hT] at hshows
      obtain ⟨resumed, hshows, hresume⟩ := PerformanceClock.resume_paused config.roundBeat hpaused
      show (Except.map config.toSync (PerformanceClock.resume _ _ _ t).2) = _
      rw [hresume]
      exact congrArg (Except.ok ∘ config.toSync) (PerformanceClock.snapshot_eq config.roundBeat hshows le_rfl)

theorem promptRun_append {more : List TimedSessionCall} :
    PromptRun config runtime (calls ++ more) ↔
      PromptRun config runtime calls ∧ PromptRun config (runtime.run config calls) more := by
  induction calls generalizing runtime with
  | nil =>
    show _ ↔ True ∧ _
    rw [true_and]
    rfl
  | cons call calls ih =>
    show _ ∧ PromptRun config _ (calls ++ more) ↔ (_ ∧ _) ∧ _
    rw [ih, and_assoc]
    rfl

/-- What a sync at the end of a run reports, by its requests. -/
theorem sync_after_run (inputSource : PracticeInputSource) (hbetween : Between calls t)
    (hprompt : PromptRun config (initial inputSource) (calls ++ [(.poll .sync, t)])) :
    (((initial inputSource).run config calls).performanceSync config t).2 =
      .ok (config.syncAt
        (config.settle (config.afterRequests (.clock .unstarted) (requestsOf calls)) t) t) := by
  let times := t :: (requestsOf calls).map Prod.snd
  let T := times.min (List.cons_ne_nil _ _)
  have hTt : T ≤ t := List.min_le_of_mem List.mem_cons_self
  have hfirst : ∀ r ∈ requestsOf calls, T ≤ r.2 := fun r hr =>
    List.min_le_of_mem (List.mem_cons_of_mem _ (List.mem_map_of_mem hr))
  obtain ⟨hcalls, hsync, -⟩ := promptRun_append.mp hprompt
  obtain ⟨T', hT', session, hfollows, hsettle⟩ :=
    run_follows (initial_follows config inputSource T) hcalls hbetween hfirst hTt
  rw [performanceSync_snd hfollows hT' hsync, hsettle t le_rfl]

/-- Two prompt runs with the same requests report the same at the end: which
other calls looked at the clock in between, and when, makes no difference. -/
theorem polling_independent (config : RuntimeConfig) (inputSource : PracticeInputSource)
    (one other : List TimedSessionCall) (t : ℚ) (hrequests : requestsOf one = requestsOf other)
    (hone : Between one t) (hother : Between other t)
    (hprompt : PromptRun config (initial inputSource) (one ++ [(.poll .sync, t)]))
    (hprompt' : PromptRun config (initial inputSource) (other ++ [(.poll .sync, t)])) :
    (((initial inputSource).run config one).performanceSync config t).2 =
      (((initial inputSource).run config other).performanceSync config t).2 := by
  rw [sync_after_run inputSource hone hprompt, sync_after_run inputSource hother hprompt', hrequests]

/-- Paused after a second, and resumed a second later with a count-in of two. -/
def pausedAndResumed : List TimedSessionCall :=
  [(.request .start, 0), (.request .pause, 1000), (.request .resume, 2000)]

theorem polling_independent_countIn :
    (((initial .midi).run steadyConfig
      (pausedAndResumed ++ [(.poll .sync, 3000), (.poll .midi, 4000)])).performanceSync steadyConfig
        4000).2 =
      (((initial .midi).run steadyConfig pausedAndResumed).performanceSync steadyConfig 4000).2 :=
  polling_independent steadyConfig .midi _ _ 4000 rfl (by decide) (by decide)
    (by decide +kernel) (by decide +kernel)

/-- A session that nobody looks at when its count-in ends is resumed later than
one that somebody looks at. -/
theorem polled_late :
    ¬∀ (config : RuntimeConfig) (inputSource : PracticeInputSource)
      (one other : List TimedSessionCall) (t : ℚ), requestsOf one = requestsOf other →
      Between one t → Between other t →
      ((((initial inputSource).run config one).performanceSync config t).2.map fun sync =>
          (sync.state, sync.performanceTimeMs)) =
        (((initial inputSource).run config other).performanceSync config t).2.map fun sync =>
          (sync.state, sync.performanceTimeMs) := by
  intro h
  have heq := h steadyConfig .midi (pausedAndResumed ++ [(.poll .sync, 4000)]) pausedAndResumed 5000
    rfl (by decide) (by decide)
  exact absurd (congrArg Except.toOption heq) (by decide +kernel)

end SessionRuntime

end NoteVerse.Practice

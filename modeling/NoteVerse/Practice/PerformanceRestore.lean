import NoteVerse.Practice.ClockRestore
import NoteVerse.Practice.PerformanceRuntime
import NoteVerse.Practice.StepRuns

/-!
# A performance that is saved and restored

What a runtime is that `snapshotSession` and the constructor make again of
another one (`Keeps`), for every runtime that calls and such restorations reach
(`Reached`).

The snapshot has the state as the last call left it. If the end of the scope has
passed since (`PastEnd`), then the session that `snapshot` would report as ended
is restored as one in a pause; it ends when it is resumed. The constructor takes
a count-in that the restoration refuses (`Accepted`).

* `construct_snapshot`: what the constructor makes of a snapshot;
* `Same.call`: both go on together, call by call.
-/

namespace NoteVerse.Practice

open Js Transition

/-! ## Times of another origin -/

section

variable (shift : ℚ)

def SessionTime.later (time : SessionTime) : SessionTime :=
  { time with ms := time.ms.map (· + shift) }

def PerformanceEvidence.later (evidence : PerformanceEvidence) : PerformanceEvidence :=
  { evidence with captureTime := evidence.captureTime.later shift }

def EvaluatedObservation.later (observation : EvaluatedObservation) : EvaluatedObservation :=
  { observation with captureTime := observation.captureTime.later shift }

def PerformanceCall.later : PerformanceCall × ℚ → PerformanceCall × ℚ
  | (.clock call, nowMs) => (.clock call, nowMs + shift)
  | (.observe evidence, nowMs) => (.observe (evidence.later shift), nowMs + shift)

def PerformanceAnswer.later : PerformanceAnswer → PerformanceAnswer
  | .clock snapshot => .clock (snapshot.later shift)
  | .observed observation => .observed (observation.later shift)

end

namespace PerformancePracticeRuntime

/-! ## What a runtime shows -/

/-- What a call gives: its answer, and the outcomes after it. -/
abbrev Told := Throws PerformanceAnswer × List PerformanceOutcome

def told (runtime : PerformancePracticeRuntime) (call : PerformanceCall × ℚ) :
    PerformancePracticeRuntime × Told :=
  ((runtime.call call).1, (runtime.call call).2, (runtime.call call).1.outcomes)

def Told.later (shift : ℚ) (told : Told) : Told := (told.1.map (·.later shift), told.2)

variable (runtime : PerformancePracticeRuntime)

/-- What `snapshot` says at a time. -/
def shows (nowMs : ℚ) : BrowserClockSnapshot :=
  (runtime.clock.snapshot runtime.config roundBeatJs nowMs).2

/-- Calls from a time on, of evidence that was captured after it. -/
structure From (t : ℚ) (calls : List (PerformanceCall × ℚ)) : Prop where
  sorted : calls.Pairwise (·.2 ≤ ·.2)
  le : ∀ call ∈ calls, t ≤ call.2
  captured : ∀ evidence nowMs, (.observe evidence, nowMs) ∈ calls →
    ∀ ms ∈ evidence.captureTime.ms, t < ms

/-- The restored runtime of a session that was active, resumed. -/
def goesOn (restored : PerformancePracticeRuntime) (was : ClockState) (nowMs : ℚ) :
    PerformancePracticeRuntime :=
  if was = .countIn ∨ was = .running then (restored.call (.clock .resume, nowMs)).1 else restored

/-- What a restored runtime keeps of a runtime that was in a state at a time. -/
structure Keeps (was : ClockState) (t : ℚ) (restored : PerformancePracticeRuntime) : Prop where
  state : ∀ nowMs, (restored.shows nowMs).state = if was = .ready ∨ was = .ended then was else .paused
  report : ∀ nowMs, restored.shows nowMs = { runtime.shows t with
    nowMs
    state := (restored.shows nowMs).state
    scopeCompleted := (restored.shows nowMs).scopeCompleted }
  observations : restored.observations = runtime.observations
  outcomes : restored.outcomes = runtime.outcomes
  continues : ∀ shift calls, From t calls →
    answers told (restored.goesOn was (t + shift)) (calls.map (PerformanceCall.later shift)) =
      (answers told runtime calls).map (Told.later shift)

/-- The options that restore a runtime from its snapshot at a time. -/
structure Restoring (t : ℚ) (options : PerformanceOptions) : Prop where
  snapshot : ∃ nowEpochMs, options.snapshot = some (runtime.snapshotSession t nowEpochMs)
  inputSource : ∀ source ∈ options.inputSource, source = runtime.inputSource
  scope : ∀ scope ∈ options.scope,
    scope = ⟨runtime.config.scope.startGroupId, runtime.config.scope.endGroupId⟩
  domain : options.domainId.getD runtime.localSessionId = runtime.domainId

/-- A restoration takes the version and the count-in. -/
structure Accepted : Prop where
  schemaVersion : runtime.version.schemaVersion = 1
  runtimeVersion : runtime.version.runtimeVersion = "local-practice-core-v1"
  countInMs : 0 ≤ runtime.config.countInMs
  countInBeats : 0 ≤ runtime.config.countInBeats
  countInPulses : 0 ≤ runtime.config.countInPulses

/-- The scope's end has passed, and no call has noticed it. -/
def PastEnd (t : ℚ) : Prop :=
  (runtime.clock.state = .countIn ∨ runtime.clock.state = .running) ∧
    runtime.config.phase (runtime.clock.activeElapsedAt t) = .ended

/-- The runtimes of an artifact, with the time of the last call. The session time
of a restored runtime has an origin of its own. -/
inductive Reached (artifact : PerformanceArtifact) : PerformancePracticeRuntime → ℚ → Prop
  | created {options : PerformanceOptions} {runtime : PerformancePracticeRuntime} (T : ℚ) :
      options.snapshot = none → construct artifact options = .ok runtime →
      Reached artifact runtime T
  | called {runtime : PerformancePracticeRuntime} {T : ℚ} (call : PerformanceCall × ℚ) :
      Reached artifact runtime T → T ≤ call.2 → Reached artifact (runtime.call call).1 call.2
  | restored {runtime restored : PerformancePracticeRuntime} {T t nowEpochMs : ℚ}
      {options : PerformanceOptions} (T' : ℚ) :
      Reached artifact runtime T → T ≤ t →
      options.snapshot = some (runtime.snapshotSession t nowEpochMs) →
      construct artifact options = .ok restored → Reached artifact restored T'

/-! ## The constructor -/

/-- A runtime's scope and events are those that its snapshots name. -/
structure Configured (artifact : PerformanceArtifact) (runtime : PerformancePracticeRuntime) :
    Prop where
  made : runtime.artifact = artifact
  assertOk : artifact.assertOk = .ok ()
  timeline : runtime.config.timeline = artifact.timeline
  scope : artifact.resolvePerformanceScope
    (some ⟨runtime.config.scope.startGroupId, runtime.config.scope.endGroupId⟩) =
      .ok runtime.config.scope
  events : artifact.expectedEvents runtime.config.scope = .ok runtime.events

theorem resolvePerformanceScope_self {artifact : PerformanceArtifact}
    {scope : Option PracticeScope} {resolved : ResolvedPerformanceScope}
    (h : artifact.resolvePerformanceScope scope = .ok resolved) :
    artifact.resolvePerformanceScope (some ⟨resolved.startGroupId, resolved.endGroupId⟩) =
      .ok resolved := by
  have hself : artifact.resolvePerformanceScope (some (scope.getD ⟨none, none⟩)) = .ok resolved := by
    cases scope <;> exact h
  unfold PerformanceArtifact.resolvePerformanceScope at h
  obtain ⟨practice, hpractice, h⟩ := bind_eq_ok.mp h
  obtain ⟨terminalBeat, -, h⟩ := bind_eq_ok.mp h
  obtain ⟨-, hstart, hend⟩ := StepPracticeRuntime.resolvePracticeScope_ok hpractice
  cases h
  have hscope : (⟨practice.startGroupId, practice.endGroupId⟩ : PracticeScope) =
      scope.getD ⟨none, none⟩ := by
    rw [hstart, hend]
  show artifact.resolvePerformanceScope (some ⟨practice.startGroupId, practice.endGroupId⟩) = _
  rw [hscope]
  exact hself

/-- What the constructor makes. -/
theorem construct_ok {artifact : PerformanceArtifact} {options : PerformanceOptions}
    {runtime : PerformancePracticeRuntime} (h : construct artifact options = .ok runtime) :
    Configured artifact runtime ∧
      (∀ snapshot ∈ options.snapshot,
        validatePerformanceSnapshot artifact snapshot options.inputSource options.scope = .ok ()) ∧
      runtime.clock = (options.snapshot.map fun snapshot =>
        restoredClock snapshot.performance).getD BrowserClock.initial := by
  unfold construct at h
  obtain ⟨_, hassert, h⟩ := bind_eq_ok.mp h
  obtain ⟨_, hvalid, h⟩ := bind_eq_ok.mp h
  dsimp only at h
  split at h
  · cases h
  obtain ⟨scope, hscope, h⟩ := bind_eq_ok.mp h
  obtain ⟨events, hevents, h⟩ := bind_eq_ok.mp h
  cases h
  refine ⟨⟨rfl, hassert, rfl, resolvePerformanceScope_self hscope, hevents⟩, ?_, ?_⟩
  · intro snapshot hsnapshot
    unfold validateRestored at hvalid
    rw [hsnapshot] at hvalid
    exact hvalid
  · show ((options.snapshot.map (·.performance)).map restoredClock).getD BrowserClock.initial = _
    rw [Option.map_map]
    rfl

variable {runtime} {artifact : PerformanceArtifact} {options : PerformanceOptions} {t T : ℚ}

/-- A snapshot is refused for its version or its count-in, and for nothing else. -/
theorem validate_iff {nowEpochMs : ℚ} (hmade : runtime.artifact = artifact)
    (hnonneg : 0 ≤ runtime.clock.activeElapsedAt t)
    (hsource : ∀ source ∈ options.inputSource, source = runtime.inputSource)
    (hscope : ∀ scope ∈ options.scope,
      scope = ⟨runtime.config.scope.startGroupId, runtime.config.scope.endGroupId⟩) :
    validatePerformanceSnapshot artifact (runtime.snapshotSession t nowEpochMs) options.inputSource
      options.scope = .ok () ↔ Accepted runtime := by
  have hno : ¬(runtime.artifact.scoreId ≠ artifact.scoreId ∨
      runtime.artifact.revisionId ≠ artifact.revisionId ∨
      runtime.artifact.artifactId ≠ artifact.artifactId) := by
    rw [hmade]
    simp
  have hsource' : ¬∃ source ∈ options.inputSource, runtime.inputSource ≠ source := by
    rintro ⟨source, hmem, hne⟩
    exact hne (hsource source hmem).symm
  have hscope' : ¬∃ expected ∈ options.scope, expected ≠
      ⟨runtime.config.scope.startGroupId, runtime.config.scope.endGroupId⟩ := by
    rintro ⟨scope, hmem, hne⟩
    exact hne (hscope scope hmem)
  unfold validatePerformanceSnapshot snapshotSession
  dsimp only
  rw [if_neg (by decide), if_neg hno]
  by_cases hversion : runtime.version.schemaVersion ≠ 1 ∨
      runtime.version.runtimeVersion ≠ "local-practice-core-v1"
  · rw [if_pos hversion]
    refine iff_of_false (by simp) fun h => ?_
    exact hversion.elim (· h.schemaVersion) (· h.runtimeVersion)
  rw [if_neg hversion, if_neg hsource', if_neg hscope', if_neg runtime.config.speed_pos.not_ge,
    if_neg hnonneg.not_gt]
  obtain ⟨hschema, hruntime⟩ := not_or.mp hversion
  by_cases hcountIn : runtime.config.countInMs < 0 ∨ runtime.config.countInBeats < 0 ∨
      runtime.config.countInPulses < 0
  · rw [if_pos hcountIn]
    refine iff_of_false (by simp) fun h => ?_
    exact hcountIn.elim h.countInMs.not_gt fun h' =>
      h'.elim h.countInBeats.not_gt h.countInPulses.not_gt
  · rw [if_neg hcountIn]
    simp only [not_or, not_lt] at hcountIn
    exact iff_of_true rfl ⟨not_not.mp hschema, not_not.mp hruntime, hcountIn.1, hcountIn.2.1,
      hcountIn.2.2⟩

variable (runtime) in
/-- What a runtime is restored as. -/
def restoredAs (options : PerformanceOptions) (t : ℚ) : PerformancePracticeRuntime :=
  { runtime with
    domainId := options.domainId.getD runtime.localSessionId
    version := options.version.getD defaultVersion
    clock := runtime.clock.standing t }

/-- The constructor makes of a snapshot the runtime that it was taken of, with a
clock that stands, unless it refuses it. -/
theorem construct_snapshot (h : Configured artifact runtime)
    (hnonneg : 0 ≤ runtime.clock.activeElapsedAt t) (hoptions : Restoring runtime t options)
    (haccepted : Accepted runtime) :
    construct artifact options = .ok (runtime.restoredAs options t) := by
  obtain ⟨nowEpochMs, hsnapshot⟩ := hoptions.snapshot
  have hvalid : validateRestored artifact options = .ok () := by
    unfold validateRestored
    rw [hsnapshot]
    exact (validate_iff h.made hnonneg hoptions.inputSource hoptions.scope).mpr haccepted
  unfold construct
  rw [h.assertOk, hvalid]
  cases options
  cases hsnapshot
  have hspeed : ¬runtime.config.speedRatio ≤ 0 := runtime.config.speed_pos.not_ge
  show (if hspeed : runtime.config.speedRatio ≤ 0 then _ else _) = _
  rw [dif_neg hspeed]
  show (artifact.resolvePerformanceScope (some ⟨runtime.config.scope.startGroupId,
    runtime.config.scope.endGroupId⟩) >>= _) = _
  rw [h.scope]
  show (artifact.expectedEvents runtime.config.scope >>= _) = _
  rw [h.events]
  have hconfig : { runtime.config with timeline := artifact.timeline } = runtime.config := by
    rw [← h.timeline]
  show Except.ok { runtime with
    artifact
    domainId := _
    version := _
    config := { runtime.config with timeline := artifact.timeline }
    clock := _ } = _
  rw [hconfig, ← h.made]
  rfl

/-! ## What every runtime is -/

/-- What a call leaves as it is. -/
theorem call_frame (runtime : PerformancePracticeRuntime) (call : PerformanceCall × ℚ) :
    (runtime.call call).1 = { runtime with
      clock := (runtime.call call).1.clock
      observations := (runtime.call call).1.observations
      outcomes := (runtime.call call).1.outcomes } := by
  obtain ⟨call, nowMs⟩ := call
  cases call with
  | clock call => rfl
  | observe evidence =>
    show (runtime.observeEvidence nowMs evidence).1 = { runtime with
      clock := (runtime.observeEvidence nowMs evidence).1.clock
      observations := (runtime.observeEvidence nowMs evidence).1.observations
      outcomes := (runtime.observeEvidence nowMs evidence).1.outcomes }
    unfold observeEvidence
    cases runtime.captureTimeMs evidence.captureTime <;> rfl

theorem observe_clock (runtime : PerformancePracticeRuntime) (evidence : PerformanceEvidence)
    (nowMs : ℚ) : (runtime.call (.observe evidence, nowMs)).1.clock = runtime.clock := by
  show (runtime.observeEvidence nowMs evidence).1.clock = _
  unfold observeEvidence
  cases runtime.captureTimeMs evidence.captureTime <;> rfl

theorem sound_call (h : BrowserClock.Sound runtime.config T runtime.clock)
    (call : PerformanceCall × ℚ) (hT : T ≤ call.2) :
    BrowserClock.Sound (runtime.call call).1.config call.2 (runtime.call call).1.clock := by
  rw [call_frame]
  obtain ⟨call, nowMs⟩ := call
  cases call with
  | clock call => exact h.call roundBeatJs hT call
  | observe evidence =>
    show BrowserClock.Sound runtime.config nowMs (runtime.call (.observe evidence, nowMs)).1.clock
    rw [observe_clock]
    exact h.mono hT

theorem Configured.call (h : Configured artifact runtime) (call : PerformanceCall × ℚ) :
    Configured artifact (runtime.call call).1 := by
  rw [call_frame]
  exact ⟨h.made, h.assertOk, h.timeline, h.scope, h.events⟩

/-- A runtime that is made of a snapshot of another one has its configuration. -/
theorem restored_config {restored : PerformancePracticeRuntime} {nowEpochMs : ℚ}
    (h : Configured artifact runtime)
    (hsnapshot : options.snapshot = some (runtime.snapshotSession t nowEpochMs))
    (hrestored : construct artifact options = .ok restored) : restored.config = runtime.config := by
  unfold construct at hrestored
  obtain ⟨_, -, hrestored⟩ := bind_eq_ok.mp hrestored
  obtain ⟨_, -, hrestored⟩ := bind_eq_ok.mp hrestored
  cases options
  cases hsnapshot
  dsimp only at hrestored
  split at hrestored
  · cases hrestored
  obtain ⟨scope, hscope, hrestored⟩ := bind_eq_ok.mp hrestored
  obtain ⟨events, -, hrestored⟩ := bind_eq_ok.mp hrestored
  cases hrestored
  cases Except.ok.inj (hscope.symm.trans h.scope)
  have hconfig : { runtime.config with timeline := artifact.timeline } = runtime.config := by
    rw [← h.timeline]
  exact hconfig

/-- What holds of every runtime that is reached. -/
theorem Reached.sound (h : Reached artifact runtime T) :
    Configured artifact runtime ∧ BrowserClock.Sound runtime.config T runtime.clock := by
  induction h with
  | created T hsnapshot hconstruct =>
    obtain ⟨hconfigured, -, hclock⟩ := construct_ok hconstruct
    rw [hsnapshot] at hclock
    refine ⟨hconfigured, ?_⟩
    rw [hclock]
    exact .ready
  | called call hreached hT ih => exact ⟨ih.1.call call, sound_call ih.2 call hT⟩
  | @restored runtime restored T t nowEpochMs options T' hreached hT hsnapshot hconstruct ih =>
    obtain ⟨hconfigured, -, hclock⟩ := construct_ok hconstruct
    rw [hsnapshot] at hclock
    refine ⟨hconfigured, ?_⟩
    rw [hclock, restored_config ih.1 hsnapshot hconstruct]
    exact (ih.2.mono hT).standing T'

/-! ## Two runtimes that go on together -/

/-- A runtime and one that was restored from it, after the last call at `i`. -/
structure Same (saved shift i : ℚ) (runtime restored : PerformancePracticeRuntime) : Prop where
  clocks : BrowserClock.Together runtime.config saved shift runtime.clock restored.clock
  sound : BrowserClock.Sound runtime.config i runtime.clock
  sound' : BrowserClock.Sound runtime.config (i + shift) restored.clock
  config : restored.config = runtime.config
  events : restored.events = runtime.events
  domain : restored.domainId = runtime.domainId
  observations : restored.observations.map (·.toPerformanceEvaluationObservation) =
    runtime.observations.map (·.toPerformanceEvaluationObservation)
  outcomes : restored.outcomes = runtime.outcomes

variable {restored : PerformancePracticeRuntime} {saved shift i nowMs : ℚ}

theorem Same.clock (h : Same saved shift i runtime restored) (hi : i ≤ nowMs)
    (hsaved : saved ≤ nowMs)
    (call : ClockCall) :
    Same saved shift nowMs (runtime.told (.clock call, nowMs)).1
        (restored.told (.clock call, nowMs + shift)).1 ∧
      (restored.told (.clock call, nowMs + shift)).2 =
        (runtime.told (.clock call, nowMs)).2.later shift := by
  obtain ⟨hclocks, hanswer⟩ := h.clocks.call roundBeatJs (h.sound.mono hi) hsaved call
  have hnext : (restored.clock.call restored.config roundBeatJs (nowMs + shift) call) =
      restored.clock.call runtime.config roundBeatJs (nowMs + shift) call := by
    rw [h.config]
  refine ⟨⟨?_, h.sound.call roundBeatJs hi call, ?_, h.config, h.events, h.domain, h.observations,
    h.outcomes⟩, ?_⟩
  · show BrowserClock.Together runtime.config saved shift _
      (restored.clock.call restored.config roundBeatJs (nowMs + shift) call).1
    rw [hnext]
    exact hclocks
  · show BrowserClock.Sound runtime.config (nowMs + shift)
      (restored.clock.call restored.config roundBeatJs (nowMs + shift) call).1
    rw [hnext]
    exact h.sound'.call roundBeatJs (add_le_add_left hi shift) call
  · show ((restored.clock.call restored.config roundBeatJs (nowMs + shift) call).2.map
      PerformanceAnswer.clock, restored.outcomes) =
        (((runtime.clock.call runtime.config roundBeatJs nowMs call).2.map
          PerformanceAnswer.clock).map (PerformanceAnswer.later shift), runtime.outcomes)
    rw [hnext, hanswer, h.outcomes]
    cases (runtime.clock.call runtime.config roundBeatJs nowMs call).2 <;> rfl

theorem Same.captureTimeMs (h : Same saved shift i runtime restored) (time : SessionTime) :
    restored.captureTimeMs (time.later shift) = (runtime.captureTimeMs time).map (· + shift) := by
  unfold PerformancePracticeRuntime.captureTimeMs SessionTime.later
  rw [h.domain]
  cases time.ms with
  | none => rfl
  | some ms =>
    show (if time.domainId ≠ runtime.domainId then _ else _) = Except.map _ (if _ then _ else _)
    by_cases hdomain : time.domainId ≠ runtime.domainId
    · rw [if_pos hdomain, if_pos hdomain]
      rfl
    · rw [if_neg hdomain, if_neg hdomain]
      rfl

theorem captureTimeMs_eq {time : SessionTime} {ms : ℚ} (h : runtime.captureTimeMs time = .ok ms) :
    time.ms = some ms := by
  unfold PerformancePracticeRuntime.captureTimeMs at h
  split at h
  · cases h
  · rename_i hms
    split_ifs at h
    cases h
    exact hms

theorem Same.observe (h : Same saved shift i runtime restored) (hi : i ≤ nowMs)
    (evidence : PerformanceEvidence) (hcaptured : ∀ ms ∈ evidence.captureTime.ms, saved < ms) :
    Same saved shift nowMs (runtime.told (.observe evidence, nowMs)).1
        (restored.told (.observe (evidence.later shift), nowMs + shift)).1 ∧
      (restored.told (.observe (evidence.later shift), nowMs + shift)).2 =
        (runtime.told (.observe evidence, nowMs)).2.later shift := by
  have htime := h.captureTimeMs evidence.captureTime
  unfold told
  show Same saved shift nowMs (runtime.observeEvidence nowMs evidence).1
      (restored.observeEvidence (nowMs + shift) (evidence.later shift)).1 ∧
    ((restored.observeEvidence (nowMs + shift) (evidence.later shift)).2.map .observed,
      (restored.observeEvidence (nowMs + shift) (evidence.later shift)).1.outcomes) =
    Told.later shift ((runtime.observeEvidence nowMs evidence).2.map .observed,
      (runtime.observeEvidence nowMs evidence).1.outcomes)
  unfold observeEvidence
  cases hms : runtime.captureTimeMs evidence.captureTime with
  | error error =>
    rw [hms] at htime
    rw [show restored.captureTimeMs (evidence.later shift).captureTime = .error error from htime]
    exact ⟨⟨h.clocks, h.sound.mono hi, h.sound'.mono (add_le_add_left hi shift), h.config, h.events,
      h.domain, h.observations, h.outcomes⟩, congrArg (Prod.mk _) h.outcomes⟩
  | ok ms =>
    rw [hms] at htime
    rw [show restored.captureTimeMs (evidence.later shift).captureTime = .ok (ms + shift) from htime]
    have hevaluated : restored.evaluated (nowMs + shift) (evidence.later shift) (ms + shift) =
        (runtime.evaluated nowMs evidence ms).later shift := by
      unfold evaluated
      rw [h.config, h.clocks.capture h.sound h.sound'
        (hcaptured ms (captureTimeMs_eq hms))]
      rfl
    have hobservations : (restored.observations ++ [(runtime.evaluated nowMs evidence ms).later
          shift]).map (·.toPerformanceEvaluationObservation) =
        (runtime.observations ++ [runtime.evaluated nowMs evidence ms]).map
          (·.toPerformanceEvaluationObservation) := by
      rw [List.map_append, List.map_append, h.observations]
      rfl
    have houtcomes : restored.evaluate (restored.observations ++
        [(runtime.evaluated nowMs evidence ms).later shift]) =
          runtime.evaluate (runtime.observations ++ [runtime.evaluated nowMs evidence ms]) := by
      unfold evaluate
      rw [h.events, hobservations]
    dsimp only
    rw [hevaluated]
    exact ⟨⟨h.clocks, h.sound.mono hi, h.sound'.mono (add_le_add_left hi shift), h.config, h.events,
      h.domain, hobservations, houtcomes⟩, congrArg (Prod.mk _) houtcomes⟩

/-- A call at the same time keeps two runtimes together, with the same answer. -/
theorem Same.call (h : Same saved shift i runtime restored) (call : PerformanceCall × ℚ)
    (hi : i ≤ call.2) (hsaved : saved ≤ call.2)
    (hcaptured : ∀ evidence nowMs, call = (.observe evidence, nowMs) →
      ∀ ms ∈ evidence.captureTime.ms, saved < ms) :
    Same saved shift call.2 (runtime.told call).1
        (restored.told (PerformanceCall.later shift call)).1 ∧
      (restored.told (PerformanceCall.later shift call)).2 = (runtime.told call).2.later shift := by
  obtain ⟨call, nowMs⟩ := call
  cases call with
  | clock call => exact h.clock hi hsaved call
  | observe evidence => exact h.observe hi evidence (hcaptured evidence nowMs rfl)

/-- Two runtimes give the same answers as long as they are called. -/
theorem Same.answers (h : Same saved shift i runtime restored)
    {calls : List (PerformanceCall × ℚ)} (hcalls : From saved calls)
    (hi : ∀ call ∈ calls, i ≤ call.2) :
    answers told restored (calls.map (PerformanceCall.later shift)) =
      (answers told runtime calls).map (Told.later shift) := by
  induction calls generalizing i runtime restored with
  | nil => rfl
  | cons call calls ih =>
    obtain ⟨hle, hsorted⟩ := List.pairwise_cons.mp hcalls.sorted
    obtain ⟨hnext, hanswer⟩ := h.call call (hi call List.mem_cons_self)
      (hcalls.le call List.mem_cons_self) fun evidence nowMs heq =>
        hcalls.captured evidence nowMs (heq ▸ List.mem_cons_self)
    have hrest : From saved calls := ⟨hsorted, fun call hcall =>
      hcalls.le call (List.mem_cons_of_mem _ hcall), fun evidence nowMs hcall =>
      hcalls.captured evidence nowMs (List.mem_cons_of_mem _ hcall)⟩
    show (restored.told (PerformanceCall.later shift call)).2 :: Transition.answers told _ _ = _
    rw [hanswer, ih hnext hrest hle]
    rfl

/-! ## What a restoration keeps -/

/-- A restored runtime is the same as the one that was saved, resumed if that ran. -/
theorem same_restored (h : BrowserClock.Sound runtime.config saved runtime.clock)
    (hoptions : Restoring runtime saved options) (shift : ℚ) :
    Same saved shift saved runtime
      ((runtime.restoredAs options saved).goesOn runtime.clock.state (saved + shift)) := by
  have hclocks := @BrowserClock.Sound.together _ _ _ shift roundBeatJs h
  have hsound := h.standing (saved + shift)
  unfold goesOn
  by_cases hactive : runtime.clock.state = .countIn ∨ runtime.clock.state = .running
  · rw [if_pos hactive] at hclocks ⊢
    exact ⟨hclocks, h, hsound.call roundBeatJs le_rfl .resume, rfl, rfl, hoptions.domain, rfl, rfl⟩
  · rw [if_neg hactive] at hclocks ⊢
    exact ⟨hclocks, h, hsound, rfl, rfl, hoptions.domain, rfl, rfl⟩

theorem standing_state (clock : BrowserClock) : (clock.standing saved).state =
    if clock.state = .ready ∨ clock.state = .ended then clock.state else .paused := rfl

theorem keeps_restored (h : BrowserClock.Sound runtime.config saved runtime.clock)
    (hoptions : Restoring runtime saved options) :
    Keeps runtime runtime.clock.state saved (runtime.restoredAs options saved) := by
  have hshows : ∀ nowMs, (runtime.restoredAs options saved).shows nowMs =
      BrowserClock.shown runtime.config roundBeatJs nowMs (runtime.clock.standing saved).state
        (runtime.clock.activeElapsedAt saved) := by
    intro nowMs
    show (BrowserClock.snapshot runtime.config roundBeatJs (runtime.clock.standing saved) nowMs).2 = _
    rw [BrowserClock.snapshot_eq, h.advance_standing]
  refine ⟨fun nowMs => ?_, fun nowMs => ?_, rfl, rfl, fun shift calls hcalls => ?_⟩
  · rw [hshows]
    rfl
  · rw [hshows]
    unfold shows
    rw [BrowserClock.snapshot_eq, h.advance_snd]
    rfl
  · exact (same_restored h hoptions shift).answers hcalls hcalls.le

/-- The law reads of the state only whether it is ready, ended or neither. -/
theorem Keeps.congr {was was' : ClockState} (h : Keeps runtime was saved restored)
    (hsame : was' = was ∨
      (was = .countIn ∨ was = .running) ∧ (was' = .countIn ∨ was' = .running)) :
    Keeps runtime was' saved restored := by
  rcases hsame with rfl | ⟨hwas, hwas'⟩
  · exact h
  have hnot : ¬(was = .ready ∨ was = .ended) := by
    rintro (rfl | rfl) <;> simp at hwas
  have hnot' : ¬(was' = .ready ∨ was' = .ended) := by
    rintro (rfl | rfl) <;> simp at hwas'
  refine ⟨fun nowMs => ?_, h.report, h.observations, h.outcomes, fun shift calls hcalls => ?_⟩
  · rw [h.state nowMs, if_neg hnot, if_neg hnot']
  · have hgoes := h.continues shift calls hcalls
    unfold goesOn at hgoes ⊢
    rw [if_pos hwas] at hgoes
    rwa [if_pos hwas']

/-- The state that a runtime shows is the one that it has, but at the end of the scope. -/
theorem shows_state (h : BrowserClock.Sound runtime.config T runtime.clock)
    (hend : ¬PastEnd runtime t) :
    (runtime.shows t).state = runtime.clock.state ∨
      (runtime.clock.state = .countIn ∨ runtime.clock.state = .running) ∧
        ((runtime.shows t).state = .countIn ∨ (runtime.shows t).state = .running) := by
  have hstate : (runtime.shows t).state = _ := h.advance_state (n := t)
  by_cases hactive : runtime.clock.state = .countIn ∨ runtime.clock.state = .running
  · rw [if_pos hactive] at hstate
    refine .inr ⟨hactive, ?_⟩
    rw [hstate]
    exact (ClockConfig.phase_active _).imp_right fun h =>
      h.resolve_right fun hended => hend ⟨hactive, hended⟩
  · rw [if_neg hactive] at hstate
    exact .inl hstate

/-- A session of which nobody noticed the end is restored in a pause. -/
theorem not_keeps_of_pastEnd (h : BrowserClock.Sound runtime.config saved runtime.clock)
    (hend : PastEnd runtime saved) :
    ¬Keeps runtime (runtime.shows saved).state saved (runtime.restoredAs options saved) := by
  intro hkeeps
  have hstate : (runtime.shows saved).state = _ := h.advance_state (n := saved)
  rw [if_pos hend.1, hend.2] at hstate
  have hrestored := hkeeps.state saved
  rw [hstate, if_pos (.inr rfl)] at hrestored
  have hshows : ((runtime.restoredAs options saved).shows saved).state =
      (BrowserClock.advanceState runtime.config (runtime.clock.standing saved) saved).1.state := rfl
  rw [hshows, h.advance_standing, standing_state] at hrestored
  rcases hend.1 with hactive | hactive <;> rw [hactive] at hrestored <;> simp at hrestored

theorem accepted_of_construct {restored : PerformancePracticeRuntime}
    (hmade : Configured artifact runtime) (hnonneg : 0 ≤ runtime.clock.activeElapsedAt t)
    (hoptions : Restoring runtime t options)
    (hconstruct : construct artifact options = .ok restored) :
    Accepted runtime := by
  obtain ⟨nowEpochMs, hsnapshot⟩ := hoptions.snapshot
  exact (validate_iff hmade.made hnonneg hoptions.inputSource hoptions.scope).mp
    ((construct_ok hconstruct).2.1 _ hsnapshot)

/-- A runtime is restored as it was, if that is asked of the state that it had,
exactly if the restoration takes its version and its count-in; and if it is asked
of the state that it would have shown, then exactly if, moreover, the scope's end
had not passed without a call. -/
theorem performance_restore {artifact : PerformanceArtifact} {runtime : PerformancePracticeRuntime}
    {options : PerformanceOptions} {T t : ℚ} (h : Reached artifact runtime T) (hT : T ≤ t)
    (hoptions : Restoring runtime t options) :
    ((∃ restored, construct artifact options = .ok restored ∧
        Keeps runtime runtime.clock.state t restored) ↔ Accepted runtime) ∧
    ((∃ restored, construct artifact options = .ok restored ∧
        Keeps runtime (runtime.shows t).state t restored) ↔
      Accepted runtime ∧ ¬PastEnd runtime t) := by
  obtain ⟨hconfigured, hsound⟩ := h.sound
  have hnow := hsound.mono hT
  have hmakes := construct_snapshot hconfigured (hnow.nonneg (n := t)) hoptions
  have haccepted : ∀ {restored}, construct artifact options = .ok restored → Accepted runtime :=
    accepted_of_construct hconfigured hnow.nonneg hoptions
  refine ⟨⟨fun ⟨_, hconstruct, _⟩ => haccepted hconstruct, fun h =>
    ⟨_, hmakes h, keeps_restored hnow hoptions⟩⟩, ⟨?_, fun ⟨h, hend⟩ =>
    ⟨_, hmakes h, (keeps_restored hnow hoptions).congr (shows_state hnow hend)⟩⟩⟩
  rintro ⟨restored, hconstruct, hkeeps⟩
  have h := haccepted hconstruct
  cases Except.ok.inj (hconstruct.symm.trans (hmakes h))
  exact ⟨h, fun hend => not_keeps_of_pastEnd hnow hend hkeeps⟩

/-- The score of one note, to be performed. -/
def performedNote : PerformanceArtifact where
  toPracticeScoreArtifact := StepRun.oneNote
  meterSegments := []
  tempoSegments := []
  evaluatedGroups := [⟨"group", [], ["note"], ["1"]⟩]

/-- Options with a count-in of some beats. -/
def countInOptions (countInBeats : ℚ) : PerformanceOptions where
  countInBeats := some countInBeats
  newSessionId := "session"
  nowEpochMs := 0

/-- The runtime of the score of one note, after a start at 0. -/
def startedNote (countInBeats : ℚ) : Option PerformancePracticeRuntime :=
  (construct performedNote (countInOptions countInBeats)).toOption.map
    fun runtime => (runtime.call (.clock .start, 0)).1

theorem reached_startedNote {countInBeats : ℚ} (h : startedNote countInBeats = some runtime) :
    Reached performedNote runtime 0 := by
  unfold startedNote at h
  cases hconstruct : construct performedNote (countInOptions countInBeats) with
  | error error =>
    rw [hconstruct] at h
    cases h
  | ok made =>
    rw [hconstruct] at h
    cases h
    exact .called (.clock .start, 0) (.created 0 rfl hconstruct) le_rfl

/-- The options that restore a runtime with what the defaults give. -/
def restoring (runtime : PerformancePracticeRuntime) (t : ℚ) : PerformanceOptions where
  domainId := some runtime.domainId
  snapshot := some (runtime.snapshotSession t 0)
  newSessionId := "other"
  nowEpochMs := 0

theorem restoring_restoring (runtime : PerformancePracticeRuntime) (t : ℚ) :
    Restoring runtime t (restoring runtime t) :=
  ⟨⟨0, rfl⟩, fun _ h => (nomatch h), fun _ h => (nomatch h), rfl⟩


theorem performance_restore_started : ∃ runtime, startedNote 0 = some runtime ∧
    ((∃ restored, construct performedNote (restoring runtime 200) = .ok restored ∧
        Keeps runtime runtime.clock.state 200 restored) ↔ Accepted runtime) ∧
    ((∃ restored, construct performedNote (restoring runtime 200) = .ok restored ∧
        Keeps runtime (runtime.shows 200).state 200 restored) ↔
      Accepted runtime ∧ ¬PastEnd runtime 200) := by
  have hstarted : (startedNote 0).isSome = true := by decide +kernel
  obtain ⟨runtime, hruntime⟩ := Option.isSome_iff_exists.mp hstarted
  exact ⟨runtime, hruntime, performance_restore (reached_startedNote hruntime) (by norm_num)
    (restoring_restoring runtime 200)⟩

/-- The note ends after 500 ms. A session that is saved at 600 ms, before any call has
noticed that, would show that it has ended and is restored in a pause; and a
session with a count-in of less than no beats is not restored at all. -/
theorem restored_past_end :
    (∃ runtime, startedNote 0 = some runtime ∧ Reached performedNote runtime 0 ∧
      (runtime.shows 600).state = .ended ∧
      ¬∃ restored, construct performedNote (restoring runtime 600) = .ok restored ∧
        Keeps runtime (runtime.shows 600).state 600 restored) ∧
    ∃ runtime, startedNote (-1) = some runtime ∧ Reached performedNote runtime 0 ∧
      construct performedNote (restoring runtime 200) =
        .error "Invalid performance snapshot count-in state." := by
  have hplain : ∃ runtime, startedNote 0 = some runtime ∧ (runtime.shows 600).state = .ended ∧
      ((construct performedNote (restoring runtime 600)).toOption.map
        fun restored => (restored.shows 600).state) = some .paused := by
    have h : (startedNote 0).any (fun runtime => (runtime.shows 600).state = .ended ∧
      ((construct performedNote (restoring runtime 600)).toOption.map
        fun restored => (restored.shows 600).state) = some .paused) = true := by decide +kernel
    obtain ⟨runtime, hruntime, h⟩ := (Option.any_eq_true _ _).mp h
    exact ⟨runtime, hruntime, of_decide_eq_true h⟩
  have hnegative : ∃ runtime, startedNote (-1) = some runtime ∧
      construct performedNote (restoring runtime 200) =
        .error "Invalid performance snapshot count-in state." := by
    have h : (startedNote (-1)).any (fun runtime =>
        construct performedNote (restoring runtime 200) =
          .error "Invalid performance snapshot count-in state.") = true := by decide +kernel
    obtain ⟨runtime, hruntime, h⟩ := (Option.any_eq_true _ _).mp h
    exact ⟨runtime, hruntime, of_decide_eq_true h⟩
  obtain ⟨runtime, hruntime, hended, hpaused⟩ := hplain
  obtain ⟨other, hother, hrefused⟩ := hnegative
  refine ⟨⟨runtime, hruntime, reached_startedNote hruntime, hended, ?_⟩,
    other, hother, reached_startedNote hother, hrefused⟩
  rintro ⟨restored, hconstruct, hkeeps⟩
  rw [hconstruct] at hpaused
  have hstate := hkeeps.state 600
  rw [hended, if_pos (.inr rfl)] at hstate
  rw [show (Except.ok restored).toOption = some restored from rfl, Option.map_some, hstate]
    at hpaused
  simp at hpaused

end PerformancePracticeRuntime

end NoteVerse.Practice

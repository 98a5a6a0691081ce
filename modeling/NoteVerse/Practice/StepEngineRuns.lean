import NoteVerse.Practice.StepEngine

/-!
# Runs of the microphone engine

Any calls, in any order, after `create`; the observations may be old ones, repeated
ones, or ones that nothing was heard for. `stepRun_ok` says what each call does, and
that no activation accepts two observations.
-/

namespace NoteVerse.Practice.ServerSteps

open ScoreTimeline

inductive StepCall
  | ingestAudio (chunk : Nat) (observeAudio : StepVerifierTarget → Option StepVerifierObservation)
  | ingestStepVerifierObservation (observation : StepVerifierObservation)
  | skipCurrentExpectedGroup
  | resetInputBuffer
  | finalizePendingPracticeAttempt
  | drainResolvedPracticeAttempts
  | drainObservations

namespace StepCall

/-- The engine after the call, the update, and the attempts that the call hands out. -/
def apply (uuid4 : Nat → String) (engine : StepPracticeEngine) : StepCall →
    Except EngineError
      (StepPracticeEngine × Option AlignmentUpdate × List ResolvedPracticeAttempt)
  | ingestAudio chunk observeAudio =>
    (engine.ingestAudio uuid4 chunk observeAudio).map fun done => (done.1, done.2, [])
  | ingestStepVerifierObservation observation =>
    (engine.ingestStepVerifierObservation uuid4 observation).map fun done => (done.1, done.2, [])
  | skipCurrentExpectedGroup =>
    (engine.skipCurrentExpectedGroup uuid4).map fun done => (done.1, done.2, [])
  | resetInputBuffer => .ok (engine.resetInputBuffer, none, [])
  | finalizePendingPracticeAttempt =>
    .ok (engine.finalizePendingPracticeAttempt.1, none, engine.finalizePendingPracticeAttempt.2)
  | drainResolvedPracticeAttempts => .ok (engine.drain.1, none, engine.drain.2)
  | drainObservations => .ok (engine.drainObservations.1, none, [])

/-- The observation that the call brings to the provider of the engine. -/
def observation (engine : StepPracticeEngine) : StepCall → Option StepVerifierObservation
  | ingestAudio chunk observeAudio =>
    if chunk = 0 ∨ engine.config.verificationProvider ≠ .server then none
    else engine.currentStepVerifierTarget.bind observeAudio
  | ingestStepVerifierObservation observation =>
    if engine.config.verificationProvider ≠ .browserLocal then none else some observation
  | _ => none

/-- The call brings an observation of the step and the activation that are current. -/
def Accepts (engine : StepPracticeEngine) (call : StepCall) : Prop :=
  ∃ observation ∈ call.observation engine, StepPracticeEngine.Current engine observation

/-- The call skips a group. -/
def Skips (engine : StepPracticeEngine) (call : StepCall) : Prop :=
  call = skipCurrentExpectedGroup ∧ engine.followPolicy.currentExpectedGroup ≠ none

end StepCall

/-- The update says that an observation was accepted. -/
def advances (update : Option AlignmentUpdate) : Bool :=
  update.any (·.decision.action = .advance)

theorem advances_iff {update : Option AlignmentUpdate} :
    advances update = true ↔ ∃ done ∈ update, done.decision.action = .advance := by
  unfold advances
  cases update
  · simp
  · simp

/-- An engine, the attempts that were drained from it, and the activations in which an
observation was accepted. -/
structure StepRun where
  engine : StepPracticeEngine
  recorded : List ResolvedPracticeAttempt
  accepted : List Nat

namespace StepRun

/-- All attempts that were recorded as resolved. -/
def attempts (run : StepRun) : List ResolvedPracticeAttempt :=
  run.recorded ++ run.engine.resolvedAttempts

def step (uuid4 : Nat → String) (run : StepRun) (call : StepCall) : StepRun :=
  match call.apply uuid4 run.engine with
  | .error _ => run
  | .ok (next, update, drained) =>
    { engine := next
      recorded := run.recorded ++ drained
      accepted := run.accepted ++
        if advances update = true then [run.engine.activationGeneration] else [] }

def after (uuid4 : Nat → String) (engine : StepPracticeEngine) (calls : List StepCall) : StepRun :=
  calls.foldl (step uuid4) ⟨engine, [], []⟩

end StepRun

namespace StepPracticeEngine

/-- What a call does, whose update is `update` and that hands out `drained`. -/
structure CallOk (engine : StepPracticeEngine) (call : StepCall) (next : StepPracticeEngine)
    (update : Option AlignmentUpdate) (drained : List ResolvedPracticeAttempt) : Prop where
  /-- An observation is accepted in its own step and activation only. -/
  accepts : advances update = true ↔ call.Accepts engine
  /-- An acceptance and a skip pass one group, record one attempt of it, and open an
  activation. -/
  passes : call.Accepts engine ∨ call.Skips engine →
    next.followPolicy = engine.followPolicy.advance ∧
      next.activationGeneration = engine.activationGeneration + 1 ∧
      update ≠ none ∧
      ∃ attempt, drained ++ next.resolvedAttempts = engine.resolvedAttempts ++ [attempt] ∧
        RecordedAt engine.followPolicy attempt
  /-- Nothing else does; a reset goes back to the start, in a new activation. -/
  keeps : ¬(call.Accepts engine ∨ call.Skips engine) →
    drained ++ next.resolvedAttempts = engine.resolvedAttempts ∧
      (call ≠ .resetInputBuffer → next.followPolicy = engine.followPolicy ∧
        next.activationGeneration = engine.activationGeneration) ∧
      (call = .resetInputBuffer → next.followPolicy = engine.followPolicy.reset ∧
        next.activationGeneration = engine.activationGeneration + 1)
  completed : ∀ done ∈ update, done.scopeCompleted = true ↔ next.followPolicy.Completed

variable {uuid4 : Nat → String} {engine next : StepPracticeEngine} {call : StepCall}

/-- A call that passes a group. -/
theorem callOk_of_passed (h : EngineOk next) {update : AlignmentUpdate}
    (hpassed : Passed uuid4 engine next update)
    (hpasses : call.Accepts engine ∨ call.Skips engine)
    (haccepts : update.decision.action = .advance ↔ call.Accepts engine) :
    CallOk engine call next (some update) [] := by
  obtain ⟨attempt, hattempt, hrecorded⟩ := hpassed.resolved
  refine ⟨?_, fun _ => ⟨hpassed.policy, hpassed.generation, Option.some_ne_none update, attempt,
    hattempt, hrecorded⟩, fun hnot => absurd hpasses hnot, fun done hdone => ?_⟩
  · show decide _ = true ↔ _
    rw [decide_eq_true_iff]
    exact haccepts
  · obtain rfl := Option.some.inj hdone
    rw [hpassed.completed, ← hpassed.policy, Option.isNone_iff_eq_none]
    exact h.policy.currentExpectedGroup_eq_none_iff

/-- A call that leaves the engine where it is and does not reset it. -/
theorem callOk_of_kept (h : EngineOk engine) {update : Option AlignmentUpdate}
    {drained : List ResolvedPracticeAttempt} (hpolicy : next.followPolicy = engine.followPolicy)
    (hgeneration : next.activationGeneration = engine.activationGeneration)
    (hresolved : drained ++ next.resolvedAttempts = engine.resolvedAttempts)
    (hcall : call ≠ .resetInputBuffer)
    (hnot : ¬(call.Accepts engine ∨ call.Skips engine))
    (hupdate : ∀ done ∈ update, done.decision.action ≠ .advance ∧ done.scopeCompleted = true ∧
      engine.followPolicy.currentExpectedGroup = none) :
    CallOk engine call next update drained := by
  refine ⟨?_, fun hp => absurd hp hnot, fun _ => ⟨hresolved, fun _ => ⟨hpolicy, hgeneration⟩,
    fun he => absurd he hcall⟩, fun done hdone => ?_⟩
  · refine ⟨fun hadvances => ?_, fun hc => absurd (.inl hc) hnot⟩
    obtain ⟨done, hdone, haction⟩ := advances_iff.mp hadvances
    exact absurd haction (hupdate done hdone).1
  · obtain ⟨-, hcompleted, hgroup⟩ := hupdate done hdone
    rw [hpolicy]
    exact ⟨fun _ => h.policy.currentExpectedGroup_eq_none_iff.mp hgroup, fun _ => hcompleted⟩

theorem completedUpdate_ok (hgroup : engine.followPolicy.currentExpectedGroup = none) :
    engine.completedUpdate.decision.action ≠ .advance ∧
      engine.completedUpdate.scopeCompleted = true := by
  refine ⟨?_, rfl⟩
  show engine.followPolicy.decideMatched.action ≠ .advance
  unfold WaitForNoteFollowPolicy.decideMatched
  rw [hgroup]
  decide

/-- What becomes of an observation that reaches the engine, in any call. -/
theorem observation_ok (h : EngineOk engine) {group : ScoreTimeline.ExpectedPracticeGroup}
    {step : ScoreTimeline.PracticeAttackStep}
    (hgroup : engine.followPolicy.currentExpectedGroup = some group)
    (hstep : engine.followPolicy.currentAttackStep = some step) (totalBytes : Nat)
    {observation : StepVerifierObservation} (hcall : call ≠ .resetInputBuffer)
    (hskip : call ≠ .skipCurrentExpectedGroup)
    (hobservation : call.observation engine = some observation) :
    ∃ next update, applyObservation uuid4 { engine with totalBytes } observation group step =
        .ok (next, update) ∧
      EngineOk next ∧ CallOk engine call next update [] := by
  have hreceived : EngineOk { engine with totalBytes } := ⟨h.policy, h.idle, h.numbered⟩
  have hiff : call.Accepts engine ↔ Current engine observation := by
    unfold StepCall.Accepts
    rw [hobservation]
    constructor
    · rintro ⟨other, hother, hcurrent⟩
      obtain rfl := Option.some.inj hother
      exact hcurrent
    · exact fun hcurrent => ⟨observation, rfl, hcurrent⟩
  obtain ⟨haccept, hrefuse⟩ := @apply_ok uuid4 _ _ hreceived hgroup _ hstep observation
  by_cases hcurrent : Current engine observation
  · obtain ⟨next, update, hok, hnext, hpassed, haction⟩ := haccept hcurrent
    have hnew : Passed uuid4 engine next update :=
      ⟨hpassed.policy, hpassed.generation, hpassed.resolved, hpassed.completed, hpassed.log⟩
    exact ⟨next, some update, hok, hnext, callOk_of_passed hnext hnew (.inl (hiff.mpr hcurrent))
      ⟨fun _ => hiff.mpr hcurrent, fun _ => haction⟩⟩
  · obtain ⟨next, hok, hnext, hkept⟩ := hrefuse hcurrent
    refine ⟨next, none, hok, hnext, callOk_of_kept h hkept.policy hkept.generation hkept.resolved
      hcall ?_ fun _ hdone => (nomatch hdone)⟩
    exact fun hp => hp.elim (fun ha => hcurrent (hiff.mp ha)) fun hs => hskip hs.1

theorem Current.target {observation : StepVerifierObservation}
    (h : Current engine observation) : engine.followPolicy.currentAttackStep ≠ none := by
  obtain ⟨step, hstep, -⟩ := h
  rw [hstep]
  exact Option.some_ne_none step

/-- A call that brings no observation and is not a skip passes nothing. -/
theorem passes_nothing (hobservation : call.observation engine = none)
    (hskip : call ≠ .skipCurrentExpectedGroup) :
    ¬(call.Accepts engine ∨ call.Skips engine) := by
  rintro (⟨observation, hmem, -⟩ | ⟨hcall, -⟩)
  · rw [hobservation] at hmem
    exact nomatch hmem
  · exact hskip hcall

/-- With the scope completed nothing is passed. -/
theorem passes_nothing_of_completed (hgroup : engine.followPolicy.currentExpectedGroup = none)
    (hstep : engine.followPolicy.currentAttackStep = none) :
    ¬(call.Accepts engine ∨ call.Skips engine) := by
  rintro (⟨observation, -, hcurrent⟩ | ⟨-, hsome⟩)
  · exact hcurrent.target hstep
  · exact hsome hgroup

theorem ingestAudio_ok (h : EngineOk engine) (chunk : Nat)
    (observeAudio : StepVerifierTarget → Option StepVerifierObservation) :
    ∃ next update, engine.ingestAudio uuid4 chunk observeAudio = .ok (next, update) ∧
      EngineOk next ∧ CallOk engine (.ingestAudio chunk observeAudio) next update [] := by
  have hreceived := h.receive chunk
  unfold ingestAudio
  by_cases hempty : chunk = 0
  · rw [if_pos hempty]
    refine ⟨engine, none, rfl, h, callOk_of_kept h rfl rfl rfl (by simp)
      (passes_nothing (if_pos (.inl hempty)) (by simp)) fun _ hdone => (nomatch hdone)⟩
  · rw [if_neg hempty]
    rcases h.policy.current_pair with ⟨hgroup, hstep⟩ | ⟨group, step, hgroup, hstep, -⟩
    · rw [hgroup]
      obtain ⟨haction, hcompleted⟩ := @completedUpdate_ok { engine with
        totalBytes := engine.totalBytes + chunk } hgroup
      refine ⟨_, _, rfl, hreceived, callOk_of_kept h rfl rfl rfl (by simp)
        (passes_nothing_of_completed hgroup hstep) fun done hdone => ?_⟩
      obtain rfl := Option.some.inj hdone
      exact ⟨haction, hcompleted, hgroup⟩
    · rw [hgroup, hstep]
      dsimp only
      by_cases hserver : engine.config.verificationProvider ≠ .server
      · rw [if_pos hserver]
        exact ⟨_, none, rfl, hreceived, callOk_of_kept h rfl rfl rfl (by simp)
          (passes_nothing (if_pos (.inr hserver)) (by simp)) fun _ hdone => (nomatch hdone)⟩
      · rw [if_neg hserver]
        have hobservation : (StepCall.ingestAudio chunk observeAudio).observation engine =
            observeAudio (stepVerifierTargetFromAttackStep step engine.activationGeneration) := by
          refine (if_neg (not_or.mpr ⟨hempty, hserver⟩)).trans ?_
          unfold currentStepVerifierTarget
          rw [hstep]
          rfl
        cases hheard : observeAudio
            (stepVerifierTargetFromAttackStep step engine.activationGeneration) with
        | none =>
          exact ⟨_, none, rfl, hreceived, callOk_of_kept h rfl rfl rfl (by simp)
            (passes_nothing (hobservation.trans hheard) (by simp)) fun _ hdone => (nomatch hdone)⟩
        | some observation =>
          exact observation_ok h hgroup hstep (engine.totalBytes + chunk) (by simp) (by simp)
            (hobservation.trans hheard)

theorem ingestObservation_ok (h : EngineOk engine) (observation : StepVerifierObservation) :
    ∃ next update, engine.ingestStepVerifierObservation uuid4 observation = .ok (next, update) ∧
      EngineOk next ∧
      CallOk engine (.ingestStepVerifierObservation observation) next update [] := by
  unfold ingestStepVerifierObservation
  by_cases hprovider : engine.config.verificationProvider ≠ .browserLocal
  · rw [if_pos hprovider]
    exact ⟨engine, none, rfl, h, callOk_of_kept h rfl rfl rfl (by simp)
      (passes_nothing (if_pos hprovider) (by simp)) fun _ hdone => (nomatch hdone)⟩
  · rw [if_neg hprovider]
    rcases h.policy.current_pair with ⟨hgroup, hstep⟩ | ⟨group, step, hgroup, hstep, -⟩
    · rw [hgroup]
      obtain ⟨haction, hcompleted⟩ := completedUpdate_ok hgroup
      refine ⟨engine, _, rfl, h, callOk_of_kept h rfl rfl rfl (by simp)
        (passes_nothing_of_completed hgroup hstep) fun done hdone => ?_⟩
      obtain rfl := Option.some.inj hdone
      exact ⟨haction, hcompleted, hgroup⟩
    · rw [hgroup, hstep]
      exact observation_ok h hgroup hstep engine.totalBytes (by simp) (by simp)
        (if_neg hprovider)

theorem skipCall_ok (h : EngineOk engine) :
    ∃ next update, engine.skipCurrentExpectedGroup uuid4 = .ok (next, update) ∧
      EngineOk next ∧ CallOk engine .skipCurrentExpectedGroup next update [] := by
  have haccepts : ¬StepCall.skipCurrentExpectedGroup.Accepts engine :=
    fun ⟨_, hmem, _⟩ => nomatch hmem
  rcases h.policy.current_pair with ⟨hgroup, hstep⟩ | ⟨group, step, hgroup, hstep, -⟩
  · obtain ⟨haction, hcompleted⟩ := completedUpdate_ok hgroup
    refine ⟨engine, _, skip_completed hgroup, h, callOk_of_kept h rfl rfl rfl (by simp)
      (passes_nothing_of_completed hgroup hstep) fun done hdone => ?_⟩
    obtain rfl := Option.some.inj hdone
    exact ⟨haction, hcompleted, hgroup⟩
  · obtain ⟨next, update, hok, hnext, hpassed, haction⟩ := @skip_ok uuid4 _ _ h hgroup
    have hskips : StepCall.skipCurrentExpectedGroup.Skips engine :=
      ⟨rfl, by rw [hgroup]; exact Option.some_ne_none group⟩
    refine ⟨next, _, hok, hnext, callOk_of_passed hnext hpassed (.inr hskips) ?_⟩
    rw [haction]
    exact ⟨fun he => (nomatch he), fun ha => absurd ha haccepts⟩

/-- Every call does what it should, and none raises. -/
theorem call_ok (h : EngineOk engine) (call : StepCall) :
    ∃ next update drained, call.apply uuid4 engine = .ok (next, update, drained) ∧
      EngineOk next ∧ CallOk engine call next update drained := by
  cases call with
  | ingestAudio chunk observeAudio =>
    obtain ⟨next, update, hok, hnext, hcall⟩ := @ingestAudio_ok uuid4 _ h chunk observeAudio
    refine ⟨next, update, [], ?_, hnext, hcall⟩
    show (engine.ingestAudio uuid4 chunk observeAudio).map _ = _
    rw [hok]
    rfl
  | ingestStepVerifierObservation observation =>
    obtain ⟨next, update, hok, hnext, hcall⟩ := @ingestObservation_ok uuid4 _ h observation
    refine ⟨next, update, [], ?_, hnext, hcall⟩
    show (engine.ingestStepVerifierObservation uuid4 observation).map _ = _
    rw [hok]
    rfl
  | skipCurrentExpectedGroup =>
    obtain ⟨next, update, hok, hnext, hcall⟩ := @skipCall_ok uuid4 _ h
    refine ⟨next, update, [], ?_, hnext, hcall⟩
    show (engine.skipCurrentExpectedGroup uuid4).map _ = _
    rw [hok]
    rfl
  | resetInputBuffer =>
    refine ⟨_, _, _, rfl, h.resetInputBuffer, ?_, fun hp => ?_, fun _ => ⟨rfl, ?_, ?_⟩,
      fun _ hdone => (nomatch hdone)⟩
    · exact ⟨fun ha => (nomatch ha), fun ⟨_, hmem, _⟩ => (nomatch hmem)⟩
    · exact absurd hp (passes_nothing rfl (by simp))
    · exact fun hne => absurd rfl hne
    · exact fun _ => ⟨rfl, rfl⟩
  | finalizePendingPracticeAttempt =>
    exact ⟨_, _, _, rfl, h.finalize, callOk_of_kept h rfl rfl (List.append_nil _) (by simp)
      (passes_nothing rfl (by simp)) fun _ hdone => (nomatch hdone)⟩
  | drainResolvedPracticeAttempts =>
    exact ⟨_, _, _, rfl, ⟨h.policy, h.idle, h.numbered⟩, callOk_of_kept h rfl rfl
      (List.append_nil _) (by simp) (passes_nothing rfl (by simp)) fun _ hdone => (nomatch hdone)⟩
  | drainObservations =>
    exact ⟨_, _, _, rfl, ⟨h.policy, h.idle, h.numbered⟩, callOk_of_kept h rfl rfl rfl (by simp)
      (passes_nothing rfl (by simp)) fun _ hdone => (nomatch hdone)⟩

end StepPracticeEngine

namespace StepRun

variable {uuid4 : Nat → String} {run : StepRun}

/-- What holds between the calls of a run. -/
structure RunOk (run : StepRun) : Prop where
  engine : run.engine.EngineOk
  once : run.accepted.Pairwise (· < ·)
  earlier : ∀ generation ∈ run.accepted, generation < run.engine.activationGeneration

theorem step_of_ok {call : StepCall} {next : StepPracticeEngine} {update : Option AlignmentUpdate}
    {drained : List ResolvedPracticeAttempt}
    (hok : call.apply uuid4 run.engine = .ok (next, update, drained)) :
    run.step uuid4 call = ⟨next, run.recorded ++ drained, run.accepted ++
      if advances update = true then [run.engine.activationGeneration] else []⟩ := by
  unfold step
  rw [hok]

/-- An acceptance belongs to the activation that it closes. -/
theorem RunOk.step (h : RunOk run) (call : StepCall) : RunOk (run.step uuid4 call) := by
  obtain ⟨next, update, drained, hok, hnext, hcall⟩ :=
    @StepPracticeEngine.call_ok uuid4 _ h.engine call
  have hle : run.engine.activationGeneration ≤ next.activationGeneration := by
    by_cases hpasses : call.Accepts run.engine ∨ call.Skips run.engine
    · obtain ⟨-, hgeneration, -⟩ := hcall.passes hpasses
      omega
    · obtain ⟨-, hother, hreset⟩ := hcall.keeps hpasses
      by_cases hcase : call = .resetInputBuffer
      · exact (hreset hcase).2 ▸ Nat.le_succ _
      · exact ((hother hcase).2).ge
  rw [step_of_ok hok]
  split_ifs with hadvances
  · obtain ⟨-, hgeneration, -⟩ := hcall.passes (.inl (hcall.accepts.mp hadvances))
    refine ⟨hnext, ?_, fun generation hmem => ?_⟩
    · rw [List.pairwise_append]
      refine ⟨h.once, List.pairwise_singleton _ _, fun generation hmem other hother => ?_⟩
      rw [List.mem_singleton.mp hother]
      exact h.earlier generation hmem
    · show generation < next.activationGeneration
      rcases List.mem_append.mp hmem with hmem | hmem
      · exact (h.earlier generation hmem).trans_le hle
      · rw [List.mem_singleton.mp hmem, hgeneration]
        omega
  · rw [List.append_nil]
    exact ⟨hnext, h.once, fun generation hmem => (h.earlier generation hmem).trans_le hle⟩

theorem runOk_after {engine : StepPracticeEngine} (h : engine.EngineOk) (calls : List StepCall) :
    RunOk (after uuid4 engine calls) := by
  have hinit : RunOk ⟨engine, [], []⟩ := ⟨h, .nil, fun _ hmem => absurd hmem List.not_mem_nil⟩
  unfold after
  generalize (⟨engine, [], []⟩ : StepRun) = run at hinit ⊢
  induction calls generalizing run with
  | nil => exact hinit
  | cons call calls ih => exact ih (run.step uuid4 call) (hinit.step call)

end StepRun

/-- In any run of a created engine no call raises, an observation is accepted for the
step and the activation that are current and once an activation at most, and the group
and the step that are expected have one index. -/
theorem stepRun_ok (sha1 : String → String) (uuid4 : Nat → String) (config : StepEngineConfig)
    (timeline : PracticeScoreTimeline) (startId endId : Option String)
    (engine : StepPracticeEngine)
    (hcreate : StepPracticeEngine.create sha1 config timeline startId endId = .ok engine)
    (calls : List StepCall) (call : StepCall) :
    let run := StepRun.after uuid4 engine calls
    let policy := run.engine.followPolicy
    run.accepted.Pairwise (· < ·) ∧
      (∀ generation ∈ run.accepted, generation < run.engine.activationGeneration) ∧
      ((policy.currentExpectedGroup = none ∧ policy.currentAttackStep = none) ∨
        ∃ group step, policy.currentExpectedGroup = some group ∧
          policy.currentAttackStep = some step ∧
          policy.expectedGroups[policy.currentIndex]? = some group ∧
          policy.attackSteps[policy.currentIndex]? = some step) ∧
      ∃ next update drained, call.apply uuid4 run.engine = .ok (next, update, drained) ∧
        run.step uuid4 call = ⟨next, run.recorded ++ drained, run.accepted ++
          if advances update = true then [run.engine.activationGeneration] else []⟩ ∧
        StepPracticeEngine.CallOk run.engine call next update drained := by
  obtain ⟨hok, -⟩ := @StepPracticeEngine.create_ok uuid4 _ _ _ _ _ _ hcreate
  have hrun := @StepRun.runOk_after uuid4 _ hok calls
  obtain ⟨next, update, drained, happly, -, hcall⟩ :=
    @StepPracticeEngine.call_ok uuid4 _ hrun.engine call
  exact ⟨hrun.once, hrun.earlier, hrun.engine.policy.current_pair, next, update, drained, happly,
    StepRun.step_of_ok happly, hcall⟩

/-- What a session configures that a browser verifies. -/
def browserStepConfig : StepEngineConfig where
  sampleRate := 16000
  channels := 1
  frameFormat := "pcm_s16le"
  progressionMode := "WAIT_FOR_NOTE"
  realtimeGuidance := "GUIDED"
  evaluationProfile := "LEARNING"
  inputSource := "MICROPHONE"
  verificationProvider := .browserLocal
  hasVerifier := false

theorem create_step_twoNotes : ∃ engine,
    StepPracticeEngine.create (fun _ => "0") browserStepConfig twoNotes none none = .ok engine := by
  obtain ⟨policy, hpolicy⟩ := create_twoNotes
  have haccepted : browserStepConfig.rejection = none := by decide
  unfold StepPracticeEngine.create
  rw [haccepted]
  dsimp only
  rw [if_neg (by decide), hpolicy]
  exact ⟨_, rfl⟩

theorem stepRun_ok_twoNotes : ∃ engine,
    StepPracticeEngine.create (fun _ => "0") browserStepConfig twoNotes none none = .ok engine ∧
      (StepRun.after toString engine [.skipCurrentExpectedGroup,
        .resetInputBuffer]).accepted.Pairwise (· < ·) := by
  obtain ⟨engine, hcreate⟩ := create_step_twoNotes
  exact ⟨engine, hcreate,
    (stepRun_ok _ toString _ _ _ _ _ hcreate _ .skipCurrentExpectedGroup).1⟩

end NoteVerse.Practice.ServerSteps

import NoteVerse.Practice.StepPolicy

/-!
# The microphone engine

`StepPracticeEngine` of `step_practice_engine.py`, until it is closed. What the
verifier hears in a chunk is a parameter of the call. The levels of the sound are
left out.

* `passGroup_ok`: what an observation that is accepted and a skip do;
* `apply_ok`: an observation of the step and the activation that are current is
  accepted, and no other.
-/

namespace NoteVerse.Practice.ServerSteps

open ScoreTimeline

structure StepVerifierTarget where
  stepId : String
  attackPitches : List String
  continuationPitches : List String
  activationGeneration : Nat
  deriving DecidableEq, Repr

/-- What the engine reads of an observation. -/
structure StepVerifierObservation where
  stepId : String
  observedAttackPitches : List String
  confidence : ℚ
  activationGeneration : Nat
  deriving DecidableEq, Repr

inductive VerificationProvider
  | server | browserLocal
  deriving DecidableEq, Repr

/-- `step_verifier_target_from_attack_step` -/
def stepVerifierTargetFromAttackStep (step : ScoreTimeline.PracticeAttackStep)
    (activationGeneration : Nat) :
    StepVerifierTarget where
  stepId := step.stepId
  attackPitches := step.attackTargets.map (·.pitch)
  continuationPitches := step.continuation.map (·.pitch)
  activationGeneration

structure StepEngineConfig where
  sampleRate : Int
  channels : Int
  frameFormat : String
  progressionMode : String
  realtimeGuidance : String
  evaluationProfile : String
  inputSource : String
  verificationProvider : VerificationProvider
  /-- Whether a verifier was given. -/
  hasVerifier : Bool
  deriving DecidableEq, Repr

/-- The first check of the configuration that fails. -/
def StepEngineConfig.rejection (config : StepEngineConfig) : Option String :=
  if config.inputSource ≠ "MICROPHONE" then
    some "STEP practice sessions currently require MICROPHONE input."
  else if config.channels ≠ 1 then some "STEP practice sessions require mono audio."
  else if config.frameFormat ≠ "pcm_s16le" then
    some "STEP practice sessions require pcm_s16le audio."
  else if config.progressionMode ≠ "WAIT_FOR_NOTE" then
    some "STEP practice sessions require WAIT_FOR_NOTE progression."
  else if config.realtimeGuidance ≠ "GUIDED" ∨ config.evaluationProfile ≠ "LEARNING" then
    some "STEP practice sessions require canonical learning config."
  else if config.verificationProvider = .server ∧ config.hasVerifier = false then
    some ("STEP microphone runtime requires a StepMicrophoneVerifier. " ++
      "Legacy acoustic fallback is disabled.")
  else if config.verificationProvider = .browserLocal ∧ config.hasVerifier = true then
    some "STEP microphone runtime must use exactly one acoustic verification provider."
  else none

structure StepPracticeEngine where
  config : StepEngineConfig
  scoreEndBeat : ℚ
  totalBytes : Nat
  followPolicy : WaitForNoteFollowPolicy
  attempts : PracticeAttemptLifecycle
  resolvedAttempts : List ResolvedPracticeAttempt
  lastObservation : Option StepVerifierObservation
  activationGeneration : Nat
  deriving DecidableEq, Repr

namespace StepPracticeEngine

/-- The engine of a timeline and a scope. -/
def create (sha1 : String → String) (config : StepEngineConfig)
    (scoreTimeline : PracticeScoreTimeline)
    (startExpectedGroupId endExpectedGroupId : Option String) :
    Except EngineError StepPracticeEngine :=
  match config.rejection with
  | some message => .error (.runtimeError message)
  | none =>
    if scoreTimeline.firstPlayableBeat = none then
      .error (.runtimeError "Practice score timeline contains no playable events.")
    else
      match WaitForNoteFollowPolicy.create sha1 scoreTimeline startExpectedGroupId
        endExpectedGroupId with
      | .error message => .error (.valueError message)
      | .ok followPolicy => .ok {
          config
          scoreEndBeat := scoreTimeline.endBeat
          totalBytes := 0
          followPolicy
          attempts := .initial
          resolvedAttempts := []
          lastObservation := none
          activationGeneration := 1 }

variable (uuid4 : Nat → String) (engine : StepPracticeEngine)

/-- `_timestamp_ms` -/
def timestampMs : Int :=
  ⌊((engine.totalBytes : ℚ) / (max (engine.config.channels * 2) 1 : Int) /
    (max engine.config.sampleRate 1 : Int)) * 1000⌋

/-- `_alignment_update` -/
def alignmentUpdate (beatPosition confidence : ℚ) (scopeCompleted : Bool)
    (decision : AlignmentDecision) : AlignmentUpdate where
  beatPosition := Rounding.round 3 beatPosition
  confidence := Rounding.round 3 confidence
  timestampMs := engine.timestampMs
  scopeCompleted
  validationConfidence := Rounding.round 3 confidence
  inputPolicyConfidence := Rounding.round 3 confidence
  decision

/-- `_completed_update` -/
def completedUpdate : AlignmentUpdate :=
  engine.alignmentUpdate engine.scoreEndBeat 1 true engine.followPolicy.decideMatched

/-- `_is_current_observation` -/
def isCurrentObservation (observation : StepVerifierObservation)
    (currentAttackStep : ScoreTimeline.PracticeAttackStep) : Bool :=
  observation.stepId = currentAttackStep.stepId &&
    observation.activationGeneration = engine.activationGeneration &&
    WaitForNoteFollowPolicy.sameSet observation.observedAttackPitches
      (currentAttackStep.attackTargets.map (·.pitch))

/-- What an observation that is accepted and a skip have in common: the attempt of
the group is begun and resolved, and a new activation opens. -/
def passGroup (group : ScoreTimeline.ExpectedPracticeGroup) (evaluation : PracticeEventEvaluation)
    (confidence : ℚ) (decided : Except EngineError (WaitForNoteFollowPolicy × AlignmentDecision)) :
    Except EngineError (StepPracticeEngine × Option AlignmentUpdate) := do
  let attempts :=
    (engine.attempts.begin uuid4 group.groupId engine.timestampMs).resolve engine.timestampMs
  let outcome := attempts.outcome evaluation
  let decided ← decided
  let passed := { engine with
    followPolicy := decided.1
    attempts
    activationGeneration := engine.activationGeneration + 1 }
  let decision := attachAttemptOutcome decided.2 outcome
  let update := passed.alignmentUpdate
    (decision.displayAnchor.elim group.onsetBeat PracticeDisplayAnchor.beat) confidence
    decided.1.currentExpectedGroup.isNone decision
  return ({ passed with
    resolvedAttempts := appendForExpectedGroup engine.resolvedAttempts outcome group update },
    some update)

/-- The evaluation of an observation that is accepted. -/
def acceptedEvaluation (observation : StepVerifierObservation)
    (group : ScoreTimeline.ExpectedPracticeGroup) :
    PracticeEventEvaluation :=
  ⟨group.groupId, .match, observation.observedAttackPitches, [], [], observation.confidence,
    "step-microphone-verifier-v1"⟩

/-- `_accepted_observation_update` -/
def acceptedObservationUpdate (observation : StepVerifierObservation)
    (group : ScoreTimeline.ExpectedPracticeGroup) :
    Except EngineError (StepPracticeEngine × Option AlignmentUpdate) :=
  engine.passGroup uuid4 group (acceptedEvaluation observation group) observation.confidence
    (engine.followPolicy.decideEvaluation (acceptedEvaluation observation group))

/-- What is done with an observation while a group and its step are expected. -/
def applyObservation (observation : StepVerifierObservation)
    (group : ScoreTimeline.ExpectedPracticeGroup)
    (step : ScoreTimeline.PracticeAttackStep) :
    Except EngineError (StepPracticeEngine × Option AlignmentUpdate) :=
  let heard := { engine with lastObservation := some observation }
  if heard.isCurrentObservation observation step = true then
    heard.acceptedObservationUpdate uuid4 observation group
  else .ok (heard, none)

/-- `ingest_audio` of a chunk of a length, in which `observeAudio` hears what it hears. -/
def ingestAudio (chunk : Nat) (observeAudio : StepVerifierTarget → Option StepVerifierObservation) :
    Except EngineError (StepPracticeEngine × Option AlignmentUpdate) :=
  if chunk = 0 then .ok (engine, none)
  else
    let received := { engine with totalBytes := engine.totalBytes + chunk }
    match engine.followPolicy.currentExpectedGroup, engine.followPolicy.currentAttackStep with
    | some group, some step =>
      if engine.config.verificationProvider ≠ .server then .ok (received, none)
      else
        match observeAudio (stepVerifierTargetFromAttackStep step engine.activationGeneration) with
        | none => .ok (received, none)
        | some observation => received.applyObservation uuid4 observation group step
    | _, _ => .ok (received, some received.completedUpdate)

/-- `ingest_step_verifier_observation` -/
def ingestStepVerifierObservation (observation : StepVerifierObservation) :
    Except EngineError (StepPracticeEngine × Option AlignmentUpdate) :=
  if engine.config.verificationProvider ≠ .browserLocal then .ok (engine, none)
  else
    match engine.followPolicy.currentExpectedGroup, engine.followPolicy.currentAttackStep with
    | some group, some step => engine.applyObservation uuid4 observation group step
    | _, _ => .ok (engine, some engine.completedUpdate)

/-- `reset_input_buffer` -/
def resetInputBuffer : StepPracticeEngine :=
  { engine with
    followPolicy := engine.followPolicy.reset
    attempts := engine.attempts.reset
    lastObservation := none
    activationGeneration := engine.activationGeneration + 1 }

/-- `_clear_verifier_session` -/
def clearVerifierSession : StepPracticeEngine :=
  { engine with lastObservation := none, attempts := engine.attempts.clearCurrent }

/-- `skip_current_expected_group` -/
def skipCurrentExpectedGroup :
    Except EngineError (StepPracticeEngine × Option AlignmentUpdate) :=
  match engine.followPolicy.currentExpectedGroup with
  | none => .ok (engine, some engine.completedUpdate)
  | some group =>
    engine.clearVerifierSession.passGroup uuid4 group (skipEvaluation group) 1
      engine.followPolicy.skipCurrentGroup

/-- `drain_resolved_practice_attempts` -/
def drain : StepPracticeEngine × List ResolvedPracticeAttempt :=
  ({ engine with resolvedAttempts := [] }, engine.resolvedAttempts)

/-- `drain_step_microphone_verifier_observations` -/
def drainObservations : StepPracticeEngine × List StepVerifierObservation :=
  ({ engine with lastObservation := none }, engine.lastObservation.toList)

/-- `current_step_verifier_target` -/
def currentStepVerifierTarget : Option StepVerifierTarget :=
  engine.followPolicy.currentAttackStep.map
    (stepVerifierTargetFromAttackStep · engine.activationGeneration)

/-- `finalize_pending_practice_attempt`; it does not use the reason. -/
def finalizePendingPracticeAttempt : StepPracticeEngine × List ResolvedPracticeAttempt :=
  { engine.clearVerifierSession with attempts := engine.attempts.clearCurrent }.drain

/-! ## What a call does -/

variable {uuid4 engine} {group : ScoreTimeline.ExpectedPracticeGroup}

/-- What holds between the calls: no attempt is open, and the number of the next one
says how many groups were passed. -/
structure EngineOk (engine : StepPracticeEngine) : Prop where
  policy : engine.followPolicy.Ok
  idle : engine.attempts.isPending = false
  numbered : engine.attempts.nextSequence + engine.followPolicy.startIndexValue =
    engine.followPolicy.currentIndex + 1

/-- The group is passed: one attempt of it is recorded, in a new activation. -/
structure Passed (uuid4 : Nat → String) (engine next : StepPracticeEngine)
    (update : AlignmentUpdate) : Prop where
  policy : next.followPolicy = engine.followPolicy.advance
  generation : next.activationGeneration = engine.activationGeneration + 1
  resolved : ∃ attempt, next.resolvedAttempts = engine.resolvedAttempts ++ [attempt] ∧
    RecordedAt engine.followPolicy attempt
  completed : update.scopeCompleted = engine.followPolicy.advance.currentExpectedGroup.isNone
  log : ∀ recorded, Log uuid4 engine.attempts (recorded ++ engine.resolvedAttempts) →
    Log uuid4 next.attempts (recorded ++ next.resolvedAttempts)

theorem begin_of_idle (h : engine.attempts.isPending = false) (expectedGroupId : String)
    (timestampMs : Int) :
    (engine.attempts.begin uuid4 expectedGroupId timestampMs).current =
        some ⟨uuid4 engine.attempts.drawn, engine.attempts.nextSequence, expectedGroupId,
          timestampMs, .pending, none⟩ ∧
      (engine.attempts.begin uuid4 expectedGroupId timestampMs).nextSequence =
        engine.attempts.nextSequence + 1 := by
  unfold PracticeAttemptLifecycle.begin
  rw [if_neg (by rw [h]; decide)]
  exact ⟨rfl, rfl⟩

theorem isPending_resolve (attempts : PracticeAttemptLifecycle) (timestampMs : Int) :
    (attempts.resolve timestampMs).isPending = false := by
  rw [Bool.eq_false_iff]
  intro hpending
  obtain ⟨snapshot, hcurrent, hstate⟩ := isPending_iff.mp hpending
  obtain ⟨before, -, rfl⟩ := Option.map_eq_some_iff.mp hcurrent
  unfold PracticeAttemptLifecycle.resolveSnapshot at hstate
  split_ifs at hstate with hresolved
  exact absurd (hresolved.symm.trans hstate) (by decide)

/-- Where a decision passes the group, the attempt of the group is recorded. -/
theorem passGroup_ok (h : EngineOk engine)
    (hgroup : engine.followPolicy.currentExpectedGroup = some group)
    (evaluation : PracticeEventEvaluation) (confidence : ℚ)
    {decided : Except EngineError (WaitForNoteFollowPolicy × AlignmentDecision)}
    {decision : AlignmentDecision}
    (hdecide : decided = .ok (engine.followPolicy.advance, decision)) :
    ∃ next update, engine.passGroup uuid4 group evaluation confidence decided =
        .ok (next, some update) ∧
      EngineOk next ∧ Passed uuid4 engine next update ∧
      update.decision.action = decision.action := by
  obtain ⟨hcurrent, hsequence⟩ :=
    begin_of_idle h.idle group.groupId engine.timestampMs
  have hpending : (engine.attempts.begin uuid4 group.groupId engine.timestampMs).isPending = true :=
    isPending_begin _ _
  have hopen : OpenAt engine.followPolicy
      (engine.attempts.begin uuid4 group.groupId engine.timestampMs) := by
    intro snapshot hs _
    rw [hcurrent] at hs
    obtain rfl := Option.some.inj hs
    exact ⟨group, hgroup, rfl⟩
  have haction : ∀ outcome, (attachAttemptOutcome decision outcome).action = decision.action := by
    intro outcome
    cases outcome
    · rfl
    · rfl
  unfold passGroup
  rw [hdecide, Python.ok_bind]
  refine ⟨_, _, rfl, ⟨?_, isPending_resolve _ _, ?_⟩, ⟨rfl, rfl, ?_, rfl, fun recorded hlog => ?_⟩,
    haction _⟩
  · exact h.policy.advance (by rw [hgroup]; exact Option.some_ne_none group)
  · have hnumbered := h.numbered
    show (engine.attempts.begin uuid4 group.groupId engine.timestampMs).nextSequence +
      engine.followPolicy.startIndexValue = engine.followPolicy.currentIndex + 1 + 1
    omega
  · obtain ⟨attempt, hattempt, hrecorded⟩ := recordedAt_of_resolve hpending hopen hgroup
      engine.timestampMs evaluation _
    exact ⟨attempt, congrArg (engine.resolvedAttempts ++ Option.toList ·) hattempt, hrecorded⟩
  · have hresolved := (hlog.begin group.groupId engine.timestampMs).resolve hpending
      engine.timestampMs evaluation group
    show Log _ _ (recorded ++ appendForExpectedGroup _ _ _ _)
    rw [append_appendForExpectedGroup]
    exact hresolved _

/-! ### Observations -/

theorem EngineOk.hear (h : EngineOk engine) (observation : StepVerifierObservation) :
    EngineOk { engine with lastObservation := some observation } :=
  ⟨h.policy, h.idle, h.numbered⟩

theorem EngineOk.receive (h : EngineOk engine) (chunk : Nat) :
    EngineOk { engine with totalBytes := engine.totalBytes + chunk } :=
  ⟨h.policy, h.idle, h.numbered⟩

/-- An observation of the step and the activation that are current is accepted. -/
theorem accepted_ok (h : EngineOk engine)
    (hgroup : engine.followPolicy.currentExpectedGroup = some group)
    (observation : StepVerifierObservation) :
    ∃ next update, engine.acceptedObservationUpdate uuid4 observation group =
        .ok (next, some update) ∧
      EngineOk next ∧ Passed uuid4 engine next update ∧ update.decision.action = .advance := by
  obtain ⟨decision, hdecide, haction, -⟩ := WaitForNoteFollowPolicy.decideEvaluation_ok hgroup
    (acceptedEvaluation observation group)
  have hmatch : (acceptedEvaluation observation group).result = .match := rfl
  rw [if_pos hmatch] at hdecide
  obtain ⟨next, update, hok, hnext, hpassed, hupdate⟩ :=
    passGroup_ok h hgroup (acceptedEvaluation observation group)
      observation.confidence hdecide
  exact ⟨next, update, hok, hnext, hpassed, hupdate.trans (haction.mpr hmatch)⟩

/-- The observation is one of the step and the activation that are current. -/
def Current (engine : StepPracticeEngine) (observation : StepVerifierObservation) : Prop :=
  ∃ step ∈ engine.followPolicy.currentAttackStep, observation.stepId = step.stepId ∧
    observation.activationGeneration = engine.activationGeneration ∧
    ∀ pitch, pitch ∈ observation.observedAttackPitches ↔ pitch ∈ step.attackTargets.map (·.pitch)

theorem isCurrentObservation_iff {step : ScoreTimeline.PracticeAttackStep}
    (hstep : engine.followPolicy.currentAttackStep = some step)
    (observation : StepVerifierObservation) :
    engine.isCurrentObservation observation step = true ↔ Current engine observation := by
  have hset : WaitForNoteFollowPolicy.sameSet observation.observedAttackPitches
      (step.attackTargets.map (·.pitch)) = true ↔
      ∀ pitch, pitch ∈ observation.observedAttackPitches ↔
        pitch ∈ step.attackTargets.map (·.pitch) := by
    unfold WaitForNoteFollowPolicy.sameSet
    simp only [Bool.and_eq_true, List.all_eq_true, List.contains_eq_mem, decide_eq_true_eq]
    exact ⟨fun hboth pitch => ⟨hboth.1 pitch, hboth.2 pitch⟩,
      fun hiff => ⟨fun pitch => (hiff pitch).mp, fun pitch => (hiff pitch).mpr⟩⟩
  unfold isCurrentObservation Current
  rw [hstep]
  simp only [Bool.and_eq_true, decide_eq_true_eq, hset, and_assoc]
  constructor
  · exact fun hcurrent => ⟨step, rfl, hcurrent⟩
  · rintro ⟨other, hother, hcurrent⟩
    obtain rfl := Option.some.inj hother
    exact hcurrent

/-- What a call leaves of the engine if it passes no group. -/
structure Kept (engine next : StepPracticeEngine) : Prop where
  policy : next.followPolicy = engine.followPolicy
  generation : next.activationGeneration = engine.activationGeneration
  resolved : next.resolvedAttempts = engine.resolvedAttempts
  attempts : next.attempts = engine.attempts

theorem apply_ok (h : EngineOk engine)
    (hgroup : engine.followPolicy.currentExpectedGroup = some group)
    {step : ScoreTimeline.PracticeAttackStep}
    (hstep : engine.followPolicy.currentAttackStep = some step)
    (observation : StepVerifierObservation) :
    (Current engine observation → ∃ next update,
        engine.applyObservation uuid4 observation group step = .ok (next, some update) ∧
        EngineOk next ∧ Passed uuid4 engine next update ∧ update.decision.action = .advance) ∧
      (¬Current engine observation → ∃ next,
        engine.applyObservation uuid4 observation group step = .ok (next, none) ∧
        EngineOk next ∧ Kept engine next) := by
  have hiff := @isCurrentObservation_iff { engine with lastObservation := some observation } _ hstep
    observation
  unfold applyObservation
  refine ⟨fun hcurrent => ?_, fun hcurrent => ?_⟩
  · obtain ⟨next, update, hok, hnext, hpassed, haction⟩ :=
      accepted_ok (h.hear observation) hgroup observation
    dsimp only
    rw [if_pos (hiff.mpr hcurrent)]
    exact ⟨next, update, hok, hnext, ⟨hpassed.policy, hpassed.generation, hpassed.resolved,
      hpassed.completed, hpassed.log⟩, haction⟩
  · dsimp only
    rw [if_neg fun htrue => hcurrent (hiff.mp htrue)]
    exact ⟨_, rfl, h.hear observation, rfl, rfl, rfl, rfl⟩

/-! ### Skips and resets -/

theorem EngineOk.clearVerifierSession (h : EngineOk engine) :
    EngineOk engine.clearVerifierSession :=
  ⟨h.policy, rfl, h.numbered⟩

theorem EngineOk.resetInputBuffer (h : EngineOk engine) : EngineOk engine.resetInputBuffer :=
  ⟨h.policy.reset, rfl, Nat.add_comm _ _⟩

theorem EngineOk.finalize (h : EngineOk engine) :
    EngineOk engine.finalizePendingPracticeAttempt.1 :=
  ⟨h.policy, rfl, h.numbered⟩

/-- A skip of a group passes it. -/
theorem skip_ok (h : EngineOk engine)
    (hgroup : engine.followPolicy.currentExpectedGroup = some group) :
    ∃ next update, engine.skipCurrentExpectedGroup uuid4 = .ok (next, some update) ∧
      EngineOk next ∧ Passed uuid4 engine next update ∧ update.decision.action = .skip := by
  obtain ⟨decision, hdecide, haction⟩ := WaitForNoteFollowPolicy.skipCurrentGroup_ok hgroup
  obtain ⟨next, update, hok, hnext, hpassed, hupdate⟩ :=
    passGroup_ok h.clearVerifierSession hgroup (skipEvaluation group) 1 hdecide
  refine ⟨next, update, ?_, hnext, ⟨hpassed.policy, hpassed.generation, hpassed.resolved,
    hpassed.completed, fun recorded hlog => hpassed.log recorded hlog.clearCurrent⟩,
    hupdate.trans haction⟩
  unfold skipCurrentExpectedGroup
  rw [hgroup]
  exact hok

theorem skip_completed (hgroup : engine.followPolicy.currentExpectedGroup = none) :
    engine.skipCurrentExpectedGroup uuid4 = .ok (engine, some engine.completedUpdate) := by
  unfold skipCurrentExpectedGroup
  rw [hgroup]

/-- A created engine stands at the start of its scope. -/
theorem create_ok {sha1 : String → String} {config : StepEngineConfig}
    {timeline : PracticeScoreTimeline} {startId endId : Option String}
    (h : create sha1 config timeline startId endId = .ok engine) :
    EngineOk engine ∧ Log uuid4 engine.attempts engine.resolvedAttempts ∧
      engine.resolvedAttempts = [] ∧
      engine.followPolicy.currentIndex = engine.followPolicy.startIndexValue := by
  unfold create at h
  split at h
  · exact nomatch h
  · split_ifs at h
    split at h
    · exact nomatch h
    · rename_i policy hpolicy
      obtain rfl := Except.ok.inj h
      obtain ⟨hok, hstart⟩ := WaitForNoteFollowPolicy.create_ok hpolicy
      refine ⟨⟨hok, rfl, ?_⟩, log_initial, rfl, hstart⟩
      show 1 + policy.startIndexValue = policy.currentIndex + 1
      omega

end StepPracticeEngine

end NoteVerse.Practice.ServerSteps

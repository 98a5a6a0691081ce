import NoteVerse.Lib.Session
import NoteVerse.Practice.Artifact

/-!
# The step runtime of the browser

`StepPracticeRuntime` of `local-core/step-runtime.ts`, with the times of
`timebase.ts` and the snapshots of `session.ts`. A number of milliseconds that
is not finite is `none`; a method that throws keeps what it had written.

Each method takes what the clocks read while it runs. What an observation or a
snapshot carries that no method reads is left out but for the attempts'.
-/

namespace NoteVerse.Practice

open Js

/-! ## Times -/

structure SessionTime where
  domainId : String
  ms : Option ℚ
  deriving DecidableEq, Repr

structure PracticeTimebase where
  domainId : String
  runtimeOriginMs : Option ℚ
  deriving DecidableEq, Repr

namespace PracticeTimebase

variable (timebase : PracticeTimebase)

def atSessionMs (ms : Option ℚ) : Throws SessionTime :=
  match ms with
  | none => .error "Session time values must be finite."
  | some ms => .ok ⟨timebase.domainId, some ms⟩

def runtimeToSessionTime (runtimeMs : Option ℚ) : Throws SessionTime :=
  timebase.atSessionMs (runtimeMs.bind fun runtimeMs => timebase.runtimeOriginMs.map (runtimeMs - ·))

/-- `attackOnsetTime` is in the domain of the boundary, both are finite, and it is after it. -/
def isAfter (attackOnsetTime boundary : SessionTime) : Bool :=
  match attackOnsetTime.ms, boundary.ms with
  | some onset, some boundaryMs => attackOnsetTime.domainId = boundary.domainId ∧ boundaryMs < onset
  | _, _ => false

end PracticeTimebase

/-! ## What a runtime is told, keeps and answers -/

inductive InputSource
  | microphone | midi
  deriving DecidableEq, Repr

structure StepVerifierTarget where
  stepId : String
  activationGeneration : Nat
  activationBoundary : SessionTime
  attackPitches : List String
  continuationPitches : List String
  deriving DecidableEq, Repr

structure StepVerifierObservation where
  stepId : String
  activationGeneration : Nat
  attackOnsetTime : SessionTime
  observedAttackPitches : List String
  confidence : ℚ
  deriving DecidableEq, Repr

inductive AttemptResult
  | «match» | skipped
  deriving DecidableEq, Repr

structure LocalPracticeAttempt where
  attemptId : String
  stepId : String
  result : AttemptResult
  observedAttackPitches : List String
  confidence : ℚ
  sessionTime : SessionTime
  deriving DecidableEq, Repr

inductive StepWaitReason
  | noObservation | scopeCompleted | staleStep | staleActivation | staleAttack
  | wrongOrPartialAttackSet
  deriving DecidableEq, Repr

inductive StepRuntimeDecision
  | wait (reason : StepWaitReason) (currentTarget : Option StepVerifierTarget)
  | «match» (advancedTo : Option StepVerifierTarget)
  | skip (advancedTo : Option StepVerifierTarget)
  deriving DecidableEq, Repr

structure RuntimeVersionIdentity where
  schemaVersion : Nat
  runtimeVersion : String
  deriving DecidableEq, Repr

def defaultVersion : RuntimeVersionIdentity := ⟨1, "local-practice-core-v1"⟩

inductive PracticeMode
  | stepByStep | continuousPlay
  deriving DecidableEq, Repr

inductive PracticeLifecycleState
  | created | active | paused | ended
  deriving DecidableEq, Repr

/-- The `step` part of a snapshot. -/
structure StepSnapshot where
  currentIndex : Nat
  activationGeneration : Nat
  completed : Bool
  attempts : List LocalPracticeAttempt
  deriving DecidableEq, Repr

structure LocalStepSessionSnapshot where
  localSessionId : String
  scoreId : String
  revisionId : String
  artifactId : String
  mode : PracticeMode
  inputSource : InputSource
  practiceScope : PracticeScope
  lifecycleState : PracticeLifecycleState
  version : RuntimeVersionIdentity
  createdAtMs : Option ℚ
  updatedAtMs : Option ℚ
  step : StepSnapshot
  deriving DecidableEq, Repr

structure StepPracticeRuntime where
  artifact : PracticeScoreArtifact
  localSessionId : String
  timebase : PracticeTimebase
  resolvedScope : ResolvedPracticeScope
  version : RuntimeVersionIdentity
  inputSource : InputSource
  createdAtMs : Option ℚ
  currentIndex : Nat
  activationGeneration : Nat
  activationBoundary : SessionTime
  attempts : List LocalPracticeAttempt
  completed : Bool
  deriving DecidableEq, Repr

/-- `StepPracticeRuntimeOptions` without the snapshot, and what the constructor reads. -/
structure StepRuntimeOptions where
  scope : Option PracticeScope
  inputSource : Option InputSource
  localSessionId : Option String
  timebase : Option PracticeTimebase
  version : Option RuntimeVersionIdentity
  /-- `createLocalSessionId()` -/
  newSessionId : String
  nowMs : Option ℚ
  nowEpochMs : Option ℚ
  deriving DecidableEq, Repr

/-! ## The constructor -/

/-- `validateStepSnapshot` -/
def validateStepSnapshot (artifact : PracticeScoreArtifact) (snapshot : LocalStepSessionSnapshot)
    (inputSource : Option InputSource) (scope : Option PracticeScope) : Throws Unit :=
  if snapshot.mode ≠ .stepByStep then
    .error "Cannot restore non-STEP snapshot into StepPracticeRuntime."
  else if snapshot.scoreId ≠ artifact.scoreId ∨ snapshot.revisionId ≠ artifact.revisionId ∨
      snapshot.artifactId ≠ artifact.artifactId then
    .error "Practice session snapshot does not belong to this score artifact."
  else if snapshot.version.schemaVersion ≠ 1 ∨
      snapshot.version.runtimeVersion ≠ "local-practice-core-v1" then
    .error "Unsupported local practice runtime snapshot version."
  else if ∃ source ∈ inputSource, snapshot.inputSource ≠ source then
    .error "Practice session snapshot input source mismatch."
  else if ∃ expected ∈ scope, expected ≠ snapshot.practiceScope then
    .error "Practice session snapshot scope mismatch."
  else if snapshot.step.currentIndex > artifact.practiceAttackSteps.length then
    .error "STEP snapshot current index is outside the artifact."
  else if snapshot.step.activationGeneration < 1 then
    .error "Invalid STEP snapshot activation generation."
  else .ok ()

namespace StepPracticeRuntime

/-- The constructor without a snapshot. -/
def create (artifact : PracticeScoreArtifact) (options : StepRuntimeOptions) :
    Throws StepPracticeRuntime := do
  artifact.assertOk
  let resolvedScope ← artifact.resolvePracticeScope (options.scope.getD ⟨none, none⟩)
  let localSessionId := options.localSessionId.getD options.newSessionId
  let timebase := options.timebase.getD ⟨localSessionId, some 0⟩
  let activationBoundary ← timebase.atSessionMs (some (-1))
  return {
    artifact, localSessionId, timebase, resolvedScope, activationBoundary
    version := options.version.getD defaultVersion
    inputSource := options.inputSource.getD .microphone
    createdAtMs := options.nowEpochMs
    currentIndex := resolvedScope.startIndex
    activationGeneration := 1
    attempts := []
    completed := false }

/-- The constructor with a snapshot. -/
def restore (artifact : PracticeScoreArtifact) (options : StepRuntimeOptions)
    (snapshot : LocalStepSessionSnapshot) : Throws StepPracticeRuntime := do
  artifact.assertOk
  validateStepSnapshot artifact snapshot options.inputSource options.scope
  let resolvedScope ← artifact.resolvePracticeScope snapshot.practiceScope
  let timebase := options.timebase.getD ⟨snapshot.localSessionId, some 0⟩
  let activationBoundary ← timebase.runtimeToSessionTime options.nowMs
  return {
    artifact, timebase, resolvedScope, activationBoundary
    localSessionId := snapshot.localSessionId
    version := options.version.getD defaultVersion
    inputSource := snapshot.inputSource
    createdAtMs := snapshot.createdAtMs
    currentIndex := snapshot.step.currentIndex
    activationGeneration := snapshot.step.activationGeneration + 1
    attempts := snapshot.step.attempts
    completed := snapshot.step.completed }

/-! ## The methods -/

variable (runtime : StepPracticeRuntime)

def currentStep : Option PracticeAttackStep :=
  if runtime.completed ∨ runtime.currentIndex > runtime.resolvedScope.endIndex then none
  else runtime.artifact.practiceAttackSteps[runtime.currentIndex]?

def currentTarget : Option StepVerifierTarget :=
  match runtime.currentStep with
  | none => none
  | some step =>
    if runtime.completed then none
    else some {
      stepId := step.stepId
      activationGeneration := runtime.activationGeneration
      activationBoundary := runtime.activationBoundary
      attackPitches := attackPitchesForStep step
      continuationPitches := continuationPitchesForStep step }

/-- `${this.localSessionId}:attempt:${n}` -/
def attemptId (localSessionId : String) (n : Nat) : String :=
  localSessionId ++ ":attempt:" ++ numberToString n

def recordAttempt (stepId : String) (result : AttemptResult) (observedAttackPitches : List String)
    (confidence : ℚ) (nowMs : Option ℚ) : Session StepPracticeRuntime String Unit := do
  let runtime ← Session.get
  let sessionTime ← Session.lift (runtime.timebase.runtimeToSessionTime nowMs)
  Session.modify fun runtime => { runtime with
    attempts := runtime.attempts ++ [{
      attemptId := attemptId runtime.localSessionId (runtime.attempts.length + 1)
      stepId, result, observedAttackPitches, confidence, sessionTime }] }

def advanceOne (nowMs : Option ℚ) : Session StepPracticeRuntime String Unit := do
  Session.modify fun runtime => { runtime with
    currentIndex := runtime.currentIndex + 1
    activationGeneration := runtime.activationGeneration + 1 }
  let runtime ← Session.get
  let activationBoundary ← Session.lift (runtime.timebase.runtimeToSessionTime nowMs)
  Session.modify fun runtime => { runtime with
    activationBoundary
    completed :=
      if runtime.currentIndex > runtime.resolvedScope.endIndex then true else runtime.completed }

/-- What the clock reads when an attempt is recorded, and when the next step is activated. -/
structure ClockReadings where
  recorded : Option ℚ
  activated : Option ℚ
  deriving DecidableEq, Repr

/-- Why an observation of the target is not accepted. -/
def waitReason (target : StepVerifierTarget) (observation : StepVerifierObservation) :
    Option StepWaitReason :=
  if observation.stepId ≠ target.stepId then some .staleStep
  else if observation.activationGeneration ≠ target.activationGeneration then some .staleActivation
  else if joinedSet observation.observedAttackPitches ≠ joinedSet target.attackPitches then
    some .wrongOrPartialAttackSet
  else if !PracticeTimebase.isAfter observation.attackOnsetTime target.activationBoundary then
    some .staleAttack
  else none

def observe (observation : Option StepVerifierObservation) (now : ClockReadings) :
    Session StepPracticeRuntime String StepRuntimeDecision := do
  let runtime ← Session.get
  match runtime.currentTarget, observation with
  | none, _ => return .wait .scopeCompleted none
  | some target, none => return .wait .noObservation (some target)
  | some target, some observation =>
    match waitReason target observation with
    | some reason => return .wait reason (some target)
    | none =>
      recordAttempt target.stepId .match observation.observedAttackPitches observation.confidence
        now.recorded
      advanceOne now.activated
      let runtime ← Session.get
      return .match runtime.currentTarget

def skip (now : ClockReadings) : Session StepPracticeRuntime String StepRuntimeDecision := do
  let runtime ← Session.get
  match runtime.currentTarget with
  | none => return .wait .scopeCompleted none
  | some target =>
    recordAttempt target.stepId .skipped [] 1 now.recorded
    advanceOne now.activated
    let runtime ← Session.get
    return .skip runtime.currentTarget

def reset (nowMs : Option ℚ) : Session StepPracticeRuntime String Unit := do
  Session.modify fun runtime => { runtime with
    currentIndex := runtime.resolvedScope.startIndex
    completed := false
    activationGeneration := runtime.activationGeneration + 1 }
  let runtime ← Session.get
  let activationBoundary ← Session.lift (runtime.timebase.runtimeToSessionTime nowMs)
  Session.modify fun runtime => { runtime with activationBoundary }

def snapshot (nowEpochMs : Option ℚ) : LocalStepSessionSnapshot where
  localSessionId := runtime.localSessionId
  scoreId := runtime.artifact.scoreId
  revisionId := runtime.artifact.revisionId
  artifactId := runtime.artifact.artifactId
  mode := .stepByStep
  inputSource := runtime.inputSource
  practiceScope := ⟨runtime.resolvedScope.startGroupId, runtime.resolvedScope.endGroupId⟩
  lifecycleState := if runtime.completed then .ended else .active
  version := runtime.version
  createdAtMs := runtime.createdAtMs
  updatedAtMs := nowEpochMs
  step := {
    currentIndex := runtime.currentIndex
    activationGeneration := runtime.activationGeneration
    completed := runtime.completed
    attempts := runtime.attempts }

end StepPracticeRuntime

end NoteVerse.Practice

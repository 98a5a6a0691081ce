import NoteVerse.Practice.BrowserEvaluator
import NoteVerse.Practice.CaptureTime
import NoteVerse.Practice.StepRuntime

/-!
# The performance runtime of the browser

`PerformancePracticeRuntime` of `local-core/performance-runtime.ts`: the
constructor, with the timeline and the scope that it makes of an artifact, the
calls, and the snapshot of a session, from which the constructor makes a runtime
again. Its clock is in `BrowserClock`, its evaluator in `BrowserEvaluator`.

A time is what the session's clock reads in a call. The order of the groups in
`evaluatedGroups` is that of `expectedPracticeGroups`: they are the same groups,
with what only the evaluator reads.
-/

namespace NoteVerse.Practice

open Js

/-! ## The artifact -/

structure MeterSegment where
  startBeat : ℚ
  numerator : ℚ
  denominator : ℚ
  measureDurationBeats : ℚ
  countInPulses : ℚ
  deriving DecidableEq, Repr

structure TempoSegment where
  startBeat : ℚ
  bpm : ℚ
  deriving DecidableEq, Repr

/-- A `PracticeScoreArtifact` with the parts that a performance reads. -/
structure PerformanceArtifact extends PracticeScoreArtifact where
  meterSegments : List MeterSegment
  tempoSegments : List TempoSegment
  evaluatedGroups : List EvaluatedGroup
  deriving DecidableEq, Repr

def defaultMeter : MeterSegment := ⟨0, 4, 4, 4, 4⟩

/-- The loop of `meterAt`. -/
def activeMeter (beat : ℚ) (active : MeterSegment) : List MeterSegment → MeterSegment
  | [] => active
  | segment :: segments =>
    if segment.startBeat > beat then active else activeMeter beat segment segments

namespace PerformanceArtifact

variable (artifact : PerformanceArtifact)

def meterAt (beat : ℚ) : MeterSegment :=
  let segments :=
    if artifact.meterSegments.length > 0 then artifact.meterSegments else [defaultMeter]
  activeMeter beat (segments.head?.getD defaultMeter) segments

/-- A tempo whose beat is rounded. -/
structure NormalizedTempo where
  startBeat : ℚ
  bpm : ℚ
  bpm_pos : 0 < bpm

/-- The tempos of `buildTimelineSegments`, one a beat. -/
def normalizedTempos : List NormalizedTempo :=
  let byBeat : JsMap ℚ NormalizedTempo := artifact.tempoSegments.foldl (fun byBeat segment =>
    if h : segment.startBeat ≥ 0 ∧ segment.bpm > 0 then
      byBeat.set (roundBeatJs segment.startBeat) ⟨roundBeatJs segment.startBeat, segment.bpm, h.2⟩
    else byBeat) JsMap.empty
  let byBeat := if byBeat.has 0 then byBeat else byBeat.set 0 ⟨0, 120, defaultBpm_pos⟩
  byBeat.values.insertionSort fun a b => a.startBeat ≤ b.startBeat

/-- The `flatMap` of `buildTimelineSegments`. -/
def timelineSegments (endBeat currentTimeMs : ℚ) : List NormalizedTempo → List TimelineSegment
  | [] => []
  | tempo :: tempos =>
    let nextStart := (tempos.head?.map (·.startBeat)).getD endBeat
    let startBeat := min (max tempo.startBeat 0) endBeat
    let stop := min (max nextStart startBeat) endBeat
    if stop ≤ startBeat then timelineSegments endBeat currentTimeMs tempos
    else
      ⟨startBeat, stop, currentTimeMs, tempo.bpm, tempo.bpm_pos⟩ ::
        timelineSegments endBeat (currentTimeMs + beatsToMs (stop - startBeat) tempo.bpm) tempos

/-- `new PerformanceTimeline(artifact)` -/
def timeline : PerformanceTimeline where
  endBeat := artifact.scoreEndBeat
  segments :=
    if artifact.scoreEndBeat ≤ 0 then []
    else timelineSegments artifact.scoreEndBeat 0 artifact.normalizedTempos

/-- `timeline.beatToTimeMs(beat)` -/
def beatToTimeMs (beat : ℚ) : ℚ :=
  let bounded := min (max beat 0) artifact.timeline.endBeat
  match artifact.timeline.segmentForBeat bounded with
  | none => 0
  | some segment => segment.startTimeMs + beatsToMs (bounded - segment.startBeat) segment.bpm

/-- The `terminalBeat` of `resolvePerformanceScope`. -/
def performanceTerminalBeat (scope : Option PracticeScope) (resolved : ResolvedPracticeScope) :
    Throws ℚ :=
  match scope.bind (·.endGroupId) with
  | none => .ok resolved.terminalBeat
  | some endGroupId =>
    if endGroupId = "" then .ok resolved.terminalBeat else artifact.entryGroupEndBeat endGroupId

def resolvePerformanceScope (scope : Option PracticeScope) : Throws ResolvedPerformanceScope := do
  let resolved ← artifact.resolvePracticeScope (scope.getD ⟨none, none⟩)
  let terminalBeat ← artifact.performanceTerminalBeat scope resolved
  return {
    startBeat := resolved.startBeat
    terminalBeat
    nominalStartTimeMs := artifact.beatToTimeMs resolved.startBeat
    nominalEndTimeMs := artifact.beatToTimeMs terminalBeat
    startGroupId := resolved.startGroupId
    endGroupId := resolved.endGroupId }

/-- The `expectedEvents` of the evaluator. -/
def expectedEvents (scope : ResolvedPerformanceScope) : Throws (List ExpectedPerformanceEvent) := do
  let resolved ← artifact.resolvePracticeScope ⟨scope.startGroupId, scope.endGroupId⟩
  let groups := artifact.expectedPracticeGroups.zip artifact.evaluatedGroups
  return ((groups.take (resolved.endIndex + 1)).drop resolved.startIndex).map
    fun (group, evaluated) =>
      ⟨evaluated, artifact.beatToTimeMs group.onsetBeat - artifact.beatToTimeMs resolved.startBeat⟩

end PerformanceArtifact

/-! ## Sessions -/

structure PerformanceEvidence where
  captureTime : SessionTime
  pitches : List String
  confidence : ℚ
  source : EvidenceSource
  inferenceCompletedAtMs : Option ℚ
  deriving DecidableEq, Repr

/-- A `PerformanceEvaluationObservation` with what the evaluator does not read. -/
structure EvaluatedObservation extends PerformanceEvaluationObservation where
  captureTime : SessionTime
  inferenceCompletedAtMs : Option ℚ
  musicalBeat : ℚ
  deriving DecidableEq, Repr

abbrev PerformanceOutcome := PerformanceExpectedEventOutcome EvidenceSource

/-- The `performance` part of a snapshot. -/
structure PerformancePart where
  state : ClockState
  stateBeforePause : ClockState
  speedRatio : ℚ
  scopeStartBeat : ℚ
  scopeTerminalBeat : ℚ
  activeElapsedMs : ℚ
  countInMs : ℚ
  countInBeats : ℚ
  countInPulses : ℚ
  observations : List EvaluatedObservation
  outcomes : List PerformanceOutcome
  deriving DecidableEq, Repr

structure LocalPerformanceSessionSnapshot where
  localSessionId : String
  scoreId : String
  revisionId : String
  artifactId : String
  mode : PracticeMode
  inputSource : InputSource
  practiceScope : PracticeScope
  lifecycleState : PracticeLifecycleState
  version : RuntimeVersionIdentity
  createdAtMs : ℚ
  updatedAtMs : ℚ
  performance : PerformancePart
  deriving DecidableEq, Repr

structure PerformancePracticeRuntime where
  artifact : PerformanceArtifact
  localSessionId : String
  /-- The domain of its timebase. -/
  domainId : String
  version : RuntimeVersionIdentity
  inputSource : InputSource
  config : BrowserConfig
  events : List ExpectedPerformanceEvent
  createdAtMs : ℚ
  clock : BrowserClock
  observations : List EvaluatedObservation
  outcomes : List PerformanceOutcome
  deriving DecidableEq

/-- The options beside the artifact, and what the constructor reads. -/
structure PerformanceOptions where
  scope : Option PracticeScope := none
  inputSource : Option InputSource := none
  speedRatio : Option ℚ := none
  countInBeats : Option ℚ := none
  localSessionId : Option String := none
  domainId : Option String := none
  version : Option RuntimeVersionIdentity := none
  snapshot : Option LocalPerformanceSessionSnapshot := none
  /-- `createLocalSessionId()` -/
  newSessionId : String
  nowEpochMs : ℚ
  deriving DecidableEq, Repr

def validatePerformanceSnapshot (artifact : PerformanceArtifact)
    (snapshot : LocalPerformanceSessionSnapshot) (inputSource : Option InputSource)
    (scope : Option PracticeScope) : Throws Unit :=
  if snapshot.mode ≠ .continuousPlay then
    .error "Cannot restore non-performance snapshot into PerformancePracticeRuntime."
  else if snapshot.scoreId ≠ artifact.scoreId ∨ snapshot.revisionId ≠ artifact.revisionId ∨
      snapshot.artifactId ≠ artifact.artifactId then
    .error "Practice session snapshot does not belong to this score artifact."
  else if snapshot.version.schemaVersion ≠ 1 ∨
      snapshot.version.runtimeVersion ≠ "local-practice-core-v1" then
    .error "Unsupported local practice runtime snapshot version."
  else if ∃ source ∈ inputSource, snapshot.inputSource ≠ source then
    .error "Practice session snapshot input source mismatch."
  else if ∃ expected ∈ scope, expected ≠ snapshot.practiceScope then
    .error "Practice session snapshot scope mismatch."
  else if snapshot.performance.speedRatio ≤ 0 then
    .error "Invalid performance snapshot speed ratio."
  else if snapshot.performance.activeElapsedMs < 0 then
    .error "Invalid performance snapshot active elapsed time."
  else if snapshot.performance.countInMs < 0 ∨ snapshot.performance.countInBeats < 0 ∨
      snapshot.performance.countInPulses < 0 then
    .error "Invalid performance snapshot count-in state."
  else .ok ()

namespace PerformancePracticeRuntime

/-- The clock that a snapshot gives. -/
def restoredClock (performance : PerformancePart) : BrowserClock where
  state :=
    if performance.state = .ready ∨ performance.state = .ended then performance.state else .paused
  stateBeforePause :=
    if performance.state = .paused then performance.stateBeforePause else performance.state
  activeElapsedMs := performance.activeElapsedMs
  currentSegment := none
  clockSegments := []

/-- What the constructor checks of a snapshot, if it gets one. -/
def validateRestored (artifact : PerformanceArtifact) (options : PerformanceOptions) :
    Throws Unit :=
  match options.snapshot with
  | none => .ok ()
  | some snapshot => validatePerformanceSnapshot artifact snapshot options.inputSource options.scope

/-- The constructor. -/
def construct (artifact : PerformanceArtifact) (options : PerformanceOptions) :
    Throws PerformancePracticeRuntime := do
  artifact.assertOk
  validateRestored artifact options
  let performance := options.snapshot.map (·.performance)
  let speedRatio := (performance.map (·.speedRatio)).getD (options.speedRatio.getD 1)
  if hspeed : speedRatio ≤ 0 then throw "Performance speed ratio must be positive."
  else
    let scope ← artifact.resolvePerformanceScope
      ((options.snapshot.map (·.practiceScope)).or options.scope)
    let countIn := artifact.meterAt scope.startBeat
    let countInBeats := (performance.map (·.countInBeats)).getD
      (options.countInBeats.getD countIn.measureDurationBeats)
    let countInPulses := (performance.map (·.countInPulses)).getD countIn.countInPulses
    let countInMs := (performance.map (·.countInMs)).getD
      (beatsToMs countInBeats (artifact.timeline.bpmAtBeat scope.startBeat) / speedRatio)
    let events ← artifact.expectedEvents scope
    let localSessionId := (options.snapshot.map (·.localSessionId)).getD
      (options.localSessionId.getD options.newSessionId)
    return {
      artifact, localSessionId, events
      domainId := options.domainId.getD localSessionId
      version := options.version.getD defaultVersion
      inputSource := (options.snapshot.map (·.inputSource)).getD
        (options.inputSource.getD .microphone)
      config := {
        timeline := artifact.timeline, scope, speedRatio, countInMs, countInPulses, countInBeats
        speed_pos := not_le.mp hspeed }
      createdAtMs := (options.snapshot.map (·.createdAtMs)).getD options.nowEpochMs
      clock := (performance.map restoredClock).getD BrowserClock.initial
      observations := (performance.map (·.observations)).getD []
      outcomes := (performance.map (·.outcomes)).getD [] }

/-! ## The calls -/

variable (runtime : PerformancePracticeRuntime) (nowMs : ℚ)

/-- `evaluator.evaluate`, with the windows of its defaults. -/
def evaluate (observations : List EvaluatedObservation) : List PerformanceOutcome :=
  BrowserEvaluator.evaluate runtime.events 250 120
    (observations.map (·.toPerformanceEvaluationObservation))

/-- `assertSameSessionTimeDomain` of a capture, which gives its time. -/
def captureTimeMs (captureTime : SessionTime) : Throws ℚ :=
  match captureTime.ms with
  | none => .error "Session time values must be finite before comparison."
  | some ms =>
    if captureTime.domainId ≠ runtime.domainId then
      .error "Session time values belong to different practice time domains."
    else .ok ms

/-- The observation that evidence becomes. -/
def evaluated (evidence : PerformanceEvidence) (captureTimeMs : ℚ) : EvaluatedObservation :=
  let performanceTimeMs := runtime.clock.performanceTimeAtCapture runtime.config nowMs captureTimeMs
  { pitches := evidence.pitches
    confidence := evidence.confidence
    source := evidence.source
    performanceTimeMs
    captureTime := evidence.captureTime
    inferenceCompletedAtMs := evidence.inferenceCompletedAtMs
    musicalBeat := runtime.config.musicalBeat roundBeatJs performanceTimeMs }

def observeEvidence (evidence : PerformanceEvidence) :
    PerformancePracticeRuntime × Throws EvaluatedObservation :=
  match runtime.captureTimeMs evidence.captureTime with
  | .error error => (runtime, .error error)
  | .ok captureTimeMs =>
    let evaluated := runtime.evaluated nowMs evidence captureTimeMs
    let observations := runtime.observations ++ [evaluated]
    ({ runtime with observations, outcomes := runtime.evaluate observations }, .ok evaluated)

/-- `snapshotSession()`, where `nowEpochMs` is what the metadata clock reads. -/
def snapshotSession (nowEpochMs : ℚ) : LocalPerformanceSessionSnapshot where
  localSessionId := runtime.localSessionId
  scoreId := runtime.artifact.scoreId
  revisionId := runtime.artifact.revisionId
  artifactId := runtime.artifact.artifactId
  mode := .continuousPlay
  inputSource := runtime.inputSource
  practiceScope := ⟨runtime.config.scope.startGroupId, runtime.config.scope.endGroupId⟩
  lifecycleState :=
    if runtime.clock.state = .ended then .ended
    else if runtime.clock.state = .paused then .paused
    else .active
  version := runtime.version
  createdAtMs := runtime.createdAtMs
  updatedAtMs := nowEpochMs
  performance := {
    state := runtime.clock.state
    stateBeforePause := runtime.clock.stateBeforePause
    speedRatio := runtime.config.speedRatio
    scopeStartBeat := runtime.config.scope.startBeat
    scopeTerminalBeat := runtime.config.scope.terminalBeat
    activeElapsedMs := runtime.clock.activeElapsedAt nowMs
    countInMs := runtime.config.countInMs
    countInBeats := runtime.config.countInBeats
    countInPulses := runtime.config.countInPulses
    observations := runtime.observations
    outcomes := runtime.outcomes }

end PerformancePracticeRuntime

/-- A call of a runtime. -/
inductive PerformanceCall
  | clock (call : ClockCall)
  | observe (evidence : PerformanceEvidence)
  deriving DecidableEq, Repr

inductive PerformanceAnswer
  | clock (snapshot : BrowserClockSnapshot)
  | observed (observation : EvaluatedObservation)
  deriving DecidableEq, Repr

namespace PerformancePracticeRuntime

def call (runtime : PerformancePracticeRuntime) (call : PerformanceCall × ℚ) :
    PerformancePracticeRuntime × Throws PerformanceAnswer :=
  match call.1 with
  | .clock clockCall =>
    let (clock, answer) := runtime.clock.call runtime.config roundBeatJs call.2 clockCall
    ({ runtime with clock }, answer.map .clock)
  | .observe evidence =>
    let (runtime, answer) := runtime.observeEvidence call.2 evidence
    (runtime, answer.map .observed)

end PerformancePracticeRuntime

end NoteVerse.Practice

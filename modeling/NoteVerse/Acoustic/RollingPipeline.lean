import NoteVerse.Acoustic.LiveCapture

/-!
# The rolling pipeline

`LiveByteDanceRollingPipeline` of `acoustic-inference/live-capture.ts`, with
what its client of the worker (`bytedance-worker-protocol.ts`) makes of a
response. Between two calls the pipeline is a value, and each `await` that has
not come back is a `Continuation`: a call runs up to its next `await`, and
`resume` runs what follows when the worker responds, in any order.

A worker is the number of its creation. What the worker, the factory of workers,
the session's clock and the sink of events do is part of an action. A result has
the events that the normalizer lets through.

A run also notes what an observer of it would: `lifecycle` counts the calls of
`start()`, `stopped` says that a `stop()` is over that no `start()` came after,
`captured` has the samples that the ring took since the capture started, and
`submitted` the anchors that were submitted since.
-/

namespace NoteVerse.Acoustic

open Js

/-! ## Times -/

structure SessionTime where
  domainId : String
  ms : Option ℚ
  sampleIndex : Option ℤ
  deriving DecidableEq, Repr

/-- The timebase of a capture, at the rate of the model. -/
structure CaptureTimebase where
  domainId : String
  anchorSampleIndex : ℤ
  anchorSessionTimeMs : Option ℚ
  deriving DecidableEq, Repr

def CaptureTimebase.sampleIndexToSessionTime (timebase : CaptureTimebase) (sampleIndex : ℤ) :
    Throws SessionTime :=
  match timebase.anchorSessionTimeMs with
  | none => .error "Session time values must be finite."
  | some anchorMs =>
    .ok ⟨timebase.domainId,
      some (anchorMs + (sampleIndex - timebase.anchorSampleIndex : ℤ) / sampleRateHz * 1000),
      some sampleIndex⟩

def sampleIndexForSessionTime (time : SessionTime) : Throws ℤ :=
  match time.sampleIndex, time.ms with
  | some sampleIndex, _ => .ok sampleIndex
  | none, none => .error "Capture session anchor must have finite non-negative session time."
  | none, some ms =>
    if ms < 0 then .error "Capture session anchor must have finite non-negative session time."
    else .ok (millisecondsToSamples ms)

/-! ## The worker's responses -/

inductive WorkerResponse (Event : Type)
  | ready
  | result (events : List Event)
  | disposed
  | error (message : String)

namespace WorkerResponse

variable {Event : Type} (response : WorkerResponse Event)

def load : Throws Unit :=
  match response with
  | .ready => .ok ()
  | .error message => .error message
  | _ => .error "ByteDance worker load failed."

def infer : Throws (List Event) :=
  match response with
  | .result events => .ok events
  | .error message => .error message
  | _ => .error "ByteDance worker inference failed."

def dispose : Throws Unit :=
  match response with
  | .disposed => .ok ()
  | .error message => .error message
  | _ => .error "ByteDance worker dispose failed."

end WorkerResponse

/-! ## The state -/

inductive LiveCaptureStateName
  | idle | initializingModel | running | stopping | error | disposed
  deriving DecidableEq, Repr

structure LiveCaptureState where
  state : LiveCaptureStateName := .idle
  captureDomainId : Option String := none
  sourceSampleRateHz : Option ℚ := none
  captureStartSampleIndex : Option ℤ := none
  captureAnchorSessionTimeMs : Option ℚ := none
  normalizedEndSampleIndex : ℤ := 0
  latestSubmittedAnchorSampleIndex : Option ℤ := none
  activeAnchorSampleIndex : Option ℤ := none
  coalescedAnchorSampleIndex : Option ℤ := none
  skippedAnchorCount : ℤ := 0
  lastError : Option String := none
  deriving DecidableEq, Repr

/-- What of the options is read; `workerClient` says that there is one. -/
structure ControllerOptions where
  domainId : String
  sourceSampleRateHz : ℚ
  workerClient : Bool
  ringCapacitySamples : Option ℤ
  deriving DecidableEq, Repr

structure RollingPipeline (α : Type) where
  options : ControllerOptions
  ring : PcmRing α
  scheduler : RollingInferenceScheduler
  worker : Option ℕ
  lifecycleTimebase : CaptureTimebase
  lifecycleStartSampleIndex : ℤ
  generation : ℕ
  fixedWorkerConsumed : Bool
  fatalErrorNotified : Bool
  state : LiveCaptureState
  deriving Repr

structure InferenceRequest (α : Type) where
  requestId : String
  pcm : List α
  captureStartSampleIndex : ℤ
  captureStartTime : SessionTime
  deriving Repr

/-- What follows an `await`: of `start()` on the model, of `submitAnchor` on the
result, and of `failLifecycle` and `stop()` on the worker they dispose of. An
`infer` and a `stop` keep the life cycle in which they were called, a `fail` the
generation of the inference that failed. -/
inductive Continuation
  | load (worker : ℕ)
  | infer (lifecycle generation : ℕ) (anchorSampleIndex : ℤ) (worker : ℕ)
  | fail (worker : Option ℕ) (error : String) (submitted : Option ℕ)
  | stop (lifecycle : ℕ) (worker : Option ℕ)
  deriving DecidableEq, Repr

/-- The worker whose response is awaited. -/
def Continuation.worker : Continuation → Option ℕ
  | load worker | infer _ _ _ worker => some worker
  | fail worker _ _ | stop _ worker => worker

structure Submission (α : Type) where
  anchorSampleIndex : ℤ
  window : Throws (LiveFixedAnchorWindow α)

structure Emission (Event : Type) where
  submittedIn : ℕ
  emittedIn : ℕ
  afterStop : Bool
  events : List Event

structure CaptureRun (α Event : Type) where
  pipeline : RollingPipeline α
  waiting : List Continuation
  /-- How many workers there were. -/
  workers : ℕ
  /-- The workers that were terminated, and why. -/
  terminated : List (ℕ × String)
  lifecycle : ℕ
  stopped : Bool
  captured : List α
  submitted : List (Submission α)
  emitted : List (Emission Event)
  /-- The fatal errors, and the life cycle in which each was notified. -/
  notified : List (ℕ × String)

namespace RollingPipeline

variable {α : Type} (pipeline : RollingPipeline α)

def create (options : ControllerOptions) : Throws (RollingPipeline α) := do
  let ring ← PcmRing.create (options.ringCapacitySamples.getD defaultLiveRingCapacitySamples)
  return ⟨options, ring, {}, none, ⟨options.domainId, 0, some 0⟩, 0, 0, false, false, {}⟩

def requestForWindow (window : LiveFixedAnchorWindow α) : Throws (InferenceRequest α) := do
  let captureStartTime ←
    pipeline.lifecycleTimebase.sampleIndexToSessionTime window.captureStartSampleIndex
  return ⟨s!"live-bytedance:{pipeline.generation}:{window.anchorSampleIndex}", window.pcm,
    window.captureStartSampleIndex, captureStartTime⟩

def requireWorker : Throws ℕ :=
  match pipeline.worker with
  | none => .error "Live ByteDance pipeline has no active Worker client."
  | some worker => .ok worker

/-- The pipeline while the inference of an anchor is active. -/
def started (scheduler : RollingInferenceScheduler) (anchorSampleIndex : ℤ) : RollingPipeline α :=
  { pipeline with
    scheduler
    state := { pipeline.state with
      activeAnchorSampleIndex := some anchorSampleIndex
      latestSubmittedAnchorSampleIndex := some anchorSampleIndex
      coalescedAnchorSampleIndex := scheduler.pendingAnchor
      skippedAnchorCount := scheduler.skipped } }

/-- What `submitAnchor` tries, up to the worker that it calls. -/
def requestInference (window : Throws (LiveFixedAnchorWindow α)) : Throws ℕ := do
  let window ← window
  let _ ← pipeline.requestForWindow window
  pipeline.requireWorker

variable {pipeline}

theorem worker_of_requestInference {window : Throws (LiveFixedAnchorWindow α)} {worker : ℕ}
    (h : pipeline.requestInference window = .ok worker) : pipeline.worker = some worker := by
  obtain ⟨_, -, h⟩ := bind_eq_ok.mp h
  obtain ⟨_, -, h⟩ := bind_eq_ok.mp h
  unfold requireWorker at h
  cases hworker : pipeline.worker with
  | none =>
    rw [hworker] at h
    cases h
  | some current =>
    rw [hworker] at h
    cases h
    rfl

end RollingPipeline

/-! ## What the calls do -/

namespace CaptureRun

variable {α Event : Type} [Zero α] (run : CaptureRun α Event)

def create (options : ControllerOptions) : Throws (CaptureRun α Event) := do
  return ⟨← RollingPipeline.create options, [], 0, [], 0, false, [], [], [], []⟩

def withState (state : LiveCaptureState) : CaptureRun α Event :=
  { run with pipeline := { run.pipeline with state } }

def await (continuation : Continuation) : CaptureRun α Event :=
  { run with waiting := run.waiting ++ [continuation] }

def erase (index : ℕ) : CaptureRun α Event := { run with waiting := run.waiting.eraseIdx index }

/-- What `cleanupResources` does up to the disposal of the worker, which is awaited. -/
def cleanupResources (next : Option ℕ → Continuation) : CaptureRun α Event :=
  { run with
    pipeline := { run.pipeline with
      scheduler := .reset 0
      ring := run.pipeline.ring.reset run.pipeline.lifecycleStartSampleIndex
      worker := none }
    waiting := run.waiting ++ [next run.pipeline.worker] }

/-- The worker of `cleanupResources` has responded: if it is not disposed of, it is terminated. -/
def disposed (worker : Option ℕ) (response : WorkerResponse Event) (reason : String) :
    CaptureRun α Event :=
  match worker, response.dispose with
  | some worker, .error _ => { run with terminated := (worker, reason) :: run.terminated }
  | _, _ => run

def failLifecycle (error : String) (submitted : Option ℕ) : CaptureRun α Event :=
  cleanupResources
    { run with pipeline := { run.pipeline with generation := run.pipeline.generation + 1 } }
    fun worker => .fail worker error submitted

def notifyFatalError (error : String) : CaptureRun α Event :=
  if run.pipeline.fatalErrorNotified then run
  else { run with
    pipeline := { run.pipeline with fatalErrorNotified := true }
    notified := run.notified ++ [(run.lifecycle, error)] }

/-- What `submitAnchor` tries, up to the request of the inference. -/
def submit (scheduler : RollingInferenceScheduler) (anchorSampleIndex : ℤ) : CaptureRun α Event :=
  let pipeline := run.pipeline.started scheduler anchorSampleIndex
  let window := buildLiveFixedAnchorWindow pipeline.ring anchorSampleIndex
    pipeline.lifecycleStartSampleIndex
  let run : CaptureRun α Event := { run with
    pipeline, submitted := run.submitted ++ [⟨anchorSampleIndex, window⟩] }
  match pipeline.requestInference window with
  | .ok worker => run.await (.infer run.lifecycle pipeline.generation anchorSampleIndex worker)
  | .error error => run.failLifecycle error (some pipeline.generation)

def submitAnchor (anchorSampleIndex : ℤ) : CaptureRun α Event :=
  match run.pipeline.scheduler.markStarted anchorSampleIndex with
  | .error _ => run
  | .ok scheduler => run.submit scheduler anchorSampleIndex

/-- The `finally` of `submitAnchor`. -/
def finishSubmit (generation : ℕ) : CaptureRun α Event :=
  if generation = run.pipeline.generation ∧ run.pipeline.state.state ≠ .error then
    let (scheduler, next) := run.pipeline.scheduler.markCompleted
    let run := { run with
      pipeline := { run.pipeline with
        scheduler
        state := { run.pipeline.state with
          activeAnchorSampleIndex := scheduler.activeAnchor
          coalescedAnchorSampleIndex := scheduler.pendingAnchor
          skippedAnchorCount := scheduler.skipped } } }
    match next with
    | none => run
    | some anchor => run.submitAnchor anchor
  else run

/-- `emitResult`, in the life cycle `lifecycle` of the submission. -/
def emitResult (lifecycle : ℕ) (events : List Event) : CaptureRun α Event :=
  if events.length = 0 then run
  else { run with
    emitted := run.emitted ++ [⟨lifecycle, run.lifecycle, run.stopped, events⟩] }

def createWorker (client : Throws Unit) : Throws (CaptureRun α Event × ℕ) :=
  if run.pipeline.options.workerClient then
    if run.pipeline.fixedWorkerConsumed then
      .error "A fixed ByteDance workerClient can only be used for one capture lifecycle; use workerClientFactory for restartable capture."
    else .ok ({ run with
      pipeline := { run.pipeline with fixedWorkerConsumed := true }
      workers := run.workers + 1 }, run.workers)
  else client.map fun _ => ({ run with workers := run.workers + 1 }, run.workers)

/-- What `start()` does once it has a worker and the time of its start. -/
def startCapture (worker : ℕ) (anchor : SessionTime) (startSampleIndex : ℤ) : CaptureRun α Event :=
  { run with
    pipeline := { run.pipeline with
      worker := some worker
      lifecycleTimebase := ⟨anchor.domainId, startSampleIndex, anchor.ms⟩
      lifecycleStartSampleIndex := startSampleIndex
      ring := run.pipeline.ring.reset startSampleIndex
      scheduler := .reset startSampleIndex
      state :=
        { state := .initializingModel
          captureDomainId := some anchor.domainId
          sourceSampleRateHz := some run.pipeline.options.sourceSampleRateHz
          captureStartSampleIndex := some startSampleIndex
          captureAnchorSessionTimeMs := anchor.ms
          normalizedEndSampleIndex := startSampleIndex } }
    waiting := run.waiting ++ [.load worker]
    captured := []
    submitted := [] }

/-- `start()`, where the factory of workers and the session's clock may throw. -/
def start (client : Throws Unit) (anchor : Throws SessionTime) : CaptureRun α Event :=
  let run := { run with
    pipeline := { run.pipeline with
      generation := run.pipeline.generation + 1
      fatalErrorNotified := false }
    lifecycle := run.lifecycle + 1
    stopped := false }
  match run.createWorker client with
  | .error _ => run
  | .ok (run, worker) =>
    match (do let anchor ← anchor; return (anchor, ← sampleIndexForSessionTime anchor)) with
    | .error _ => run
    | .ok (anchor, startSampleIndex) => run.startCapture worker anchor startSampleIndex

def appendNormalizedPcm (samples : List α) (startSampleIndex : Option ℤ) :
    Throws (CaptureRun α Event) := do
  if run.pipeline.state.state ≠ .running then
    throw "Live ByteDance pipeline is not running."
  let ring ← run.pipeline.ring.append samples startSampleIndex
  let (scheduler, ready) := run.pipeline.scheduler.nextReadyAnchor ring.endIndex
  let run := { run with
    pipeline := { run.pipeline with
      ring, scheduler
      state := { run.pipeline.state with
        normalizedEndSampleIndex := ring.endIndex
        coalescedAnchorSampleIndex := scheduler.pendingAnchor
        skippedAnchorCount := scheduler.skipped } }
    captured := run.captured ++ samples }
  match ready with
  | none => return run
  | some anchor => return run.submitAnchor anchor

def stop : CaptureRun α Event :=
  if run.pipeline.state.state = .disposed then run
  else cleanupResources
    { run with
      pipeline := { run.pipeline with
        generation := run.pipeline.generation + 1
        state := { run.pipeline.state with state := .stopping } } }
    (.stop run.lifecycle)

/-! ## What follows an `await` -/

def resumeStart (response : WorkerResponse Event) : CaptureRun α Event :=
  match response.load with
  | .ok _ => run.withState { run.pipeline.state with state := .running }
  | .error error => run.failLifecycle error none

/-- `submitAnchor` has a response; the sink of a result's events may throw. -/
def resumeSubmit (lifecycle generation : ℕ) (response : WorkerResponse Event)
    (sinkError : Option String) : CaptureRun α Event :=
  match response.infer with
  | .ok events =>
    if generation ≠ run.pipeline.generation then run.finishSubmit generation
    else
      let run := run.emitResult lifecycle events
      match if events.length = 0 then none else sinkError with
      | none => run.finishSubmit generation
      | some error => run.failLifecycle error (some generation)
  | .error error =>
    if generation = run.pipeline.generation then run.failLifecycle error (some generation)
    else run.finishSubmit generation

def resumeFail (worker : Option ℕ) (error : String) (submitted : Option ℕ)
    (response : WorkerResponse Event) : CaptureRun α Event :=
  let run := run.disposed worker response "Live capture failed; ByteDance Worker was terminated."
  let run := run.withState { run.pipeline.state with state := .error, lastError := some error }
  let run := run.notifyFatalError error
  match submitted with
  | none => run
  | some generation => run.finishSubmit generation

def resumeStop (lifecycle : ℕ) (worker : Option ℕ) (response : WorkerResponse Event) :
    CaptureRun α Event :=
  let run := run.disposed worker response
    "Live capture stopped while ByteDance inference was active."
  { run.withState {} with stopped := run.stopped || lifecycle = run.lifecycle }

def resume (continuation : Continuation) (response : WorkerResponse Event)
    (sinkError : Option String) : CaptureRun α Event :=
  match continuation with
  | .load _ => run.resumeStart response
  | .infer lifecycle generation _ _ => run.resumeSubmit lifecycle generation response sinkError
  | .fail worker error submitted => run.resumeFail worker error submitted response
  | .stop lifecycle worker => run.resumeStop lifecycle worker response

end CaptureRun

/-! ## Runs -/

inductive CaptureAction (α Event : Type)
  | start (client : Throws Unit) (anchor : Throws SessionTime)
  | append (samples : List α) (startSampleIndex : Option ℤ)
  | stop
  /-- The `await` at a position comes back. -/
  | settle (index : ℕ) (response : WorkerResponse Event) (sinkError : Option String)

/-- The pending requests of a terminated worker get its reason as their error. -/
def CaptureRun.Answers {α Event : Type} (run : CaptureRun α Event) (continuation : Continuation)
    (response : WorkerResponse Event) : Prop :=
  ∀ terminated ∈ run.terminated, continuation.worker = some terminated.1 →
    response = .error terminated.2

/-- What an action may lead to. A call that throws changes nothing. -/
inductive CaptureStep {α Event : Type} [Zero α] (run : CaptureRun α Event) :
    CaptureAction α Event → CaptureRun α Event → Prop
  | start {client : Throws Unit} {anchor : Throws SessionTime} :
    CaptureStep run (.start client anchor) (run.start client anchor)
  | append {samples : List α} {startSampleIndex : Option ℤ} {run' : CaptureRun α Event} :
    run.appendNormalizedPcm samples startSampleIndex = .ok run' →
      CaptureStep run (.append samples startSampleIndex) run'
  | refused {samples : List α} {startSampleIndex : Option ℤ} {error : String} :
    run.appendNormalizedPcm samples startSampleIndex = .error error →
      CaptureStep run (.append samples startSampleIndex) run
  | stop : CaptureStep run .stop run.stop
  | settle {index : ℕ} {continuation : Continuation} {response : WorkerResponse Event}
      {sinkError : Option String} :
    run.waiting[index]? = some continuation → run.Answers continuation response →
      CaptureStep run (.settle index response sinkError)
        ((run.erase index).resume continuation response sinkError)

end NoteVerse.Acoustic

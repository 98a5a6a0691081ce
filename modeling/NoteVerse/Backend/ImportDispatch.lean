import NoteVerse.Lib.Python
import NoteVerse.Lib.Table

/-!
# Import jobs: dispatch, worker and review

`import_jobs/dispatch_service.py`, `worker_service.py`, the task in
`worker/execution/import_job.py` and what `review/service.py`,
`import_jobs/service.py` and `ops/command_service.py` do to the state of
an import job. Each function is one transaction on the table of jobs;
`ImportWorld.next` composes them into a system with any number of scans,
messages, workers, reviews and operators.

The diagnostic columns and the times of the last change are left out: nothing
here reads them. Times are in seconds.
-/

namespace NoteVerse.Backend

open Table Python

inductive ImportJobState
  | pending | running | pendingReview | confirmed | failure
  deriving DecidableEq, Repr

inductive ImportDispatchStatus
  | pending | dispatched | processing | completed | failed
  deriving DecidableEq, Repr

/-- A row of `import_jobs`, with the storage keys of its uploads. -/
structure ImportJob where
  jobUuid : String
  state : ImportJobState
  progress : Int
  currentStep : Option String
  requestedOptions : Option String
  storageKeys : List String
  dispatchStatus : ImportDispatchStatus
  dispatchAttemptCount : Nat
  publishAttemptCount : Nat
  nextDispatchAt : Int
  dispatchedAt : Option Int
  dispatchStartedAt : Option Int
  dispatchCompletedAt : Option Int
  dispatchError : Option String
  code : Option String
  error : Option String
  errorType : Option String
  startedAt : Option Int
  lastHeartbeatAt : Option Int
  finishedAt : Option Int
  scoreId : Option Int
  createdAt : Int
  deriving DecidableEq, Repr

structure ImportDispatchSettings where
  dispatchTimeoutSeconds : Int
  processingTimeoutSeconds : Int
  dispatchMaxAttempts : Nat
  dispatchBatchSize : Nat
  deriving DecidableEq, Repr

structure ImportDispatchPayload where
  jobUuid : String
  storageKeys : List String
  options : Option String
  attempt : Nat
  maxAttempts : Nat
  deriving DecidableEq, Repr

/-! ## The dispatch service -/

variable (settings : ImportDispatchSettings) (now : Int)

def featureTemporarilyUnavailable : String := "FEATURE_TEMPORARILY_UNAVAILABLE"

def resetPipelineState (job : ImportJob) : ImportJob :=
  { job with
    state := .pending, progress := 0, currentStep := none, startedAt := none,
    lastHeartbeatAt := none, finishedAt := none, code := none, error := none, errorType := none }

def terminalFailure (error : String) (job : ImportJob) : ImportJob :=
  { job with
    dispatchStatus := .failed, state := .failure, code := some featureTemporarilyUnavailable,
    error := some featureTemporarilyUnavailable, errorType := some "ImportDispatchFailure",
    dispatchError := some error, finishedAt := some now }

/-- The guards of `claim`: the job may be processed. -/
def claimable (job : ImportJob) : Bool :=
  job.dispatchStatus ≠ .processing && job.dispatchStatus ≠ .completed && job.state = .pending &&
    job.dispatchAttemptCount < settings.dispatchMaxAttempts &&
    !(job.dispatchStatus = .failed && now < job.nextDispatchAt)

/-- A claimable job, processed by a new attempt. -/
def startProcessing (job : ImportJob) : ImportJob :=
  { job with
    dispatchStatus := .processing, dispatchAttemptCount := job.dispatchAttemptCount + 1,
    dispatchStartedAt := some now, dispatchError := none }

def claim (jobs : List ImportJob) (jobUuid : String) :
    List ImportJob × Option ImportDispatchPayload :=
  match find ImportJob.jobUuid jobUuid jobs with
  | none => (jobs, none)
  | some job =>
    if !claimable settings now job then (jobs, none)
    else if job.storageKeys = [] then
      (update ImportJob.jobUuid jobUuid
        (terminalFailure now "Import job has no persisted uploads") jobs, none)
    else
      (update ImportJob.jobUuid jobUuid (startProcessing now) jobs,
        some ⟨jobUuid, job.storageKeys, job.requestedOptions, job.dispatchAttemptCount + 1,
          settings.dispatchMaxAttempts⟩)

def completeJob (job : ImportJob) : ImportJob :=
  { job with
    dispatchStatus := .completed, dispatchCompletedAt := some now, dispatchError := none }

def complete (jobs : List ImportJob) (jobUuid : String) : List ImportJob :=
  update ImportJob.jobUuid jobUuid (completeJob now) jobs

def releaseDispatchedJob (error : String) (job : ImportJob) : ImportJob :=
  if job.dispatchStatus ≠ .dispatched then job
  else { job with
    dispatchStatus := .pending, dispatchedAt := none,
    publishAttemptCount := job.publishAttemptCount + 1,
    nextDispatchAt := now + min 300 (2 ^ min (job.publishAttemptCount + 1) 8),
    dispatchError := some (String.ofList (error.toList.take 4000)) }

def releaseDispatch (jobs : List ImportJob) (jobUuid error : String) : List ImportJob :=
  update ImportJob.jobUuid jobUuid (releaseDispatchedJob now error) jobs

def staleDispatch (job : ImportJob) : Bool :=
  job.dispatchStatus = .dispatched &&
    job.dispatchedAt.any (· ≤ now - settings.dispatchTimeoutSeconds)

def staleProcessing (job : ImportJob) : Bool :=
  job.dispatchStatus = .processing &&
    job.dispatchStartedAt.any (· ≤ now - settings.processingTimeoutSeconds)

/-- The first loop of `recover_and_claim_due`: a job whose lease has expired
is failed or queued again. -/
def recoverJob (job : ImportJob) : ImportJob :=
  if !staleDispatch settings now job && !staleProcessing settings now job then job
  else if settings.dispatchMaxAttempts ≤ job.dispatchAttemptCount then
    terminalFailure now "Import worker delivery attempts exhausted" job
  else
    let queued := { job with
      dispatchStatus := .pending, nextDispatchAt := now, dispatchedAt := none,
      dispatchStartedAt := none }
    { (if staleProcessing settings now job then resetPipelineState queued else queued) with
      dispatchError := some "Import delivery lease expired" }

def isDue (job : ImportJob) : Bool :=
  job.state = .pending && (job.dispatchStatus = .pending || job.dispatchStatus = .failed) &&
    job.nextDispatchAt ≤ now && job.dispatchAttemptCount < settings.dispatchMaxAttempts

def dispatchJob (job : ImportJob) : ImportJob :=
  { job with dispatchStatus := .dispatched, dispatchedAt := some now, dispatchError := none }

/-- The due jobs in the order of their creation, up to the size of a batch;
rows that another transaction has `locked` are skipped. -/
def dueJobs (locked : List String) (jobs : List ImportJob) : List String :=
  (((jobs.filter fun job => isDue settings now job && !locked.contains job.jobUuid).insertionSort
    (·.createdAt ≤ ·.createdAt)).take settings.dispatchBatchSize).map (·.jobUuid)

/-- The queries of a session do not flush what it has changed, so that a job
just recovered is not due before the next scan. -/
def recoverAndClaimDue (locked : List String) (jobs : List ImportJob) :
    List ImportJob × List String :=
  let due := dueJobs settings now locked jobs
  let recovered := jobs.map (recoverJob settings now)
  (recovered.map fun job => if due.contains job.jobUuid then dispatchJob now job else job, due)

/-! ## The worker service -/

/-- The arguments of a progress report; the pipeline reports `RUNNING` only. -/
structure ProgressReport where
  progress : Int
  currentStep : Option String
  code : Option String
  error : Option String
  startedAt : Option Int
  deriving DecidableEq, Repr

def progressJob (state : ImportJobState) (report : ProgressReport) (job : ImportJob) : ImportJob :=
  { job with
    state := state, progress := report.progress,
    currentStep := orElse report.currentStep job.currentStep,
    code := report.code.or job.code, error := report.error.or job.error,
    startedAt := job.startedAt.or report.startedAt, lastHeartbeatAt := some now }

def updateProgress (jobs : List ImportJob) (jobUuid : String) (state : ImportJobState)
    (report : ProgressReport) : List ImportJob :=
  update ImportJob.jobUuid jobUuid (progressJob now state report) jobs

def succeedJob (job : ImportJob) : ImportJob :=
  { job with
    state := .pendingReview, progress := 100, lastHeartbeatAt := some now, finishedAt := some now }

def finalizeSuccess (jobs : List ImportJob) (jobUuid : String) : List ImportJob :=
  update ImportJob.jobUuid jobUuid (succeedJob now) jobs

structure FailureReport where
  error : String
  errorType : String
  code : Option String
  deriving DecidableEq, Repr

def failJob (report : FailureReport) (job : ImportJob) : ImportJob :=
  { job with
    state := .failure, progress := 0, error := some report.error,
    errorType := some report.errorType, code := orElse report.code job.code,
    lastHeartbeatAt := some now, finishedAt := some now }

def finalizeFailure (jobs : List ImportJob) (jobUuid : String) (report : FailureReport) :
    List ImportJob :=
  update ImportJob.jobUuid jobUuid (failJob now report) jobs

/-! ## Submission, review and operators -/

/-- `_create_pending_job`. -/
def newJob (jobUuid : String) (storageKeys : List String) (options : Option String) : ImportJob :=
  { jobUuid, state := .pending, progress := 0, currentStep := none, requestedOptions := options,
    storageKeys, dispatchStatus := .pending, dispatchAttemptCount := 0, publishAttemptCount := 0,
    nextDispatchAt := now, dispatchedAt := none, dispatchStartedAt := none,
    dispatchCompletedAt := none, dispatchError := none, code := none, error := none,
    errorType := none, startedAt := none, lastHeartbeatAt := none, finishedAt := none,
    scoreId := none, createdAt := now }

/-- The last transaction of `confirm`. -/
def confirmJob (scoreId : Int) (job : ImportJob) : ImportJob :=
  { job with scoreId := some scoreId, state := .confirmed }

/-- `_retry_import`, where the guard allows it. -/
def retryJob (job : ImportJob) : ImportJob :=
  { job with
    state := .pending, progress := 0, currentStep := none, dispatchStatus := .pending,
    dispatchAttemptCount := 0, publishAttemptCount := 0, nextDispatchAt := now,
    dispatchedAt := none, dispatchStartedAt := none, dispatchCompletedAt := none,
    dispatchError := none, error := none, errorType := none, startedAt := none,
    finishedAt := none }

def retryable (job : ImportJob) : Bool :=
  job.state ≠ .running && job.state ≠ .pendingReview && job.state ≠ .confirmed

/-! ## The system -/

/-- Where an execution of the import task is: in the pipeline, past
`finalize_success`, in the handler of an exception of the pipeline, or past
that handler. -/
inductive WorkerPhase
  | running | finalized | failing | failed
  deriving DecidableEq, Repr

structure ImportWorker where
  workerId : Nat
  jobUuid : String
  phase : WorkerPhase
  deriving DecidableEq, Repr

/-- The jobs, the live executions of the task, the reviews between the check
and the last transaction of `confirm`, and the job ids ever drawn. -/
structure ImportWorld where
  jobs : List ImportJob
  workers : List ImportWorker
  confirming : List String
  issued : List String
  deriving DecidableEq, Repr

inductive ImportAction
  | submit (jobUuid : String) (storageKeys : List String) (options : Option String)
  | scan (locked : List String)
  | releaseDispatch (jobUuid error : String)
  /-- A message arrives, possibly late or once more, and a worker takes it. -/
  | deliver (workerId : Nat) (jobUuid : String)
  | progress (workerId : Nat) (report : ProgressReport)
  | finalizeSuccess (workerId : Nat)
  /-- An exception leaves the pipeline. -/
  | raises (workerId : Nat)
  | finalizeFailure (workerId : Nat) (report : FailureReport)
  /-- `finalize_failure` raises, and its exception is dropped. -/
  | dropFailure (workerId : Nat)
  | complete (workerId : Nat)
  /-- The worker is lost, or its `complete` raises. -/
  | crash (workerId : Nat)
  /-- `confirm` up to the reservation of storage, which commits. -/
  | confirmCheck (jobUuid : String) (scoreExists : Bool)
  | confirmCommit (jobUuid : String) (scoreId : Int)
  | confirmAbort (jobUuid : String)
  | retry (jobUuid : String)
  | delete (jobUuid : String)
  deriving DecidableEq, Repr

namespace ImportWorld

def start : ImportWorld := ⟨[], [], [], []⟩

def job (world : ImportWorld) (jobUuid : String) : Option ImportJob :=
  find ImportJob.jobUuid jobUuid world.jobs

def worker (world : ImportWorld) (workerId : Nat) : Option ImportWorker :=
  find ImportWorker.workerId workerId world.workers

/-- The world after a worker in phase `before` ran a transaction on its job
and moved on to phase `after`. -/
def advance (world : ImportWorld) (workerId : Nat) (before after : WorkerPhase)
    (transaction : List ImportJob → String → List ImportJob) : Option ImportWorld :=
  match world.worker workerId with
  | none => none
  | some worker =>
    if worker.phase ≠ before then none
    else some { world with
      jobs := transaction world.jobs worker.jobUuid
      workers := update ImportWorker.workerId workerId (fun w => { w with phase := after })
        world.workers }

def removeWorker (world : ImportWorld) (workerId : Nat) : ImportWorld :=
  { world with workers := Table.delete ImportWorker.workerId workerId world.workers }

/-- One transaction of the system at the time `now`; `none` where the action
is not possible. -/
def next (world : ImportWorld) : ImportAction → Option ImportWorld
  | .submit jobUuid storageKeys options =>
    if jobUuid ∈ world.issued then none
    else some { world with
      jobs := world.jobs ++ [newJob now jobUuid storageKeys options]
      issued := jobUuid :: world.issued }
  | .scan locked =>
    some { world with jobs := (recoverAndClaimDue settings now locked world.jobs).1 }
  | .releaseDispatch jobUuid error =>
    some { world with jobs := releaseDispatch now world.jobs jobUuid error }
  | .deliver workerId jobUuid =>
    if (world.worker workerId).isSome then none
    else
      let (jobs, payload) := claim settings now world.jobs jobUuid
      some { world with
        jobs
        workers := if payload.isSome then ⟨workerId, jobUuid, .running⟩ :: world.workers
          else world.workers }
  | .progress workerId report =>
    world.advance workerId .running .running fun jobs uuid =>
      updateProgress now jobs uuid .running report
  | .finalizeSuccess workerId => world.advance workerId .running .finalized (finalizeSuccess now)
  | .raises workerId =>
    match world.worker workerId with
    | none => none
    | some worker =>
      if worker.phase = .running ∨ worker.phase = .finalized then
        world.advance workerId worker.phase .failing fun jobs _ => jobs
      else none
  | .finalizeFailure workerId report =>
    world.advance workerId .failing .failed fun jobs uuid => finalizeFailure now jobs uuid report
  | .dropFailure workerId => world.advance workerId .failing .failed fun jobs _ => jobs
  | .complete workerId =>
    match world.worker workerId with
    | none => none
    | some worker =>
      if worker.phase = .finalized ∨ worker.phase = .failed then
        some ({ world with jobs := complete now world.jobs worker.jobUuid }.removeWorker workerId)
      else none
  | .crash workerId => if (world.worker workerId).isSome then some (world.removeWorker workerId)
    else none
  | .confirmCheck jobUuid scoreExists =>
    match world.job jobUuid with
    | none => none
    | some job =>
      if job.scoreId.isSome && scoreExists then some world
      else if job.state ≠ .pendingReview then none
      else some { world with confirming := jobUuid :: world.confirming }
  | .confirmCommit jobUuid scoreId =>
    if jobUuid ∉ world.confirming then none
    else some { world with
      jobs := update ImportJob.jobUuid jobUuid (confirmJob scoreId) world.jobs
      confirming := world.confirming.erase jobUuid }
  | .confirmAbort jobUuid =>
    some { world with confirming := world.confirming.erase jobUuid }
  | .retry jobUuid =>
    match world.job jobUuid with
    | none => none
    | some job =>
      if !retryable job then none
      else some { world with
        jobs := update ImportJob.jobUuid jobUuid (retryJob now) world.jobs }
  | .delete jobUuid =>
    match world.job jobUuid with
    | none => none
    | some job =>
      if job.state = .running then none
      else some { world with jobs := Table.delete ImportJob.jobUuid jobUuid world.jobs }

/-- Transactions one after the other, each with its time. -/
def run (settings : ImportDispatchSettings) (world : ImportWorld) :
    List (Int × ImportAction) → Option ImportWorld
  | [] => some world
  | (now, action) :: actions => (world.next settings now action).bind (run settings · actions)

end ImportWorld

end NoteVerse.Backend

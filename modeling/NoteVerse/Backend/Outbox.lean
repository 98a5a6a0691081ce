import NoteVerse.Backend.DeliveryPolicy
import NoteVerse.Lib.Python
import NoteVerse.Lib.Table
import NoteVerse.Lib.Transition

/-!
# The delivery outboxes

`playback/outbox_service.py`, `score_assets/render_outbox_service.py` and
`practice/replay_object_deletion_outbox_service.py` differ in their settings,
in their error texts and in how a claim builds its payload from the database.
They are `playbackOutboxService`, `renderOutboxService` and
`practiceReplayObjectDeletionOutboxService`, values of one `OutboxService`.
`OutboxWorld.next` composes the calls of a service with the tasks in
`worker/execution`, the scans in `maintenance_dispatch.py` and the retry in
`ops/command_service.py`.

The columns that trace a request and the diagnostic columns are left out:
nothing here reads them.
-/

namespace NoteVerse.Backend

open Table Python Transition

inductive OutboxStatus
  | pending | dispatched | processing | completed | failed
  deriving DecidableEq, Repr

/-- A row of an outbox; `target` is what the delivery is about. -/
structure OutboxRecord (τ : Type) where
  outboxUuid : String
  target : τ
  status : OutboxStatus
  attemptCount : Nat
  nextAttemptAt : Int
  dispatchedAt : Option Int
  startedAt : Option Int
  completedAt : Option Int
  lastError : Option String
  createdAt : Int
  updatedAt : Int
  deriving DecidableEq, Repr

/-- What a claim finds when it builds its payload. -/
inductive PayloadResult (π : Type)
  | payload (body : π)
  | terminalCompleted
  | unavailable
  deriving DecidableEq, Repr

structure OutboxPayload (π : Type) where
  outboxUuid : String
  body : π
  attempt : Nat
  maxAttempts : Nat
  deriving DecidableEq, Repr

structure OutboxSettings where
  dispatchTimeoutSeconds : Int
  processingTimeoutSeconds : Int
  retryBaseSeconds : Nat
  maxAttempts : Nat
  dispatchBatchSize : Nat
  deriving DecidableEq, Repr

/-- One of the outbox services; `ρ` is what `_build_payload` reads of the
database. -/
structure OutboxService (τ ρ π : Type) extends OutboxSettings where
  buildPayload : ρ → OutboxRecord τ → PayloadResult π
  unavailableError : String
  leaseExpiredError : String
  /-- Operators can retry its deliveries. -/
  operatorRetry : Bool

/-! ## The services -/

inductive PlaybackAssetKind
  | audio
  deriving DecidableEq, Repr

structure PlaybackTarget where
  scoreId : Int
  revisionId : Int
  sourceFingerprint : String
  assetKind : PlaybackAssetKind
  deriving DecidableEq, Repr

/-- What the payload builders read of a row of `scores`. -/
structure OutboxScore where
  scoreUuid : String
  active : Bool
  deriving DecidableEq, Repr

/-- What they read of a row of `score_revisions`. -/
structure OutboxRevision where
  revisionUuid : String
  scoreId : Int
  contentHash : String
  deriving DecidableEq, Repr

structure OutboxScores where
  score : Int → Option OutboxScore
  revision : Int → Option OutboxRevision

structure PlaybackOutboxPayload where
  scoreUuid : String
  revisionUuid : String
  sourceFingerprint : String
  assetKind : PlaybackAssetKind
  deriving DecidableEq, Repr

def buildRevisionAudioPayload (resources : OutboxScores) (outbox : OutboxRecord PlaybackTarget) :
    Option PlaybackOutboxPayload :=
  match resources.score outbox.target.scoreId, resources.revision outbox.target.revisionId with
  | some score, some revision =>
    if score.active && revision.scoreId = outbox.target.scoreId &&
        revision.contentHash = outbox.target.sourceFingerprint then
      some ⟨score.scoreUuid, revision.revisionUuid, outbox.target.sourceFingerprint,
        outbox.target.assetKind⟩
    else none
  | _, _ => none

def playbackOutboxService (settings : OutboxSettings) :
    OutboxService PlaybackTarget OutboxScores PlaybackOutboxPayload where
  toOutboxSettings := settings
  buildPayload resources outbox :=
    match buildRevisionAudioPayload resources outbox with
    | some payload => .payload payload
    | none => .unavailable
  unavailableError := "Playback outbox references unavailable or stale resources"
  leaseExpiredError := "Playback delivery lease expired"
  operatorRetry := true

inductive RenderTargetType
  | scoreRevision | reviewThumbnail
  deriving DecidableEq, Repr

structure RenderTarget where
  targetType : RenderTargetType
  scoreId : Int
  revisionId : Int
  requestedByUserId : Option Int
  importJobId : Int
  sourceFingerprint : String
  renderProfile : String
  deriving DecidableEq, Repr

/-- What the payload builder reads of an import job. -/
structure OutboxImportJob where
  jobUuid : String
  pendingReview : Bool
  deriving DecidableEq, Repr

/-- The database of the render payloads; `reviewSource` is the content hash of
the review MusicXML of a job. -/
structure RenderResources extends OutboxScores where
  importJob : Int → Option OutboxImportJob
  reviewSource : Int → Option String

structure RenderOutboxPayload where
  targetType : RenderTargetType
  renderProfile : String
  sourceFingerprint : String
  scoreUuid : Option String
  revisionUuid : Option String
  userId : Option Int
  jobUuid : Option String
  deriving DecidableEq, Repr

def buildRevisionPayload (resources : RenderResources) (outbox : OutboxRecord RenderTarget) :
    Option RenderOutboxPayload :=
  match resources.score outbox.target.scoreId, resources.revision outbox.target.revisionId with
  | some score, some revision =>
    if score.active && outbox.target.requestedByUserId.isSome then
      some ⟨.scoreRevision, outbox.target.renderProfile, outbox.target.sourceFingerprint,
        some score.scoreUuid, some revision.revisionUuid, outbox.target.requestedByUserId, none⟩
    else none
  | _, _ => none

def buildReviewThumbnailPayload (resources : RenderResources) (outbox : OutboxRecord RenderTarget) :
    PayloadResult RenderOutboxPayload :=
  match resources.importJob outbox.target.importJobId,
      resources.reviewSource outbox.target.importJobId with
  | some job, some sha256 =>
    if !job.pendingReview then .terminalCompleted
    else if sha256 ≠ outbox.target.sourceFingerprint then .terminalCompleted
    else .payload ⟨.reviewThumbnail, outbox.target.renderProfile, outbox.target.sourceFingerprint,
      none, none, none, some job.jobUuid⟩
  | _, _ => .unavailable

def renderOutboxService (settings : OutboxSettings) :
    OutboxService RenderTarget RenderResources RenderOutboxPayload where
  toOutboxSettings := settings
  buildPayload resources outbox :=
    match outbox.target.targetType with
    | .scoreRevision =>
      match buildRevisionPayload resources outbox with
      | some payload => .payload payload
      | none => .unavailable
    | .reviewThumbnail => buildReviewThumbnailPayload resources outbox
  unavailableError := "Render outbox references unavailable resources"
  leaseExpiredError := "Render delivery lease expired"
  operatorRetry := true

structure PracticeReplayObject where
  storageBackend : String
  objectKey : String
  deriving DecidableEq, Repr

/-- The payload of a deletion is in its record: no claim finds it missing. -/
def practiceReplayObjectDeletionOutboxService (settings : OutboxSettings) :
    OutboxService PracticeReplayObject Unit PracticeReplayObject where
  toOutboxSettings := settings
  buildPayload _ outbox := .payload outbox.target
  unavailableError := ""
  leaseExpiredError := "Practice replay object deletion lease expired"
  operatorRetry := false

/-! ## The calls of a service -/

variable {τ ρ π : Type} (service : OutboxService τ ρ π) (now : Int)

/-- The guards of `claim`: the record may be processed. -/
def OutboxService.claimable (outbox : OutboxRecord τ) : Bool :=
  outbox.status ≠ .processing && outbox.status ≠ .completed &&
    !(outbox.status = .failed && now < outbox.nextAttemptAt) &&
    outbox.attemptCount < service.maxAttempts

def OutboxRecord.startProcessing (outbox : OutboxRecord τ) : OutboxRecord τ :=
  { outbox with
    status := .processing, attemptCount := outbox.attemptCount + 1, startedAt := some now,
    updatedAt := now }

def OutboxService.exhaustUnavailableResources (outbox : OutboxRecord τ) : OutboxRecord τ :=
  { outbox with
    status := .failed, attemptCount := service.maxAttempts,
    lastError := some service.unavailableError, updatedAt := now }

def OutboxRecord.complete (outbox : OutboxRecord τ) : OutboxRecord τ :=
  { outbox with status := .completed, completedAt := some now, lastError := none, updatedAt := now }

def OutboxService.fail (error : String) (outbox : OutboxRecord τ) : OutboxRecord τ :=
  { outbox with
    status := .failed,
    nextAttemptAt :=
      now + exponentialRetryDelaySeconds service.retryBaseSeconds outbox.attemptCount,
    lastError := some (sliceTo 4000 error), updatedAt := now }

def OutboxService.claim (records : List (OutboxRecord τ)) (outboxUuid : String) (resources : ρ) :
    List (OutboxRecord τ) × Option (OutboxPayload π) :=
  match find OutboxRecord.outboxUuid outboxUuid records with
  | none => (records, none)
  | some outbox =>
    if !service.claimable now outbox then (records, none)
    else match service.buildPayload resources outbox with
      | .payload body =>
        (update OutboxRecord.outboxUuid outboxUuid (OutboxRecord.startProcessing now) records,
          some ⟨outboxUuid, body, outbox.attemptCount + 1, service.maxAttempts⟩)
      | .terminalCompleted =>
        (update OutboxRecord.outboxUuid outboxUuid (OutboxRecord.complete now) records, none)
      | .unavailable =>
        (update OutboxRecord.outboxUuid outboxUuid (service.exhaustUnavailableResources now) records,
          none)

def OutboxService.isDispatchable (outbox : OutboxRecord τ) : Bool :=
  (outbox.status = .pending || outbox.status = .failed) &&
    outbox.attemptCount < service.maxAttempts && outbox.nextAttemptAt ≤ now

def OutboxService.markDispatched (outbox : OutboxRecord τ) : OutboxRecord τ :=
  if !service.isDispatchable now outbox then outbox
  else { outbox with status := .dispatched, dispatchedAt := some now, updatedAt := now }

def OutboxRecord.releaseDispatch (error : String) (outbox : OutboxRecord τ) : OutboxRecord τ :=
  if outbox.status ≠ .dispatched then outbox
  else { outbox with
    status := .pending, dispatchedAt := none, lastError := some (sliceTo 4000 error),
    updatedAt := now }

def OutboxService.leaseExpired (outbox : OutboxRecord τ) : Bool :=
  deliveryLeaseExpired outbox.status .dispatched .processing outbox.dispatchedAt outbox.startedAt
    now service.dispatchTimeoutSeconds service.processingTimeoutSeconds

def OutboxService.recover (outbox : OutboxRecord τ) : OutboxRecord τ :=
  if !service.leaseExpired now outbox then outbox
  else { outbox with
    status := .failed, nextAttemptAt := now, lastError := some service.leaseExpiredError,
    updatedAt := now }

/-- The queries of a session do not flush what it has changed, so that a
record just recovered is not listed before the next scan. -/
def OutboxService.recoverAndListDue (records : List (OutboxRecord τ)) :
    List (OutboxRecord τ) × List String :=
  let due := ((records.filter (service.isDispatchable now)).insertionSort
    (·.createdAt ≤ ·.createdAt)).take service.dispatchBatchSize
  (records.map (service.recover now), due.map (·.outboxUuid))

def newOutbox (outboxUuid : String) (target : τ) : OutboxRecord τ :=
  { outboxUuid, target, status := .pending, attemptCount := 0, nextAttemptAt := now,
    dispatchedAt := none, startedAt := none, completedAt := none, lastError := none,
    createdAt := now, updatedAt := now }

/-- The guard of `_retry_playback` and `_retry_render`. -/
def OutboxRecord.retryable (outbox : OutboxRecord τ) : Bool :=
  outbox.status ≠ .processing && outbox.status ≠ .dispatched && outbox.status ≠ .completed

def OutboxRecord.retry (outbox : OutboxRecord τ) : OutboxRecord τ :=
  { outbox with
    status := .pending, attemptCount := 0, nextAttemptAt := now, dispatchedAt := none,
    startedAt := none, completedAt := none, lastError := none, updatedAt := now }

/-! ## The system -/

/-- A live execution of the task. -/
structure OutboxWorker where
  workerId : Nat
  outboxUuid : String
  deriving DecidableEq, Repr

/-- What the counters of the records are compared with. -/
inductive OutboxEvent
  | created (outboxUuid : String)
  | claimed (outboxUuid : String) (workerId : Nat)
  | exhausted (outboxUuid : String)
  | retried (outboxUuid : String)
  deriving DecidableEq, Repr

/-- The records, the live executions of the task, how many there have been,
and the events so far, the last one first. -/
structure OutboxWorld (τ : Type) where
  records : List (OutboxRecord τ)
  workers : List OutboxWorker
  workerCount : Nat
  history : List OutboxEvent
  deriving DecidableEq, Repr

inductive OutboxAction (τ ρ : Type)
  | create (outboxUuid : String) (target : τ)
  | scan
  | markDispatched (outboxUuid : String)
  | releaseDispatch (outboxUuid error : String)
  /-- A message arrives, possibly late or once more, and a worker takes it. -/
  | deliver (outboxUuid : String) (resources : ρ)
  | complete (workerId : Nat)
  | fail (workerId : Nat) (error : String)
  | crash (workerId : Nat)
  | retry (outboxUuid : String)

namespace OutboxWorld

def start : OutboxWorld τ := ⟨[], [], 0, []⟩

def record (world : OutboxWorld τ) (outboxUuid : String) : Option (OutboxRecord τ) :=
  find OutboxRecord.outboxUuid outboxUuid world.records

def worker (world : OutboxWorld τ) (workerId : Nat) : Option OutboxWorker :=
  find OutboxWorker.workerId workerId world.workers

def removeWorker (world : OutboxWorld τ) (workerId : Nat) : OutboxWorld τ :=
  { world with workers := Table.delete OutboxWorker.workerId workerId world.workers }

/-- The event of a claim. -/
def claimEvents (world : OutboxWorld τ) (outboxUuid : String) (resources : ρ) :
    List OutboxEvent :=
  match world.record outboxUuid with
  | none => []
  | some outbox =>
    if !service.claimable now outbox then []
    else match service.buildPayload resources outbox with
      | .payload _ => [.claimed outboxUuid world.workerCount]
      | .terminalCompleted => []
      | .unavailable => [.exhausted outboxUuid]

/-- One transaction of the system at the time `now`; `none` where the action
is not possible. -/
def next (world : OutboxWorld τ) : OutboxAction τ ρ → Option (OutboxWorld τ)
  | .create outboxUuid target =>
    if (world.record outboxUuid).isSome then none
    else some { world with
      records := world.records ++ [newOutbox now outboxUuid target]
      history := .created outboxUuid :: world.history }
  | .scan => some { world with records := (service.recoverAndListDue now world.records).1 }
  | .markDispatched outboxUuid =>
    some { world with
      records := update OutboxRecord.outboxUuid outboxUuid (service.markDispatched now)
        world.records }
  | .releaseDispatch outboxUuid error =>
    some { world with
      records := update OutboxRecord.outboxUuid outboxUuid (OutboxRecord.releaseDispatch now error)
        world.records }
  | .deliver outboxUuid resources =>
    let claimed := service.claim now world.records outboxUuid resources
    some {
      records := claimed.1
      workers := if claimed.2.isSome then ⟨world.workerCount, outboxUuid⟩ :: world.workers
        else world.workers
      workerCount := world.workerCount + (if claimed.2.isSome then 1 else 0)
      history := world.claimEvents service now outboxUuid resources ++ world.history }
  | .complete workerId =>
    match world.worker workerId with
    | none => none
    | some worker =>
      some ({ world with
        records := update OutboxRecord.outboxUuid worker.outboxUuid (OutboxRecord.complete now)
          world.records }.removeWorker workerId)
  | .fail workerId error =>
    match world.worker workerId with
    | none => none
    | some worker =>
      some ({ world with
        records := update OutboxRecord.outboxUuid worker.outboxUuid (service.fail now error)
          world.records }.removeWorker workerId)
  | .crash workerId =>
    if (world.worker workerId).isSome then some (world.removeWorker workerId) else none
  | .retry outboxUuid =>
    match world.record outboxUuid with
    | none => none
    | some outbox =>
      if !service.operatorRetry || !outbox.retryable then none
      else some { world with
        records := update OutboxRecord.outboxUuid outboxUuid (OutboxRecord.retry now) world.records
        history := .retried outboxUuid :: world.history }

/-- A transaction of the system at some time. -/
def Step (service : OutboxService τ ρ π) (world : OutboxWorld τ)
    (action : Int × OutboxAction τ ρ) (world' : OutboxWorld τ) : Prop :=
  world.next service action.1 action.2 = some world'

/-- Transactions one after the other, each with its time. -/
def run (service : OutboxService τ ρ π) (world : OutboxWorld τ) :
    List (Int × OutboxAction τ ρ) → Option (OutboxWorld τ)
  | [] => some world
  | (now, action) :: actions => (world.next service now action).bind (run service · actions)

end OutboxWorld

end NoteVerse.Backend

import NoteVerse.Backend.DeliveryPolicy
import NoteVerse.Lib.Python
import NoteVerse.Lib.Table
import NoteVerse.Lib.Transition

/-!
# The mail outbox

`mail/outbox_service.py`, with the task in `worker/execution/mail_outbox.py`
and the retry in `ops/command_service.py`. Each call is one transaction on the
table of records; `MailWorld.next` composes them into a system with any number
of scans, messages, workers and clean-ups.

The columns that trace a request and the diagnostic columns are left out:
nothing here reads them.
-/

namespace NoteVerse.Backend

open Table Python Transition

inductive MailOutboxStatus
  | pending | dispatched | processing | sent | failed | permanentFailure | expired
  deriving DecidableEq, Repr

structure MailRecord where
  outboxUuid : String
  category : String
  dedupeKey : String
  recipient : String
  subject : String
  textBody : Option String
  htmlBody : Option String
  status : MailOutboxStatus
  attemptCount : Nat
  nextAttemptAt : Int
  expiresAt : Option Int
  dispatchedAt : Option Int
  startedAt : Option Int
  completedAt : Option Int
  providerMessageId : Option String
  lastError : Option String
  createdAt : Int
  updatedAt : Int
  deriving DecidableEq, Repr

structure MailOutboxPayload where
  outboxUuid : String
  recipient : String
  subject : String
  textBody : String
  htmlBody : Option String
  category : String
  attempt : Nat
  maxAttempts : Nat
  deriving DecidableEq, Repr

structure MailOutboxSettings where
  dispatchTimeoutSeconds : Int
  processingTimeoutSeconds : Int
  retryBaseSeconds : Nat
  maxAttempts : Nat
  dispatchBatchSize : Nat
  retentionDays : Int
  deriving DecidableEq, Repr

/-- The arguments of `queue_mail`; the recipient is stripped and in lower
case. -/
structure MailMessage where
  category : String
  dedupeKey : String
  recipient : String
  subject : String
  textBody : String
  htmlBody : Option String
  expiresAt : Option Int
  deriving DecidableEq, Repr

def MailOutboxStatus.Terminal (status : MailOutboxStatus) : Prop :=
  status = .sent ∨ status = .permanentFailure ∨ status = .expired

instance (status : MailOutboxStatus) : Decidable status.Terminal :=
  inferInstanceAs (Decidable (_ ∨ _))

/-! ## The calls of the service -/

variable (settings : MailOutboxSettings) (now : Int)

def newMail (outboxUuid : String) (message : MailMessage) : MailRecord :=
  { outboxUuid, category := message.category, dedupeKey := message.dedupeKey,
    recipient := message.recipient, subject := message.subject, textBody := some message.textBody,
    htmlBody := message.htmlBody, status := .pending, attemptCount := 0, nextAttemptAt := now,
    expiresAt := message.expiresAt, dispatchedAt := none, startedAt := none, completedAt := none,
    providerMessageId := none, lastError := none, createdAt := now, updatedAt := now }

def queueMail (records : List MailRecord) (outboxUuid : String) (message : MailMessage) :
    List MailRecord :=
  match find MailRecord.dedupeKey message.dedupeKey records with
  | some _ => records
  | none => records ++ [newMail now outboxUuid message]

namespace MailRecord

def finish (status : MailOutboxStatus) (outbox : MailRecord) : MailRecord :=
  { outbox with
    status := status, completedAt := some now, textBody := none, htmlBody := none,
    updatedAt := now }

def isExpired (outbox : MailRecord) : Bool := outbox.expiresAt.any (· ≤ now)

def startProcessing (outbox : MailRecord) : MailRecord :=
  { outbox with
    status := .processing, attemptCount := outbox.attemptCount + 1, startedAt := some now,
    updatedAt := now }

/-- What `claim` makes of a record, and the body to send. -/
def claim (outbox : MailRecord) : MailRecord × Option String :=
  if outbox.status = .processing || decide outbox.status.Terminal then (outbox, none)
  else if outbox.isExpired now then (outbox.finish now .expired, none)
  else if outbox.status = .failed && now < outbox.nextAttemptAt then (outbox, none)
  else if settings.maxAttempts ≤ outbox.attemptCount then
    (outbox.finish now .permanentFailure, none)
  else match outbox.textBody with
    | none | some "" =>
      ({ outbox.finish now .permanentFailure with
        lastError := some "Mail outbox body is unavailable" }, none)
    | some textBody => (outbox.startProcessing now, some textBody)

def sent (providerMessageId : Option String) (outbox : MailRecord) : MailRecord :=
  { outbox.finish now .sent with providerMessageId, lastError := none }

def transientFailure (error : String) (outbox : MailRecord) : MailRecord :=
  if settings.maxAttempts ≤ outbox.attemptCount then
    { outbox.finish now .permanentFailure with lastError := some (sliceTo 4000 error) }
  else { outbox with
    status := .failed,
    nextAttemptAt :=
      now + exponentialRetryDelaySeconds settings.retryBaseSeconds outbox.attemptCount,
    lastError := some (sliceTo 4000 error), updatedAt := now }

def permanentFailure (error : String) (outbox : MailRecord) : MailRecord :=
  { outbox.finish now .permanentFailure with lastError := some (sliceTo 4000 error) }

def isDispatchable (outbox : MailRecord) : Bool :=
  (outbox.status = .pending || outbox.status = .failed) &&
    outbox.attemptCount < settings.maxAttempts && outbox.nextAttemptAt ≤ now &&
    !outbox.isExpired now

def markDispatched (outbox : MailRecord) : MailRecord :=
  if !outbox.isDispatchable settings now then outbox
  else { outbox with status := .dispatched, dispatchedAt := some now, updatedAt := now }

def releaseDispatch (error : String) (outbox : MailRecord) : MailRecord :=
  if outbox.status ≠ .dispatched then outbox
  else { outbox with
    status := .pending, dispatchedAt := none, lastError := some (sliceTo 4000 error),
    updatedAt := now }

def leaseExpired (outbox : MailRecord) : Bool :=
  deliveryLeaseExpired outbox.status .dispatched .processing outbox.dispatchedAt outbox.startedAt
    now settings.dispatchTimeoutSeconds settings.processingTimeoutSeconds

def recover (outbox : MailRecord) : MailRecord :=
  if !outbox.leaseExpired settings now then outbox
  else { outbox with
    status := .failed, nextAttemptAt := now, lastError := some "Mail delivery lease expired",
    updatedAt := now }

def expirable (outbox : MailRecord) : Bool :=
  outbox.isExpired now &&
    (outbox.status = .pending || outbox.status = .failed || outbox.status = .dispatched)

/-- What a scan makes of a record. The queries of a session do not flush what
it has changed: what is expirable shows in the record before its recovery. -/
def scan (outbox : MailRecord) : MailRecord :=
  if outbox.expirable now then (outbox.recover settings now).finish now .expired
  else outbox.recover settings now

/-- The guard of `_retry_mail`. -/
def retryable (outbox : MailRecord) : Bool :=
  outbox.status ≠ .processing && outbox.status ≠ .dispatched && !decide outbox.status.Terminal &&
    outbox.textBody.any (· ≠ "")

def retry (outbox : MailRecord) : MailRecord :=
  { outbox with
    status := .pending, attemptCount := 0, nextAttemptAt := now, dispatchedAt := none,
    startedAt := none, completedAt := none, lastError := none, updatedAt := now }

/-- The condition under which `cleanup` deletes a record. -/
def cleanable (outbox : MailRecord) : Bool :=
  decide outbox.status.Terminal &&
    outbox.completedAt.any (· < now - settings.retentionDays * 86400)

end MailRecord

def claimMail (records : List MailRecord) (outboxUuid : String) :
    List MailRecord × Option MailOutboxPayload :=
  match find MailRecord.outboxUuid outboxUuid records with
  | none => (records, none)
  | some outbox =>
    (update MailRecord.outboxUuid outboxUuid (fun o => (o.claim settings now).1) records,
      (outbox.claim settings now).2.map fun textBody =>
        ⟨outboxUuid, outbox.recipient, outbox.subject, textBody, outbox.htmlBody, outbox.category,
          outbox.attemptCount + 1, settings.maxAttempts⟩)

/-- Rows that another transaction has `locked` are not listed. -/
def recoverAndListDueMail (locked : List String) (records : List MailRecord) :
    List MailRecord × List String :=
  let due := ((records.filter fun outbox =>
    outbox.isDispatchable settings now && !locked.contains outbox.outboxUuid).insertionSort
      (·.createdAt ≤ ·.createdAt)).take settings.dispatchBatchSize
  (records.map (·.scan settings now), due.map (·.outboxUuid))

def cleanupMail (records : List MailRecord) : List MailRecord × Nat :=
  (records.filter (!·.cleanable settings now), (records.filter (·.cleanable settings now)).length)

/-! ## The system -/

/-- A live execution of the mail task. -/
structure MailWorker where
  workerId : Nat
  outboxUuid : String
  deriving DecidableEq, Repr

/-- The records, the live executions of the task and the outbox ids ever
drawn. -/
structure MailWorld where
  records : List MailRecord
  workers : List MailWorker
  issued : List String
  deriving DecidableEq, Repr

inductive MailAction
  | enqueue (outboxUuid : String) (message : MailMessage)
  | scan (locked : List String)
  | markDispatched (outboxUuid : String)
  | releaseDispatch (outboxUuid error : String)
  /-- A message arrives, possibly late or once more, and a worker takes it. -/
  | deliver (workerId : Nat) (outboxUuid : String)
  | sent (workerId : Nat) (providerMessageId : Option String)
  | transientFailure (workerId : Nat) (error : String)
  | permanentFailure (workerId : Nat) (error : String)
  | crash (workerId : Nat)
  | cleanup
  | retry (outboxUuid : String)
  deriving DecidableEq, Repr

namespace MailWorld

def start : MailWorld := ⟨[], [], []⟩

def record (world : MailWorld) (outboxUuid : String) : Option MailRecord :=
  find MailRecord.outboxUuid outboxUuid world.records

def worker (world : MailWorld) (workerId : Nat) : Option MailWorker :=
  find MailWorker.workerId workerId world.workers

def removeWorker (world : MailWorld) (workerId : Nat) : MailWorld :=
  { world with workers := Table.delete MailWorker.workerId workerId world.workers }

/-- A worker reports the result of its attempt. -/
def report (world : MailWorld) (workerId : Nat) (f : MailRecord → MailRecord) :
    Option MailWorld :=
  match world.worker workerId with
  | none => none
  | some worker =>
    some ({ world with
      records := update MailRecord.outboxUuid worker.outboxUuid f world.records }.removeWorker
        workerId)

/-- One transaction of the system at the time `now`; `none` where the action
is not possible. -/
def next (world : MailWorld) : MailAction → Option MailWorld
  | .enqueue outboxUuid message =>
    if outboxUuid ∈ world.issued then none
    else some { world with
      records := queueMail now world.records outboxUuid message
      issued := outboxUuid :: world.issued }
  | .scan locked =>
    some { world with records := (recoverAndListDueMail settings now locked world.records).1 }
  | .markDispatched outboxUuid =>
    some { world with
      records := update MailRecord.outboxUuid outboxUuid (·.markDispatched settings now)
        world.records }
  | .releaseDispatch outboxUuid error =>
    some { world with
      records := update MailRecord.outboxUuid outboxUuid (·.releaseDispatch now error)
        world.records }
  | .deliver workerId outboxUuid =>
    if (world.worker workerId).isSome then none
    else
      let claimed := claimMail settings now world.records outboxUuid
      some { world with
        records := claimed.1
        workers := if claimed.2.isSome then ⟨workerId, outboxUuid⟩ :: world.workers
          else world.workers }
  | .sent workerId providerMessageId =>
    world.report workerId (·.sent now providerMessageId)
  | .transientFailure workerId error =>
    world.report workerId (·.transientFailure settings now error)
  | .permanentFailure workerId error => world.report workerId (·.permanentFailure now error)
  | .crash workerId =>
    if (world.worker workerId).isSome then some (world.removeWorker workerId) else none
  | .cleanup => some { world with records := (cleanupMail settings now world.records).1 }
  | .retry outboxUuid =>
    match world.record outboxUuid with
    | none => none
    | some outbox =>
      if !outbox.retryable then none
      else some { world with
        records := update MailRecord.outboxUuid outboxUuid (·.retry now) world.records }

/-- A transaction of the system at some time. -/
def Step (settings : MailOutboxSettings) (world : MailWorld) (action : Int × MailAction)
    (world' : MailWorld) : Prop :=
  world.next settings action.1 action.2 = some world'

/-- Transactions one after the other, each with its time. -/
def run (settings : MailOutboxSettings) (world : MailWorld) :
    List (Int × MailAction) → Option MailWorld
  | [] => some world
  | (now, action) :: actions => (world.next settings now action).bind (run settings · actions)

end MailWorld

end NoteVerse.Backend

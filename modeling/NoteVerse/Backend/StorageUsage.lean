import NoteVerse.Lib.Python
import NoteVerse.Lib.Session
import NoteVerse.Lib.Table

/-!
# Storage usage

`storage_usage/accounting.py` and `service.py`: what a user stores is charged
to the user's account and, by category, to counters. Bytes are reserved,
and the reservation is committed or released; each commit and each release of
used bytes is recorded as an event. An operation is a session that raises, or
commits what it wrote.

Times are left out: nothing reads them.
-/

namespace NoteVerse.Backend

open Table Python

abbrev UserId := Int

inductive StorageUsageCategory
  | source | upload | inputAsset | derivedRender | derivedAudio | tempImport
  deriving DecidableEq, Repr

inductive StorageUsageReservationStatus
  | reserved | committed | released
  deriving DecidableEq, Repr

structure StorageUsageAccount where
  planCode : String
  usedBytes : Int
  reservedBytes : Int
  quotaLimitBytes : Int
  deriving DecidableEq, Repr

structure StorageUsageCounter where
  usedBytes : Int
  reservedBytes : Int
  deriving DecidableEq, Repr

/-- What a reservation or an event is about. -/
structure StorageObject where
  objectType : Option String
  objectId : Option String
  storageKey : Option String
  deriving DecidableEq, Repr

structure StorageUsageReservation where
  reservationUuid : String
  userId : UserId
  category : StorageUsageCategory
  bytesReserved : Int
  countsTowardQuota : Bool
  status : StorageUsageReservationStatus
  reason : String
  object : StorageObject
  deriving DecidableEq, Repr

structure StorageUsageEvent where
  userId : UserId
  category : StorageUsageCategory
  deltaBytes : Int
  countsTowardQuota : Bool
  reason : String
  object : StorageObject
  deriving DecidableEq, Repr

/-- The tables. Accounts have the user as their primary key, counters are
unique for a user and a category, and policies for a plan. -/
structure StorageDb where
  policies : String → Option Int
  accounts : UserId → Option StorageUsageAccount
  counters : UserId × StorageUsageCategory → Option StorageUsageCounter
  reservations : List StorageUsageReservation
  events : List StorageUsageEvent

inductive StorageError
  | validation (field : String) (bytesCount : Int)
  | quotaExceeded (usedBytes reservedBytes requestedBytes limitBytes : Int)
  | resourceNotFound (resource : String) (id : String)
  /-- A constraint of the tables that a flush violates. -/
  | integrity
  deriving DecidableEq, Repr

abbrev StorageSession := Session StorageDb StorageError

/-! ## Accounting -/

def defaultPlanCode : String := "FREE"

def quotaCategories : List StorageUsageCategory := [.source, .upload, .inputAsset]

def countsTowardQuota (category : StorageUsageCategory) : Bool := category ∈ quotaCategories

def assertQuotaAvailable (account : StorageUsageAccount) (bytesCount : Int) :
    Except StorageError Unit :=
  if account.usedBytes + account.reservedBytes + bytesCount ≤ account.quotaLimitBytes then .ok ()
  else .error (.quotaExceeded account.usedBytes account.reservedBytes bytesCount
    account.quotaLimitBytes)

def newReservation (uuid : String) (userId : UserId) (category : StorageUsageCategory)
    (bytesCount : Int) (countsTowardQuota : Bool) (reason : String) (object : StorageObject) :
    StorageUsageReservation :=
  ⟨uuid, userId, category, bytesCount, countsTowardQuota, .reserved, reason, object⟩

def applyReservationHold (account : StorageUsageAccount) (counter : StorageUsageCounter)
    (bytesCount : Int) (countsTowardQuota : Bool) :
    Except StorageError (StorageUsageAccount × StorageUsageCounter) := do
  if countsTowardQuota then assertQuotaAvailable account bytesCount
  return (if countsTowardQuota then
      { account with reservedBytes := account.reservedBytes + bytesCount }
    else account,
    { counter with reservedBytes := counter.reservedBytes + bytesCount })

def commitReservedUsage (account : StorageUsageAccount) (counter : StorageUsageCounter)
    (reservation : StorageUsageReservation) (object : StorageObject) :
    StorageUsageAccount × StorageUsageCounter × StorageUsageReservation :=
  (if reservation.countsTowardQuota then
      { account with
        reservedBytes := account.reservedBytes - reservation.bytesReserved
        usedBytes := account.usedBytes + reservation.bytesReserved }
    else account,
    { counter with
      reservedBytes := counter.reservedBytes - reservation.bytesReserved
      usedBytes := counter.usedBytes + reservation.bytesReserved },
    { reservation with
      status := .committed
      object :=
        { objectType := orElse object.objectType reservation.object.objectType
          objectId := orElse object.objectId reservation.object.objectId
          storageKey := orElse object.storageKey reservation.object.storageKey } })

def releaseReservedUsage (account : StorageUsageAccount) (counter : StorageUsageCounter)
    (reservation : StorageUsageReservation) :
    StorageUsageAccount × StorageUsageCounter × StorageUsageReservation :=
  (if reservation.countsTowardQuota then
      { account with reservedBytes := account.reservedBytes - reservation.bytesReserved }
    else account,
    { counter with reservedBytes := counter.reservedBytes - reservation.bytesReserved },
    { reservation with status := .released })

/-- The bytes released are those there are, at most. -/
def releaseUsedUsage (account : StorageUsageAccount) (counter : StorageUsageCounter)
    (bytesCount : Int) (countsTowardQuota : Bool) :
    StorageUsageAccount × StorageUsageCounter × Int :=
  let released := min bytesCount counter.usedBytes
  (if countsTowardQuota then { account with usedBytes := max (account.usedBytes - released) 0 }
    else account,
    { counter with usedBytes := max (counter.usedBytes - released) 0 },
    released)

/-! ## The rows of a session -/

namespace StorageDb

/-- Writing back the account and the counter of a user that a session changed. -/
def save (db : StorageDb) (userId : UserId) (category : StorageUsageCategory)
    (account : StorageUsageAccount) (counter : StorageUsageCounter) : StorageDb :=
  { db with
    accounts := Function.update db.accounts userId (some account)
    counters := Function.update db.counters (userId, category) (some counter) }

/-- Writing back a reservation. -/
def saveReservation (db : StorageDb) (reservation : StorageUsageReservation) : StorageDb :=
  { db with
    reservations := update StorageUsageReservation.reservationUuid reservation.reservationUuid
      (fun _ => reservation) db.reservations }

def addEvent (db : StorageDb) (event : StorageUsageEvent) : StorageDb :=
  { db with events := db.events ++ [event] }

/-- The reservation under a uuid. -/
def reservation (db : StorageDb) (uuid : String) : Option StorageUsageReservation :=
  find StorageUsageReservation.reservationUuid uuid db.reservations

end StorageDb

def requireDefaultPolicy : StorageSession Int := do
  match (← Session.get).policies defaultPlanCode with
  | some quotaLimitBytes => pure quotaLimitBytes
  | none => Session.raise (.resourceNotFound "storage_quota_policy" defaultPlanCode)

/-- The flush of a new account checks that its limit is not negative. -/
def ensureAccount (userId : UserId) : StorageSession StorageUsageAccount := do
  match (← Session.get).accounts userId with
  | some account => pure account
  | none =>
    let quotaLimitBytes ← requireDefaultPolicy
    if quotaLimitBytes < 0 then Session.raise .integrity
    let account := ⟨defaultPlanCode, 0, 0, quotaLimitBytes⟩
    Session.modify fun db =>
      { db with accounts := Function.update db.accounts userId (some account) }
    return account

def ensureCounter (userId : UserId) (category : StorageUsageCategory) :
    StorageSession StorageUsageCounter := do
  match (← Session.get).counters (userId, category) with
  | some counter => pure counter
  | none =>
    let counter := ⟨0, 0⟩
    Session.modify fun db =>
      { db with counters := Function.update db.counters (userId, category) (some counter) }
    return counter

/-- Adding a reservation: the flush checks that its uuid is unique, and rolls
the transaction back to `start` when it is not. -/
def addReservation (start : StorageDb) (reservation : StorageUsageReservation) :
    StorageSession Unit := do
  if ((← Session.get).reservation reservation.reservationUuid).isSome then
    Session.set start
    Session.raise .integrity
  Session.modify fun db => { db with reservations := db.reservations ++ [reservation] }

/-! ## The operations -/

/-- The arguments that the operations on bytes share. -/
structure UsageRequest where
  userId : UserId
  category : StorageUsageCategory
  bytesCount : Int
  reason : String
  object : StorageObject
  deriving DecidableEq, Repr

structure StorageReservationHandle where
  reservationId : String
  bytesReserved : Int
  deriving DecidableEq, Repr

/-- `uuid` is the reservation id that `uuid.uuid4` draws. -/
def reserve (uuid : String) (request : UsageRequest) : StorageSession StorageReservationHandle := do
  if request.bytesCount ≤ 0 then
    Session.raise (.validation "bytes_count" request.bytesCount)
  let start ← Session.get
  let account ← ensureAccount request.userId
  let counter ← ensureCounter request.userId request.category
  let counts := countsTowardQuota request.category
  let (account, counter) ← Session.lift
    (applyReservationHold account counter request.bytesCount counts)
  Session.modify fun db => db.save request.userId request.category account counter
  addReservation start (newReservation uuid request.userId request.category request.bytesCount
    counts request.reason request.object)
  return ⟨uuid, request.bytesCount⟩

def commitReservation (reservationId : String) (object : StorageObject) : StorageSession Unit := do
  match (← Session.get).reservation reservationId with
  | none => Session.raise (.resourceNotFound "storage_usage_reservation" reservationId)
  | some reservation =>
    if reservation.status ≠ .reserved then return
    let account ← ensureAccount reservation.userId
    let counter ← ensureCounter reservation.userId reservation.category
    let (account, counter, reservation) := commitReservedUsage account counter reservation object
    Session.modify fun db =>
      ((db.save reservation.userId reservation.category account counter).saveReservation
        reservation).addEvent ⟨reservation.userId, reservation.category, reservation.bytesReserved,
          reservation.countsTowardQuota, reservation.reason, reservation.object⟩

def releaseReservation (reservationId : String) : StorageSession Unit := do
  match (← Session.get).reservation reservationId with
  | none => return
  | some reservation =>
    if reservation.status ≠ .reserved then return
    let account ← ensureAccount reservation.userId
    let counter ← ensureCounter reservation.userId reservation.category
    let (account, counter, reservation) := releaseReservedUsage account counter reservation
    Session.modify fun db =>
      (db.save reservation.userId reservation.category account counter).saveReservation reservation

def recordAllocation (uuid : String) (request : UsageRequest) : StorageSession Unit := do
  if request.bytesCount ≤ 0 then return
  let handle ← reserve uuid request
  commitReservation handle.reservationId request.object

def recordRelease (request : UsageRequest) : StorageSession Unit := do
  if request.bytesCount ≤ 0 then return
  let account ← ensureAccount request.userId
  let counter ← ensureCounter request.userId request.category
  let counts := countsTowardQuota request.category
  let (account, counter, released) := releaseUsedUsage account counter request.bytesCount counts
  Session.modify fun db =>
    (db.save request.userId request.category account counter).addEvent
      ⟨request.userId, request.category, -released, counts, request.reason, request.object⟩

/-! The forms with a synchronous session run the same statements. -/

def reserveSync := reserve
def commitReservationSync := commitReservation
def releaseReservationSync := releaseReservation
def recordAllocationSync := recordAllocation
def recordReleaseSync := recordRelease

end NoteVerse.Backend

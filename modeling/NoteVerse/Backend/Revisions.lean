import NoteVerse.Backend.Scores
import NoteVerse.Backend.StorageUsage
import NoteVerse.Lib.Transition

/-!
# Making a revision

`create` and `restore` of `revisions/service.py`. A request is authorized,
reads what it needs and reserves the bytes (the commit in `reserve` drops the
lock on the score), puts the object, and makes the revision in a transaction
of its own; what it reserved is released when one of the last two fails, and
committed after the transaction. `RevisionWorld.next` composes any number of
requests on any scores, each going on by one of these steps.

The score that `authorize` has loaded is the one that the request works with
to its end: the second, locking query returns the same row of the session,
whose columns it does not load again.

What only other services read of a revision (its metadata, events, outbox
records and notifications) is left out.
-/

namespace NoteVerse.Backend

open Table Transition

/-- What the service calls of other libraries: the hash of a document, and the
check that it is MusicXML. -/
structure RevisionService where
  sha256 : String → String
  validateMusicxmlDocument : String → Bool

structure RevisionCreateRequest where
  content : String
  baseRevisionId : String
  idempotencyKey : Option String
  origin : RevisionOrigin
  deriving DecidableEq, Repr

inductive RevisionRequest
  | create (scoreUuid : String) (userId : UserId) (request : RevisionCreateRequest)
  | restore (scoreUuid revisionUuid : String) (userId : UserId)
  deriving DecidableEq, Repr

namespace RevisionRequest

def scoreUuid : RevisionRequest → String
  | create scoreUuid _ _ => scoreUuid
  | restore scoreUuid _ _ => scoreUuid

def userId : RevisionRequest → UserId
  | create _ userId _ => userId
  | restore _ _ userId => userId

/-- The revision that the caller passes to `authorize`. -/
def accessRevisionUuid : RevisionRequest → Option String
  | create _ _ _ => none
  | restore _ revisionUuid _ => some revisionUuid

end RevisionRequest

inductive RevisionError
  | resourceNotFound (resource id : String)
  | unauthorized (scoreId : String)
  | conflict (scoreId baseRevisionId : String) (headRevisionId : Option String)
  | invalidMusicxml
  | storageUsage (error : StorageError)
  /-- The object storage raises. -/
  | objectStorage
  /-- The transaction that makes the revision is rolled back. -/
  | rolledBack
  deriving DecidableEq, Repr

/-- What a request holds from its reading to its end. -/
structure RevisionDraft where
  score : Score
  userId : UserId
  revisionUuid : String
  revisionNumber : Nat
  parentRevisionId : RevisionId
  baseRevisionId : RevisionId
  contentHash : String
  idempotencyKey : Option String
  origin : RevisionOrigin
  content : String
  mimeType : String
  generator : String
  reason : String
  deriving DecidableEq, Repr

namespace RevisionDraft

variable (draft : RevisionDraft)

def key : String :=
  s!"scores/{draft.score.scoreUuid}/revisions/{draft.revisionUuid}/score.musicxml"

def usageRequest : UsageRequest :=
  { userId := draft.score.ownerUserId, category := .source
    bytesCount := draft.content.utf8ByteSize, reason := draft.reason
    object := ⟨some "score_revision_source", none, none⟩ }

/-- The row under the id that the sequence gives. -/
def revision (id : RevisionId) : ScoreRevision :=
  { id, revisionUuid := draft.revisionUuid, scoreId := draft.score.id
    revisionNumber := draft.revisionNumber, parentRevisionId := some draft.parentRevisionId
    baseRevisionId := some draft.baseRevisionId, contentHash := draft.contentHash
    idempotencyKey := draft.idempotencyKey, origin := draft.origin
    createdByUserId := some draft.userId, createdByJobId := none }

def source (sourceUuid : String) (revisionId : RevisionId) : ScoreRevisionSource :=
  { sourceUuid, revisionId, format := .musicxml, storageKey := draft.key
    mimeType := draft.mimeType, sizeBytes := draft.content.utf8ByteSize
    sha256 := draft.contentHash, generator := draft.generator, generatorVersion := "1" }

end RevisionDraft

/-- What a request reads: the revision it returns, or the one to make. -/
inductive RevisionReading
  | existing (revision : ScoreRevision)
  | draft (draft : RevisionDraft)
  deriving DecidableEq, Repr

/-- How far a request is. -/
inductive RevisionPhase
  | received
  | authorized (score : Score)
  | reserved (draft : RevisionDraft) (reservationId : String)
  | stored (draft : RevisionDraft) (reservationId : String)
  /-- It failed, before or after it stored the object, and has to release what
  it reserved. -/
  | failing (error : RevisionError) (stored : Bool) (draft : RevisionDraft)
    (reservationId : String)
  | committed (draft : RevisionDraft) (reservationId sourceUuid : String) (revisionId : RevisionId)
  | created (draft : RevisionDraft) (reservationId : String) (revisionId : RevisionId)
  | answered (revision : ScoreRevision)
  /-- It raised, after a reservation or before it. -/
  | failed (error : RevisionError) (reservationId : Option String)
  deriving DecidableEq, Repr

structure RevisionWorld where
  tables : ScoreTables
  usage : StorageDb
  objects : List (String × String)
  /-- The requests that there have been, under numbers of their own. -/
  requests : Nat → Option (RevisionRequest × RevisionPhase)

namespace RevisionWorld

def readBytes (world : RevisionWorld) (key : String) : Option String :=
  (find Prod.fst key world.objects).map Prod.snd

/-- The phase that a request goes on to. -/
def setPhase (world : RevisionWorld) (requestId : Nat) (request : RevisionRequest)
    (phase : RevisionPhase) : RevisionWorld :=
  { world with requests := Function.update world.requests requestId (some (request, phase)) }

end RevisionWorld

/-! ## The steps of a request -/

/-- `_revision` of the access policy. -/
def accessRevision (tables : ScoreTables) (score : Score) (revisionUuid : Option String) :
    Option ScoreRevision :=
  match revisionUuid with
  | some revisionUuid =>
    if revisionUuid = "" then tables.head score
    else tables.revisions.find? fun revision =>
      revision.revisionUuid = revisionUuid ∧ revision.scoreId = score.id
  | none => tables.head score

/-- `authorize` for the action `EDIT`: the owner may edit, and `editor` says
whether the user is a member who may. -/
def authorizeEdit (tables : ScoreTables) (request : RevisionRequest) (editor : Bool) :
    Except RevisionError Score :=
  match tables.activeScore request.scoreUuid with
  | none => .error (.resourceNotFound "score" request.scoreUuid)
  | some score =>
    match accessRevision tables score request.accessRevisionUuid with
    | none => .error (.resourceNotFound "revision" (request.accessRevisionUuid.getD "head"))
    | some _ =>
      if request.userId = score.ownerUserId ∨ editor then .ok score
      else .error (.unauthorized request.scoreUuid)

/-- The revision made under the idempotency key of a request. -/
def idempotentRevision (tables : ScoreTables) (score : Score) (idempotencyKey : Option String) :
    Option ScoreRevision :=
  match idempotencyKey with
  | some key =>
    if key = "" then none
    else tables.revisions.find? fun revision =>
      revision.scoreId = score.id ∧ revision.idempotencyKey = some key
  | none => none

namespace RevisionService

variable (service : RevisionService)

/-- `create`, up to the reservation. -/
def readCreate (world : RevisionWorld) (score : Score) (userId : UserId)
    (request : RevisionCreateRequest) (revisionUuid : String) :
    Except RevisionError RevisionReading :=
  if service.validateMusicxmlDocument request.content = false then .error .invalidMusicxml
  else
    match idempotentRevision world.tables score request.idempotencyKey with
    | some existing => .ok (.existing existing)
    | none =>
      match world.tables.revision request.baseRevisionId with
      | none => .error (.resourceNotFound "revision" request.baseRevisionId)
      | some base =>
        if base.scoreId ≠ score.id then
          .error (.resourceNotFound "revision" request.baseRevisionId)
        else if score.headRevisionId ≠ some base.id then
          .error (.conflict score.scoreUuid request.baseRevisionId
            ((world.tables.head score).map (·.revisionUuid)))
        else if base.contentHash = service.sha256 request.content then .ok (.existing base)
        else .ok (.draft
          { score, userId, revisionUuid
            revisionNumber := base.revisionNumber + 1, parentRevisionId := base.id
            baseRevisionId := base.id, contentHash := service.sha256 request.content
            idempotencyKey := request.idempotencyKey, origin := request.origin
            content := request.content, mimeType := "application/vnd.recordare.musicxml+xml"
            generator := "editor", reason := "revision_create" })

/-- `restore`, up to the reservation. -/
def readRestore (world : RevisionWorld) (score : Score) (userId : UserId)
    (revisionUuid newRevisionUuid : String) : Except RevisionError RevisionReading :=
  match world.tables.revision revisionUuid with
  | none => .error (.resourceNotFound "revision" revisionUuid)
  | some target =>
    if target.scoreId ≠ score.id then .error (.resourceNotFound "revision" revisionUuid)
    else
      match world.tables.head score with
      | none => .error (.resourceNotFound "revision" revisionUuid)
      | some head =>
        if head.id = target.id then .ok (.existing head)
        else
          match world.tables.canonicalSource target.id with
          | none => .error (.resourceNotFound "source" revisionUuid)
          | some source =>
            match world.readBytes source.storageKey with
            | none => .error .objectStorage
            | some content =>
              if service.validateMusicxmlDocument content = false then .error .invalidMusicxml
              else .ok (.draft
                { score, userId, revisionUuid := newRevisionUuid
                  revisionNumber := head.revisionNumber + 1, parentRevisionId := head.id
                  baseRevisionId := target.id, contentHash := service.sha256 content
                  idempotencyKey := none, origin := .edit, content
                  mimeType := source.mimeType, generator := "restore"
                  reason := "revision_restore" })

/-- What a request reads. The second query for the score takes its lock, and
finds it if it is still active. -/
def read (world : RevisionWorld) (score : Score) (request : RevisionRequest)
    (newRevisionUuid : String) : Except RevisionError RevisionReading :=
  match world.tables.activeScore score.scoreUuid with
  | none => .error (.resourceNotFound "score" score.scoreUuid)
  | some _ =>
    match request with
    | .create _ userId request => service.readCreate world score userId request newRevisionUuid
    | .restore _ revisionUuid userId =>
      service.readRestore world score userId revisionUuid newRevisionUuid

end RevisionService

/-- The transaction that makes the revision and moves the head. The version of
the score is the one loaded first, plus one. -/
def RevisionDraft.commit (draft : RevisionDraft) (tables : ScoreTables) (sourceUuid : String) :
    Option ScoreTables :=
  (tables.addRevision (draft.revision tables.nextRevisionId)).map fun tables' =>
    (tables'.addSource (draft.source sourceUuid tables.nextRevisionId)).saveScore draft.score.id
      fun row => { row with
        headRevisionId := some tables.nextRevisionId
        version := draft.score.version + 1 }

/-! ## The system -/

/-- What can happen next. The flags say whether the user may edit the score,
and whether the object storage or the database raises. -/
inductive RevisionAction
  | submit (requestId : Nat) (request : RevisionRequest)
  | authorize (requestId : Nat) (editor : Bool)
  | reserve (requestId : Nat) (revisionUuid reservationUuid : String)
  | putBytes (requestId : Nat) (raises : Bool)
  | commit (requestId : Nat) (sourceUuid : String) (raises : Bool)
  | release (requestId : Nat) (deleteRaises : Bool)
  | commitReservation (requestId : Nat)
  deriving DecidableEq, Repr

def RevisionAction.requestId : RevisionAction → Nat
  | submit requestId _ => requestId
  | authorize requestId _ => requestId
  | reserve requestId _ _ => requestId
  | putBytes requestId _ => requestId
  | commit requestId _ _ => requestId
  | release requestId _ => requestId
  | commitReservation requestId => requestId

namespace RevisionWorld

variable (service : RevisionService) (world : RevisionWorld)

/-- Reading, and the reservation if there is a revision to make. A reservation
that raises is rolled back. -/
def reserveFor (requestId : Nat) (request : RevisionRequest) (score : Score)
    (revisionUuid reservationUuid : String) : RevisionWorld :=
  match service.read world score request revisionUuid with
  | .error error => world.setPhase requestId request (.failed error none)
  | .ok (.existing revision) => world.setPhase requestId request (.answered revision)
  | .ok (.draft draft) =>
    match (Backend.reserve reservationUuid draft.usageRequest).run world.usage with
    | (.error error, _) => world.setPhase requestId request (.failed (.storageUsage error) none)
    | (.ok handle, usage) =>
      { world with usage }.setPhase requestId request (.reserved draft handle.reservationId)

/-- The compensation: the object is deleted, if it was stored, and the
reservation released. -/
def releaseFor (requestId : Nat) (request : RevisionRequest) (error : RevisionError)
    (stored : Bool) (draft : RevisionDraft) (reservationId : String) (deleteRaises : Bool) :
    RevisionWorld :=
  let objects :=
    if stored ∧ ¬deleteRaises then delete Prod.fst draft.key world.objects else world.objects
  match (releaseReservation reservationId).run world.usage with
  | (.error error, _) =>
    { world with objects }.setPhase requestId request
      (.failed (.storageUsage error) (some reservationId))
  | (.ok (), usage) =>
    { world with objects, usage }.setPhase requestId request (.failed error (some reservationId))

/-- What follows the transaction: the reservation is committed. -/
def settleFor (requestId : Nat) (request : RevisionRequest) (draft : RevisionDraft)
    (reservationId sourceUuid : String) (revisionId : RevisionId) : RevisionWorld :=
  match (Backend.commitReservation reservationId
      ⟨some "score_revision_source", some sourceUuid, some draft.key⟩).run world.usage with
  | (.error error, _) =>
    world.setPhase requestId request (.failed (.storageUsage error) (some reservationId))
  | (.ok (), usage) =>
    { world with usage }.setPhase requestId request (.created draft reservationId revisionId)

/-- The state after an action, if the request it is about is that far. -/
def next : RevisionAction → Option RevisionWorld
  | .submit requestId request =>
    match world.requests requestId with
    | none => some (world.setPhase requestId request .received)
    | some _ => none
  | .authorize requestId editor =>
    match world.requests requestId with
    | some (request, .received) =>
      match authorizeEdit world.tables request editor with
      | .error error => some (world.setPhase requestId request (.failed error none))
      | .ok score => some (world.setPhase requestId request (.authorized score))
    | _ => none
  | .reserve requestId revisionUuid reservationUuid =>
    match world.requests requestId with
    | some (request, .authorized score) =>
      some (world.reserveFor service requestId request score revisionUuid reservationUuid)
    | _ => none
  | .putBytes requestId raises =>
    match world.requests requestId with
    | some (request, .reserved draft reservationId) =>
      if raises then
        some (world.setPhase requestId request (.failing .objectStorage false draft reservationId))
      else
        some ({ world with
          objects := (draft.key, draft.content) :: delete Prod.fst draft.key world.objects }.setPhase
            requestId request (.stored draft reservationId))
    | _ => none
  | .commit requestId sourceUuid raises =>
    match world.requests requestId with
    | some (request, .stored draft reservationId) =>
      match if raises then none else draft.commit world.tables sourceUuid with
      | none =>
        some (world.setPhase requestId request (.failing .rolledBack true draft reservationId))
      | some tables =>
        some ({ world with tables }.setPhase requestId request
          (.committed draft reservationId sourceUuid world.tables.nextRevisionId))
    | _ => none
  | .release requestId deleteRaises =>
    match world.requests requestId with
    | some (request, .failing error stored draft reservationId) =>
      some (world.releaseFor requestId request error stored draft reservationId deleteRaises)
    | _ => none
  | .commitReservation requestId =>
    match world.requests requestId with
    | some (request, .committed draft reservationId sourceUuid revisionId) =>
      some (world.settleFor requestId request draft reservationId sourceUuid revisionId)
    | _ => none

def Step (service : RevisionService) (world : RevisionWorld) (action : RevisionAction)
    (world' : RevisionWorld) : Prop :=
  world.next service action = some world'

end RevisionWorld

end NoteVerse.Backend

import NoteVerse.Backend.ImportDispatch
import NoteVerse.Backend.Scores
import NoteVerse.Backend.Uploads
import NoteVerse.Lib.Transition

/-!
# Confirming an import

`confirm` and `update` of `review/service.py`, with
`review/confirmation_assets.py`. A confirm reads the import and reserves the
bytes (the commit in `reserve` drops the lock on the import), puts the
document, and makes the score in a transaction of its own; what follows it (the
charge of the bytes, of each promoted upload, and the clean-up of the import)
are transactions one by one. `ReviewWorld.next` composes any number of
requests on any imports, each going on by one of these steps.

The uuids of scores are drawn anew. The tags, the library entry, the
notification and the outbox records of a score are left out: nothing here
reads them.
-/

namespace NoteVerse.Backend

open Table Python Transition

/-- What the service calls of other libraries: the hash of a document, and the
check that it is MusicXML. -/
structure ReviewService where
  sha256 : String → String
  validateMusicxmlDocument : String → Bool

/-- The columns of `import_jobs` that a review works with. -/
structure ReviewJob where
  id : ImportJobId
  jobUuid : String
  userId : UserId
  state : ImportJobState
  scoreId : Option ScoreId
  /-- The title in the options of the import, if it is a string. -/
  requestedTitle : Option String
  deriving DecidableEq, Repr

inductive ReviewRequest
  | confirm (jobUuid : String) (userId : UserId) (content : String) (title : Option String)
  | update (jobUuid : String) (userId : UserId) (content : String)
  deriving DecidableEq, Repr

namespace ReviewRequest

def jobUuid : ReviewRequest → String
  | confirm jobUuid _ _ _ => jobUuid
  | update jobUuid _ _ => jobUuid

def userId : ReviewRequest → UserId
  | confirm _ userId _ _ => userId
  | update _ userId _ => userId

def content : ReviewRequest → String
  | confirm _ _ content _ => content
  | update _ _ content => content

end ReviewRequest

inductive ReviewError
  | resourceNotFound (resource id : String)
  | unauthorized (jobId : String)
  | conflict (jobId : String) (state : ImportJobState)
  | invalidMusicxml
  | jobRunning
  | storageUsage (error : StorageError)
  /-- The object storage or the database raises. -/
  | infrastructure
  deriving DecidableEq, Repr

/-- `_confirmed_title` -/
def confirmedTitle (job : ReviewJob) (title : Option String) : String :=
  match title with
  | some title => strip title
  | none =>
    match job.requestedTitle with
    | some requested => if strip requested = "" then "Untitled score" else strip requested
    | none => "Untitled score"

/-- What a confirm holds from its reading to its end. -/
structure ConfirmDraft where
  jobUuid : String
  jobId : ImportJobId
  userId : UserId
  scoreUuid : String
  revisionUuid : String
  title : String
  content : String
  contentHash : String
  deriving DecidableEq, Repr

/-- The key of the document of a revision. -/
def revisionSourceKey (scoreUuid revisionUuid : String) : StorageKey :=
  ["scores", scoreUuid, "revisions", revisionUuid, "score.musicxml"]

namespace ConfirmDraft

variable (draft : ConfirmDraft)

def key : StorageKey := revisionSourceKey draft.scoreUuid draft.revisionUuid

def usageRequest : UsageRequest :=
  { userId := draft.userId, category := .source, bytesCount := draft.content.utf8ByteSize
    reason := "review_confirm", object := ⟨some "score_revision_source", none, none⟩ }

def score (id : ScoreId) : Score :=
  { id, scoreUuid := draft.scoreUuid, ownerUserId := draft.userId, title := draft.title
    headRevisionId := none, originatingJobId := some draft.jobId, version := 1
    deletionStatus := .active }

def revision (id : RevisionId) (scoreId : ScoreId) : ScoreRevision :=
  { id, revisionUuid := draft.revisionUuid, scoreId, revisionNumber := 1
    parentRevisionId := none, baseRevisionId := none, contentHash := draft.contentHash
    idempotencyKey := some s!"job-confirm:{draft.jobUuid}", origin := .omr
    createdByUserId := some draft.userId, createdByJobId := some draft.jobId }

def source (sourceUuid : String) (revisionId : RevisionId) : ScoreRevisionSource :=
  { sourceUuid, revisionId, format := .musicxml, storageKey := draft.key.path
    mimeType := "application/vnd.recordare.musicxml+xml"
    sizeBytes := draft.content.utf8ByteSize, sha256 := draft.contentHash
    generator := "review-confirm", generatorVersion := "1" }

end ConfirmDraft

/-- A page rendered for a revision. -/
structure ScoreRenderAsset where
  assetUuid : String
  revisionId : RevisionId
  storageKey : StorageKey
  mimeType : String
  sizeBytes : Nat
  sha256 : String
  pageNumber : Nat
  renderProfile : String
  generator : String
  deriving DecidableEq, Repr

/-- A score that a confirm has made. -/
structure ConfirmedScore where
  draft : ConfirmDraft
  scoreId : ScoreId
  revisionId : RevisionId
  sourceUuid : String
  deriving DecidableEq, Repr

/-- What is left to do after the transaction of a request. -/
inductive ReviewFollowUp
  | recordRelease (request : UsageRequest)
  | recordAllocation (request : UsageRequest)
  | deleteObject (key : StorageKey) (bestEffort : Bool)
  | cleanupBinaryArtifacts
  deriving DecidableEq, Repr

/-- How far a request is. -/
inductive ReviewPhase
  | received
  | reserved (draft : ConfirmDraft) (reservationId : String)
  | stored (draft : ConfirmDraft) (reservationId : String)
  /-- It failed, before or after it stored the document, and has to release
  what it reserved. -/
  | failing (error : ReviewError) (stored : Bool) (draft : ConfirmDraft) (reservationId : String)
  | committed (made : ConfirmedScore) (reservationId : String) (todo : List ReviewFollowUp)
  | finishing (made : Option ConfirmedScore) (todo : List ReviewFollowUp) (answer : String)
  | answered (made : Option ConfirmedScore) (answer : String)
  /-- It raised before its last transaction, after a reservation or before it. -/
  | failed (error : ReviewError) (reservationId : Option String)
  /-- It raised in what follows its last transaction, with its reservation if
  that is not committed. -/
  | raised (made : Option ConfirmedScore) (error : ReviewError) (reservationId : Option String)
  deriving DecidableEq, Repr

structure ReviewWorld where
  jobs : List ReviewJob
  uploads : UploadTables
  tables : ScoreTables
  renderAssets : List ScoreRenderAsset
  usage : StorageDb
  objects : StorageKey → Option String
  /-- The uuids of scores that have been drawn. -/
  issued : List String
  /-- The requests that there have been, under numbers of their own. -/
  requests : Nat → Option (ReviewRequest × ReviewPhase)

namespace ReviewWorld

def job (world : ReviewWorld) (jobUuid : String) : Option ReviewJob :=
  find ReviewJob.jobUuid jobUuid world.jobs

/-- `db.get(Score, score_id)` -/
def scoreById (world : ReviewWorld) (scoreId : ScoreId) : Option Score :=
  find Score.id scoreId world.tables.scores

/-- The phase that a request goes on to. -/
def setPhase (world : ReviewWorld) (requestId : Nat) (request : ReviewRequest)
    (phase : ReviewPhase) : ReviewWorld :=
  { world with requests := Function.update world.requests requestId (some (request, phase)) }

def putBytes (world : ReviewWorld) (key : StorageKey) (content : String) : ReviewWorld :=
  { world with objects := Function.update world.objects key (some content) }

def deleteObject (world : ReviewWorld) (key : StorageKey) : ReviewWorld :=
  { world with objects := Function.update world.objects key none }

end ReviewWorld

/-! ## The reading of a confirm -/

/-- What a confirm reads: the score that there is, or the one to make. -/
inductive ReviewReading
  | existing (score : Score)
  | draft (draft : ConfirmDraft)
  deriving DecidableEq, Repr

/-- The checks on the import that both requests begin with. -/
def ownedJob (world : ReviewWorld) (request : ReviewRequest) : Except ReviewError ReviewJob :=
  match world.job request.jobUuid with
  | none => .error (.resourceNotFound "job" request.jobUuid)
  | some job =>
    if job.userId ≠ request.userId then .error (.unauthorized request.jobUuid) else .ok job

/-- The score that an import is linked to, if it is still there. -/
def linkedScore (world : ReviewWorld) (job : ReviewJob) : Option Score :=
  job.scoreId.bind world.scoreById

namespace ReviewService

variable (service : ReviewService)

/-- `confirm`, up to the reservation. -/
def readConfirm (world : ReviewWorld) (request : ReviewRequest) (title : Option String)
    (scoreUuid revisionUuid : String) : Except ReviewError ReviewReading :=
  match ownedJob world request with
  | .error error => .error error
  | .ok job =>
    match linkedScore world job with
    | some score => .ok (.existing score)
    | none =>
      if job.state ≠ .pendingReview then .error (.conflict request.jobUuid job.state)
      else if service.validateMusicxmlDocument request.content = false then .error .invalidMusicxml
      else .ok (.draft
        { jobUuid := request.jobUuid, jobId := job.id, userId := request.userId
          scoreUuid, revisionUuid, title := confirmedTitle job title
          content := request.content, contentHash := service.sha256 request.content })

end ReviewService

/-! ## The transaction of a confirm -/

/-- The newest preview of the document in review. -/
def reviewThumbnail (uploads : UploadTables) (jobId : ImportJobId) : Option ImportArtifact :=
  (uploads.artifacts.filter fun artifact =>
    artifact.jobId = jobId ∧ artifact.kind = .reviewPreviewImage).argmax (·.createdAt)

def thumbnailKey (draft : ConfirmDraft) (thumbnail : ImportArtifact) (assetUuid : String) :
    StorageKey :=
  let extension :=
    if '.' ∈ thumbnail.filename.toList then "." ++ afterLast '.' thumbnail.filename else ".svg"
  ["scores", draft.scoreUuid, "revisions", draft.revisionUuid, "renders", "default",
    s!"001-{assetUuid}{extension}"]

/-- `copy_review_thumbnail_to_score_revision`, which raises if the image is
not there. -/
def copyReviewThumbnail (service : ReviewService) (world : ReviewWorld) (draft : ConfirmDraft)
    (revisionId : RevisionId) (assetUuid : String) : Option ReviewWorld :=
  match reviewThumbnail world.uploads draft.jobId with
  | none => some world
  | some thumbnail =>
    (world.objects thumbnail.storageKey).map fun content =>
      { world.putBytes (thumbnailKey draft thumbnail assetUuid) content with
        renderAssets := world.renderAssets ++
          [{ assetUuid, revisionId, storageKey := thumbnailKey draft thumbnail assetUuid
             mimeType := (orElse thumbnail.mimeType (some "image/svg+xml")).getD ""
             sizeBytes := content.utf8ByteSize, sha256 := service.sha256 content
             pageNumber := 1, renderProfile := "default", generator := "review-thumbnail" }] }

/-- The uploads of an import in their order. -/
def sortedJobUploadRows (uploads : UploadTables) (jobId : ImportJobId) :
    List (ImportJobUpload × Upload × StorageBlob) :=
  (uploads.jobUploadRows jobId).mergeSort fun a b =>
    a.1.sortOrder < b.1.sortOrder ∨ a.1.sortOrder = b.1.sortOrder ∧ a.1.id ≤ b.1.id

/-- `promote_uploads_to_score_inputs`: the assets, by the uuids that are drawn
for them. -/
def promoteUploadsToScoreInputs (scoreId : ScoreId) (assetUuid : Nat → String)
    (rows : List (ImportJobUpload × Upload × StorageBlob)) : List ScoreInputAsset :=
  rows.zipIdx.map fun (row, i) =>
    { assetUuid := assetUuid i, scoreId, uploadId := row.2.1.id
      pageNumber := some row.1.pageNumber, sortOrder := row.1.sortOrder }

/-- What is charged anew for a promoted upload. -/
def promotedUsage (userId : UserId) (assetUuid : String) (upload : Upload) (blob : StorageBlob) :
    List ReviewFollowUp :=
  [.recordRelease
    { userId, category := .upload, bytesCount := blob.sizeBytes
      reason := "upload_promoted_to_score_input"
      object := ⟨some "upload", some upload.uploadUuid, some blob.storageKey.path⟩ },
   .recordAllocation
    { userId, category := .inputAsset, bytesCount := blob.sizeBytes
      reason := "score_input_asset_created"
      object := ⟨some "score_input_asset", some assetUuid, some blob.storageKey.path⟩ }]

/-- The uuids that the transaction draws. -/
structure ConfirmUuids where
  sourceUuid : String
  thumbnailUuid : String
  assetUuid : Nat → String

/-- Where the transaction of a confirm raises, if it does. -/
inductive ConfirmFault
  | none | beforeThumbnail | afterThumbnail
  deriving DecidableEq, Repr

/-- The rows of the score, its revision and its source: the flushes that
check the constraints. -/
def addConfirmedScore (tables : ScoreTables) (draft : ConfirmDraft) (sourceUuid : String) :
    Option ScoreTables :=
  (tables.addScore (draft.score tables.nextScoreId)).bind fun tables' =>
    (tables'.addRevision (draft.revision tables.nextRevisionId tables.nextScoreId)).map fun tables' =>
      tables'.addSource (draft.source sourceUuid tables.nextRevisionId)

/-- What follows the transaction of a confirm. -/
def confirmFollowUps (draft : ConfirmDraft) (uuids : ConfirmUuids)
    (rows : List (ImportJobUpload × Upload × StorageBlob)) : List ReviewFollowUp :=
  rows.zipIdx.flatMap (fun (row, i) =>
    promotedUsage draft.userId (uuids.assetUuid i) row.2.1 row.2.2) ++ [.cleanupBinaryArtifacts]

/-- The transaction of a confirm. What it puts into the object storage stays
there when it raises: the world of the first component is the one that a
rollback leaves. -/
def ConfirmDraft.commit (service : ReviewService) (draft : ConfirmDraft) (world : ReviewWorld)
    (uuids : ConfirmUuids) (fault : ConfirmFault) :
    ReviewWorld × Option (ReviewWorld × ConfirmedScore × List ReviewFollowUp) :=
  match addConfirmedScore world.tables draft uuids.sourceUuid with
  | none => (world, none)
  | some tables =>
    match if fault = .beforeThumbnail then none else
      copyReviewThumbnail service world draft world.tables.nextRevisionId uuids.thumbnailUuid with
    | none => (world, none)
    | some copied =>
      let rows := sortedJobUploadRows world.uploads draft.jobId
      if fault = .afterThumbnail then ({ world with objects := copied.objects }, none)
      else ({ world with objects := copied.objects }, some
        ({ copied with
            tables := tables.saveScore world.tables.nextScoreId fun row =>
              { row with headRevisionId := some world.tables.nextRevisionId }
            uploads := { world.uploads with
              inputAssets := world.uploads.inputAssets ++
                promoteUploadsToScoreInputs world.tables.nextScoreId uuids.assetUuid rows }
            jobs := update ReviewJob.id draft.jobId
              (fun job => { job with
                scoreId := some world.tables.nextScoreId, state := .confirmed }) world.jobs },
          ⟨draft, world.tables.nextScoreId, world.tables.nextRevisionId, uuids.sourceUuid⟩,
          confirmFollowUps draft uuids rows))

/-! ## The transaction of an update -/

/-- Where the transaction of an update raises, if it does; what it has put is
deleted again, if that does not raise too. -/
inductive UpdateFault
  | none | put | commit (deleteRaises : Bool)
  deriving DecidableEq, Repr

def reviewMusicxmlKey (jobUuid uuid : String) : StorageKey :=
  ["jobs", jobUuid, "review_musicxml", s!"{uuid}.musicxml"]

/-- The documents in review of an import; there is one, or the query raises. -/
def reviewMusicxml (uploads : UploadTables) (jobId : ImportJobId) : List ImportArtifact :=
  uploads.artifacts.filter fun artifact =>
    artifact.jobId = jobId ∧ artifact.kind = .reviewMusicxml

/-- The artifact with a new document. -/
def ImportArtifact.withDocument (artifact : ImportArtifact) (key : StorageKey)
    (content contentHash : String) : ImportArtifact :=
  { artifact with
    storageKey := key, filename := key.getLastD ""
    mimeType := some "application/vnd.recordare.musicxml+xml"
    sizeBytes := some content.utf8ByteSize, sha256 := some contentHash }

/-- What follows the transaction of an update. -/
def updateFollowUps (userId : UserId) (artifact updated : ImportArtifact) :
    List ReviewFollowUp :=
  [.recordRelease
    { userId, category := .tempImport, bytesCount := artifact.sizeBytes.getD 0
      reason := "review_musicxml_replaced"
      object := ⟨some "import_artifact", some artifact.artifactUuid,
        some artifact.storageKey.path⟩ },
   .recordAllocation
    { userId, category := .tempImport, bytesCount := updated.sizeBytes.getD 0
      reason := "review_musicxml_updated"
      object := ⟨some "import_artifact", some updated.artifactUuid,
        some updated.storageKey.path⟩ }] ++
  if artifact.storageKey ≠ updated.storageKey then [.deleteObject artifact.storageKey true] else []

/-- `update`, up to its commit: the error, or what is left to do. The world is
the one that a rollback leaves when there is an error. -/
def ReviewService.update (service : ReviewService) (world : ReviewWorld) (request : ReviewRequest)
    (uuid : String) (fault : UpdateFault) :
    ReviewWorld × Except ReviewError (List ReviewFollowUp) :=
  match ownedJob world request with
  | .error error => (world, .error error)
  | .ok job =>
    if job.state ≠ .pendingReview then (world, .error (.conflict request.jobUuid job.state))
    else if service.validateMusicxmlDocument request.content = false then
      (world, .error .invalidMusicxml)
    else
      match reviewMusicxml world.uploads job.id with
      | [] => (world, .error (.resourceNotFound "import_artifact" request.jobUuid))
      | [artifact] =>
        let key := reviewMusicxmlKey request.jobUuid uuid
        let updated := artifact.withDocument key request.content (service.sha256 request.content)
        let stored := world.putBytes key request.content
        match fault with
        | .put => (world, .error .infrastructure)
        | .commit true => (stored, .error .infrastructure)
        | .commit false => (stored.deleteObject key, .error .infrastructure)
        | .none =>
          -- the keys of artifacts are unique
          if ∃ row ∈ world.uploads.artifacts, row.storageKey = key then
            (stored.deleteObject key, .error .infrastructure)
          else
            ({ stored with
                uploads := { world.uploads with
                  artifacts := Table.update ImportArtifact.artifactUuid artifact.artifactUuid
                    (fun _ => updated) world.uploads.artifacts } },
              .ok (updateFollowUps request.userId artifact updated))
      | _ => (world, .error .infrastructure)

/-! ## What follows a transaction -/

/-- The release of a deleted object, after it is deleted from the storage. -/
def cleanupFollowUps (userId : UserId) (item : StoredObjectCleanup) : List ReviewFollowUp :=
  (if item.deleteStorage then [.deleteObject item.storageKey false] else []) ++
  [.recordRelease
    { userId, category := item.category, bytesCount := item.bytesCount, reason := item.reason
      object := ⟨some item.objectType, some item.objectId, some item.storageKey.path⟩ }]

/-- One thing of those that are left, with what it adds to them; `reservationUuid`
is drawn for an allocation. A session that raises is rolled back. -/
def ReviewWorld.follow (world : ReviewWorld) (request : ReviewRequest) (reservationUuid : String)
    (raises : Bool) : ReviewFollowUp → Except ReviewError (ReviewWorld × List ReviewFollowUp)
  | .recordRelease usageRequest =>
    if raises then .error .infrastructure
    else
      match (Backend.recordRelease usageRequest).run world.usage with
      | (.error error, _) => .error (.storageUsage error)
      | (.ok (), usage) => .ok ({ world with usage }, [])
  | .recordAllocation usageRequest =>
    if raises then .error .infrastructure
    else
      match (Backend.recordAllocation reservationUuid usageRequest).run world.usage with
      | (.error error, _) => .error (.storageUsage error)
      | (.ok (), usage) => .ok ({ world with usage }, [])
  | .deleteObject key bestEffort =>
    if raises then if bestEffort then .ok (world, []) else .error .infrastructure
    else .ok (world.deleteObject key, [])
  | .cleanupBinaryArtifacts =>
    match ownedJob world request with
    | .error error => .error error
    | .ok job =>
      if job.state = .running then .error .jobRunning
      else if raises then .error .infrastructure
      else
        let (uploads, cleanupObjects) := world.uploads.cleanupBinaryArtifacts job.id
        .ok ({ world with uploads }, cleanupObjects.flatMap (cleanupFollowUps request.userId))

/-! ## The system -/

/-- What can happen next. The flags say whether the object storage or the
database raises. -/
inductive ReviewAction
  | submit (requestId : Nat) (request : ReviewRequest)
  | confirm (requestId : Nat) (scoreUuid revisionUuid reservationUuid : String)
  | putBytes (requestId : Nat) (raises : Bool)
  | commit (requestId : Nat) (uuids : ConfirmUuids) (fault : ConfirmFault)
  | release (requestId : Nat) (deleteRaises : Bool)
  | commitReservation (requestId : Nat) (raises : Bool)
  | update (requestId : Nat) (uuid : String) (fault : UpdateFault)
  | follow (requestId : Nat) (reservationUuid : String) (raises : Bool)

def ReviewAction.requestId : ReviewAction → Nat
  | submit requestId _ => requestId
  | confirm requestId _ _ _ => requestId
  | putBytes requestId _ => requestId
  | commit requestId _ _ => requestId
  | release requestId _ => requestId
  | commitReservation requestId _ => requestId
  | update requestId _ _ => requestId
  | follow requestId _ _ => requestId

namespace ReviewWorld

variable (service : ReviewService) (world : ReviewWorld)

/-- The reading of a confirm, and the reservation if there is a score to make.
A reservation that raises is rolled back. -/
def confirmFor (requestId : Nat) (request : ReviewRequest) (title : Option String)
    (scoreUuid revisionUuid reservationUuid : String) : ReviewWorld :=
  match service.readConfirm world request title scoreUuid revisionUuid with
  | .error error => world.setPhase requestId request (.failed error none)
  | .ok (.existing score) =>
    world.setPhase requestId request (.finishing none [.cleanupBinaryArtifacts] score.scoreUuid)
  | .ok (.draft draft) =>
    match (Backend.reserve reservationUuid draft.usageRequest).run world.usage with
    | (.error error, _) => world.setPhase requestId request (.failed (.storageUsage error) none)
    | (.ok handle, usage) =>
      { world with usage, issued := scoreUuid :: world.issued }.setPhase requestId request
        (.reserved draft handle.reservationId)

/-- The compensation: the document is deleted, if it was stored, and the
reservation released. -/
def releaseFor (requestId : Nat) (request : ReviewRequest) (error : ReviewError) (stored : Bool)
    (draft : ConfirmDraft) (reservationId : String) (deleteRaises : Bool) : ReviewWorld :=
  let world' := if stored ∧ ¬deleteRaises then world.deleteObject draft.key else world
  match (releaseReservation reservationId).run world.usage with
  | (.error error, _) =>
    world'.setPhase requestId request (.failed (.storageUsage error) (some reservationId))
  | (.ok (), usage) =>
    { world' with usage }.setPhase requestId request (.failed error (some reservationId))

/-- The reservation is committed after the transaction. -/
def settleFor (requestId : Nat) (request : ReviewRequest) (made : ConfirmedScore)
    (reservationId : String) (todo : List ReviewFollowUp) : ReviewWorld :=
  match (Backend.commitReservation reservationId
      ⟨some "score_revision_source", some made.sourceUuid, some made.draft.key.path⟩).run
        world.usage with
  | (.error error, _) =>
    world.setPhase requestId request
      (.raised (some made) (.storageUsage error) (some reservationId))
  | (.ok (), usage) =>
    { world with usage }.setPhase requestId request
      (.finishing (some made) todo made.draft.scoreUuid)

/-- The state after an action, if the request it is about is that far. -/
def next : ReviewAction → Option ReviewWorld
  | .submit requestId request =>
    match world.requests requestId with
    | none => some (world.setPhase requestId request .received)
    | some _ => none
  | .confirm requestId scoreUuid revisionUuid reservationUuid =>
    match world.requests requestId with
    | some (.confirm jobUuid userId content title, .received) =>
      if scoreUuid ∈ world.issued then none
      else some (world.confirmFor service requestId (.confirm jobUuid userId content title) title
        scoreUuid revisionUuid reservationUuid)
    | _ => none
  | .putBytes requestId raises =>
    match world.requests requestId with
    | some (request, .reserved draft reservationId) =>
      if raises then
        some (world.setPhase requestId request
          (.failing .infrastructure false draft reservationId))
      else
        some ((world.putBytes draft.key draft.content).setPhase requestId request
          (.stored draft reservationId))
    | _ => none
  | .commit requestId uuids fault =>
    match world.requests requestId with
    | some (request, .stored draft reservationId) =>
      match draft.commit service world uuids fault with
      | (rolledBack, none) =>
        some (rolledBack.setPhase requestId request
          (.failing .infrastructure true draft reservationId))
      | (_, some (world', made, todo)) =>
        some (world'.setPhase requestId request (.committed made reservationId todo))
    | _ => none
  | .release requestId deleteRaises =>
    match world.requests requestId with
    | some (request, .failing error stored draft reservationId) =>
      some (world.releaseFor requestId request error stored draft reservationId deleteRaises)
    | _ => none
  | .commitReservation requestId raises =>
    match world.requests requestId with
    | some (request, .committed made reservationId todo) =>
      if raises then
        some (world.setPhase requestId request
          (.raised (some made) .infrastructure (some reservationId)))
      else some (world.settleFor requestId request made reservationId todo)
    | _ => none
  | .update requestId uuid fault =>
    match world.requests requestId with
    | some (.update jobUuid userId content, .received) =>
      let request := ReviewRequest.update jobUuid userId content
      match service.update world request uuid fault with
      | (rolledBack, .error error) =>
        some (rolledBack.setPhase requestId request (.failed error none))
      | (world', .ok todo) =>
        some (world'.setPhase requestId request (.finishing none todo jobUuid))
    | _ => none
  | .follow requestId reservationUuid raises =>
    match world.requests requestId with
    | some (request, .finishing made todo answer) =>
      match todo with
      | [] => some (world.setPhase requestId request (.answered made answer))
      | followUp :: todo =>
        match world.follow request reservationUuid raises followUp with
        | .error error => some (world.setPhase requestId request (.raised made error none))
        | .ok (world', more) =>
          some (world'.setPhase requestId request (.finishing made (more ++ todo) answer))
    | _ => none

def Step (service : ReviewService) (world : ReviewWorld) (action : ReviewAction)
    (world' : ReviewWorld) : Prop :=
  world.next service action = some world'

end ReviewWorld

end NoteVerse.Backend

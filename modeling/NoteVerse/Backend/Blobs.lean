import NoteVerse.Backend.Scores
import NoteVerse.Backend.Uploads
import NoteVerse.Lib.Python
import NoteVerse.Lib.Transition

/-!
# The life of a blob

What creates and deletes blobs: `files/service.py`, the deletion of an import
(`UploadTables.cleanupBinaryArtifacts`), the cleanup of a deleted score in
`scores/lifecycle_service.py` and `cleanup_orphan_uploads` of
`import_jobs/maintenance_service.py`. The last two work on a session that does
not flush before a query: what it is told to delete is still counted until the
next flush (`PendingDeletes`).

All storage operations succeed. The ledger of the bytes and the other objects
of a score are left out: their keys are no keys of blobs.
-/

namespace NoteVerse.Backend

open Table Python

/-- The settings and the functions of other libraries that the code uses. -/
structure FilesService where
  allowedExtensions : List String
  /-- `storage.backend_name` -/
  backendName : String
  sha256 : String → String
  /-- A digest is written in hexadecimal digits. -/
  sha256_hex : ∀ content, '.' ∉ (sha256 content).toList

structure BlobWorld where
  tables : UploadTables
  jobs : List ImportJobId
  scores : List Score
  objects : StorageKey → Option String
  /-- The ids that the sequences give next. -/
  nextUploadId : Nat
  nextBlobId : Nat

/-- What a session will delete when it is flushed. -/
structure PendingDeletes where
  uploads : List Nat
  blobs : List Nat
  deriving DecidableEq, Repr

def PendingDeletes.none : PendingDeletes := ⟨[], []⟩

namespace UploadTables

variable (tables : UploadTables)

/-- The rows that are left after a flush. -/
def flush (pending : PendingDeletes) : UploadTables :=
  { tables with
    uploads := tables.uploads.filter fun upload => upload.id ∉ pending.uploads
    blobs := tables.blobs.filter fun blob => blob.id ∉ pending.blobs }

/-- How many uploads of imports and inputs of scores refer to an upload. -/
def importRefs (uploadId : Nat) : Nat := (tables.jobUploads.filter (·.uploadId = uploadId)).length

def inputRefs (uploadId : Nat) : Nat := (tables.inputAssets.filter (·.uploadId = uploadId)).length

end UploadTables

/-- The objects that are left after some are deleted. -/
def deleteObjects (objects : StorageKey → Option String) (keys : List StorageKey)
    (key : StorageKey) : Option String :=
  if key ∈ keys then none else objects key

/-! ## Uploads -/

/-- `allowed_file` -/
def FilesService.allowedFile (service : FilesService) (filename : String) : Bool :=
  '.' ∈ filename.toList ∧ (afterLast '.' filename).toLower ∈ service.allowedExtensions

/-- The key of `save_blob`. -/
def blobKey (sha256 extension : String) : StorageKey :=
  ["blobs", sliceTo 2 sha256, sha256 ++ extension]

namespace BlobWorld

variable (service : FilesService) (world : BlobWorld)

/-- `save_blob`: bytes that are there already stay. -/
def saveBlob (key : StorageKey) (content : String) : StorageKey → Option String :=
  if (world.objects key).isSome then world.objects
  else Function.update world.objects key (some content)

/-- The blob of an upload, which is saved if there is none or its object is not
where the storage looks for it. If a constraint fails, what is saved is deleted
again. -/
def blobOf (content extension blobUuid : String) : Except BlobWorld (BlobWorld × StorageBlob) :=
  let fileHash := service.sha256 content
  let key := blobKey fileHash extension
  let failed := { world with objects := deleteObjects world.objects [key] }
  match world.tables.blobs.find? (·.sha256 = fileHash) with
  | none =>
    let blob := ⟨world.nextBlobId, blobUuid, fileHash, service.backendName, key,
      content.utf8ByteSize⟩
    if ∃ row ∈ world.tables.blobs, row.storageKey = key ∨ row.blobUuid = blobUuid then
      .error failed
    else .ok ({ world with
      tables := { world.tables with blobs := world.tables.blobs ++ [blob] }
      objects := world.saveBlob key content
      nextBlobId := world.nextBlobId + 1 }, blob)
  | some blob =>
    if blob.storageBackend ≠ service.backendName ∨ world.objects blob.storageKey = none then
      let blob' := { blob with
        storageBackend := service.backendName, storageKey := key
        sizeBytes := content.utf8ByteSize }
      if ∃ row ∈ world.tables.blobs, row.id ≠ blob.id ∧ row.storageKey = key then .error failed
      else .ok ({ world with
        tables := { world.tables with
          blobs := Table.update StorageBlob.id blob.id (fun _ => blob') world.tables.blobs }
        objects := world.saveBlob key content }, blob')
    else .ok (world, blob)

/-- `upload_file`, for a file that is allowed. -/
def uploadFile (userId : UserId) (filename content uploadUuid blobUuid : String) (now : Int) :
    BlobWorld :=
  match world.blobOf service content ("." ++ (afterLast '.' filename).toLower) blobUuid with
  | .error failed => failed
  | .ok (world, blob) =>
    { world with
      tables := { world.tables with
        uploads := world.tables.uploads ++
          [⟨world.nextUploadId, uploadUuid, blob.id, some userId, now⟩] }
      nextUploadId := world.nextUploadId + 1 }

/-- `delete_uploaded_file`, if it does not raise. The deletion of the row is
flushed before the uploads of the blob are counted. -/
def deleteUploadedFile (userId : UserId) (uploadUuid : String) : Option BlobWorld :=
  (find Upload.uploadUuid uploadUuid world.tables.uploads).bind fun upload =>
    if upload.uploaderUserId ≠ some userId then none
    else if world.tables.importRefs upload.id + world.tables.inputRefs upload.id > 0 then none
    else
      (find StorageBlob.id upload.blobId world.tables.blobs).map fun blob =>
        let tables := world.tables.flush ⟨[upload.id], []⟩
        if tables.blobRefCount blob.id = 0 then
          { world with
            tables := tables.flush ⟨[], [blob.id]⟩
            objects := deleteObjects world.objects [blob.storageKey] }
        else { world with tables }

/-! ## Imports -/

/-- `cleanup_binary_artifacts` -/
def cleanupBinaryArtifacts (jobId : ImportJobId) : BlobWorld :=
  let (tables, cleanupObjects) := world.tables.cleanupBinaryArtifacts jobId
  { world with
    tables
    objects := deleteObjects world.objects
      ((cleanupObjects.filter (·.deleteStorage)).map (·.storageKey)) }

/-- The row of an import is deleted; scores that originate from it stay. -/
def deleteJobRow (jobId : ImportJobId) : BlobWorld :=
  { world with
    jobs := world.jobs.filter (· ≠ jobId)
    scores := world.scores.map fun score =>
      if score.originatingJobId = some jobId then { score with originatingJobId := none }
      else score }

/-- `delete_job`: what refers to the import is deleted with it. -/
def deleteJob (jobId : ImportJobId) : BlobWorld :=
  (world.cleanupBinaryArtifacts jobId).deleteJobRow jobId

/-! ## Scores -/

/-- The inputs of a score, joined with their uploads and blobs. -/
def inputRows (scoreId : ScoreId) : List (Upload × StorageBlob) :=
  (world.tables.inputAssets.filter (·.scoreId = scoreId)).filterMap fun asset =>
    (find Upload.id asset.uploadId world.tables.uploads).bind fun upload =>
      (find StorageBlob.id upload.blobId world.tables.blobs).map fun blob => (upload, blob)

end BlobWorld

/-- The uploads among some inputs that nothing refers to any more. -/
def UploadTables.unreferenced (tables : UploadTables) (rows : List (Upload × StorageBlob)) :
    List (Upload × StorageBlob) :=
  rows.filter fun row => tables.importRefs row.1.id = 0 ∧ tables.inputRefs row.1.id = 0

/-- The blobs of uploads that are to be deleted, as the loops of the cleanup of
a score pick them: nothing is flushed in a loop, so the uploads are counted
with all that the loop deletes. -/
def UploadTables.lonelyBlobs (tables : UploadTables) (blobs : List StorageBlob) :
    List StorageBlob :=
  blobs.filter fun blob => tables.blobRefCount blob.id ≤ 1

/-- `_single_score_originating_job` -/
def BlobWorld.singleScoreOriginatingJob (world : BlobWorld) (score : Score) :
    Option ImportJobId :=
  score.originatingJobId.bind fun jobId =>
    if (world.scores.filter fun row => row.originatingJobId = some jobId ∧ row.id ≠ score.id ∧
        row.deletionStatus = .active).length ≠ 0 then none
    else if jobId ∈ world.jobs then some jobId else none

namespace UploadTables

variable (tables : UploadTables)

/-- The first loop of the cleanup of a score, over its inputs: what it deletes,
and the objects of the blobs among it. -/
def cleanupInputs (rows : List (Upload × StorageBlob)) : PendingDeletes × List StorageKey :=
  let deleted := tables.unreferenced rows
  let blobs := tables.lonelyBlobs (deleted.map (·.2))
  (⟨deleted.map (·.1.id), blobs.map (·.id)⟩, blobs.map (·.storageKey))

/-- The rows of an import that are deleted with it. -/
def withoutJob (jobId : ImportJobId) : UploadTables :=
  { tables with
    artifacts := tables.artifacts.filter (·.jobId ≠ jobId)
    jobUploads := tables.jobUploads.filter (·.jobId ≠ jobId) }

/-- `_delete_originating_import_job_sync`, with what is pending before it: the
tables after its flush, what it leaves pending, and the objects to delete. -/
def deleteOriginatingImportJob (pending : PendingDeletes) (jobId : ImportJobId) :
    UploadTables × PendingDeletes × List StorageKey :=
  let orphanUploads := tables.orphanUploadsAfterJobDelete jobId
  let flushed := (tables.withoutJob jobId).flush pending
  let blobs := flushed.lonelyBlobs (unseenBlobs [] orphanUploads)
  (flushed, ⟨orphanUploads.map (·.1.id), blobs.map (·.id)⟩,
    (tables.artifacts.filter (·.jobId = jobId)).map (·.storageKey) ++ blobs.map (·.storageKey))

end UploadTables

/-- `cleanup_deleting_score` -/
def BlobWorld.cleanupDeletingScore (world : BlobWorld) (score : Score) : BlobWorld :=
  let rows := world.inputRows score.id
  let job := world.singleScoreOriginatingJob score
  let tables := { world.tables with
    inputAssets := world.tables.inputAssets.filter (·.scoreId ≠ score.id) }
  let (pending, keys) := tables.cleanupInputs rows
  let world := { world with scores := world.scores.filter (·.id ≠ score.id) }
  match job with
  | none =>
    { world with tables := tables.flush pending, objects := deleteObjects world.objects keys }
  | some jobId =>
    let (flushed, pending, jobKeys) := tables.deleteOriginatingImportJob pending jobId
    { world.deleteJobRow jobId with
      tables := flushed.flush pending
      objects := deleteObjects world.objects (jobKeys ++ keys) }

/-! ## Maintenance -/

/-- The session of `cleanup_orphan_uploads` between two uploads. -/
structure OrphanCleanup where
  tables : UploadTables
  pending : PendingDeletes
  objects : StorageKey → Option String

namespace OrphanCleanup

variable (state : OrphanCleanup)

def commit : OrphanCleanup :=
  { state with tables := state.tables.flush state.pending, pending := .none }

/-- The deletion of an upload is pending, and that of its blob if it is the last
one, whose object is deleted at once. -/
def delete (upload : Upload) (blob : StorageBlob) (shouldDeleteBlob : Bool) : OrphanCleanup :=
  { state with
    pending := ⟨upload.id :: state.pending.uploads,
      if shouldDeleteBlob then blob.id :: state.pending.blobs else state.pending.blobs⟩
    objects := deleteObjects state.objects (if shouldDeleteBlob then [blob.storageKey] else []) }

end OrphanCleanup

/-- The usage of an upload is released, which commits the session. -/
def Upload.releases (upload : Upload) (blob : StorageBlob) : Bool :=
  upload.uploaderUserId.isSome ∧ blob.sizeBytes ≠ 0

/-- One upload: the uploads of its blob are counted before the usage is
released, and its own deletion is pending after. -/
def OrphanCleanup.next (state : OrphanCleanup) (upload : Upload) : OrphanCleanup :=
  match find StorageBlob.id upload.blobId state.tables.blobs with
  | none =>
    { state with pending := { state.pending with uploads := upload.id :: state.pending.uploads } }
  | some blob =>
    let shouldDeleteBlob := decide (state.tables.blobRefCount upload.blobId ≤ 1)
    (if upload.releases blob then state.commit else state).delete upload blob shouldDeleteBlob

/-- `list_orphan_uploads`, in the order of the table; the query gives none. -/
def UploadTables.listOrphanUploads (tables : UploadTables) (cutoff : Int) : List Upload :=
  tables.uploads.filter fun upload =>
    tables.importRefs upload.id = 0 ∧ tables.inputRefs upload.id = 0 ∧ upload.createdAt < cutoff

/-- `cleanup_orphan_uploads`, for the uploads in some order. -/
def BlobWorld.cleanupOrphanUploads (world : BlobWorld) (uploads : List Upload) : BlobWorld :=
  let state := uploads.foldl OrphanCleanup.next ⟨world.tables, .none, world.objects⟩
  { world with tables := state.tables.flush state.pending, objects := state.objects }

/-! ## The system -/

inductive BlobAction
  | uploadFile (userId : UserId) (filename content uploadUuid blobUuid : String) (now : Int)
  | deleteUploadedFile (userId : UserId) (uploadUuid : String)
  | cleanupBinaryArtifacts (jobId : ImportJobId)
  | deleteJob (jobId : ImportJobId)
  | cleanupDeletingScore (score : Score)
  | cleanupOrphanUploads (cutoff : Int) (uploads : List Upload)
  /-- Other services write imports and scores with what refers to uploads. -/
  | others (jobUploads : List ImportJobUpload) (inputAssets : List ScoreInputAsset)
      (artifacts : List ImportArtifact) (jobs : List ImportJobId) (scores : List Score)

/-- The keys of blobs. -/
def StorageKey.IsBlob (key : StorageKey) : Prop := key.head? = some "blobs"

/-- The world after an action. -/
def BlobWorld.Step (service : FilesService) (world : BlobWorld) :
    BlobAction → BlobWorld → Prop
  | .uploadFile userId filename content uploadUuid blobUuid now, world' =>
    service.allowedFile filename ∧
      world' = world.uploadFile service userId filename content uploadUuid blobUuid now
  | .deleteUploadedFile userId uploadUuid, world' =>
    world.deleteUploadedFile userId uploadUuid = some world'
  | .cleanupBinaryArtifacts jobId, world' => world' = world.cleanupBinaryArtifacts jobId
  | .deleteJob jobId, world' => world' = world.deleteJob jobId
  | .cleanupDeletingScore score, world' =>
    score ∈ world.scores ∧ score.deletionStatus = .deleting ∧
      world' = world.cleanupDeletingScore score
  | .cleanupOrphanUploads cutoff uploads, world' =>
    uploads.Perm (world.tables.listOrphanUploads cutoff) ∧
      world' = world.cleanupOrphanUploads uploads
  | .others jobUploads inputAssets artifacts jobs scores, world' =>
    let tables := { world.tables with jobUploads, inputAssets, artifacts }
    tables.Ok ∧ (∀ artifact ∈ artifacts, ¬artifact.storageKey.IsBlob) ∧
      world' = { world with tables, jobs, scores }

end NoteVerse.Backend

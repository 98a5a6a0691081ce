import NoteVerse.Backend.BlobRuns
import NoteVerse.Backend.StorageReservations

/-!
# An upload that fails

`upload_file` of `files/service.py` with the bytes it reserves, the transaction it commits and
the clean-up after an exception, for any steps that fail (`faults`). The rollback and the
release of the reservation succeed.

What the statements have done when one raises is `Pending` until the rows are committed
(`attempt_cases`), and the clean-up takes that back (`cleanUp_undone`). It does not know
whether the rows are committed, and the lookup of the blob is outside of it
(`uploadFile_atomic_iff`).
-/

namespace NoteVerse.Backend

open Table Python

/-- A step that raises if the storage or the database does. -/
inductive UploadStep
  | reserve | lookupBlob | saveBlob | insertBlob | insertUpload | commit | commitReservation
  | deleteObject
  deriving DecidableEq, Repr

inductive UploadError
  | noFileSelected
  | fileTypeNotAllowed (allowed : List String)
  | storage (error : StorageError)
  | database
  | fileSaveFailed (filename : String)
  deriving DecidableEq, Repr

/-- A file that a user uploads, with the uuids that are drawn for it. -/
structure FileUpload where
  userId : UserId
  filename : String
  content : String
  uploadUuid : String
  blobUuid : String
  reservationUuid : String
  now : Int

structure UploadFileRead where
  fileId : String
  filename : String
  size : Nat
  deriving DecidableEq, Repr

/-- What is committed, and the object storage. -/
structure UploadWorld where
  files : BlobWorld
  usage : StorageDb

/-- An upload between its reservation and its end: what is committed, the tables as its
transaction has them, and what it has saved. -/
structure UploadRun where
  world : UploadWorld
  tables : UploadTables
  stored : Option StorageKey

abbrev UploadSession := Session UploadRun Unit

namespace FileUpload

variable (service : FilesService) (faults : UploadStep → Bool) (file : FileUpload)

def extension : String := "." ++ (afterLast '.' file.filename).toLower

def fileHash : String := service.sha256 file.content

/-- The key of `save_blob`. -/
def key : StorageKey := blobKey (file.fileHash service) file.extension

/-- What is reserved. -/
def usageRequest : UsageRequest where
  userId := file.userId
  category := .upload
  bytesCount := file.content.utf8ByteSize
  reason := "upload_file"
  object := ⟨some "upload", some (file.fileHash service), none⟩

def failAt (step : UploadStep) : UploadSession Unit :=
  if faults step then Session.raise () else pure ()

/-- `blob_needs_current_storage` -/
def needsCurrentStorage (files : BlobWorld) (blob : Option StorageBlob) : Bool :=
  match blob with
  | none => true
  | some blob =>
    blob.storageBackend ≠ service.backendName ∨ (files.objects blob.storageKey).isNone

/-- `save_blob` -/
def saveBlob : UploadSession Unit := do
  failAt faults .saveBlob
  Session.modify fun run =>
    { run with
      world.files.objects := run.world.files.saveBlob (file.key service) file.content
      stored := some (file.key service) }

/-- `create_blob`, with the constraints of the table. -/
def createBlob : UploadSession StorageBlob := do
  failAt faults .insertBlob
  let run ← Session.get
  let blob : StorageBlob := ⟨run.world.files.nextBlobId, file.blobUuid, file.fileHash service,
    service.backendName, file.key service, file.content.utf8ByteSize⟩
  if ∃ row ∈ run.tables.blobs, row.sha256 = blob.sha256 ∨ row.storageKey = blob.storageKey ∨
      row.blobUuid = blob.blobUuid then
    Session.raise ()
  Session.modify fun run =>
    { run with
      tables.blobs := run.tables.blobs ++ [blob]
      world.files.nextBlobId := run.world.files.nextBlobId + 1 }
  return blob

/-- `update_blob_storage`, with the constraints of the table. -/
def updateBlobStorage (blob : StorageBlob) : UploadSession StorageBlob := do
  failAt faults .insertBlob
  let run ← Session.get
  let blob' := { blob with
    storageBackend := service.backendName
    storageKey := file.key service
    sizeBytes := file.content.utf8ByteSize }
  if ∃ row ∈ run.tables.blobs, row.id ≠ blob.id ∧ row.storageKey = blob'.storageKey then
    Session.raise ()
  Session.modify fun run =>
    { run with
      tables.blobs := Table.update StorageBlob.id blob.id (fun _ => blob') run.tables.blobs }
  return blob'

/-- The blob of an upload, saved if the storage does not have it. -/
def storeBlob (blob : Option StorageBlob) : UploadSession StorageBlob := do
  let run ← Session.get
  if needsCurrentStorage service run.world.files blob then
    file.saveBlob service faults
    match blob with
    | none => file.createBlob service faults
    | some blob => file.updateBlobStorage service faults blob
  else
    match blob with
    | none => Session.raise ()
    | some blob => return blob

/-- `create_upload`, with the constraints of the table. -/
def createUpload (blobId : Nat) : UploadSession Upload := do
  failAt faults .insertUpload
  let run ← Session.get
  let upload : Upload :=
    ⟨run.world.files.nextUploadId, file.uploadUuid, blobId, some file.userId, file.now⟩
  if ∃ row ∈ run.tables.uploads, row.uploadUuid = upload.uploadUuid then
    Session.raise ()
  Session.modify fun run =>
    { run with
      tables.uploads := run.tables.uploads ++ [upload]
      world.files.nextUploadId := run.world.files.nextUploadId + 1 }
  return upload

def commit : UploadSession Unit := do
  failAt faults .commit
  Session.modify fun run => { run with world.files.tables := run.tables }

/-- `commit_reservation`, a transaction of its own. -/
def commitUsage (upload : Upload) (blob : StorageBlob) : UploadSession Unit := do
  failAt faults .commitReservation
  let run ← Session.get
  match (commitReservation file.reservationUuid
      ⟨some "upload", some upload.uploadUuid, some blob.storageKey.path⟩).run run.world.usage with
  | (.error _, _) => Session.raise ()
  | (.ok (), usage) => Session.modify fun run => { run with world.usage := usage }

/-- The statements whose exceptions are caught. -/
def attempt (blob : Option StorageBlob) : UploadSession (Upload × StorageBlob) := do
  let blob ← file.storeBlob service faults blob
  let upload ← file.createUpload faults blob.id
  commit faults
  file.commitUsage faults upload blob
  return (upload, blob)

/-- The clean-up: what was saved is deleted if it can be, and the reservation released. -/
def cleanUp (run : UploadRun) : UploadWorld :=
  { run.world with
    files.objects :=
      match run.stored with
      | none => run.world.files.objects
      | some key =>
        if faults .deleteObject then run.world.files.objects
        else deleteObjects run.world.files.objects [key]
    usage := ((releaseReservation file.reservationUuid).run run.world.usage).2 }

/-- `upload_file` -/
def uploadFile (world : UploadWorld) : Except UploadError UploadFileRead × UploadWorld :=
  if file.filename = "" then (.error .noFileSelected, world)
  else if service.allowedFile file.filename = false then
    (.error (.fileTypeNotAllowed service.allowedExtensions), world)
  else if faults .reserve then (.error .database, world)
  else
    match (reserve file.reservationUuid (file.usageRequest service)).run world.usage with
    | (.error error, _) => (.error (.storage error), world)
    | (.ok _, usage) =>
      let world := { world with usage }
      if faults .lookupBlob then (.error .database, world)
      else
        let blob := world.files.tables.blobs.find? (·.sha256 = file.fileHash service)
        match (file.attempt service faults blob).run ⟨world, world.files.tables, none⟩ with
        | (.ok (upload, blob), run) =>
          (.ok ⟨upload.uploadUuid, file.filename, blob.sizeBytes⟩, run.world)
        | (.error (), run) => (.error (.fileSaveFailed file.filename), file.cleanUp faults run)

end FileUpload

/-! ## What an upload should do -/

/-- What the constraints and the code keep of committed blobs and of the accounts. -/
structure UploadWorld.Ok (world : UploadWorld) : Prop where
  shas : (world.files.tables.blobs.map (·.sha256)).Nodup
  blobKeys : ∀ blob ∈ world.files.tables.blobs, '.' ∉ blob.sha256.toList ∧
    ∃ extension, blob.storageKey = blobKey blob.sha256 ("." ++ extension)
  usage : Accounted world.usage

theorem UploadWorld.ok_of_valid {service : FilesService} {files : BlobWorld} {usage : StorageDb}
    (hvalid : BlobWorld.Valid service files) (husage : Accounted usage) :
    UploadWorld.Ok ⟨files, usage⟩ where
  shas := hvalid.blobs.shas
  blobKeys := hvalid.blobs.blobKeys
  usage := husage

/-- An upload that raised has left nothing behind, and no blob without its object. -/
structure Undone (service : FilesService) (world world' : UploadWorld) : Prop where
  uploads : ∀ upload ∈ world'.files.tables.uploads, upload ∈ world.files.tables.uploads
  blobs : ∀ blob ∈ world'.files.tables.blobs, blob ∈ world.files.tables.blobs
  released : ∀ uuid, world'.usage.statusOf uuid = some .reserved →
    world.usage.statusOf uuid = some .reserved
  values : SameValues world.usage world'.usage
  objects : ∀ blob ∈ world'.files.tables.blobs, blob.storageBackend = service.backendName →
    (world.files.objects blob.storageKey).isSome → (world'.files.objects blob.storageKey).isSome

/-- An upload that returned has its row, its blob and its object, and is charged. -/
structure Uploaded (service : FilesService) (file : FileUpload) (world world' : UploadWorld)
    (read : UploadFileRead) : Prop where
  stored : ∃ upload ∈ world'.files.tables.uploads, upload.uploadUuid = read.fileId ∧
    ∃ blob ∈ world'.files.tables.blobs, blob.id = upload.blobId ∧
      blob.sha256 = file.fileHash service ∧ blob.storageBackend = service.backendName ∧
      (world'.files.objects blob.storageKey).isSome
  charged : Charged (file.usageRequest service) world.usage world'.usage

namespace FileUpload

variable (service : FilesService) (faults : UploadStep → Bool) (file : FileUpload)
  (world : UploadWorld)

/-- An upload does all of its work or none of it. -/
def Atomic : Prop :=
  match file.uploadFile service faults world with
  | (.error _, world') => Undone service world world'
  | (.ok read, world') => Uploaded service file world world' read

/-- The bytes of the file are reserved. -/
def Reserves : Prop :=
  file.filename ≠ "" ∧ service.allowedFile file.filename = true ∧ faults .reserve = false ∧
    world.usage.Reservable file.reservationUuid (file.usageRequest service)

/-- The blob with the content of the file. -/
def sameBlob : Option StorageBlob :=
  world.files.tables.blobs.find? (·.sha256 = file.fileHash service)

/-- The blob of the file is there, or saved with its row. -/
def StoresBlob : Prop :=
  needsCurrentStorage service world.files (file.sameBlob service world) = true →
    faults .saveBlob = false ∧ faults .insertBlob = false ∧
      (file.sameBlob service world = none →
        ∀ row ∈ world.files.tables.blobs, row.blobUuid ≠ file.blobUuid)

/-- The rows of the file are committed. -/
def Commits : Prop :=
  file.StoresBlob service faults world ∧ faults .insertUpload = false ∧
    (∀ row ∈ world.files.tables.uploads, row.uploadUuid ≠ file.uploadUuid) ∧
    faults .commit = false

/-! ## Sessions -/

variable {service faults file world} {blob : StorageBlob} {run : UploadRun}

theorem failAt_run {α : Type} (step : UploadStep) (f : Unit → UploadSession α) (run : UploadRun) :
    (failAt faults step >>= f).run run =
      if faults step = true then (.error (), run) else (f ()).run run := by
  unfold failAt
  split_ifs <;> rfl

variable {row : StorageBlob} {r : Except Unit StorageBlob}

/-- A blob with the key of the file has the content of the file. -/
theorem sha_of_key (hok : world.Ok) (hrow : row ∈ world.files.tables.blobs)
    (hkey : row.storageKey = file.key service) : row.sha256 = file.fileHash service := by
  obtain ⟨hhex, extension, heq⟩ := hok.blobKeys row hrow
  exact BlobsOk.blobKey_injective hhex (service.sha256_hex _) (heq.symm.trans hkey)

theorem sameBlob_mem (h : file.sameBlob service world = some blob) :
    blob ∈ world.files.tables.blobs ∧ blob.sha256 = file.fileHash service := by
  have hsha := List.find?_some h
  exact ⟨List.mem_of_find?_eq_some h, by simpa using hsha⟩

theorem sameBlob_none (h : file.sameBlob service world = none) :
    ∀ row ∈ world.files.tables.blobs, row.sha256 ≠ file.fileHash service := by
  intro row hrow
  simpa using List.find?_eq_none.mp h row hrow

theorem eq_sameBlob (hok : world.Ok) (h : file.sameBlob service world = some blob)
    (hrow : row ∈ world.files.tables.blobs) (hsha : row.sha256 = file.fileHash service) :
    row = blob :=
  List.inj_on_of_nodup_map hok.shas hrow (sameBlob_mem h).1 (hsha.trans (sameBlob_mem h).2.symm)

/-- What the storage needs is no object of a blob that it has. -/
theorem needs_unreferenced (hok : world.Ok)
    (h : needsCurrentStorage service world.files (file.sameBlob service world) = true) :
    ∀ row ∈ world.files.tables.blobs, row.storageBackend = service.backendName →
      (world.files.objects row.storageKey).isSome → row.storageKey ≠ file.key service := by
  intro row hrow hbackend hsome hkey
  have hsha := sha_of_key hok hrow hkey
  cases hblob : file.sameBlob service world with
  | none => exact sameBlob_none hblob row hrow hsha
  | some blob =>
    obtain rfl := eq_sameBlob hok hblob hrow hsha
    rw [hblob] at h
    unfold needsCurrentStorage at h
    rcases of_decide_eq_true h with hother | hnone
    · exact hother hbackend
    · rw [Option.isNone_iff_eq_none] at hnone
      rw [hnone] at hsome
      cases hsome

/-! ## The blob -/

/-- Nothing is committed, and at most the object of the file is saved. -/
structure Pending (service : FilesService) (file : FileUpload) (world : UploadWorld)
    (run : UploadRun) : Prop where
  tables : run.world.files.tables = world.files.tables
  usage : run.world.usage = world.usage
  saved : run.stored = none ∧ run.world.files.objects = world.files.objects ∨
    needsCurrentStorage service world.files (file.sameBlob service world) = true ∧
      run.stored = some (file.key service) ∧
      run.world.files.objects = world.files.saveBlob (file.key service) file.content

/-- The blob of the file as the transaction has it. -/
structure HasBlob (service : FilesService) (file : FileUpload) (world : UploadWorld)
    (run : UploadRun) (blob : StorageBlob) : Prop where
  uploads : run.tables.uploads = world.files.tables.uploads
  mem : blob ∈ run.tables.blobs
  sha : blob.sha256 = file.fileHash service
  backend : blob.storageBackend = service.backendName
  object : (run.world.files.objects blob.storageKey).isSome

/-- An upload at the start of its transaction. -/
def start (world : UploadWorld) : UploadRun := ⟨world, world.files.tables, none⟩

/-- The object of the file is saved. -/
def savedRun (service : FilesService) (file : FileUpload) (run : UploadRun) : UploadRun :=
  { run with
    world.files.objects := run.world.files.saveBlob (file.key service) file.content
    stored := some (file.key service) }

theorem saveBlob_run {α : Type} (f : Unit → UploadSession α) (run : UploadRun) :
    (file.saveBlob service faults >>= f).run run =
      if faults .saveBlob = true then (.error (), run) else (f ()).run (savedRun service file run) := by
  unfold saveBlob failAt
  split_ifs <;> rfl

theorem createBlob_cases (hok : world.Ok) (hnone : file.sameBlob service world = none)
    (h : (file.createBlob service faults).run (savedRun service file (start world)) = (r, run)) :
    Pending service file world run ∧
      ((r = .error () ∧ ¬(faults .insertBlob = false ∧
          ∀ row ∈ world.files.tables.blobs, row.blobUuid ≠ file.blobUuid)) ∨
        ∃ blob, r = .ok blob ∧ (faults .insertBlob = false ∧
          ∀ row ∈ world.files.tables.blobs, row.blobUuid ≠ file.blobUuid) ∧
          HasBlob service file world run blob) := by
  have hneeds : needsCurrentStorage service world.files (file.sameBlob service world) = true := by
    rw [hnone]
    rfl
  have hsaved : Pending service file world (savedRun service file (start world)) :=
    ⟨rfl, rfl, .inr ⟨hneeds, rfl, rfl⟩⟩
  unfold createBlob at h
  rw [failAt_run] at h
  split_ifs at h with hfault
  · cases h
    exact ⟨hsaved, .inl ⟨rfl, fun hok => absurd (hfault.symm.trans hok.1) (by decide)⟩⟩
  have hfault : faults .insertBlob = false := by simpa using hfault
  simp only [Session.run_get_bind] at h
  split_ifs at h with hclash
  · cases h
    refine ⟨hsaved, .inl ⟨rfl, fun hnew => ?_⟩⟩
    obtain ⟨row, hrow, hsha | hkey | huuid⟩ := hclash
    · exact sameBlob_none hnone row hrow hsha
    · exact sameBlob_none hnone row hrow (sha_of_key hok hrow hkey)
    · exact hnew.2 row hrow huuid
  · cases h
    refine ⟨⟨rfl, rfl, .inr ⟨hneeds, rfl, rfl⟩⟩, .inr ⟨_, rfl, ⟨hfault, fun row hrow huuid =>
      hclash ⟨row, hrow, .inr (.inr huuid)⟩⟩, rfl, ?_, rfl, rfl, ?_⟩⟩
    · exact List.mem_append_right _ (List.mem_singleton_self _)
    · exact BlobWorld.saveBlob_isSome _ _

theorem updateBlobStorage_cases (hok : world.Ok) (hsome : file.sameBlob service world = some blob)
    (hneeds : needsCurrentStorage service world.files (file.sameBlob service world) = true)
    (h : (file.updateBlobStorage service faults blob).run (savedRun service file (start world)) =
      (r, run)) :
    Pending service file world run ∧
      ((r = .error () ∧ faults .insertBlob = true) ∨
        ∃ blob', r = .ok blob' ∧ faults .insertBlob = false ∧
          HasBlob service file world run blob') := by
  have hsaved : Pending service file world (savedRun service file (start world)) :=
    ⟨rfl, rfl, .inr ⟨hneeds, rfl, rfl⟩⟩
  obtain ⟨hmem, hsha⟩ := sameBlob_mem hsome
  unfold updateBlobStorage at h
  rw [failAt_run] at h
  split_ifs at h with hfault
  · cases h
    exact ⟨hsaved, .inl ⟨rfl, hfault⟩⟩
  have hfault : faults .insertBlob = false := by simpa using hfault
  simp only [Session.run_get_bind] at h
  split_ifs at h with hclash
  · -- another row would have the content of the file
    obtain ⟨row, hrow, hid, hkey⟩ := hclash
    obtain rfl := eq_sameBlob hok hsome hrow (sha_of_key hok hrow hkey)
    exact absurd rfl hid
  · cases h
    refine ⟨⟨rfl, rfl, .inr ⟨hneeds, rfl, rfl⟩⟩, .inr ⟨_, rfl, hfault, rfl, ?_, hsha, rfl, ?_⟩⟩
    · exact mem_update_self hmem
    · exact BlobWorld.saveBlob_isSome _ _

theorem storeBlob_cases (hok : world.Ok)
    (h : (file.storeBlob service faults (file.sameBlob service world)).run (start world) =
      (r, run)) :
    Pending service file world run ∧
      ((r = .error () ∧ ¬file.StoresBlob service faults world) ∨
        ∃ blob, r = .ok blob ∧ file.StoresBlob service faults world ∧
          HasBlob service file world run blob) := by
  have hstart : Pending service file world (start world) := ⟨rfl, rfl, .inl ⟨rfl, rfl⟩⟩
  unfold storeBlob at h
  simp only [Session.run_get_bind] at h
  rw [show (start world).world = world from rfl] at h
  split_ifs at h with hneeds
  · rw [saveBlob_run] at h
    split_ifs at h with hfault
    · cases h
      refine ⟨hstart, .inl ⟨rfl, fun hstores => ?_⟩⟩
      exact absurd (hfault.symm.trans (hstores hneeds).1) (by decide)
    have hfault : faults .saveBlob = false := by simpa using hfault
    cases hblob : file.sameBlob service world with
    | none =>
      rw [hblob] at h
      obtain ⟨hpending, ⟨hr, hnot⟩ | ⟨blob, hr, hnew, hhas⟩⟩ := createBlob_cases hok hblob h
      · refine ⟨hpending, .inl ⟨hr, fun hstores => hnot ?_⟩⟩
        exact ⟨(hstores hneeds).2.1, (hstores hneeds).2.2 hblob⟩
      · exact ⟨hpending, .inr ⟨blob, hr, fun _ => ⟨hfault, hnew.1, fun _ => hnew.2⟩, hhas⟩⟩
    | some blob =>
      rw [hblob] at h
      obtain ⟨hpending, ⟨hr, hnot⟩ | ⟨blob', hr, hnew, hhas⟩⟩ :=
        updateBlobStorage_cases hok hblob hneeds h
      · refine ⟨hpending, .inl ⟨hr, fun hstores => ?_⟩⟩
        exact absurd (hnot.symm.trans (hstores hneeds).2.1) (by decide)
      · refine ⟨hpending, .inr ⟨blob', hr, fun _ => ⟨hfault, hnew, fun hnone => ?_⟩, hhas⟩⟩
        rw [hblob] at hnone
        cases hnone
  · cases hblob : file.sameBlob service world with
    | none =>
      rw [hblob] at hneeds
      exact absurd rfl hneeds
    | some blob =>
      obtain ⟨hmem, hsha⟩ := sameBlob_mem hblob
      have hhere : ¬(blob.storageBackend ≠ service.backendName ∨
          (world.files.objects blob.storageKey).isNone) := by
        rw [hblob] at hneeds
        unfold needsCurrentStorage at hneeds
        simpa using hneeds
      rw [not_or, not_not] at hhere
      have hobject : (world.files.objects blob.storageKey).isSome :=
        Option.isSome_iff_ne_none.mpr fun hnone => hhere.2 (by rw [hnone]; rfl)
      rw [hblob] at h
      cases h
      exact ⟨hstart, .inr ⟨blob, rfl, fun hyes => absurd hyes hneeds, rfl, hmem, hsha, hhere.1,
        hobject⟩⟩

/-! ## The transaction -/

/-- The rows of the file, as some tables have them, with its object. -/
structure HasRows (service : FilesService) (file : FileUpload) (tables : UploadTables)
    (objects : StorageKey → Option String) (upload : Upload) (blob : StorageBlob) : Prop where
  upload_mem : upload ∈ tables.uploads
  uuid : upload.uploadUuid = file.uploadUuid
  blob_mem : blob ∈ tables.blobs
  blob_id : blob.id = upload.blobId
  sha : blob.sha256 = file.fileHash service
  backend : blob.storageBackend = service.backendName
  object : (objects blob.storageKey).isSome

theorem createUpload_cases {run run' : UploadRun} {r : Except Unit Upload}
    (hpending : Pending service file world run) (hhas : HasBlob service file world run blob)
    (h : (file.createUpload faults blob.id).run run = (r, run')) :
    Pending service file world run' ∧
      ((r = .error () ∧ ¬(faults .insertUpload = false ∧
          ∀ row ∈ world.files.tables.uploads, row.uploadUuid ≠ file.uploadUuid)) ∨
        ∃ upload, r = .ok upload ∧ (faults .insertUpload = false ∧
          ∀ row ∈ world.files.tables.uploads, row.uploadUuid ≠ file.uploadUuid) ∧
          HasRows service file run'.tables run'.world.files.objects upload blob) := by
  unfold createUpload at h
  rw [failAt_run] at h
  split_ifs at h with hfault
  · cases h
    exact ⟨hpending, .inl ⟨rfl, fun hok => absurd (hfault.symm.trans hok.1) (by decide)⟩⟩
  have hfault : faults .insertUpload = false := by simpa using hfault
  simp only [Session.run_get_bind, hhas.uploads] at h
  split_ifs at h with hclash
  · cases h
    refine ⟨hpending, .inl ⟨rfl, fun hnew => ?_⟩⟩
    obtain ⟨row, hrow, huuid⟩ := hclash
    exact hnew.2 row hrow huuid
  · cases h
    refine ⟨⟨hpending.tables, hpending.usage, hpending.saved⟩, .inr ⟨_, rfl,
      ⟨hfault, fun row hrow huuid => hclash ⟨row, hrow, huuid⟩⟩, ?_⟩⟩
    exact ⟨List.mem_append_right _ (List.mem_singleton_self _), rfl, hhas.mem, rfl, hhas.sha,
      hhas.backend, hhas.object⟩

/-- What the statements do: nothing is committed, or the rows are and the charge is or is
not. -/
theorem attempt_cases (hok : world.Ok) {charged : StorageDb → Prop}
    (hcharge : ∀ object, ∃ usage,
      (commitReservation file.reservationUuid object).run world.usage = (.ok (), usage) ∧
        charged usage)
    {r : Except Unit (Upload × StorageBlob)}
    (h : (file.attempt service faults (file.sameBlob service world)).run (start world) =
      (r, run)) :
    (r = .error () ∧ ¬file.Commits service faults world ∧ Pending service file world run) ∨
    (file.Commits service faults world ∧ ∃ upload blob,
      HasRows service file run.world.files.tables run.world.files.objects upload blob ∧
      (r = .error () ∧ faults .commitReservation = true ∨
        r = .ok (upload, blob) ∧ faults .commitReservation = false ∧
          charged run.world.usage)) := by
  unfold attempt at h
  obtain ⟨blob, run₁, hblob, h⟩ | ⟨_, hblob, rfl⟩ := Session.run_bind_cases h
  rotate_left
  · obtain ⟨hpending, ⟨-, hnot⟩ | ⟨_, hr, -⟩⟩ := storeBlob_cases hok hblob
    · exact .inl ⟨rfl, fun hcommits => hnot hcommits.1, hpending⟩
    · cases hr
  obtain ⟨hpending, ⟨hr, -⟩ | ⟨_, hr, hstores, hhas⟩⟩ := storeBlob_cases hok hblob
  · cases hr
  obtain rfl := Except.ok.inj hr
  obtain ⟨upload, run₂, hupload, h⟩ | ⟨_, hupload, rfl⟩ := Session.run_bind_cases h
  rotate_left
  · obtain ⟨hpending₂, ⟨-, hnot⟩ | ⟨_, hr, -⟩⟩ := createUpload_cases hpending hhas hupload
    · exact .inl ⟨rfl, fun hcommits => hnot ⟨hcommits.2.1, hcommits.2.2.1⟩, hpending₂⟩
    · cases hr
  obtain ⟨hpending₂, ⟨hr, -⟩ | ⟨_, hr, hnew, hrows⟩⟩ := createUpload_cases hpending hhas hupload
  · cases hr
  obtain rfl := Except.ok.inj hr
  unfold commit at h
  rw [bind_assoc, failAt_run] at h
  split_ifs at h with hcommit
  · cases h
    exact .inl ⟨rfl, fun hcommits => absurd (hcommit.symm.trans hcommits.2.2.2) (by decide),
      hpending₂⟩
  have hcommit : faults .commit = false := by simpa using hcommit
  have hcommits : file.Commits service faults world := ⟨hstores, hnew.1, hnew.2, hcommit⟩
  refine .inr ⟨hcommits, upload, blob, ?_⟩
  unfold commitUsage at h
  rw [Session.run_modify_bind, bind_assoc, failAt_run] at h
  split_ifs at h with hfault
  · cases h
    exact ⟨hrows, .inl ⟨rfl, hfault⟩⟩
  have hfault : faults .commitReservation = false := by simpa using hfault
  obtain ⟨usage, hrun, hcharged⟩ := hcharge
    ⟨some "upload", some upload.uploadUuid, some blob.storageKey.path⟩
  rw [← hpending₂.usage] at hrun
  simp only [bind_assoc, Session.run_get_bind, hrun] at h
  cases h
  exact ⟨hrows, .inr ⟨rfl, hfault, hcharged⟩⟩

/-! ## The upload -/

theorem undone_self (world : UploadWorld) : Undone service world world where
  uploads _ h := h
  blobs _ h := h
  released _ h := h
  values := .refl _
  objects _ _ _ h := h

/-- The clean-up leaves the objects of committed blobs alone. -/
theorem cleanUp_objects (hok : world.Ok) (h : Pending service file world run)
    (hrow : row ∈ world.files.tables.blobs) (hbackend : row.storageBackend = service.backendName)
    (hsome : (world.files.objects row.storageKey).isSome) :
    ((file.cleanUp faults run).files.objects row.storageKey).isSome := by
  unfold cleanUp
  rcases h.saved with ⟨hstored, hobjects⟩ | ⟨hneeds, hstored, hobjects⟩
  · simp only [hstored, hobjects]
    exact hsome
  · have hne := needs_unreferenced hok hneeds row hrow hbackend hsome
    have hkept : (run.world.files.objects row.storageKey).isSome := by
      rw [hobjects, BlobWorld.saveBlob_of_ne _ hne]
      exact hsome
    simp only [hstored]
    split_ifs
    · exact hkept
    · exact BlobsOk.deleteObjects_isSome.mpr ⟨fun hmem => hne (List.mem_singleton.mp hmem), hkept⟩

/-- What is committed before an upload that has reserved its bytes. -/
theorem cleanUp_undone {handle : StorageReservationHandle} {usage : StorageDb} (hok : world.Ok)
    (hreserve : (reserve file.reservationUuid (file.usageRequest service)).run world.usage =
      (.ok handle, usage))
    (h : Pending service file { world with usage } run) :
    Undone service world (file.cleanUp faults run) := by
  obtain ⟨usage', hrun, hvalues, hstatus⟩ := reserve_release hok.usage hreserve
  have husage : (file.cleanUp faults run).usage = usage' := by
    show ((releaseReservation file.reservationUuid).run run.world.usage).2 = usage'
    rw [h.usage, hrun]
  have htables : (file.cleanUp faults run).files.tables = world.files.tables := h.tables
  have hok' : UploadWorld.Ok { world with usage } :=
    ⟨hok.shas, hok.blobKeys, reserve_accounted hok.usage hreserve⟩
  exact {
    uploads := fun upload hupload => htables ▸ hupload
    blobs := fun blob hblob => htables ▸ hblob
    released := fun uuid huuid => by
      rw [husage, hstatus, Function.update_apply] at huuid
      split_ifs at huuid
      · cases huuid
      · exact huuid
    values := husage ▸ hvalues
    objects := fun blob hblob hbackend hsome =>
      cleanUp_objects hok' h (htables ▸ hblob) hbackend hsome }

/-- An upload does all of its work or none, unless the blob cannot be looked up or the
reservation not be committed once the rows are. -/
theorem uploadFile_atomic_iff (service : FilesService) (faults : UploadStep → Bool)
    (file : FileUpload) (world : UploadWorld) (hok : world.Ok) :
    file.Atomic service faults world ↔
      ¬(file.Reserves service faults world ∧ (faults .lookupBlob = true ∨
        file.Commits service faults world ∧ faults .commitReservation = true)) := by
  unfold Atomic uploadFile
  by_cases hname : file.filename = ""
  · rw [if_pos hname]
    exact iff_of_true (undone_self world) fun h => h.1.1 hname
  by_cases hallowed : service.allowedFile file.filename = false
  · rw [if_neg hname, if_pos hallowed]
    exact iff_of_true (undone_self world) fun h =>
      absurd (hallowed.symm.trans h.1.2.1) (by decide)
  by_cases hfault : faults .reserve = true
  · rw [if_neg hname, if_neg hallowed, if_pos hfault]
    exact iff_of_true (undone_self world) fun h =>
      absurd (hfault.symm.trans h.1.2.2.1) (by decide)
  rw [if_neg hname, if_neg hallowed, if_neg hfault]
  rcases hreserve : (reserve file.reservationUuid (file.usageRequest service)).run world.usage with
    ⟨e | handle, usage⟩
  · refine iff_of_true (undone_self world) fun h => ?_
    obtain ⟨handle, usage', hrun⟩ := (reserve_ok_iff _ _ _).mpr h.1.2.2.2
    rw [hreserve] at hrun
    cases hrun
  have hreserves : file.Reserves service faults world :=
    ⟨hname, by simpa using hallowed, by simpa using hfault,
      (reserve_ok_iff _ _ _).mp ⟨handle, usage, hreserve⟩⟩
  obtain ⟨-, hnew, hstatus⟩ := reserve_statusOf hreserve
  dsimp only
  by_cases hlookup : faults .lookupBlob = true
  · -- the reservation stays
    rw [if_pos hlookup]
    refine iff_of_false (fun h => ?_) (not_not.mpr ⟨hreserves, .inl hlookup⟩)
    have hheld := h.released file.reservationUuid (by
      show usage.statusOf _ = _
      rw [hstatus, Function.update_self])
    rw [hnew] at hheld
    cases hheld
  rw [if_neg hlookup]
  have hok' : UploadWorld.Ok { world with usage } :=
    ⟨hok.shas, hok.blobKeys, reserve_accounted hok.usage hreserve⟩
  have hcharge : ∀ object, ∃ usage',
      (commitReservation file.reservationUuid object).run usage = (.ok (), usage') ∧
        Charged (file.usageRequest service) world.usage usage' := by
    intro object
    obtain ⟨usage', hrun, hcharged, -⟩ := reserve_commit hok.usage hreserve object
    exact ⟨usage', hrun, hcharged⟩
  rcases hattempt : (file.attempt service faults (file.sameBlob service { world with usage })).run
    (start { world with usage }) with ⟨r, run⟩
  rw [show (file.attempt service faults (world.files.tables.blobs.find?
    (·.sha256 = file.fileHash service))).run ⟨{ world with usage }, world.files.tables, none⟩ =
      (r, run) from hattempt]
  obtain ⟨rfl, hnot, hpending⟩ | ⟨hcommits, upload, blob, hrows, ⟨rfl, hfault⟩ | ⟨rfl, hfault,
    hcharged⟩⟩ := attempt_cases hok' hcharge hattempt
  · refine iff_of_true (cleanUp_undone hok hreserve hpending) fun h => ?_
    exact h.2.elim hlookup fun h => hnot h.1
  · -- the rows are committed
    refine iff_of_false (fun h => ?_) (not_not.mpr ⟨hreserves, .inr ⟨hcommits, hfault⟩⟩)
    exact hcommits.2.2.1 upload (h.uploads upload hrows.upload_mem) hrows.uuid
  · refine iff_of_true ⟨⟨upload, hrows.upload_mem, rfl, blob, hrows.blob_mem, hrows.blob_id,
      hrows.sha, hrows.backend, hrows.object⟩, hcharged⟩ fun h => ?_
    exact h.2.elim hlookup fun h => absurd (hfault.symm.trans h.2) (by decide)

/-! ## A charge that fails -/

def emptyWorld : UploadWorld := ⟨BlobWorld.emptyFiles, emptyStorage⟩

def scanFile : FileUpload := ⟨1, "scan.pdf", "page", "u-1", "b-1", "r-1", 0⟩

/-- The commit of the reservation fails. -/
def chargeFails (step : UploadStep) : Bool := step = .commitReservation

theorem emptyWorld_ok : emptyWorld.Ok :=
  UploadWorld.ok_of_valid BlobWorld.emptyFiles_valid <| EmptyAccounts.accounted
    ⟨rfl, rfl, fun _ _ h => (nomatch h), fun _ _ h => (nomatch h)⟩

theorem uploadFile_atomic_scan :
    scanFile.Atomic BlobWorld.hashedFiles chargeFails emptyWorld ↔
      ¬(scanFile.Reserves BlobWorld.hashedFiles chargeFails emptyWorld ∧
        (chargeFails .lookupBlob = true ∨
          scanFile.Commits BlobWorld.hashedFiles chargeFails emptyWorld ∧
            chargeFails .commitReservation = true)) :=
  uploadFile_atomic_iff BlobWorld.hashedFiles chargeFails scanFile emptyWorld emptyWorld_ok

/-- The row stays, and its object is deleted. -/
theorem uploadFile_not_atomic :
    ¬ ∀ (service : FilesService) (faults : UploadStep → Bool) (file : FileUpload)
      (world : UploadWorld), world.Ok → file.Atomic service faults world := by
  intro hall
  have h := hall BlobWorld.hashedFiles chargeFails scanFile emptyWorld emptyWorld_ok
  have hraised : (scanFile.uploadFile BlobWorld.hashedFiles chargeFails emptyWorld).1 =
      .error (.fileSaveFailed "scan.pdf") := by decide +kernel
  have hrows : ((scanFile.uploadFile BlobWorld.hashedFiles chargeFails
      emptyWorld).2.files.tables.uploads.map (·.uploadUuid)) = ["u-1"] := by decide +kernel
  unfold Atomic at h
  rcases hrun : scanFile.uploadFile BlobWorld.hashedFiles chargeFails emptyWorld with ⟨r, world'⟩
  rw [hrun] at h hraised hrows
  obtain rfl : r = .error (.fileSaveFailed "scan.pdf") := hraised
  have hmem : "u-1" ∈ world'.files.tables.uploads.map (·.uploadUuid) := by
    rw [hrows]
    exact List.mem_singleton_self _
  obtain ⟨upload, hupload, -⟩ := List.mem_map.mp hmem
  exact absurd (h.uploads upload hupload) List.not_mem_nil

end FileUpload

end NoteVerse.Backend

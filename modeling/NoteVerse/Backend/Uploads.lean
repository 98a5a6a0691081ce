import NoteVerse.Backend.StorageUsage

/-!
# Uploads and their blobs

The rows of `db/models/file.py` with the rows that refer to them (the uploads
of an import, the input assets of a score), and what
`import_jobs/deletion_service.py` deletes when an import gives its binary
artifacts away: the uploads that nothing else refers to, and the blobs that
are left without an upload.

`UploadTables.Ok` holds what the constraints of the tables say.
-/

namespace NoteVerse.Backend

open Table

/-- The segments of the path of a stored object. -/
abbrev StorageKey := List String

def StorageKey.path (key : StorageKey) : String := "/".intercalate key

structure StorageBlob where
  id : Nat
  blobUuid : String
  sha256 : String
  storageBackend : String
  storageKey : StorageKey
  sizeBytes : Nat
  deriving DecidableEq, Repr

structure Upload where
  id : Nat
  uploadUuid : String
  blobId : Nat
  uploaderUserId : Option UserId
  createdAt : Int
  deriving DecidableEq, Repr

structure ImportJobUpload where
  id : Nat
  jobId : Nat
  uploadId : Nat
  pageNumber : Int
  sortOrder : Int
  deriving DecidableEq, Repr

structure ScoreInputAsset where
  assetUuid : String
  scoreId : Nat
  uploadId : Nat
  pageNumber : Option Int
  sortOrder : Int
  deriving DecidableEq, Repr

inductive ImportArtifactKind
  | reviewMusicxml | reviewPreviewImage
  deriving DecidableEq, Repr

structure ImportArtifact where
  artifactUuid : String
  jobId : Nat
  kind : ImportArtifactKind
  storageKey : StorageKey
  filename : String
  mimeType : Option String
  sizeBytes : Option Nat
  sha256 : Option String
  createdAt : Int
  deriving DecidableEq, Repr

structure UploadTables where
  blobs : List StorageBlob
  uploads : List Upload
  jobUploads : List ImportJobUpload
  inputAssets : List ScoreInputAsset
  artifacts : List ImportArtifact
  deriving DecidableEq, Repr

/-- What is released, and deleted from the object storage, after rows are. -/
structure StoredObjectCleanup where
  category : StorageUsageCategory
  objectType : String
  objectId : String
  storageKey : StorageKey
  bytesCount : Nat
  reason : String
  deleteStorage : Bool
  deriving DecidableEq, Repr

namespace UploadTables

variable (tables : UploadTables)

/-- The uploads of an import. -/
def linksOf (jobId : Nat) : List ImportJobUpload := tables.jobUploads.filter (·.jobId = jobId)

/-- The uploads of an import, joined with their rows and blobs. -/
def jobUploadRows (jobId : Nat) : List (ImportJobUpload × Upload × StorageBlob) :=
  (tables.linksOf jobId).filterMap fun link =>
    (find Upload.id link.uploadId tables.uploads).bind fun upload =>
      (find StorageBlob.id upload.blobId tables.blobs).map fun blob => (link, upload, blob)

/-- `_orphan_uploads_after_job_delete` -/
def orphanUploadsAfterJobDelete (jobId : Nat) : List (Upload × StorageBlob) :=
  ((tables.jobUploadRows jobId).map Prod.snd).filter fun row =>
    (tables.jobUploads.filter fun link => link.uploadId = row.1.id ∧ link.jobId ≠ jobId).length = 0 ∧
      (tables.inputAssets.filter fun asset => asset.uploadId = row.1.id).length = 0

/-- The blobs of uploads, each once. -/
def unseenBlobs (seen : List Nat) : List (Upload × StorageBlob) → List StorageBlob
  | [] => []
  | (_, blob) :: rows =>
    if blob.id ∈ seen then unseenBlobs seen rows
    else blob :: unseenBlobs (blob.id :: seen) rows

/-- How many uploads there are of a blob. -/
def blobRefCount (blobId : Nat) : Nat := (tables.uploads.filter (·.blobId = blobId)).length

/-- `_collect_delete_cleanup_objects` -/
def collectDeleteCleanupObjects (jobId : Nat) (orphanUploads : List (Upload × StorageBlob)) :
    List StoredObjectCleanup :=
  ((tables.artifacts.filter (·.jobId = jobId)).map fun artifact =>
    { category := .tempImport, objectType := "import_artifact"
      objectId := artifact.artifactUuid, storageKey := artifact.storageKey
      bytesCount := artifact.sizeBytes.getD 0, reason := "import_job_deleted"
      deleteStorage := true }) ++
  (orphanUploads.map fun (upload, blob) =>
    { category := .upload, objectType := "upload", objectId := upload.uploadUuid
      storageKey := blob.storageKey, bytesCount := blob.sizeBytes
      reason := "import_job_deleted", deleteStorage := false }) ++
  ((unseenBlobs [] orphanUploads).filter fun blob =>
    tables.blobRefCount blob.id ≤ (orphanUploads.filter (·.2.id = blob.id)).length).map fun blob =>
    { category := .upload, objectType := "storage_blob", objectId := blob.blobUuid
      storageKey := blob.storageKey, bytesCount := 0
      reason := "orphan_blob_deleted", deleteStorage := true }

/-- `_blob_ids_to_delete` -/
def blobIdsToDelete (orphanUploads : List (Upload × StorageBlob))
    (cleanupObjects : List StoredObjectCleanup) : List Nat :=
  (orphanUploads.filter fun (_, blob) => cleanupObjects.any fun item =>
    item.objectType = "storage_blob" ∧ item.objectId = blob.blobUuid).map (·.2.id)

/-- The rows that are left after orphans and blobs are deleted. -/
def deleteOrphans (orphanUploads : List (Upload × StorageBlob)) (blobIds : List Nat) :
    UploadTables :=
  { tables with
    uploads := tables.uploads.filter fun upload => upload.id ∉ orphanUploads.map (·.1.id)
    blobs := tables.blobs.filter fun blob => blob.id ∉ blobIds }

/-- The transaction of `cleanup_binary_artifacts`, with the objects that are
still to be released after it. -/
def cleanupBinaryArtifacts (jobId : Nat) : UploadTables × List StoredObjectCleanup :=
  let orphanUploads := tables.orphanUploadsAfterJobDelete jobId
  let cleanupObjects := tables.collectDeleteCleanupObjects jobId orphanUploads
  ({ tables with
      artifacts := tables.artifacts.filter (·.jobId ≠ jobId)
      jobUploads := tables.jobUploads.filter (·.jobId ≠ jobId) }.deleteOrphans orphanUploads
        (blobIdsToDelete orphanUploads cleanupObjects),
    cleanupObjects)

/-- The unique constraints and the foreign keys. -/
structure Ok : Prop where
  uploadIds : (tables.uploads.map (·.id)).Nodup
  blobIds : (tables.blobs.map (·.id)).Nodup
  blobUuids : (tables.blobs.map (·.blobUuid)).Nodup
  links : (tables.jobUploads.map fun link => (link.jobId, link.uploadId)).Nodup
  assets : (tables.inputAssets.map fun asset => (asset.scoreId, asset.uploadId)).Nodup
  linkUploads : ∀ link ∈ tables.jobUploads, ∃ upload ∈ tables.uploads, upload.id = link.uploadId
  assetUploads : ∀ asset ∈ tables.inputAssets, ∃ upload ∈ tables.uploads,
    upload.id = asset.uploadId
  uploadBlobs : ∀ upload ∈ tables.uploads, ∃ blob ∈ tables.blobs, blob.id = upload.blobId

variable {tables}

/-! ## What a cleanup deletes -/

theorem mem_jobUploadRows {jobId : Nat} {row : ImportJobUpload × Upload × StorageBlob}
    (h : row ∈ tables.jobUploadRows jobId) :
    row.1 ∈ tables.linksOf jobId ∧ row.2.1 ∈ tables.uploads ∧ row.2.1.id = row.1.uploadId ∧
      row.2.2 ∈ tables.blobs ∧ row.2.2.id = row.2.1.blobId := by
  obtain ⟨link, hlink, hrow⟩ := List.mem_filterMap.mp h
  obtain ⟨upload, hupload, hrow⟩ := Option.bind_eq_some_iff.mp hrow
  obtain ⟨blob, hblob, rfl⟩ := Option.map_eq_some_iff.mp hrow
  exact ⟨hlink, find_mem hupload, find_key hupload, find_mem hblob, find_key hblob⟩

/-- The foreign keys: the join drops no upload. -/
theorem Ok.jobUploadRows_links (h : tables.Ok) (jobId : Nat) :
    (tables.jobUploadRows jobId).map Prod.fst = tables.linksOf jobId := by
  unfold jobUploadRows
  have hall : ∀ links : List ImportJobUpload, links ⊆ tables.jobUploads →
      (links.filterMap fun link => (find Upload.id link.uploadId tables.uploads).bind fun upload =>
        (find StorageBlob.id upload.blobId tables.blobs).map fun blob => (link, upload, blob)).map
        Prod.fst = links := by
    intro links
    induction links with
    | nil => exact fun _ => rfl
    | cons link links ih =>
      intro hsub
      rw [List.cons_subset] at hsub
      obtain ⟨upload, hupload, hid⟩ := h.linkUploads link hsub.1
      obtain ⟨blob, hblob, hblobId⟩ := h.uploadBlobs upload hupload
      have hu : find Upload.id link.uploadId tables.uploads = some upload := by
        rw [← hid]
        exact find_of_mem h.uploadIds hupload
      have hb : find StorageBlob.id upload.blobId tables.blobs = some blob := by
        rw [← hblobId]
        exact find_of_mem h.blobIds hblob
      rw [List.filterMap_cons, hu, Option.bind_some, hb]
      exact congrArg _ (ih hsub.2)
  exact hall _ (List.filter_subset_self _)

theorem mem_orphanUploads {jobId : Nat} {row : Upload × StorageBlob}
    (h : row ∈ tables.orphanUploadsAfterJobDelete jobId) :
    row.1 ∈ tables.uploads ∧ row.2 ∈ tables.blobs ∧ row.2.id = row.1.blobId ∧
      (∀ link ∈ tables.jobUploads, link.uploadId = row.1.id → link.jobId = jobId) ∧
      ∀ asset ∈ tables.inputAssets, asset.uploadId ≠ row.1.id := by
  obtain ⟨hrow, hrefs⟩ := List.mem_filter.mp h
  obtain ⟨row₀, hrow₀, rfl⟩ := List.mem_map.mp hrow
  obtain ⟨-, hupload, -, hblob, hid⟩ := mem_jobUploadRows hrow₀
  rw [decide_eq_true_iff, List.length_eq_zero_iff, List.length_eq_zero_iff,
    List.filter_eq_nil_iff, List.filter_eq_nil_iff] at hrefs
  refine ⟨hupload, hblob, hid, fun link hlink e => ?_, fun asset hasset e => ?_⟩
  · by_contra hne
    exact hrefs.1 link hlink (decide_eq_true ⟨e, hne⟩)
  · exact hrefs.2 asset hasset (decide_eq_true e)

/-- No upload is linked to an import twice. -/
theorem Ok.links_nodup (h : tables.Ok) (jobId : Nat) :
    ((tables.linksOf jobId).map (·.uploadId)).Nodup := by
  have hpairs : ((tables.linksOf jobId).map fun link => (link.jobId, link.uploadId)).Nodup :=
    h.links.sublist (List.filter_sublist.map _)
  have hmap : (tables.linksOf jobId).map (fun link => (link.jobId, link.uploadId)) =
      ((tables.linksOf jobId).map (·.uploadId)).map fun uploadId => (jobId, uploadId) := by
    rw [List.map_map]
    refine List.map_congr_left fun link hlink => ?_
    have hjob := of_decide_eq_true (List.mem_filter.mp hlink).2
    simp only [Function.comp_apply, hjob]
  rw [hmap] at hpairs
  exact hpairs.of_map _

/-- No upload is an orphan twice. -/
theorem Ok.orphanUploads_nodup (h : tables.Ok) (jobId : Nat) :
    ((tables.orphanUploadsAfterJobDelete jobId).map (·.1.id)).Nodup := by
  have hlinks := h.links_nodup jobId
  have hrows : ((tables.jobUploadRows jobId).map fun row => row.2.1.id) =
      (tables.linksOf jobId).map (·.uploadId) := by
    rw [← h.jobUploadRows_links, List.map_map]
    exact List.map_congr_left fun row hrow => (mem_jobUploadRows hrow).2.2.1
  rw [← hrows] at hlinks
  refine hlinks.sublist ?_
  have hsub : (tables.orphanUploadsAfterJobDelete jobId).Sublist
      ((tables.jobUploadRows jobId).map Prod.snd) := List.filter_sublist
  simpa [List.map_map, Function.comp_def] using hsub.map (·.1.id)

/-- A blob with no more uploads than orphans is left without an upload. -/
theorem orphan_of_blobRefCount {orphanUploads : List (Upload × StorageBlob)}
    (hn : (orphanUploads.map (·.1.id)).Nodup)
    (hmem : ∀ row ∈ orphanUploads, row.1 ∈ tables.uploads ∧ row.2.id = row.1.blobId)
    {blobId : Nat}
    (hcount : tables.blobRefCount blobId ≤ (orphanUploads.filter (·.2.id = blobId)).length)
    {upload : Upload} (hupload : upload ∈ tables.uploads) (hid : upload.blobId = blobId) :
    upload ∈ orphanUploads.map (·.1) := by
  by_contra hnot
  -- the orphans of the blob are uploads of the blob other than this one
  have hsub : (orphanUploads.filter (·.2.id = blobId)).map (·.1) ⊆
      (tables.uploads.filter (·.blobId = blobId)).erase upload := by
    intro orphan horphan
    obtain ⟨row, hrow, rfl⟩ := List.mem_map.mp horphan
    obtain ⟨hrow, hblob⟩ := List.mem_filter.mp hrow
    obtain ⟨hup, hrowId⟩ := hmem row hrow
    have hne : row.1 ≠ upload := fun e => hnot (e ▸ List.mem_map_of_mem hrow)
    refine (List.mem_erase_of_ne hne).mpr (List.mem_filter.mpr ⟨hup, ?_⟩)
    simpa [← hrowId] using hblob
  have hnodup : ((orphanUploads.filter (·.2.id = blobId)).map (·.1)).Nodup := by
    have hids : ((orphanUploads.filter (·.2.id = blobId)).map (·.1.id)).Nodup :=
      hn.sublist (List.filter_sublist.map _)
    rw [show (orphanUploads.filter (·.2.id = blobId)).map (·.1.id) =
      ((orphanUploads.filter (·.2.id = blobId)).map (·.1)).map (·.id) by
        rw [List.map_map]; rfl] at hids
    exact hids.of_map _
  have hle := (hnodup.subperm hsub).length_le
  have hin : upload ∈ tables.uploads.filter (·.blobId = blobId) :=
    List.mem_filter.mpr ⟨hupload, decide_eq_true hid⟩
  rw [List.length_map, List.length_erase_of_mem hin] at hle
  have hpos := List.length_pos_of_mem hin
  rw [blobRefCount] at hcount
  omega

theorem mem_unseenBlobs {seen : List Nat} {rows : List (Upload × StorageBlob)}
    {blob : StorageBlob} (h : blob ∈ unseenBlobs seen rows) : blob ∈ rows.map (·.2) := by
  induction rows generalizing seen with
  | nil => cases h
  | cons row rows ih =>
    obtain ⟨upload, blob₀⟩ := row
    simp only [unseenBlobs] at h
    rw [List.map_cons, List.mem_cons]
    split_ifs at h
    · exact .inr (ih h)
    · rcases List.mem_cons.mp h with rfl | h
      · exact .inl rfl
      · exact .inr (ih h)

/-- The blobs that a cleanup deletes have no more uploads than orphans. -/
theorem Ok.blobRefCount_of_delete (h : tables.Ok) {jobId blobId : Nat}
    {orphanUploads : List (Upload × StorageBlob)}
    (hmem : ∀ row ∈ orphanUploads, row.2 ∈ tables.blobs)
    (hd : blobId ∈ blobIdsToDelete orphanUploads
      (tables.collectDeleteCleanupObjects jobId orphanUploads)) :
    tables.blobRefCount blobId ≤ (orphanUploads.filter (·.2.id = blobId)).length := by
  obtain ⟨row, hrow, rfl⟩ := List.mem_map.mp hd
  obtain ⟨hrow, hany⟩ := List.mem_filter.mp hrow
  obtain ⟨item, hitem, hprop⟩ := List.any_eq_true.mp hany
  obtain ⟨htype, hobject⟩ := of_decide_eq_true hprop
  simp only [collectDeleteCleanupObjects, List.mem_append, List.mem_map] at hitem
  rcases hitem with (⟨artifact, -, rfl⟩ | ⟨orphan, -, rfl⟩) | ⟨blob, hblob, rfl⟩
  · exact absurd htype (show "import_artifact" ≠ "storage_blob" by decide)
  · exact absurd htype (show "upload" ≠ "storage_blob" by decide)
  · obtain ⟨hblob, hcount⟩ := List.mem_filter.mp hblob
    obtain ⟨row', hrow', rfl⟩ := List.mem_map.mp (mem_unseenBlobs hblob)
    have heq : row'.2 = row.2 :=
      List.inj_on_of_nodup_map h.blobUuids (hmem row' hrow') (hmem row hrow) hobject
    rw [← heq]
    exact of_decide_eq_true hcount

/-- What a cleanup deletes from the storage are artifacts and blobs. -/
theorem cleanupObjects_storageKey {jobId : Nat} {item : StoredObjectCleanup}
    (h : item ∈ (tables.cleanupBinaryArtifacts jobId).2) :
    (∃ artifact ∈ tables.artifacts, artifact.storageKey = item.storageKey) ∨
      ∃ blob ∈ tables.blobs, blob.storageKey = item.storageKey := by
  simp only [UploadTables.cleanupBinaryArtifacts, collectDeleteCleanupObjects, List.mem_append,
    List.mem_map] at h
  rcases h with (⟨artifact, hartifact, rfl⟩ | ⟨row, hrow, rfl⟩) | ⟨blob, hblob, rfl⟩
  · exact .inl ⟨artifact, List.mem_of_mem_filter hartifact, rfl⟩
  · exact .inr ⟨row.2, (mem_orphanUploads hrow).2.1, rfl⟩
  · obtain ⟨row, hrow, rfl⟩ := List.mem_map.mp (mem_unseenBlobs (List.mem_of_mem_filter hblob))
    exact .inr ⟨row.2, (mem_orphanUploads hrow).2.1, rfl⟩

theorem Ok.cleanupBinaryArtifacts (h : tables.Ok) (jobId : Nat) :
    (tables.cleanupBinaryArtifacts jobId).1.Ok := by
  have hn := h.orphanUploads_nodup jobId
  have hmem : ∀ row ∈ tables.orphanUploadsAfterJobDelete jobId, _ :=
    fun row hrow => mem_orphanUploads hrow
  -- an upload that something else refers to is no orphan
  have hkept : ∀ upload ∈ tables.uploads,
      (∃ link ∈ tables.jobUploads, link.jobId ≠ jobId ∧ link.uploadId = upload.id) ∨
        (∃ asset ∈ tables.inputAssets, asset.uploadId = upload.id) →
      upload.id ∉ (tables.orphanUploadsAfterJobDelete jobId).map (·.1.id) := by
    intro upload hupload href horphan
    obtain ⟨row, hrow, hid⟩ := List.mem_map.mp horphan
    obtain ⟨-, -, -, hlinks, hassets⟩ := hmem row hrow
    rcases href with ⟨link, hlink, hjob, he⟩ | ⟨asset, hasset, he⟩
    · exact hjob (hlinks link hlink (he.trans hid.symm))
    · exact hassets asset hasset (he.trans hid.symm)
  constructor
  · exact h.uploadIds.sublist (List.filter_sublist.map _)
  · exact h.blobIds.sublist (List.filter_sublist.map _)
  · exact h.blobUuids.sublist (List.filter_sublist.map _)
  · exact h.links.sublist (List.filter_sublist.map _)
  · exact h.assets
  · intro link hlink
    obtain ⟨hlink, hjob⟩ := List.mem_filter.mp hlink
    obtain ⟨upload, hupload, hid⟩ := h.linkUploads link hlink
    refine ⟨upload, List.mem_filter.mpr ⟨hupload, decide_eq_true ?_⟩, hid⟩
    exact hkept upload hupload (.inl ⟨link, hlink, of_decide_eq_true hjob, hid.symm⟩)
  · intro asset hasset
    obtain ⟨upload, hupload, hid⟩ := h.assetUploads asset hasset
    refine ⟨upload, List.mem_filter.mpr ⟨hupload, decide_eq_true ?_⟩, hid⟩
    exact hkept upload hupload (.inr ⟨asset, hasset, hid.symm⟩)
  · intro upload hupload
    obtain ⟨hupload, hnot⟩ := List.mem_filter.mp hupload
    obtain ⟨blob, hblob, hid⟩ := h.uploadBlobs upload hupload
    refine ⟨blob, List.mem_filter.mpr ⟨hblob, decide_eq_true fun hd => ?_⟩, hid⟩
    have hcount := h.blobRefCount_of_delete (fun row hrow => (hmem row hrow).2.1) hd
    have horphan := orphan_of_blobRefCount hn
      (fun row hrow => ⟨(hmem row hrow).1, (hmem row hrow).2.2.1⟩) hcount hupload hid.symm
    obtain ⟨row, hrow, rfl⟩ := List.mem_map.mp horphan
    exact of_decide_eq_true hnot (List.mem_map.mpr ⟨row, hrow, rfl⟩)

end UploadTables

end NoteVerse.Backend

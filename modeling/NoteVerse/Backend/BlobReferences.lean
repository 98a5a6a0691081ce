import NoteVerse.Backend.Blobs
import NoteVerse.Lib.Lists

/-!
# A blob has an upload

A deletion is right if what it deletes are uploads that nothing refers to and
exactly the blobs that are left without one (`Flushable`); it then keeps
`BlobsOk` (`BlobsOk.flush`). The deletion of an upload and of an import are
always right. The two loops of the cleanup of a score and the maintenance count
uploads whose deletion is pending, so they are right if of two such uploads of
one blob another one stays (`Separate`), or, for the maintenance, a commit comes
between them (`Prompt`).
-/

namespace NoteVerse.Backend

open Table Transition

namespace UploadTables

variable {tables : UploadTables} {pending : PendingDeletes}

/-- Each blob has an upload. -/
def Referenced (tables : UploadTables) : Prop :=
  ∀ blob ∈ tables.blobs, ∃ upload ∈ tables.uploads, upload.blobId = blob.id

/-- What may be deleted at once. -/
structure Flushable (tables : UploadTables) (pending : PendingDeletes) : Prop where
  links : ∀ link ∈ tables.jobUploads, link.uploadId ∉ pending.uploads
  assets : ∀ asset ∈ tables.inputAssets, asset.uploadId ∉ pending.uploads
  blobs : ∀ blob ∈ tables.blobs, blob.id ∈ pending.blobs ↔
    ∀ upload ∈ tables.uploads, upload.blobId = blob.id → upload.id ∈ pending.uploads

theorem mem_flush_uploads {upload : Upload} :
    upload ∈ (tables.flush pending).uploads ↔
      upload ∈ tables.uploads ∧ upload.id ∉ pending.uploads := by
  simp [flush, List.mem_filter]

theorem mem_flush_blobs {blob : StorageBlob} :
    blob ∈ (tables.flush pending).blobs ↔ blob ∈ tables.blobs ∧ blob.id ∉ pending.blobs := by
  simp [flush, List.mem_filter]

theorem flush_flush (pending pending' : PendingDeletes) :
    (tables.flush pending).flush pending' = tables.flush
      ⟨pending.uploads ++ pending'.uploads, pending.blobs ++ pending'.blobs⟩ := by
  simp only [flush, List.filter_filter, List.mem_append, not_or, Bool.decide_and]
  simp only [Bool.and_comm]

theorem flush_congr {pending' : PendingDeletes}
    (huploads : ∀ id, id ∈ pending.uploads ↔ id ∈ pending'.uploads)
    (hblobs : ∀ id, id ∈ pending.blobs ↔ id ∈ pending'.blobs) :
    tables.flush pending = tables.flush pending' := by
  simp only [flush, huploads, hblobs]

theorem not_mem_of_importRefs {uploadId : Nat} (h : tables.importRefs uploadId = 0) :
    ∀ link ∈ tables.jobUploads, link.uploadId ≠ uploadId := by
  intro link hlink e
  rw [importRefs, List.length_eq_zero_iff, List.filter_eq_nil_iff] at h
  exact h link hlink (decide_eq_true e)

theorem not_mem_of_inputRefs {uploadId : Nat} (h : tables.inputRefs uploadId = 0) :
    ∀ asset ∈ tables.inputAssets, asset.uploadId ≠ uploadId := by
  intro asset hasset e
  rw [inputRefs, List.length_eq_zero_iff, List.filter_eq_nil_iff] at h
  exact h asset hasset (decide_eq_true e)

theorem Ok.flush (h : tables.Ok) (hf : tables.Flushable pending) : (tables.flush pending).Ok where
  uploadIds := h.uploadIds.sublist (List.filter_sublist.map _)
  blobIds := h.blobIds.sublist (List.filter_sublist.map _)
  blobUuids := h.blobUuids.sublist (List.filter_sublist.map _)
  links := h.links
  assets := h.assets
  linkUploads link hlink := by
    obtain ⟨upload, hupload, hid⟩ := h.linkUploads link hlink
    exact ⟨upload, mem_flush_uploads.mpr ⟨hupload, hid ▸ hf.links link hlink⟩, hid⟩
  assetUploads asset hasset := by
    obtain ⟨upload, hupload, hid⟩ := h.assetUploads asset hasset
    exact ⟨upload, mem_flush_uploads.mpr ⟨hupload, hid ▸ hf.assets asset hasset⟩, hid⟩
  uploadBlobs upload hupload := by
    obtain ⟨hupload, hkept⟩ := mem_flush_uploads.mp hupload
    obtain ⟨blob, hblob, hid⟩ := h.uploadBlobs upload hupload
    refine ⟨blob, mem_flush_blobs.mpr ⟨hblob, fun hd => hkept ?_⟩, hid⟩
    exact (hf.blobs blob hblob).mp hd upload hupload hid.symm

theorem Flushable.referenced (hf : tables.Flushable pending) :
    (tables.flush pending).Referenced := by
  intro blob hblob
  obtain ⟨hblob, hkept⟩ := mem_flush_blobs.mp hblob
  by_contra hnone
  refine hkept ((hf.blobs blob hblob).mpr fun upload hupload hid => ?_)
  by_contra hnot
  exact hnone ⟨upload, mem_flush_uploads.mpr ⟨hupload, hnot⟩, hid⟩

end UploadTables

/-! ## Blobs and their objects -/

/-- The constraints, an upload for each blob, and the objects of blobs. -/
structure BlobsOk (service : FilesService) (tables : UploadTables)
    (objects : StorageKey → Option String) : Prop where
  ok : tables.Ok
  referenced : tables.Referenced
  shas : (tables.blobs.map (·.sha256)).Nodup
  keys : (tables.blobs.map (·.storageKey)).Nodup
  blobKeys : ∀ blob ∈ tables.blobs, '.' ∉ blob.sha256.toList ∧
    ∃ extension, blob.storageKey = blobKey blob.sha256 ("." ++ extension)
  backend : ∀ blob ∈ tables.blobs, blob.storageBackend = service.backendName
  objects : ∀ key : StorageKey, key.IsBlob →
    ((objects key).isSome ↔ ∃ blob ∈ tables.blobs, blob.storageKey = key)
  artifactKeys : ∀ artifact ∈ tables.artifacts, ¬artifact.storageKey.IsBlob

namespace BlobsOk

variable {service : FilesService} {tables : UploadTables} {objects : StorageKey → Option String}
  {pending : PendingDeletes} {keys : List StorageKey}

variable {blob : StorageBlob} {rows : List (Upload × StorageBlob)} {blobId : Nat}

theorem isBlob (h : BlobsOk service tables objects) (hblob : blob ∈ tables.blobs) :
    blob.storageKey.IsBlob := by
  obtain ⟨-, extension, hkey⟩ := h.blobKeys blob hblob
  rw [hkey]
  rfl

theorem deleteObjects_isSome {key : StorageKey} :
    (deleteObjects objects keys key).isSome ↔ key ∉ keys ∧ (objects key).isSome := by
  unfold deleteObjects
  split_ifs with h
  · simp [h]
  · simp [h]

/-- Uploads and their blobs are deleted, and the objects of these. -/
theorem flush (h : BlobsOk service tables objects) (hf : tables.Flushable pending)
    (hk : ∀ key : StorageKey, key.IsBlob → (key ∈ keys ↔
      ∃ blob ∈ tables.blobs, blob.id ∈ pending.blobs ∧ blob.storageKey = key)) :
    BlobsOk service (tables.flush pending) (deleteObjects objects keys) where
  ok := h.ok.flush hf
  referenced := hf.referenced
  shas := h.shas.sublist (List.filter_sublist.map _)
  keys := h.keys.sublist (List.filter_sublist.map _)
  blobKeys blob hblob := h.blobKeys blob (List.mem_of_mem_filter hblob)
  backend blob hblob := h.backend blob (List.mem_of_mem_filter hblob)
  objects key hkey := by
    rw [deleteObjects_isSome, h.objects key hkey, hk key hkey]
    constructor
    · rintro ⟨hkept, blob, hblob, rfl⟩
      refine ⟨blob, UploadTables.mem_flush_blobs.mpr ⟨hblob, fun hd => hkept ?_⟩, rfl⟩
      exact ⟨blob, hblob, hd, rfl⟩
    · rintro ⟨blob, hblob, rfl⟩
      obtain ⟨hblob, hkept⟩ := UploadTables.mem_flush_blobs.mp hblob
      refine ⟨?_, blob, hblob, rfl⟩
      rintro ⟨blob', hblob', hd, he⟩
      rw [List.inj_on_of_nodup_map h.keys hblob' hblob he] at hd
      exact hkept hd
  artifactKeys := h.artifactKeys

/-- What refers to uploads changes. -/
theorem refer (h : BlobsOk service tables objects) {tables' : UploadTables} (hok : tables'.Ok)
    (hblobs : tables'.blobs = tables.blobs) (huploads : tables'.uploads = tables.uploads)
    (ha : ∀ artifact ∈ tables'.artifacts, ¬artifact.storageKey.IsBlob) :
    BlobsOk service tables' objects := by
  obtain ⟨-, hreferenced, hshas, hkeys, hblobKeys, hbackend, hobjects, -⟩ := h
  unfold UploadTables.Referenced at hreferenced
  rw [← hblobs, ← huploads] at hreferenced
  rw [← hblobs] at hshas hkeys hblobKeys hbackend hobjects
  exact ⟨hok, hreferenced, hshas, hkeys, hblobKeys, hbackend, hobjects, ha⟩

/-- The same for a list of the blobs that are left without an upload. -/
theorem flushBlobs (h : BlobsOk service tables objects)
    (hlinks : ∀ link ∈ tables.jobUploads, link.uploadId ∉ pending.uploads)
    (hassets : ∀ asset ∈ tables.inputAssets, asset.uploadId ∉ pending.uploads)
    {blobs : List StorageBlob} (hmem : ∀ blob ∈ blobs, blob ∈ tables.blobs)
    (hempty : ∀ blob ∈ tables.blobs, blob ∈ blobs ↔
      ∀ upload ∈ tables.uploads, upload.blobId = blob.id → upload.id ∈ pending.uploads)
    (hids : ∀ blobId, blobId ∈ pending.blobs ↔ ∃ blob ∈ blobs, blob.id = blobId)
    (hkeys : ∀ key : StorageKey, key.IsBlob →
      (key ∈ keys ↔ ∃ blob ∈ blobs, blob.storageKey = key)) :
    BlobsOk service (tables.flush pending) (deleteObjects objects keys) := by
  have hsame : ∀ blob ∈ tables.blobs, blob.id ∈ pending.blobs ↔ blob ∈ blobs := by
    intro blob hblob
    rw [hids]
    constructor
    · rintro ⟨blob', hblob', hid⟩
      rwa [← List.inj_on_of_nodup_map h.ok.blobIds (hmem blob' hblob') hblob hid]
    · exact fun hd => ⟨blob, hd, rfl⟩
  refine h.flush ⟨hlinks, hassets, fun blob hblob => ?_⟩ fun key hkey => ?_
  · rw [hsame blob hblob, hempty blob hblob]
  · rw [hkeys key hkey]
    constructor
    · rintro ⟨blob, hd, rfl⟩
      exact ⟨blob, hmem blob hd, (hsame blob (hmem blob hd)).mpr hd, rfl⟩
    · rintro ⟨blob, hblob, hd, rfl⟩
      exact ⟨blob, (hsame blob hblob).mp hd, rfl⟩

/-! ## The deletion of an import -/

theorem withoutJob (h : BlobsOk service tables objects) (jobId : ImportJobId) :
    BlobsOk service (tables.withoutJob jobId) objects := by
  refine h.refer ?_ rfl rfl fun artifact hartifact =>
    h.artifactKeys artifact (List.mem_of_mem_filter hartifact)
  exact { h.ok with
    links := h.ok.links.sublist (List.filter_sublist.map _)
    linkUploads := fun link hlink => h.ok.linkUploads link (List.mem_of_mem_filter hlink) }

/-- The uploads of a deleted import that nothing else refers to. -/
theorem orphans_unreferenced (tables : UploadTables) (jobId : ImportJobId) :
    (∀ link ∈ (tables.withoutJob jobId).jobUploads,
      link.uploadId ∉ (tables.orphanUploadsAfterJobDelete jobId).map (·.1.id)) ∧
    ∀ asset ∈ tables.inputAssets,
      asset.uploadId ∉ (tables.orphanUploadsAfterJobDelete jobId).map (·.1.id) := by
  constructor
  · intro link hlink horphan
    obtain ⟨row, hrow, hid⟩ := List.mem_map.mp horphan
    obtain ⟨hlink, hjob⟩ := List.mem_filter.mp hlink
    exact of_decide_eq_true hjob
      ((UploadTables.mem_orphanUploads hrow).2.2.2.1 link hlink hid.symm)
  · intro asset hasset horphan
    obtain ⟨row, hrow, hid⟩ := List.mem_map.mp horphan
    exact (UploadTables.mem_orphanUploads hrow).2.2.2.2 asset hasset hid.symm

/-- Each blob of some uploads is met. -/
theorem exists_unseenBlobs {seen : List Nat} {row : Upload × StorageBlob} (hrow : row ∈ rows)
    (hseen : row.2.id ∉ seen) :
    ∃ blob ∈ UploadTables.unseenBlobs seen rows, blob.id = row.2.id := by
  induction rows generalizing seen with
  | nil => exact absurd hrow List.not_mem_nil
  | cons first rows ih =>
    obtain ⟨upload, blob⟩ := first
    simp only [UploadTables.unseenBlobs]
    rcases List.mem_cons.mp hrow with rfl | hrow
    · rw [if_neg hseen]
      exact ⟨blob, List.mem_cons_self, rfl⟩
    · split_ifs with hblob
      · exact ih hrow hseen
      · by_cases hid : row.2.id = blob.id
        · exact ⟨blob, List.mem_cons_self, hid.symm⟩
        · have hseen' : row.2.id ∉ blob.id :: seen :=
            fun hmem => (List.mem_cons.mp hmem).elim hid hseen
          obtain ⟨blob', hblob', hid'⟩ := ih hrow hseen'
          exact ⟨blob', List.mem_cons_of_mem _ hblob', hid'⟩

/-- The blobs that the deletion of an import deletes. -/
def importBlobs (tables : UploadTables) (rows : List (Upload × StorageBlob)) :
    List StorageBlob :=
  (UploadTables.unseenBlobs [] rows).filter fun blob =>
    tables.blobRefCount blob.id ≤ (rows.filter (·.2.id = blob.id)).length

theorem mem_collect {jobId : ImportJobId} {item : StoredObjectCleanup}
    (hstorage : item.deleteStorage) (h : item ∈ tables.collectDeleteCleanupObjects jobId rows) :
    (∃ artifact ∈ tables.artifacts, item.objectType = "import_artifact" ∧
      item.storageKey = artifact.storageKey) ∨
    ∃ blob ∈ importBlobs tables rows, item.objectType = "storage_blob" ∧
      item.objectId = blob.blobUuid ∧ item.storageKey = blob.storageKey := by
  simp only [UploadTables.collectDeleteCleanupObjects, List.mem_append, List.mem_map] at h
  rcases h with (⟨artifact, hartifact, rfl⟩ | ⟨row, hrow, rfl⟩) | ⟨blob, hblob, rfl⟩
  · exact .inl ⟨artifact, List.mem_of_mem_filter hartifact, rfl, rfl⟩
  · exact absurd hstorage (show ¬(false = true) by decide)
  · exact .inr ⟨blob, hblob, rfl, rfl, rfl⟩

theorem blobItem_mem (jobId : ImportJobId) (h : blob ∈ importBlobs tables rows) :
    ∃ item ∈ tables.collectDeleteCleanupObjects jobId rows, item.deleteStorage ∧
      item.objectType = "storage_blob" ∧ item.objectId = blob.blobUuid ∧
      item.storageKey = blob.storageKey := by
  refine ⟨_, List.mem_append_right _ (List.mem_map_of_mem h), rfl, rfl, rfl, rfl⟩

theorem mem_blobIdsToDelete (hok : tables.Ok) {jobId : ImportJobId}
    (hrows : ∀ row ∈ rows, row.2 ∈ tables.blobs) :
    blobId ∈ UploadTables.blobIdsToDelete rows (tables.collectDeleteCleanupObjects jobId rows) ↔
      ∃ blob ∈ importBlobs tables rows, blob.id = blobId := by
  have hmem : ∀ blob ∈ importBlobs tables rows, ∃ row ∈ rows, row.2 = blob := fun blob hblob =>
    List.mem_map.mp (UploadTables.mem_unseenBlobs (List.mem_of_mem_filter hblob))
  constructor
  · intro hd
    obtain ⟨row, hrow, rfl⟩ := List.mem_map.mp hd
    obtain ⟨hrow, hany⟩ := List.mem_filter.mp hrow
    obtain ⟨item, hitem, hprop⟩ := List.any_eq_true.mp hany
    obtain ⟨htype, hobject⟩ := of_decide_eq_true hprop
    simp only [UploadTables.collectDeleteCleanupObjects, List.mem_append, List.mem_map] at hitem
    rcases hitem with (⟨artifact, -, rfl⟩ | ⟨orphan, -, rfl⟩) | ⟨blob, hblob, rfl⟩
    · exact absurd htype (show "import_artifact" ≠ "storage_blob" by decide)
    · exact absurd htype (show "upload" ≠ "storage_blob" by decide)
    · obtain ⟨row', hrow', hsame⟩ := hmem blob hblob
      have heq : blob = row.2 :=
        List.inj_on_of_nodup_map hok.blobUuids (hsame ▸ hrows row' hrow') (hrows row hrow) hobject
      exact ⟨blob, hblob, congrArg StorageBlob.id heq⟩
  · rintro ⟨blob, hblob, rfl⟩
    obtain ⟨row, hrow, rfl⟩ := hmem blob hblob
    obtain ⟨item, hitem, -, htype, hobject, -⟩ := blobItem_mem jobId hblob
    refine List.mem_map.mpr ⟨row, List.mem_filter.mpr ⟨hrow, ?_⟩, rfl⟩
    exact List.any_eq_true.mpr ⟨item, hitem, decide_eq_true ⟨htype, hobject⟩⟩

/-- A blob is deleted with an import exactly if all its uploads are. -/
theorem mem_importBlobs (h : BlobsOk service tables objects) (jobId : ImportJobId)
    (hblob : blob ∈ tables.blobs) :
    blob ∈ importBlobs tables (tables.orphanUploadsAfterJobDelete jobId) ↔
      ∀ upload ∈ tables.uploads, upload.blobId = blob.id →
        upload.id ∈ (tables.orphanUploadsAfterJobDelete jobId).map (·.1.id) := by
  have hrow : ∀ row ∈ tables.orphanUploadsAfterJobDelete jobId, _ :=
    fun row hrow => UploadTables.mem_orphanUploads hrow
  constructor
  · intro hd upload hupload hid
    have hcount := of_decide_eq_true (List.mem_filter.mp hd).2
    have horphan := UploadTables.orphan_of_blobRefCount (h.ok.orphanUploads_nodup jobId)
      (fun row hr => ⟨(hrow row hr).1, (hrow row hr).2.2.1⟩) hcount hupload hid
    obtain ⟨row, hr, rfl⟩ := List.mem_map.mp horphan
    exact List.mem_map.mpr ⟨row, hr, rfl⟩
  · intro hall
    -- each upload of the blob is an orphan, with this blob
    have horphan : ∀ upload ∈ tables.uploads, upload.blobId = blob.id →
        (upload, blob) ∈ tables.orphanUploadsAfterJobDelete jobId := by
      intro upload hupload hid
      obtain ⟨row, hr, hrowId⟩ := List.mem_map.mp (hall upload hupload hid)
      obtain ⟨hrowUpload, hrowBlob, hrowBlobId, -⟩ := hrow row hr
      have h₁ : row.1 = upload :=
        List.inj_on_of_nodup_map h.ok.uploadIds hrowUpload hupload hrowId
      have h₂ : row.2 = blob := by
        refine List.inj_on_of_nodup_map h.ok.blobIds hrowBlob hblob ?_
        rw [hrowBlobId, h₁, hid]
      rw [← h₁, ← h₂]
      exact hr
    obtain ⟨upload, hupload, hid⟩ := h.referenced blob hblob
    obtain ⟨blob', hblob', hid'⟩ :=
      exists_unseenBlobs (horphan upload hupload hid) List.not_mem_nil
    obtain ⟨row, hr, rfl⟩ := List.mem_map.mp (UploadTables.mem_unseenBlobs hblob')
    have hsame : row.2 = blob := List.inj_on_of_nodup_map h.ok.blobIds (hrow row hr).2.1 hblob hid'
    refine List.mem_filter.mpr ⟨hsame ▸ hblob', decide_eq_true ?_⟩
    have hnodup : (tables.uploads.filter (·.blobId = blob.id)).Nodup :=
      (h.ok.uploadIds.of_map _).filter _
    have hsub : tables.uploads.filter (·.blobId = blob.id) ⊆
        ((tables.orphanUploadsAfterJobDelete jobId).filter (·.2.id = blob.id)).map (·.1) := by
      intro upload hupload
      obtain ⟨hupload, hid⟩ := List.mem_filter.mp hupload
      refine List.mem_map.mpr ⟨(upload, blob), List.mem_filter.mpr ⟨?_, decide_eq_true rfl⟩, rfl⟩
      exact horphan upload hupload (of_decide_eq_true hid)
    have hle := (hnodup.subperm hsub).length_le
    rwa [List.length_map] at hle

theorem cleanupBinaryArtifacts (h : BlobsOk service tables objects) (jobId : ImportJobId) :
    BlobsOk service (tables.cleanupBinaryArtifacts jobId).1 (deleteObjects objects
      (((tables.cleanupBinaryArtifacts jobId).2.filter (·.deleteStorage)).map (·.storageKey))) := by
  have hrows : ∀ row ∈ tables.orphanUploadsAfterJobDelete jobId, row.2 ∈ tables.blobs :=
    fun row hrow => (UploadTables.mem_orphanUploads hrow).2.1
  obtain ⟨hlinks, hassets⟩ := orphans_unreferenced tables jobId
  let pending : PendingDeletes := ⟨(tables.orphanUploadsAfterJobDelete jobId).map (·.1.id),
    UploadTables.blobIdsToDelete (tables.orphanUploadsAfterJobDelete jobId)
      (tables.collectDeleteCleanupObjects jobId (tables.orphanUploadsAfterJobDelete jobId))⟩
  show BlobsOk service ((tables.withoutJob jobId).flush pending) _
  refine (h.withoutJob jobId).flushBlobs hlinks hassets (fun blob hblob => ?_)
    (fun blob hblob => h.mem_importBlobs jobId hblob)
    (fun blobId => mem_blobIdsToDelete h.ok hrows) fun key hkey => ?_
  · obtain ⟨row, hrow, rfl⟩ :=
      List.mem_map.mp (UploadTables.mem_unseenBlobs (List.mem_of_mem_filter hblob))
    exact hrows row hrow
  · constructor
    · intro hd
      obtain ⟨item, hitem, rfl⟩ := List.mem_map.mp hd
      obtain ⟨hitem, hstorage⟩ := List.mem_filter.mp hitem
      rcases mem_collect hstorage hitem with
        ⟨artifact, hartifact, -, hsame⟩ | ⟨blob, hblob, -, -, hsame⟩
      · rw [hsame] at hkey
        exact absurd hkey (h.artifactKeys artifact hartifact)
      · exact ⟨blob, hblob, hsame.symm⟩
    · rintro ⟨blob, hblob, rfl⟩
      obtain ⟨item, hitem, hstorage, -, -, hsame⟩ := blobItem_mem jobId hblob
      exact List.mem_map.mpr ⟨item, List.mem_filter.mpr ⟨hitem, hstorage⟩, hsame⟩

/-! ## The deletion of an upload -/

/-- One upload that nothing refers to is deleted, with its blob if it is the
last one. -/
theorem flushUpload (h : BlobsOk service tables objects) {upload : Upload}
    (hupload : upload ∈ tables.uploads) (hblob : blob ∈ tables.blobs)
    (hid : blob.id = upload.blobId) (hlinks : ∀ link ∈ tables.jobUploads, link.uploadId ≠ upload.id)
    (hassets : ∀ asset ∈ tables.inputAssets, asset.uploadId ≠ upload.id) {last : Prop}
    [Decidable last]
    (hlast : last ↔ ∀ other ∈ tables.uploads, other.blobId = blob.id → other = upload) :
    BlobsOk service (tables.flush ⟨[upload.id], if last then [blob.id] else []⟩)
      (deleteObjects objects (if last then [blob.storageKey] else [])) := by
  have hself : ∀ other ∈ tables.uploads, other.id ∈ [upload.id] ↔ other = upload := by
    intro other hother
    rw [List.mem_singleton]
    exact ⟨List.inj_on_of_nodup_map h.ok.uploadIds hother hupload, congrArg Upload.id⟩
  have hblobs : ∀ blob' ∈ tables.blobs, blob' ∈ (if last then [blob] else []) ↔
      ∀ other ∈ tables.uploads, other.blobId = blob'.id → other.id ∈ [upload.id] := by
    intro blob' hblob'
    constructor
    · intro hmem other hother hother'
      split_ifs at hmem with hl
      · rw [List.mem_singleton.mp hmem] at hother'
        exact (hself other hother).mpr (hlast.mp hl other hother hother')
      · exact absurd hmem List.not_mem_nil
    · intro hall
      obtain ⟨other, hother, hother'⟩ := h.referenced blob' hblob'
      have hsame : blob' = blob := by
        refine List.inj_on_of_nodup_map h.ok.blobIds hblob' hblob ?_
        rw [hid, ← (hself other hother).mp (hall other hother hother'), hother']
      rw [hsame] at hall ⊢
      rw [if_pos (hlast.mpr fun other hother hother' =>
        (hself other hother).mp (hall other hother hother'))]
      exact List.mem_singleton_self _
  refine h.flushBlobs (fun link hlink => ?_) (fun asset hasset => ?_) (fun blob' hblob' => ?_)
    hblobs (fun blobId => ?_) fun key _ => ?_
  · exact fun hmem => hlinks link hlink (List.mem_singleton.mp hmem)
  · exact fun hmem => hassets asset hasset (List.mem_singleton.mp hmem)
  · split_ifs at hblob'
    · rw [List.mem_singleton.mp hblob']
      exact hblob
    · exact absurd hblob' List.not_mem_nil
  · split_ifs
    · simp [eq_comm]
    · simp
  · split_ifs
    · simp [eq_comm]
    · simp

/-! ## The loops of the cleanup of a score -/

theorem eq_of_blobRefCount (hcount : tables.blobRefCount blobId ≤ 1) {upload upload' : Upload}
    (hupload : upload ∈ tables.uploads) (hid : upload.blobId = blobId)
    (hupload' : upload' ∈ tables.uploads) (hid' : upload'.blobId = blobId) : upload = upload' := by
  exact Lists.eq_of_length_le_one hcount (List.mem_filter.mpr ⟨hupload, decide_eq_true hid⟩)
    (List.mem_filter.mpr ⟨hupload', decide_eq_true hid'⟩)

theorem exists_of_blobRefCount (h : (tables.uploads.map (·.id)).Nodup)
    (hcount : ¬tables.blobRefCount blobId ≤ 1) : ∃ upload ∈ tables.uploads,
      ∃ upload' ∈ tables.uploads, upload.blobId = blobId ∧ upload'.blobId = blobId ∧
        upload ≠ upload' := by
  obtain ⟨upload, hupload, upload', hupload', hne⟩ :=
    Lists.exists_ne_of_not_length_le_one ((h.of_map _).filter _) hcount
  obtain ⟨hupload, hid⟩ := List.mem_filter.mp hupload
  obtain ⟨hupload', hid'⟩ := List.mem_filter.mp hupload'
  exact ⟨upload, hupload, upload', hupload', of_decide_eq_true hid, of_decide_eq_true hid', hne⟩

end BlobsOk

/-- Of two uploads of one blob that a loop deletes, another upload of the blob
stays, which is not deleted before the loop either. -/
def Separate (tables : UploadTables) (deleted earlier : List Nat) : Prop :=
  ∀ upload ∈ tables.uploads, ∀ upload' ∈ tables.uploads, upload.id ∈ deleted →
    upload'.id ∈ deleted → upload.blobId = upload'.blobId → upload = upload' ∨
    ∃ kept ∈ tables.uploads, kept.blobId = upload.blobId ∧ kept.id ∉ deleted ∧ kept.id ∉ earlier

namespace BlobsOk

variable {service : FilesService} {tables : UploadTables} {objects : StorageKey → Option String}

variable {rows : List (Upload × StorageBlob)}

theorem mem_lonelyBlobs (h : BlobsOk service tables objects)
    (hrows : ∀ row ∈ rows, row.1 ∈ tables.uploads ∧ row.2 ∈ tables.blobs ∧ row.2.id = row.1.blobId)
    {blobs : List StorageBlob} (hblobs : ∀ blob, blob ∈ blobs ↔ ∃ row ∈ rows, row.2 = blob)
    (hs : Separate tables (rows.map (·.1.id)) []) {blob : StorageBlob}
    (hblob : blob ∈ tables.blobs) :
    blob ∈ tables.lonelyBlobs blobs ↔ ∀ upload ∈ tables.uploads, upload.blobId = blob.id →
      upload.id ∈ rows.map (·.1.id) := by
  constructor
  · intro hd upload hupload hid
    obtain ⟨hd, hcount⟩ := List.mem_filter.mp hd
    obtain ⟨row, hrow, rfl⟩ := (hblobs blob).mp hd
    obtain ⟨hrowUpload, -, hrowId⟩ := hrows row hrow
    rw [eq_of_blobRefCount (of_decide_eq_true hcount) hupload hid hrowUpload hrowId.symm]
    exact List.mem_map.mpr ⟨row, hrow, rfl⟩
  · intro hall
    obtain ⟨upload, hupload, hid⟩ := h.referenced blob hblob
    obtain ⟨row, hrow, hrowId⟩ := List.mem_map.mp (hall upload hupload hid)
    obtain ⟨hrowUpload, hrowBlob, hrowBlobId⟩ := hrows row hrow
    have hsame : row.1 = upload :=
      List.inj_on_of_nodup_map h.ok.uploadIds hrowUpload hupload hrowId
    have hblob' : row.2 = blob := by
      refine List.inj_on_of_nodup_map h.ok.blobIds hrowBlob hblob ?_
      rw [hrowBlobId, hsame, hid]
    refine List.mem_filter.mpr ⟨(hblobs blob).mpr ⟨row, hrow, hblob'⟩, decide_eq_true ?_⟩
    by_contra hcount
    obtain ⟨first, hfirst, second, hsecond, hid₁, hid₂, hne⟩ :=
      exists_of_blobRefCount h.ok.uploadIds hcount
    rcases hs first hfirst second hsecond (hall first hfirst hid₁) (hall second hsecond hid₂)
        (hid₁.trans hid₂.symm) with he | ⟨kept, hkept, hkeptId, hnot, -⟩
    · exact hne he
    · exact hnot (hall kept hkept (hkeptId.trans hid₁))

/-- A loop of the cleanup of a score, flushed. -/
theorem flushLonely (h : BlobsOk service tables objects)
    (hrows : ∀ row ∈ rows, row.1 ∈ tables.uploads ∧ row.2 ∈ tables.blobs ∧ row.2.id = row.1.blobId)
    (hlinks : ∀ link ∈ tables.jobUploads, link.uploadId ∉ rows.map (·.1.id))
    (hassets : ∀ asset ∈ tables.inputAssets, asset.uploadId ∉ rows.map (·.1.id))
    {blobs : List StorageBlob} (hblobs : ∀ blob, blob ∈ blobs ↔ ∃ row ∈ rows, row.2 = blob)
    (hs : Separate tables (rows.map (·.1.id)) []) {keys : List StorageKey}
    (hkeys : ∀ key : StorageKey, key.IsBlob →
      (key ∈ keys ↔ ∃ blob ∈ tables.lonelyBlobs blobs, blob.storageKey = key)) :
    BlobsOk service
      (tables.flush ⟨rows.map (·.1.id), (tables.lonelyBlobs blobs).map (·.id)⟩)
      (deleteObjects objects keys) := by
  refine h.flushBlobs hlinks hassets (fun blob hblob => ?_)
    (fun blob hblob => h.mem_lonelyBlobs hrows hblobs hs hblob) (fun blobId => List.mem_map) hkeys
  obtain ⟨row, hrow, rfl⟩ := (hblobs blob).mp (List.mem_of_mem_filter hblob)
  exact (hrows row hrow).2.1

theorem deleteObjects_append (keys keys' : List StorageKey) :
    deleteObjects (deleteObjects objects keys) keys' = deleteObjects objects (keys' ++ keys) := by
  funext key
  simp only [deleteObjects, List.mem_append]
  by_cases h : key ∈ keys'
  · simp [h]
  · simp [h]

theorem mem_unseenBlobs_iff (h : tables.Ok) (hrows : ∀ row ∈ rows, row.2 ∈ tables.blobs)
    (blob : StorageBlob) :
    blob ∈ UploadTables.unseenBlobs [] rows ↔ ∃ row ∈ rows, row.2 = blob := by
  constructor
  · exact fun hd => List.mem_map.mp (UploadTables.mem_unseenBlobs hd)
  · rintro ⟨row, hrow, rfl⟩
    obtain ⟨blob', hblob', hid⟩ := exists_unseenBlobs hrow List.not_mem_nil
    obtain ⟨row', hrow', hsame⟩ := List.mem_map.mp (UploadTables.mem_unseenBlobs hblob')
    have heq : blob' = row.2 :=
      List.inj_on_of_nodup_map h.blobIds (hsame ▸ hrows row' hrow') (hrows row hrow) hid
    rwa [← heq]

section Score

variable {rows : List (Upload × StorageBlob)}

theorem not_mem_unreferenced (tables : UploadTables) (rows : List (Upload × StorageBlob)) :
    (∀ link ∈ tables.jobUploads, link.uploadId ∉ (tables.unreferenced rows).map (·.1.id)) ∧
      ∀ asset ∈ tables.inputAssets,
        asset.uploadId ∉ (tables.unreferenced rows).map (·.1.id) := by
  constructor
  · intro link hlink hmem
    obtain ⟨row, hrow, hid⟩ := List.mem_map.mp hmem
    have hrefs := of_decide_eq_true (List.mem_filter.mp hrow).2
    exact UploadTables.not_mem_of_importRefs hrefs.1 link hlink hid.symm
  · intro asset hasset hmem
    obtain ⟨row, hrow, hid⟩ := List.mem_map.mp hmem
    have hrefs := of_decide_eq_true (List.mem_filter.mp hrow).2
    exact UploadTables.not_mem_of_inputRefs hrefs.2 asset hasset hid.symm

/-- The first loop, flushed. -/
theorem cleanupInputs (h : BlobsOk service tables objects)
    (hrows : ∀ row ∈ rows, row.1 ∈ tables.uploads ∧ row.2 ∈ tables.blobs ∧
      row.2.id = row.1.blobId)
    (hs : Separate tables ((tables.unreferenced rows).map (·.1.id)) []) :
    BlobsOk service (tables.flush (tables.cleanupInputs rows).1)
      (deleteObjects objects (tables.cleanupInputs rows).2) := by
  obtain ⟨hlinks, hassets⟩ := not_mem_unreferenced tables rows
  exact h.flushLonely (fun row hrow => hrows row (List.mem_of_mem_filter hrow)) hlinks hassets
    (fun blob => List.mem_map) hs fun key _ => List.mem_map

/-- The first loop, flushed with the deletion of the import. -/
theorem cleanupInputs_withoutJob (h : BlobsOk service tables objects)
    (hrows : ∀ row ∈ rows, row.1 ∈ tables.uploads ∧ row.2 ∈ tables.blobs ∧
      row.2.id = row.1.blobId)
    (hs : Separate tables ((tables.unreferenced rows).map (·.1.id)) []) (jobId : ImportJobId) :
    BlobsOk service ((tables.withoutJob jobId).flush (tables.cleanupInputs rows).1)
      (deleteObjects objects (tables.cleanupInputs rows).2) := by
  obtain ⟨hlinks, hassets⟩ := not_mem_unreferenced tables rows
  exact (h.withoutJob jobId).flushLonely
    (fun row hrow => hrows row (List.mem_of_mem_filter hrow))
    (fun link hlink => hlinks link (List.mem_of_mem_filter hlink)) hassets
    (fun blob => List.mem_map) hs fun key _ => List.mem_map

/-- The orphans of the import are no uploads that the first loop deletes. -/
theorem orphan_not_pending (tables : UploadTables) (rows : List (Upload × StorageBlob))
    {jobId : ImportJobId} {row : Upload × StorageBlob}
    (hrow : row ∈ tables.orphanUploadsAfterJobDelete jobId) :
    row.1.id ∉ (tables.cleanupInputs rows).1.uploads := by
  obtain ⟨row₀, hrow₀, rfl⟩ := List.mem_map.mp (List.mem_of_mem_filter hrow)
  obtain ⟨hlink, -, hid, -⟩ := UploadTables.mem_jobUploadRows hrow₀
  have hnot := (not_mem_unreferenced tables rows).1 row₀.1 (List.mem_of_mem_filter hlink)
  rwa [← hid] at hnot

theorem deleteOriginatingImportJob (h : BlobsOk service tables objects)
    (hrows : ∀ row ∈ rows, row.1 ∈ tables.uploads ∧ row.2 ∈ tables.blobs ∧
      row.2.id = row.1.blobId)
    (hs : Separate tables ((tables.unreferenced rows).map (·.1.id)) []) {jobId : ImportJobId}
    (hs' : Separate tables ((tables.orphanUploadsAfterJobDelete jobId).map (·.1.id))
      ((tables.unreferenced rows).map (·.1.id))) :
    BlobsOk service
      ((tables.deleteOriginatingImportJob (tables.cleanupInputs rows).1 jobId).1.flush
        (tables.deleteOriginatingImportJob (tables.cleanupInputs rows).1 jobId).2.1)
      (deleteObjects objects
        ((tables.deleteOriginatingImportJob (tables.cleanupInputs rows).1 jobId).2.2 ++
          (tables.cleanupInputs rows).2)) := by
  have hflushed := h.cleanupInputs_withoutJob hrows hs jobId
  have horphans : ∀ row ∈ tables.orphanUploadsAfterJobDelete jobId,
      row.1 ∈ ((tables.withoutJob jobId).flush (tables.cleanupInputs rows).1).uploads ∧
      row.2 ∈ ((tables.withoutJob jobId).flush (tables.cleanupInputs rows).1).blobs ∧
      row.2.id = row.1.blobId := by
    intro row hrow
    obtain ⟨hupload, hblob, hid, -⟩ := UploadTables.mem_orphanUploads hrow
    have hkept := UploadTables.mem_flush_uploads.mpr
      ⟨show row.1 ∈ (tables.withoutJob jobId).uploads from hupload,
        orphan_not_pending tables rows hrow⟩
    obtain ⟨blob, hblob', hid'⟩ := hflushed.ok.uploadBlobs row.1 hkept
    have hsame : blob = row.2 := List.inj_on_of_nodup_map h.ok.blobIds
      (UploadTables.mem_flush_blobs.mp hblob').1 hblob (hid'.trans hid.symm)
    exact ⟨hkept, hsame ▸ hblob', hid⟩
  obtain ⟨hlinks, hassets⟩ := orphans_unreferenced tables jobId
  have hseparate : Separate ((tables.withoutJob jobId).flush (tables.cleanupInputs rows).1)
      ((tables.orphanUploadsAfterJobDelete jobId).map (·.1.id)) [] := by
    intro upload hupload upload' hupload' hd hd' hsame
    refine (hs' upload (UploadTables.mem_flush_uploads.mp hupload).1 upload'
      (UploadTables.mem_flush_uploads.mp hupload').1 hd hd' hsame).imp_right ?_
    rintro ⟨kept, hkept, hid, hnot, hearlier⟩
    exact ⟨kept, UploadTables.mem_flush_uploads.mpr ⟨hkept, hearlier⟩, hid, hnot,
      List.not_mem_nil⟩
  rw [← deleteObjects_append]
  refine hflushed.flushLonely horphans hlinks hassets
    (mem_unseenBlobs_iff hflushed.ok fun row hrow => (horphans row hrow).2.1) hseparate
    fun key hkey => ?_
  rw [UploadTables.deleteOriginatingImportJob, List.mem_append]
  constructor
  · rintro (hmem | hblob)
    · obtain ⟨artifact, hartifact, rfl⟩ := List.mem_map.mp hmem
      exact absurd hkey (h.artifactKeys artifact (List.mem_of_mem_filter hartifact))
    · exact List.mem_map.mp hblob
  · exact fun hblob => .inr (List.mem_map.mpr hblob)

end Score

end BlobsOk

/-! ## Maintenance -/

/-- The release of the usage of an upload commits the session. -/
def UploadTables.Commits (tables : UploadTables) (upload : Upload) : Prop :=
  ∃ blob ∈ tables.blobs, blob.id = upload.blobId ∧ upload.releases blob

/-- Of two uploads of one blob that the maintenance deletes, another upload of
the blob is still there after the second one, or a release commits the session
between them. -/
def Prompt (tables : UploadTables) (uploads : List Upload) : Prop :=
  ∀ before upload between upload' after,
    uploads = before ++ upload :: (between ++ upload' :: after) →
    upload.blobId = upload'.blobId →
    (∃ kept ∈ tables.uploads, kept.blobId = upload'.blobId ∧ kept ≠ upload' ∧
      kept ∉ before ++ upload :: between) ∨
    ∃ other ∈ between, tables.Commits other

/-- What holds of the session after some uploads: its tables lack what is
flushed, and what is pending was deleted after the last commit. -/
structure Cleaning (service : FilesService) (tables : UploadTables) (before : List Upload)
    (state : OrphanCleanup) : Prop where
  flushed : ∃ flushed, state.tables = tables.flush flushed ∧
    ∀ id, id ∈ flushed.uploads ∨ id ∈ state.pending.uploads ↔ id ∈ before.map (·.id)
  ok : BlobsOk service (state.tables.flush state.pending) state.objects
  recent : ∀ id ∈ state.pending.uploads, ∃ first upload between,
    before = first ++ upload :: between ∧ upload.id = id ∧
      ∀ other ∈ between, ¬tables.Commits other

namespace Cleaning

variable {service : FilesService} {tables : UploadTables} {before after : List Upload}
  {state : OrphanCleanup} {upload : Upload} {blob : StorageBlob}

theorem mem_uploads (h : Cleaning service tables before state) {other : Upload} :
    other ∈ (state.tables.flush state.pending).uploads ↔
      other ∈ tables.uploads ∧ other.id ∉ before.map (·.id) := by
  obtain ⟨flushed, htables, hids⟩ := h.flushed
  rw [UploadTables.mem_flush_uploads, htables, UploadTables.mem_flush_uploads, ← hids]
  tauto

/-- The last upload of a blob is recognized. -/
theorem last (hok : tables.Ok) (h : Cleaning service tables before state)
    (hall : ∀ other ∈ before, other ∈ tables.uploads) (hupload : upload ∈ tables.uploads)
    (hnew : upload.id ∉ before.map (·.id))
    (hp : Prompt tables (before ++ upload :: after)) :
    state.tables.blobRefCount upload.blobId ≤ 1 ↔
      ∀ other ∈ (state.tables.flush state.pending).uploads, other.blobId = upload.blobId →
        other = upload := by
  have hkept := h.mem_uploads.mpr ⟨hupload, hnew⟩
  constructor
  · intro hcount other hother hid
    exact BlobsOk.eq_of_blobRefCount hcount (UploadTables.mem_flush_uploads.mp hother).1 hid
      (UploadTables.mem_flush_uploads.mp hkept).1 rfl
  · intro honly
    by_contra hcount
    -- another upload of the blob is counted, so its deletion is pending
    obtain ⟨flushed, htables, hids⟩ := h.flushed
    have hnodup : (state.tables.uploads.map (·.id)).Nodup := by
      rw [htables]
      exact hok.uploadIds.sublist (List.filter_sublist.map _)
    obtain ⟨other, hother, hid, hne⟩ : ∃ other ∈ state.tables.uploads,
        other.blobId = upload.blobId ∧ other ≠ upload := by
      obtain ⟨first, hfirst, second, hsecond, hid₁, hid₂, hne⟩ :=
        BlobsOk.exists_of_blobRefCount hnodup hcount
      by_cases he : first = upload
      · exact ⟨second, hsecond, hid₂, fun e => hne (he.trans e.symm)⟩
      · exact ⟨first, hfirst, hid₁, he⟩
    have hpending : other.id ∈ state.pending.uploads := by
      by_contra hnot
      exact hne (honly other (UploadTables.mem_flush_uploads.mpr ⟨hother, hnot⟩) hid)
    have hotherMem : other ∈ tables.uploads := by
      rw [htables] at hother
      exact (UploadTables.mem_flush_uploads.mp hother).1
    obtain ⟨first, other', between, rfl, hid', hquiet⟩ := h.recent other.id hpending
    have hsame : other' = other := List.inj_on_of_nodup_map hok.uploadIds
      (hall other' (List.mem_append_right _ List.mem_cons_self)) hotherMem hid'
    subst hsame
    rcases hp first other' between upload after (by simp) hid with
      ⟨kept, hkeptMem, hkeptId, hkeptNe, hkeptNot⟩ | ⟨loud, hloud, hcommits⟩
    · refine hkeptNe (honly kept (h.mem_uploads.mpr ⟨hkeptMem, fun hmem => ?_⟩) hkeptId)
      obtain ⟨earlier, hearlier, hearlierId⟩ := List.mem_map.mp hmem
      rw [List.inj_on_of_nodup_map hok.uploadIds (hall earlier hearlier) hkeptMem hearlierId]
        at hearlier
      exact hkeptNot hearlier
    · exact hquiet loud hloud hcommits

/-- An upload is deleted from what is left, with its blob if it is the last
one. -/
theorem next (hok : tables.Ok) (h : Cleaning service tables before state)
    (hall : ∀ other ∈ before, other ∈ tables.uploads) (hupload : upload ∈ tables.uploads)
    (hnew : upload.id ∉ before.map (·.id))
    (hlinks : ∀ link ∈ tables.jobUploads, link.uploadId ≠ upload.id)
    (hassets : ∀ asset ∈ tables.inputAssets, asset.uploadId ≠ upload.id)
    (hp : Prompt tables (before ++ upload :: after)) :
    Cleaning service tables (before ++ [upload]) (state.next upload) := by
  obtain ⟨flushed, htables, hids⟩ := h.flushed
  have hkept := h.mem_uploads.mpr ⟨hupload, hnew⟩
  obtain ⟨blob, hblob, hblobId⟩ := h.ok.ok.uploadBlobs upload hkept
  have hblobState := (UploadTables.mem_flush_blobs.mp hblob).1
  have hblobMem : blob ∈ tables.blobs := by
    rw [htables] at hblobState
    exact (UploadTables.mem_flush_blobs.mp hblobState).1
  have hfind : find StorageBlob.id upload.blobId state.tables.blobs = some blob := by
    rw [← hblobId]
    refine find_of_mem ?_ hblobState
    rw [htables]
    exact hok.blobIds.sublist (List.filter_sublist.map _)
  have hcommits : upload.releases blob = true ↔ tables.Commits upload := by
    constructor
    · exact fun hr => ⟨blob, hblobMem, hblobId, hr⟩
    · rintro ⟨blob', hblob', hid', hr⟩
      rwa [List.inj_on_of_nodup_map hok.blobIds hblobMem hblob' (hblobId.trans hid'.symm)]
  have hlast := h.last hok hall hupload hnew hp
  rw [← hblobId] at hlast
  have hjob : (state.tables.flush state.pending).jobUploads = tables.jobUploads := by
    rw [htables]
    rfl
  have hinput : (state.tables.flush state.pending).inputAssets = tables.inputAssets := by
    rw [htables]
    rfl
  have hdone := h.ok.flushUpload hkept hblob hblobId (hjob ▸ hlinks) (hinput ▸ hassets) hlast
  have hbool : ∀ {α : Type} (x y : α), (if decide (state.tables.blobRefCount upload.blobId ≤ 1) then
      x else y) = if state.tables.blobRefCount blob.id ≤ 1 then x else y := by
    intro α x y
    rw [hblobId]
    simp
  have hmap : ∀ id, id ∈ (before ++ [upload]).map (·.id) ↔
      id ∈ before.map (·.id) ∨ id = upload.id := by
    intro id
    rw [List.map_append, List.mem_append, List.map_singleton, List.mem_singleton]
  simp only [OrphanCleanup.next, hfind]
  by_cases hr : upload.releases blob = true
  · rw [if_pos hr]
    refine ⟨⟨⟨flushed.uploads ++ state.pending.uploads, flushed.blobs ++ state.pending.blobs⟩,
      ?_, fun id => ?_⟩, ?_, fun id hid => ?_⟩
    · show state.tables.flush state.pending = _
      rw [htables, UploadTables.flush_flush]
    · rw [hmap, ← hids, List.mem_append]
      show _ ∨ id ∈ [upload.id] ↔ _
      rw [List.mem_singleton]
    · simp only [OrphanCleanup.delete, OrphanCleanup.commit, PendingDeletes.none, hbool]
      exact hdone
    · rw [List.mem_singleton.mp hid]
      exact ⟨before, upload, [], rfl, rfl, fun _ h => absurd h List.not_mem_nil⟩
  · rw [if_neg hr]
    refine ⟨⟨flushed, htables, fun id => ?_⟩, ?_, fun id hid => ?_⟩
    · rw [hmap, ← hids]
      show _ ∨ id ∈ upload.id :: state.pending.uploads ↔ _
      rw [List.mem_cons]
      tauto
    · simp only [OrphanCleanup.delete, hbool]
      rw [UploadTables.flush_flush] at hdone
      refine (congrArg (BlobsOk service · _) (UploadTables.flush_congr (fun id => ?_)
        fun id => ?_)).mp hdone
      · rw [List.mem_append, List.mem_singleton, List.mem_cons, or_comm]
      · split_ifs
        · rw [List.mem_append, List.mem_singleton, List.mem_cons, or_comm]
        · rw [List.append_nil]
    · rcases List.mem_cons.mp hid with rfl | hid
      · exact ⟨before, upload, [], rfl, rfl, fun _ h => absurd h List.not_mem_nil⟩
      · obtain ⟨first, other, between, rfl, hother, hquiet⟩ := h.recent id hid
        refine ⟨first, other, between ++ [upload], by simp, hother, fun loud hloud => ?_⟩
        rcases List.mem_append.mp hloud with hloud | hloud
        · exact hquiet loud hloud
        · rw [List.mem_singleton.mp hloud]
          exact fun hc => hr (hcommits.mpr hc)

/-- The loop, after the uploads so far. -/
theorem foldl (hok : tables.Ok) (h : Cleaning service tables before state)
    (hall : ∀ upload ∈ before ++ after, upload ∈ tables.uploads)
    (hnodup : ((before ++ after).map (·.id)).Nodup)
    (hlinks : ∀ upload ∈ after, ∀ link ∈ tables.jobUploads, link.uploadId ≠ upload.id)
    (hassets : ∀ upload ∈ after, ∀ asset ∈ tables.inputAssets, asset.uploadId ≠ upload.id)
    (hp : Prompt tables (before ++ after)) :
    Cleaning service tables (before ++ after) (after.foldl OrphanCleanup.next state) := by
  induction after generalizing before state with
  | nil =>
    rw [List.append_nil]
    exact h
  | cons upload after ih =>
    have hnew : upload.id ∉ before.map (·.id) := by
      rw [List.map_append, List.map_cons, List.nodup_middle, List.nodup_cons] at hnodup
      exact fun hmem => hnodup.1 (List.mem_append_left _ hmem)
    have hnext := h.next hok (fun other hother => hall other (List.mem_append_left _ hother))
      (hall upload (List.mem_append_right _ List.mem_cons_self)) hnew
      (hlinks upload List.mem_cons_self) (hassets upload List.mem_cons_self) hp
    have happend : before ++ upload :: after = before ++ [upload] ++ after := by simp
    rw [happend] at hall hnodup hp ⊢
    exact ih hnext hall hnodup (fun other hother => hlinks other (List.mem_cons_of_mem _ hother))
      (fun other hother => hassets other (List.mem_cons_of_mem _ hother)) hp

end Cleaning

namespace BlobsOk

variable {service : FilesService} {tables : UploadTables} {objects : StorageKey → Option String}

theorem deleteObjects_nil : deleteObjects objects [] = objects := by
  funext key
  simp [deleteObjects]

theorem flush_none : tables.flush .none = tables := by
  simp [UploadTables.flush, PendingDeletes.none]

theorem cleanupOrphanUploads (h : BlobsOk service tables objects) {uploads : List Upload}
    {cutoff : Int} (hperm : uploads.Perm (tables.listOrphanUploads cutoff))
    (hp : Prompt tables uploads) :
    let state := uploads.foldl OrphanCleanup.next ⟨tables, .none, objects⟩
    BlobsOk service (state.tables.flush state.pending) state.objects ∧
      (∀ upload ∈ (state.tables.flush state.pending).uploads, upload ∈ tables.uploads) ∧
      ∀ blob ∈ (state.tables.flush state.pending).blobs, blob ∈ tables.blobs := by
  have horphan : ∀ upload ∈ uploads, upload ∈ tables.uploads ∧
      tables.importRefs upload.id = 0 ∧ tables.inputRefs upload.id = 0 := by
    intro upload hupload
    obtain ⟨hmem, hrefs⟩ := List.mem_filter.mp (hperm.mem_iff.mp hupload)
    obtain ⟨himports, hinputs, -⟩ := of_decide_eq_true hrefs
    exact ⟨hmem, himports, hinputs⟩
  have hstart : Cleaning service tables [] ⟨tables, .none, objects⟩ := by
    refine ⟨⟨.none, flush_none.symm, fun id => by simp [PendingDeletes.none]⟩, ?_,
      fun id hid => absurd hid List.not_mem_nil⟩
    show BlobsOk service (tables.flush .none) objects
    rwa [flush_none]
  have hnodup : (uploads.map (·.id)).Nodup :=
    (hperm.map _).nodup_iff.mpr (h.ok.uploadIds.sublist (List.filter_sublist.map _))
  have hdone := hstart.foldl h.ok (fun upload hupload => (horphan upload hupload).1) hnodup
    (fun upload hupload => UploadTables.not_mem_of_importRefs (horphan upload hupload).2.1)
    (fun upload hupload => UploadTables.not_mem_of_inputRefs (horphan upload hupload).2.2) hp
  obtain ⟨flushed, htables, -⟩ := hdone.flushed
  refine ⟨hdone.ok, fun upload hupload => (hdone.mem_uploads.mp hupload).1, fun blob hblob => ?_⟩
  have hblob := List.mem_of_mem_filter hblob
  rw [htables] at hblob
  exact List.mem_of_mem_filter hblob

/-! ## Uploads -/

theorem addUpload (h : BlobsOk service tables objects) {upload : Upload}
    (hnew : upload.id ∉ tables.uploads.map (·.id))
    (hblob : ∃ blob ∈ tables.blobs, blob.id = upload.blobId) :
    BlobsOk service { tables with uploads := tables.uploads ++ [upload] } objects := by
  have hkeep : ∀ other ∈ tables.uploads, other ∈ tables.uploads ++ [upload] :=
    fun _ hother => List.mem_append_left _ hother
  have hok : UploadTables.Ok { tables with uploads := tables.uploads ++ [upload] } :=
    { h.ok with
      uploadIds := by
        rw [List.map_append, List.map_singleton, List.nodup_append]
        refine ⟨h.ok.uploadIds, List.nodup_singleton _, fun id hid id' hid' e => ?_⟩
        rw [e, List.mem_singleton.mp hid'] at hid
        exact hnew hid
      linkUploads := fun link hlink => by
        obtain ⟨other, hother, hid⟩ := h.ok.linkUploads link hlink
        exact ⟨other, hkeep other hother, hid⟩
      assetUploads := fun asset hasset => by
        obtain ⟨other, hother, hid⟩ := h.ok.assetUploads asset hasset
        exact ⟨other, hkeep other hother, hid⟩
      uploadBlobs := fun other hother => by
        rcases List.mem_append.mp hother with hother | hother
        · exact h.ok.uploadBlobs other hother
        · rw [List.mem_singleton.mp hother]
          exact hblob }
  exact { h with
    ok := hok
    referenced := fun blob hblob => by
      obtain ⟨other, hother, hid⟩ := h.referenced blob hblob
      exact ⟨other, hkeep other hother, hid⟩ }

/-- A blob comes with its first upload. -/
theorem addBlob (h : BlobsOk service tables objects) {blob : StorageBlob} {upload : Upload}
    {objects' : StorageKey → Option String} (hupload : upload.id ∉ tables.uploads.map (·.id))
    (hid : upload.blobId = blob.id) (hnew : blob.id ∉ tables.blobs.map (·.id))
    (huuid : blob.blobUuid ∉ tables.blobs.map (·.blobUuid))
    (hsha : blob.sha256 ∉ tables.blobs.map (·.sha256))
    (hkey : blob.storageKey ∉ tables.blobs.map (·.storageKey))
    (hblobKey : '.' ∉ blob.sha256.toList ∧
      ∃ extension, blob.storageKey = blobKey blob.sha256 ("." ++ extension))
    (hbackend : blob.storageBackend = service.backendName)
    (hsome : (objects' blob.storageKey).isSome)
    (hobjects : ∀ key, key ≠ blob.storageKey → objects' key = objects key) :
    BlobsOk service { tables with
      blobs := tables.blobs ++ [blob], uploads := tables.uploads ++ [upload] } objects' := by
  have hnodup : ∀ {β : Type} (f : StorageBlob → β), (tables.blobs.map f).Nodup →
      f blob ∉ tables.blobs.map f → ((tables.blobs ++ [blob]).map f).Nodup := by
    intro β f hn hnot
    rw [List.map_append, List.map_singleton, List.nodup_append]
    refine ⟨hn, List.nodup_singleton _, fun x hx y hy e => ?_⟩
    rw [e, List.mem_singleton.mp hy] at hx
    exact hnot hx
  have hkeep : ∀ other ∈ tables.blobs, other ∈ tables.blobs ++ [blob] :=
    fun _ hother => List.mem_append_left _ hother
  have hwith : blob ∈ tables.blobs ++ [blob] :=
    List.mem_append_right _ (List.mem_singleton_self _)
  have hkeepUpload : ∀ other ∈ tables.uploads, other ∈ tables.uploads ++ [upload] :=
    fun _ hother => List.mem_append_left _ hother
  constructor
  · exact
      { h.ok with
        uploadIds := by
          rw [List.map_append, List.map_singleton, List.nodup_append]
          refine ⟨h.ok.uploadIds, List.nodup_singleton _, fun id hid id' hid' e => ?_⟩
          rw [e, List.mem_singleton.mp hid'] at hid
          exact hupload hid
        blobIds := hnodup _ h.ok.blobIds hnew
        blobUuids := hnodup _ h.ok.blobUuids huuid
        linkUploads := fun link hlink => by
          obtain ⟨other, hother, hid⟩ := h.ok.linkUploads link hlink
          exact ⟨other, hkeepUpload other hother, hid⟩
        assetUploads := fun asset hasset => by
          obtain ⟨other, hother, hid⟩ := h.ok.assetUploads asset hasset
          exact ⟨other, hkeepUpload other hother, hid⟩
        uploadBlobs := fun other hother => by
          rcases List.mem_append.mp hother with hother | hother
          · obtain ⟨blob', hblob', hid'⟩ := h.ok.uploadBlobs other hother
            exact ⟨blob', hkeep blob' hblob', hid'⟩
          · rw [List.mem_singleton.mp hother]
            exact ⟨blob, hwith, hid.symm⟩ }
  · intro blob' hblob'
    rcases List.mem_append.mp hblob' with hblob' | hblob'
    · obtain ⟨other, hother, hother'⟩ := h.referenced blob' hblob'
      exact ⟨other, hkeepUpload other hother, hother'⟩
    · rw [List.mem_singleton.mp hblob']
      exact ⟨upload, List.mem_append_right _ (List.mem_singleton_self _), hid⟩
  · exact hnodup _ h.shas hsha
  · exact hnodup _ h.keys hkey
  · intro blob' hblob'
    rcases List.mem_append.mp hblob' with hblob' | hblob'
    · exact h.blobKeys blob' hblob'
    · rw [List.mem_singleton.mp hblob']
      exact hblobKey
  · intro blob' hblob'
    rcases List.mem_append.mp hblob' with hblob' | hblob'
    · exact h.backend blob' hblob'
    · rw [List.mem_singleton.mp hblob']
      exact hbackend
  · intro key hisBlob
    by_cases he : key = blob.storageKey
    · subst he
      exact ⟨fun _ => ⟨blob, hwith, rfl⟩, fun _ => hsome⟩
    · rw [hobjects key he, h.objects key hisBlob]
      constructor
      · rintro ⟨blob', hblob', hkey'⟩
        exact ⟨blob', hkeep blob' hblob', hkey'⟩
      · rintro ⟨blob', hblob', hkey'⟩
        rcases List.mem_append.mp hblob' with hblob' | hblob'
        · exact ⟨blob', hblob', hkey'⟩
        · rw [List.mem_singleton.mp hblob'] at hkey'
          exact absurd hkey'.symm he
  · exact h.artifactKeys

/-- The key of a blob tells its digest. -/
theorem blobKey_injective {sha sha' extension extension' : String} (h : '.' ∉ sha.toList)
    (h' : '.' ∉ sha'.toList)
    (e : blobKey sha ("." ++ extension) = blobKey sha' ("." ++ extension')) : sha = sha' := by
  have htake : ∀ (sha extension : String), '.' ∉ sha.toList →
      (sha ++ ("." ++ extension)).toList.takeWhile (· ≠ '.') = sha.toList := by
    intro sha extension hsha
    rw [String.toList_append, String.toList_append, List.takeWhile_append_of_pos]
    · simp
    · intro c hc
      rw [decide_eq_true_iff]
      rintro rfl
      exact hsha hc
  have hname : sha ++ ("." ++ extension) = sha' ++ ("." ++ extension') := by
    simp only [blobKey, List.cons.injEq] at e
    exact e.2.2.1
  have hlist := htake sha extension h
  rw [hname, htake sha' extension' h'] at hlist
  exact (String.toList_injective hlist).symm

end BlobsOk

end NoteVerse.Backend

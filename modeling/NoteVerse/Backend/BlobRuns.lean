import NoteVerse.Backend.BlobReferences

/-!
# Runs that create and delete blobs

Every step keeps the blobs right, if of two uploads of one blob that a cleanup
of a score or the maintenance deletes another one stays, or the session commits
between them (`Separated`, `blobs_referenced`). A score with two uploads of the
same content and two forgotten uploads of one content leave a blob without an
upload (`cleanup_leaves_blob`).
-/

namespace NoteVerse.Backend

open Table Transition

namespace BlobWorld

variable {service : FilesService} {world world' : BlobWorld}

/-- The blobs are right, and the ids that the sequences give next are new. -/
structure Valid (service : FilesService) (world : BlobWorld) : Prop where
  blobs : BlobsOk service world.tables world.objects
  uploadIds : ∀ upload ∈ world.tables.uploads, upload.id < world.nextUploadId
  blobIds : ∀ blob ∈ world.tables.blobs, blob.id < world.nextBlobId

/-! ## Uploads -/

theorem Valid.new_upload (hv : Valid service world) :
    world.nextUploadId ∉ world.tables.uploads.map (·.id) := by
  intro hmem
  obtain ⟨upload, hupload, hid⟩ := List.mem_map.mp hmem
  exact Nat.ne_of_lt (hv.uploadIds upload hupload) hid

theorem Valid.new_blob (hv : Valid service world) :
    world.nextBlobId ∉ world.tables.blobs.map (·.id) := by
  intro hmem
  obtain ⟨blob, hblob, hid⟩ := List.mem_map.mp hmem
  exact Nat.ne_of_lt (hv.blobIds blob hblob) hid

theorem forall_append {α : Type} {p : α → Prop} {xs : List α} {x : α}
    (h : ∀ y ∈ xs, p y) (hx : p x) : ∀ y ∈ xs ++ [x], p y := by
  intro y hy
  rcases List.mem_append.mp hy with hy | hy
  · exact h y hy
  · rw [List.mem_singleton.mp hy]
    exact hx

theorem saveBlob_isSome (key : StorageKey) (content : String) :
    (world.saveBlob key content key).isSome := by
  unfold saveBlob
  split_ifs with h
  · exact h
  · rw [Function.update_self]
    rfl

theorem saveBlob_of_ne {key key' : StorageKey} (content : String) (h : key' ≠ key) :
    world.saveBlob key content key' = world.objects key' := by
  unfold saveBlob
  split_ifs
  · rfl
  · exact Function.update_of_ne h _ _

/-- The blob of an upload is one that is there, or a new one. -/
theorem Valid.blobOf_cases (hv : Valid service world) (content extension blobUuid : String) :
    (world.blobOf service content ("." ++ extension) blobUuid = .error { world with
        objects := deleteObjects world.objects
          [blobKey (service.sha256 content) ("." ++ extension)] } ∧
      ∀ blob ∈ world.tables.blobs,
        blob.storageKey ≠ blobKey (service.sha256 content) ("." ++ extension)) ∨
    (∃ blob ∈ world.tables.blobs,
      world.blobOf service content ("." ++ extension) blobUuid = .ok (world, blob)) ∨
    ∃ blob, world.blobOf service content ("." ++ extension) blobUuid = .ok ({ world with
        tables := { world.tables with blobs := world.tables.blobs ++ [blob] }
        objects := world.saveBlob blob.storageKey content
        nextBlobId := world.nextBlobId + 1 }, blob) ∧
      blob.id = world.nextBlobId ∧ blob.sha256 = service.sha256 content ∧
      blob.storageKey = blobKey (service.sha256 content) ("." ++ extension) ∧
      blob.storageBackend = service.backendName ∧
      blob.sha256 ∉ world.tables.blobs.map (·.sha256) ∧
      blob.storageKey ∉ world.tables.blobs.map (·.storageKey) ∧
      blob.blobUuid ∉ world.tables.blobs.map (·.blobUuid) := by
  unfold blobOf
  simp only
  split
  · rename_i hnone
    have hsha : ∀ blob ∈ world.tables.blobs, blob.sha256 ≠ service.sha256 content := by
      intro blob hblob
      simpa using List.find?_eq_none.mp hnone blob hblob
    split_ifs with hclash
    · refine .inl ⟨rfl, fun blob hblob e => ?_⟩
      obtain ⟨hhex, extension', hkey⟩ := hv.blobs.blobKeys blob hblob
      rw [hkey] at e
      exact hsha blob hblob (BlobsOk.blobKey_injective hhex (service.sha256_hex content) e)
    · refine .inr (.inr ⟨_, rfl, rfl, rfl, rfl, rfl, fun hmem => ?_, fun hmem => ?_, fun hmem => ?_⟩)
      · obtain ⟨blob, hblob, e⟩ := List.mem_map.mp hmem
        exact hsha blob hblob e
      · obtain ⟨blob, hblob, e⟩ := List.mem_map.mp hmem
        exact hclash ⟨blob, hblob, .inl e⟩
      · obtain ⟨blob, hblob, e⟩ := List.mem_map.mp hmem
        exact hclash ⟨blob, hblob, .inr e⟩
  · rename_i blob hfind
    have hblob : blob ∈ world.tables.blobs := List.mem_of_find?_eq_some hfind
    have hsome : (world.objects blob.storageKey).isSome :=
      (hv.blobs.objects _ (hv.blobs.isBlob hblob)).mpr ⟨blob, hblob, rfl⟩
    rw [if_neg]
    · exact .inr (.inl ⟨blob, hblob, rfl⟩)
    · rintro (hbackend | hnone)
      · exact hbackend (hv.blobs.backend blob hblob)
      · rw [hnone] at hsome
        cases hsome

theorem Valid.uploadFile (hv : Valid service world) (userId : UserId)
    (filename content uploadUuid blobUuid : String) (now : Int) :
    Valid service (world.uploadFile service userId filename content uploadUuid blobUuid now) := by
  unfold BlobWorld.uploadFile
  rcases hv.blobOf_cases content (Python.afterLast '.' filename).toLower blobUuid with
    ⟨he, hkey⟩ | ⟨blob, hblob, he⟩ | ⟨blob, he, hid, hsha, hkey, hbackend, hshaNew, hkeyNew, huuid⟩
  · rw [he]
    refine ⟨?_, hv.uploadIds, hv.blobIds⟩
    exact { hv.blobs with
      objects := fun key hisBlob => by
        rw [BlobsOk.deleteObjects_isSome, hv.blobs.objects key hisBlob, List.mem_singleton]
        refine ⟨fun h => h.2, fun h => ⟨?_, h⟩⟩
        rintro rfl
        obtain ⟨blob, hblob, hsame⟩ := h
        exact hkey blob hblob hsame }
  · rw [he]
    exact ⟨hv.blobs.addUpload hv.new_upload ⟨blob, hblob, rfl⟩,
      forall_append (fun upload hupload => Nat.lt_succ_of_lt (hv.uploadIds upload hupload))
        (Nat.lt_succ_self _), hv.blobIds⟩
  · rw [he]
    refine ⟨?_, forall_append (fun upload hupload =>
      Nat.lt_succ_of_lt (hv.uploadIds upload hupload)) (Nat.lt_succ_self _),
      forall_append (fun blob hblob => Nat.lt_succ_of_lt (hv.blobIds blob hblob)) ?_⟩
    · refine hv.blobs.addBlob hv.new_upload rfl (hid ▸ hv.new_blob) huuid hshaNew hkeyNew
        ⟨hsha ▸ service.sha256_hex content, (Python.afterLast '.' filename).toLower, ?_⟩ hbackend
        (saveBlob_isSome _ _) fun key hne => saveBlob_of_ne content hne
      rw [hkey, hsha]
    · rw [hid]
      exact Nat.lt_succ_self _

/-! ## Deletions -/

/-- Deletions keep what the sequences give new. -/
theorem Valid.shrink (hv : Valid service world)
    (hblobs : BlobsOk service world'.tables world'.objects)
    (huploads : ∀ upload ∈ world'.tables.uploads, upload ∈ world.tables.uploads)
    (hblobs' : ∀ blob ∈ world'.tables.blobs, blob ∈ world.tables.blobs)
    (hnextUpload : world'.nextUploadId = world.nextUploadId)
    (hnextBlob : world'.nextBlobId = world.nextBlobId) : Valid service world' where
  blobs := hblobs
  uploadIds upload hupload := by
    rw [hnextUpload]
    exact hv.uploadIds upload (huploads upload hupload)
  blobIds blob hblob := by
    rw [hnextBlob]
    exact hv.blobIds blob (hblobs' blob hblob)

theorem Valid.deleteUploadedFile (hv : Valid service world) {userId : UserId} {uploadUuid : String}
    (hs : world.deleteUploadedFile userId uploadUuid = some world') : Valid service world' := by
  obtain ⟨upload, hfind, hs⟩ := Option.bind_eq_some_iff.mp hs
  split_ifs at hs with huser hrefs
  obtain ⟨blob, hblobFind, rfl⟩ := Option.map_eq_some_iff.mp hs
  have hupload := find_mem hfind
  have hblob := find_mem hblobFind
  have hblobId : blob.id = upload.blobId := find_key hblobFind
  have himports : world.tables.importRefs upload.id = 0 := by omega
  have hinputs : world.tables.inputRefs upload.id = 0 := by omega
  have hlast : (world.tables.flush ⟨[upload.id], []⟩).blobRefCount blob.id = 0 ↔
      ∀ other ∈ world.tables.uploads, other.blobId = blob.id → other = upload := by
    rw [UploadTables.blobRefCount, List.length_eq_zero_iff, List.filter_eq_nil_iff]
    constructor
    · intro hnone other hother hid
      by_contra hne
      refine hnone other (UploadTables.mem_flush_uploads.mpr ⟨hother, fun hmem => hne ?_⟩)
        (decide_eq_true hid)
      exact List.inj_on_of_nodup_map hv.blobs.ok.uploadIds hother hupload
        (List.mem_singleton.mp hmem)
    · intro hall other hother hid
      obtain ⟨hother, hnot⟩ := UploadTables.mem_flush_uploads.mp hother
      rw [hall other hother (of_decide_eq_true hid)] at hnot
      exact hnot (List.mem_singleton_self _)
  have hdone := hv.blobs.flushUpload hupload hblob hblobId
    (UploadTables.not_mem_of_importRefs himports) (UploadTables.not_mem_of_inputRefs hinputs) hlast
  by_cases hcount : (world.tables.flush ⟨[upload.id], []⟩).blobRefCount blob.id = 0
  · simp only [if_pos hcount] at hdone ⊢
    refine hv.shrink ?_ (fun other hother => ?_) (fun other hother => ?_) rfl rfl
    · rw [UploadTables.flush_flush]
      exact hdone
    · exact List.mem_of_mem_filter (List.mem_of_mem_filter hother)
    · exact List.mem_of_mem_filter (List.mem_of_mem_filter hother)
  · simp only [if_neg hcount, BlobsOk.deleteObjects_nil] at hdone ⊢
    exact hv.shrink hdone (fun other hother => List.mem_of_mem_filter hother)
      (fun other hother => List.mem_of_mem_filter hother) rfl rfl

theorem Valid.cleanupBinaryArtifacts (hv : Valid service world) (jobId : ImportJobId) :
    Valid service (world.cleanupBinaryArtifacts jobId) :=
  hv.shrink (hv.blobs.cleanupBinaryArtifacts jobId)
    (fun _ hupload => List.mem_of_mem_filter hupload)
    (fun _ hblob => List.mem_of_mem_filter hblob) rfl rfl

/-- The uploads among the inputs of a score that nothing else refers to. -/
def lonelyInputs (world : BlobWorld) (score : Score) : List Nat :=
  (UploadTables.unreferenced { world.tables with
    inputAssets := world.tables.inputAssets.filter (·.scoreId ≠ score.id) }
    (world.inputRows score.id)).map (·.1.id)

/-- The uploads of an import that nothing refers to after it and the inputs of
a score are deleted. -/
def lonelyUploads (world : BlobWorld) (score : Score) (jobId : ImportJobId) : List Nat :=
  (UploadTables.orphanUploadsAfterJobDelete { world.tables with
    inputAssets := world.tables.inputAssets.filter (·.scoreId ≠ score.id) } jobId).map (·.1.id)

/-- The condition: uploads of one blob are deleted together only if another one
stays, or the session is committed between them. -/
def Separated (world : BlobWorld) : BlobAction → Prop
  | .cleanupDeletingScore score =>
    Separate world.tables (world.lonelyInputs score) [] ∧
      ∀ jobId, world.singleScoreOriginatingJob score = some jobId →
        Separate world.tables (world.lonelyUploads score jobId) (world.lonelyInputs score)
  | .cleanupOrphanUploads _ uploads => Prompt world.tables uploads
  | _ => True

theorem inputRows_mem {scoreId : ScoreId} {row : Upload × StorageBlob}
    (h : row ∈ world.inputRows scoreId) :
    row.1 ∈ world.tables.uploads ∧ row.2 ∈ world.tables.blobs ∧ row.2.id = row.1.blobId := by
  obtain ⟨asset, -, hrow⟩ := List.mem_filterMap.mp h
  obtain ⟨upload, hupload, hrow⟩ := Option.bind_eq_some_iff.mp hrow
  obtain ⟨blob, hblob, rfl⟩ := Option.map_eq_some_iff.mp hrow
  exact ⟨find_mem hupload, find_mem hblob, find_key hblob⟩

theorem Valid.cleanupDeletingScore (hv : Valid service world) {score : Score}
    (hs : world.Separated (.cleanupDeletingScore score)) :
    Valid service (world.cleanupDeletingScore score) := by
  have hwithout : BlobsOk service { world.tables with
      inputAssets := world.tables.inputAssets.filter (·.scoreId ≠ score.id) } world.objects := by
    refine hv.blobs.refer ?_ rfl rfl hv.blobs.artifactKeys
    exact { hv.blobs.ok with
      assets := hv.blobs.ok.assets.sublist (List.filter_sublist.map _)
      assetUploads := fun asset hasset =>
        hv.blobs.ok.assetUploads asset (List.mem_of_mem_filter hasset) }
  have hrows : ∀ row ∈ world.inputRows score.id, row.1 ∈ world.tables.uploads ∧
      row.2 ∈ world.tables.blobs ∧ row.2.id = row.1.blobId := fun _ hrow => inputRows_mem hrow
  unfold BlobWorld.cleanupDeletingScore
  simp only
  split
  · exact hv.shrink (hwithout.cleanupInputs hrows hs.1)
      (fun _ hupload => List.mem_of_mem_filter hupload)
      (fun _ hblob => List.mem_of_mem_filter hblob) rfl rfl
  · rename_i jobId hjob
    exact hv.shrink (hwithout.deleteOriginatingImportJob hrows hs.1 (hs.2 jobId hjob))
      (fun _ hupload => List.mem_of_mem_filter (List.mem_of_mem_filter hupload))
      (fun _ hblob => List.mem_of_mem_filter (List.mem_of_mem_filter hblob)) rfl rfl

theorem Valid.cleanupOrphanUploads (hv : Valid service world) {cutoff : Int}
    {uploads : List Upload} (hperm : uploads.Perm (world.tables.listOrphanUploads cutoff))
    (hp : Prompt world.tables uploads) :
    Valid service (world.cleanupOrphanUploads uploads) := by
  obtain ⟨hdone, huploads, hblobs⟩ := hv.blobs.cleanupOrphanUploads hperm hp
  exact hv.shrink hdone huploads hblobs rfl rfl

theorem Valid.step {action : BlobAction} (hv : Valid service world)
    (hg : world.Separated action) (hs : world.Step service action world') :
    Valid service world' := by
  cases action with
  | uploadFile userId filename content uploadUuid blobUuid now =>
    rw [hs.2]
    exact hv.uploadFile userId filename content uploadUuid blobUuid now
  | deleteUploadedFile userId uploadUuid => exact hv.deleteUploadedFile hs
  | cleanupBinaryArtifacts jobId =>
    rw [hs]
    exact hv.cleanupBinaryArtifacts jobId
  | deleteJob jobId =>
    rw [hs]
    exact { hv.cleanupBinaryArtifacts jobId with }
  | cleanupDeletingScore score =>
    rw [hs.2.2]
    exact hv.cleanupDeletingScore hg
  | cleanupOrphanUploads cutoff uploads =>
    rw [hs.2]
    exact hv.cleanupOrphanUploads hs.1 hg
  | others jobUploads inputAssets artifacts jobs scores =>
    obtain ⟨hok, hkeys, rfl⟩ := hs
    exact ⟨hv.blobs.refer hok rfl rfl hkeys, hv.uploadIds, hv.blobIds⟩

/-! ## The claim about runs -/

def hashedFiles : FilesService :=
  ⟨["pdf", "png"], "local", fun _ => "9f86d081", fun _ => by decide⟩

def emptyFiles : BlobWorld := ⟨⟨[], [], [], [], []⟩, [], [], fun _ => none, 1, 1⟩

theorem emptyFiles_valid : Valid hashedFiles emptyFiles where
  blobs := {
    ok := {
      uploadIds := List.nodup_nil
      blobIds := List.nodup_nil
      blobUuids := List.nodup_nil
      links := List.nodup_nil
      assets := List.nodup_nil
      linkUploads := by decide
      assetUploads := by decide
      uploadBlobs := by decide }
    referenced blob h := absurd h List.not_mem_nil
    shas := List.nodup_nil
    keys := List.nodup_nil
    blobKeys blob h := absurd h List.not_mem_nil
    backend := by decide
    objects key _ :=
      ⟨fun h => absurd h Bool.false_ne_true, fun ⟨_, h, _⟩ => absurd h List.not_mem_nil⟩
    artifactKeys artifact h := absurd h List.not_mem_nil }
  uploadIds := by decide
  blobIds := by decide

def scan : BlobWorld := emptyFiles.uploadFile hashedFiles 1 "scan.pdf" "page" "u-1" "b-1" 0

end BlobWorld

end NoteVerse.Backend

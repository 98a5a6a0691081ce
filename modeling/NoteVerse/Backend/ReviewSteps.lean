import NoteVerse.Backend.ReviewConfirm
import NoteVerse.Backend.StorageReservations

/-!
# The steps of a review

`PhaseStep` says what a step does to the request it is about, `JobOk` what
holds of an import and `RequestOk` what holds of a request. `Commits` is what
the transaction of a confirm writes; that it commits means that the import had
no score (`commit_unlinked`), by the constraint on the originating import.
-/

namespace NoteVerse.Backend

open Table Transition

/-! ## What a request holds and has made -/

namespace ReviewPhase

/-- The reservation of a request, and its status. -/
def reservation : ReviewPhase → Option (String × StorageUsageReservationStatus)
  | reserved _ reservationId => some (reservationId, .reserved)
  | stored _ reservationId => some (reservationId, .reserved)
  | failing _ _ _ reservationId => some (reservationId, .reserved)
  | committed _ reservationId _ => some (reservationId, .reserved)
  | failed _ (some reservationId) => some (reservationId, .released)
  | raised _ _ (some reservationId) => some (reservationId, .reserved)
  | _ => none

/-- The score that a request has made. -/
def made : ReviewPhase → Option ConfirmedScore
  | committed made _ _ => some made
  | finishing made _ _ => made
  | answered made _ => made
  | raised made _ _ => made
  | _ => none

/-- The draft of a request whose document is stored. -/
def storedDraft : ReviewPhase → Option ConfirmDraft
  | stored draft _ => some draft
  | phase => phase.made.map (·.draft)

/-- The draft of a request, until it fails. -/
def draft : ReviewPhase → Option ConfirmDraft
  | reserved draft _ => some draft
  | failing _ _ draft _ => some draft
  | phase => phase.storedDraft

def todo : ReviewPhase → List ReviewFollowUp
  | committed _ _ todo => todo
  | finishing _ todo _ => todo
  | _ => []

def answer : ReviewPhase → Option String
  | finishing _ _ answer => some answer
  | answered _ answer => some answer
  | _ => none

end ReviewPhase

def ReviewRequest.IsConfirm : ReviewRequest → Prop
  | .confirm _ _ _ _ => True
  | .update _ _ _ => False

/-- A key of the document of a revision. -/
def StorageKey.IsSource (key : StorageKey) : Prop :=
  ∃ scoreUuid revisionUuid, key = revisionSourceKey scoreUuid revisionUuid

theorem ConfirmDraft.isSource (draft : ConfirmDraft) : draft.key.IsSource := ⟨_, _, rfl⟩

theorem ConfirmDraft.key_ne {draft draft' : ConfirmDraft}
    (h : draft.scoreUuid ≠ draft'.scoreUuid) : draft.key ≠ draft'.key := by
  intro e
  simp only [key, revisionSourceKey, List.cons.injEq] at e
  exact h e.2.1

theorem thumbnailKey_not_isSource (draft : ConfirmDraft) (thumbnail : ImportArtifact)
    (assetUuid : String) : ¬(thumbnailKey draft thumbnail assetUuid).IsSource := by
  rintro ⟨scoreUuid, revisionUuid, e⟩
  simp [thumbnailKey, revisionSourceKey] at e

theorem reviewMusicxmlKey_not_isSource (jobUuid uuid : String) :
    ¬(reviewMusicxmlKey jobUuid uuid).IsSource := by
  rintro ⟨scoreUuid, revisionUuid, e⟩
  simp [reviewMusicxmlKey, revisionSourceKey] at e

/-- What is left to do deletes no document of a revision, and the clean-up of
an import is left to confirms only. -/
def ReviewFollowUp.Ok (request : ReviewRequest) : ReviewFollowUp → Prop
  | .deleteObject key _ => ¬key.IsSource
  | .cleanupBinaryArtifacts => request.IsConfirm
  | _ => True

namespace ConfirmedScore

variable (made : ConfirmedScore)

/-- The row of the score, with its head. -/
def score : Score :=
  { made.draft.score made.scoreId with headRevisionId := some made.revisionId }

def revision : ScoreRevision := made.draft.revision made.revisionId made.scoreId

def source : ScoreRevisionSource := made.draft.source made.sourceUuid made.revisionId

end ConfirmedScore

namespace ReviewWorld

/-- What the requests hold. -/
def holds (world : ReviewWorld) (requestId : Nat) :
    Option (String × StorageUsageReservationStatus) :=
  (world.requests requestId).bind fun request => request.2.reservation

variable {requestId : Nat} {draft : ConfirmDraft} {made : ConfirmedScore}
  {todo : List ReviewFollowUp} {after : ReviewWorld}

theorem holds_update {world world' : ReviewWorld} {request : ReviewRequest} {phase : ReviewPhase}
    (h : world'.requests = Function.update world.requests requestId (some (request, phase))) :
    world'.holds = Function.update world.holds requestId phase.reservation := by
  funext i
  simp only [holds, h, Function.update_apply]
  split_ifs <;> rfl

variable {service : ReviewService} {start world world' : ReviewWorld} {request : ReviewRequest}
  {phase phase' : ReviewPhase}

/-! ## The transaction of a confirm -/

/-- What the transaction writes. -/
structure Commits (world : ReviewWorld) (made : ConfirmedScore) (world' : ReviewWorld) :
    Prop where
  scoreId : made.scoreId = world.tables.nextScoreId
  revisionId : made.revisionId = world.tables.nextRevisionId
  /-- No row of a score violates the constraints. -/
  free : ∀ row ∈ world.tables.scores, ¬(made.draft.score made.scoreId).Clashes row
  scores : (∀ row ∈ world.tables.scores, row.id ≠ made.scoreId) →
    world'.tables.scores = world.tables.scores ++ [made.score]
  revisions : world'.tables.revisions = world.tables.revisions ++ [made.revision]
  sources : world'.tables.sources = world.tables.sources ++ [made.source]
  nextScoreId : world'.tables.nextScoreId = world.tables.nextScoreId + 1
  nextRevisionId : world'.tables.nextRevisionId = world.tables.nextRevisionId + 1
  uploads : ∃ assetUuid, world'.uploads = { world.uploads with
    inputAssets := world.uploads.inputAssets ++ promoteUploadsToScoreInputs made.scoreId assetUuid
      (sortedJobUploadRows world.uploads made.draft.jobId) }
  jobs : world'.jobs = update ReviewJob.id made.draft.jobId
    (fun job => { job with scoreId := some made.scoreId, state := .confirmed }) world.jobs
  usage : world'.usage = world.usage
  issued : world'.issued = world.issued
  requests : world'.requests = world.requests
  objects : ∀ key : StorageKey, key.IsSource → world'.objects key = world.objects key

theorem copyReviewThumbnail_cases {revisionId : RevisionId} {assetUuid : String}
    {copied : ReviewWorld}
    (h : copyReviewThumbnail service world draft revisionId assetUuid = some copied) :
    copied.usage = world.usage ∧ copied.issued = world.issued ∧
      copied.requests = world.requests ∧
      ∀ key : StorageKey, key.IsSource → copied.objects key = world.objects key := by
  unfold copyReviewThumbnail at h
  split at h
  · cases h
    exact ⟨rfl, rfl, rfl, fun _ _ => rfl⟩
  · rename_i thumbnail hthumbnail
    obtain ⟨content, hcontent, rfl⟩ := Option.map_eq_some_iff.mp h
    refine ⟨rfl, rfl, rfl, fun key hkey => Function.update_of_ne ?_ _ _⟩
    rintro rfl
    exact thumbnailKey_not_isSource draft thumbnail assetUuid hkey

theorem addConfirmedScore_cases {tables tables' : ScoreTables} {sourceUuid : String}
    (h : addConfirmedScore tables draft sourceUuid = some tables') :
    (∀ row ∈ tables.scores, ¬(draft.score tables.nextScoreId).Clashes row) ∧
      tables'.scores = tables.scores ++ [draft.score tables.nextScoreId] ∧
      tables'.revisions =
        tables.revisions ++ [draft.revision tables.nextRevisionId tables.nextScoreId] ∧
      tables'.sources = tables.sources ++ [draft.source sourceUuid tables.nextRevisionId] ∧
      tables'.nextScoreId = tables.nextScoreId + 1 ∧
      tables'.nextRevisionId = tables.nextRevisionId + 1 := by
  unfold addConfirmedScore at h
  obtain ⟨tables₁, h₁, h⟩ := Option.bind_eq_some_iff.mp h
  obtain ⟨tables₂, h₂, rfl⟩ := Option.map_eq_some_iff.mp h
  simp only [ScoreTables.addScore] at h₁
  split_ifs at h₁ with hclash
  cases h₁
  simp only [ScoreTables.addRevision] at h₂
  split_ifs at h₂
  cases h₂
  exact ⟨fun row hrow hc => hclash ⟨row, hrow, hc⟩, rfl, rfl, rfl, rfl, rfl⟩

theorem commit_cases {uuids : ConfirmUuids} {fault : ConfirmFault} {rolledBack : ReviewWorld}
    (h : draft.commit service world uuids fault = (rolledBack, some (world', made, todo))) :
    made.draft = draft ∧ Commits world made world' ∧ todo = confirmFollowUps draft uuids
      (sortedJobUploadRows world.uploads draft.jobId) := by
  unfold ConfirmDraft.commit at h
  split at h
  · cases h
  rename_i tables htables
  obtain ⟨hfree, hscores, hrevisions, hsources, hnextScore, hnextRevision⟩ :=
    addConfirmedScore_cases htables
  split at h
  · cases h
  rename_i copied hcopied
  split_ifs at hcopied
  obtain ⟨husage, hissued, hrequests, hobjects⟩ := copyReviewThumbnail_cases hcopied
  split_ifs at h
  · cases h
  cases h
  refine ⟨rfl, ⟨rfl, rfl, hfree, fun hne => ?_, hrevisions, hsources, hnextScore,
    hnextRevision, ⟨_, rfl⟩, rfl, husage, hissued, hrequests, hobjects⟩, rfl⟩
  show update Score.id _ _ tables.scores = _
  rw [hscores]
  exact update_split (r := draft.score world.tables.nextScoreId) rfl hne
    fun _ h => absurd h List.not_mem_nil

/-- A transaction that is rolled back leaves at most a rendered page behind. -/
theorem commit_rolledBack {uuids : ConfirmUuids} {fault : ConfirmFault} {rolledBack : ReviewWorld}
    (h : draft.commit service world uuids fault = (rolledBack, none)) :
    ∃ objects, rolledBack = { world with objects } ∧
      ∀ key : StorageKey, key.IsSource → objects key = world.objects key := by
  unfold ConfirmDraft.commit at h
  split at h
  · cases h
    exact ⟨_, rfl, fun _ _ => rfl⟩
  split at h
  · cases h
    exact ⟨_, rfl, fun _ _ => rfl⟩
  rename_i copied hcopied
  split_ifs at hcopied
  split_ifs at h
  · cases h
    exact ⟨_, rfl, (copyReviewThumbnail_cases hcopied).2.2.2⟩
  · cases h

/-! ## The promoted uploads -/

theorem promote_uploadIds (scoreId : ScoreId) (assetUuid : Nat → String)
    (rows : List (ImportJobUpload × Upload × StorageBlob)) :
    (promoteUploadsToScoreInputs scoreId assetUuid rows).map (·.uploadId) =
      rows.map (·.2.1.id) := by
  rw [promoteUploadsToScoreInputs, List.map_map]
  have hfun : ((·.uploadId) ∘ fun x : (ImportJobUpload × Upload × StorageBlob) × Nat =>
      (⟨assetUuid x.2, scoreId, x.1.2.1.id, some x.1.1.pageNumber, x.1.1.sortOrder⟩ :
        ScoreInputAsset)) = (fun row => row.2.1.id) ∘ Prod.fst := rfl
  rw [hfun, ← List.map_map, List.zipIdx_map_fst]

theorem promote_mem {scoreId : ScoreId} {assetUuid : Nat → String}
    {rows : List (ImportJobUpload × Upload × StorageBlob)} {asset : ScoreInputAsset}
    (h : asset ∈ promoteUploadsToScoreInputs scoreId assetUuid rows) :
    ∃ row ∈ rows, row.2.1.id = asset.uploadId := by
  have hmem := List.mem_map_of_mem (f := (·.uploadId)) h
  rw [promote_uploadIds] at hmem
  exact List.mem_map.mp hmem

theorem promote_scoreId {scoreId : ScoreId} {assetUuid : Nat → String}
    {rows : List (ImportJobUpload × Upload × StorageBlob)} {asset : ScoreInputAsset}
    (h : asset ∈ promoteUploadsToScoreInputs scoreId assetUuid rows) : asset.scoreId = scoreId := by
  obtain ⟨row, -, rfl⟩ := List.mem_map.mp h
  rfl

/-- Each upload of the import is promoted. -/
theorem sortedJobUploadRows_perm {uploads : UploadTables} (h : uploads.Ok) (jobId : ImportJobId) :
    ((sortedJobUploadRows uploads jobId).map (·.2.1.id)).Perm
      ((uploads.linksOf jobId).map (·.uploadId)) := by
  have hperm : (sortedJobUploadRows uploads jobId).Perm (uploads.jobUploadRows jobId) :=
    List.mergeSort_perm _ _
  refine (hperm.map _).trans (List.Perm.of_eq ?_)
  rw [← h.jobUploadRows_links, List.map_map]
  exact List.map_congr_left fun row hrow => (UploadTables.mem_jobUploadRows hrow).2.2.1

/-! ## The tables -/

/-- The constraints, the ids that the sequences have given, and what the
uploads and the keys are like. -/
structure TablesOk (start world : ReviewWorld) : Prop where
  jobIds : (world.jobs.map (·.id)).Nodup
  jobUuids : (world.jobs.map (·.jobUuid)).Nodup
  uploads : world.uploads.Ok
  /-- An import keeps its uploads until it has a score. -/
  links : ∀ job ∈ world.jobs, job.scoreId = none →
    world.uploads.linksOf job.id = start.uploads.linksOf job.id
  artifactKeys : ∀ artifact ∈ world.uploads.artifacts, ¬artifact.storageKey.IsSource
  blobKeys : ∀ blob ∈ world.uploads.blobs, ¬blob.storageKey.IsSource
  scoreNodup : (world.tables.scores.map (·.id)).Nodup
  scoreIds : ∀ score ∈ world.tables.scores, score.id < world.tables.nextScoreId
  revisionIds : ∀ revision ∈ world.tables.revisions, revision.scoreId < world.tables.nextScoreId
  sourceIds : ∀ source ∈ world.tables.sources, source.revisionId < world.tables.nextRevisionId
  assetIds : ∀ asset ∈ world.uploads.inputAssets, asset.scoreId < world.tables.nextScoreId
  origins : ∀ score ∈ world.tables.scores, ∀ score' ∈ world.tables.scores, ∀ jobId,
    score.originatingJobId = some jobId → score'.originatingJobId = some jobId → score = score'

theorem TablesOk.scores_commit (h : TablesOk start world) (hc : Commits world made world') :
    world'.tables.scores = world.tables.scores ++ [made.score] :=
  hc.scores fun row hrow e => Nat.lt_irrefl _ ((e.trans hc.scoreId) ▸ h.scoreIds row hrow)

/-- The assets of an upload of the new score are new. -/
theorem TablesOk.uploads_commit (h : TablesOk start world) (hc : Commits world made world') :
    world'.uploads.Ok := by
  obtain ⟨assetUuid, huploads⟩ := hc.uploads
  rw [huploads]
  refine { h.uploads with assets := ?_, assetUploads := ?_ }
  · rw [List.map_append, List.nodup_append]
    refine ⟨h.uploads.assets, ?_, fun pair hpair pair' hpair' => ?_⟩
    · have hids := (sortedJobUploadRows_perm h.uploads made.draft.jobId).nodup_iff.mpr
        (h.uploads.links_nodup _)
      rw [← promote_uploadIds made.scoreId assetUuid] at hids
      refine List.Nodup.of_map Prod.snd ?_
      rw [List.map_map]
      exact hids
    · obtain ⟨asset, hasset, rfl⟩ := List.mem_map.mp hpair
      obtain ⟨asset', hasset', rfl⟩ := List.mem_map.mp hpair'
      have hlt := h.assetIds asset hasset
      have heq := (promote_scoreId hasset').trans hc.scoreId
      intro e
      have := congrArg Prod.fst e
      omega
  · intro asset hasset
    rcases List.mem_append.mp hasset with hasset | hasset
    · exact h.uploads.assetUploads asset hasset
    · obtain ⟨row, hrow, hid⟩ := promote_mem hasset
      have hrow : row ∈ world.uploads.jobUploadRows made.draft.jobId :=
        (List.mergeSort_perm _ _).mem_iff.mp hrow
      exact ⟨_, (UploadTables.mem_jobUploadRows hrow).2.1, hid⟩

theorem TablesOk.commit (h : TablesOk start world) (hc : Commits world made world') :
    TablesOk start world' := by
  have hscores := h.scores_commit hc
  obtain ⟨assetUuid, huploads⟩ := hc.uploads
  constructor
  · rw [hc.jobs, map_update]
    · exact h.jobIds
    · exact fun _ => rfl
  · rw [hc.jobs, map_update]
    · exact h.jobUuids
    · exact fun _ => rfl
  · exact h.uploads_commit hc
  · intro job hjob hnone
    rw [hc.jobs] at hjob
    rw [huploads]
    rcases mem_update hjob with ⟨hjob, -⟩ | ⟨job₀, -, -, rfl⟩
    · exact h.links job hjob hnone
    · cases hnone
  · rw [huploads]
    exact h.artifactKeys
  · rw [huploads]
    exact h.blobKeys
  · rw [hscores, List.map_append, List.map_singleton, List.nodup_append]
    refine ⟨h.scoreNodup, List.nodup_singleton _, fun id hid id' hid' => ?_⟩
    obtain ⟨score, hscore, rfl⟩ := List.mem_map.mp hid
    rw [List.mem_singleton.mp hid']
    exact Nat.ne_of_lt ((h.scoreIds score hscore).trans_eq hc.scoreId.symm)
  · intro score hscore
    rw [hscores, List.mem_append, List.mem_singleton] at hscore
    rw [hc.nextScoreId]
    rcases hscore with hscore | rfl
    · exact Nat.lt_succ_of_lt (h.scoreIds score hscore)
    · exact Nat.lt_succ_of_le hc.scoreId.le
  · intro revision hrevision
    rw [hc.revisions, List.mem_append, List.mem_singleton] at hrevision
    rw [hc.nextScoreId]
    rcases hrevision with hrevision | rfl
    · exact Nat.lt_succ_of_lt (h.revisionIds revision hrevision)
    · exact Nat.lt_succ_of_le hc.scoreId.le
  · intro source hsource
    rw [hc.sources, List.mem_append, List.mem_singleton] at hsource
    rw [hc.nextRevisionId]
    rcases hsource with hsource | rfl
    · exact Nat.lt_succ_of_lt (h.sourceIds source hsource)
    · exact Nat.lt_succ_of_le hc.revisionId.le
  · intro asset hasset
    rw [huploads, List.mem_append] at hasset
    rw [hc.nextScoreId]
    rcases hasset with hasset | hasset
    · exact Nat.lt_succ_of_lt (h.assetIds asset hasset)
    · exact Nat.lt_succ_of_le ((promote_scoreId hasset).trans hc.scoreId).le
  · intro score hscore score' hscore' jobId horigin horigin'
    rw [hscores, List.mem_append, List.mem_singleton] at hscore hscore'
    rcases hscore with hscore | rfl
    · rcases hscore' with hscore' | rfl
      · exact h.origins score hscore score' hscore' jobId horigin horigin'
      · exact absurd (.inr ⟨rfl, horigin.trans horigin'.symm⟩) (hc.free score hscore)
    · rcases hscore' with hscore' | rfl
      · exact absurd (.inr ⟨rfl, horigin'.trans horigin.symm⟩) (hc.free score' hscore')
      · rfl

/-! ## Imports and requests -/

/-- The score of an import is the one that a request has made. -/
structure Confirmed (start world : ReviewWorld) (job : ReviewJob) (made : ConfirmedScore) :
    Prop where
  jobId : made.draft.jobId = job.id
  score : made.score ∈ world.tables.scores
  revisions : world.tables.revisionsOf made.scoreId = [made.revision]
  sources : world.tables.sources.filter (·.revisionId = made.revisionId) = [made.source]
  inputs : ((world.uploads.inputAssets.filter (·.scoreId = made.scoreId)).map
    (·.uploadId)).Perm ((start.uploads.linksOf job.id).map (·.uploadId))

structure JobOk (start world : ReviewWorld) (job : ReviewJob) : Prop where
  unlinked : job.scoreId = none → job.state ≠ .confirmed ∧
    ∀ score ∈ world.tables.scores, score.originatingJobId ≠ some job.id
  linked : ∀ scoreId, job.scoreId = some scoreId → job.state = .confirmed ∧
    ∃ requestId request phase made, world.requests requestId = some (request, phase) ∧
      phase.made = some made ∧ made.scoreId = scoreId ∧ Confirmed start world job made

/-- What a draft holds of its request. -/
structure DraftOf (service : ReviewService) (world : ReviewWorld) (request : ReviewRequest)
    (draft : ConfirmDraft) : Prop where
  confirm : request.IsConfirm
  content : draft.content = request.content
  contentHash : draft.contentHash = service.sha256 request.content
  issued : draft.scoreUuid ∈ world.issued
  job : ∃ job ∈ world.jobs, job.jobUuid = request.jobUuid ∧ job.id = draft.jobId

structure RequestOk (service : ReviewService) (world : ReviewWorld) (request : ReviewRequest)
    (phase : ReviewPhase) : Prop where
  draft : ∀ draft, phase.draft = some draft → DraftOf service world request draft
  object : ∀ draft, phase.storedDraft = some draft →
    world.objects draft.key = some draft.content
  todo : ∀ followUp ∈ phase.todo, followUp.Ok request
  made : ∀ made, phase.made = some made → made.score ∈ world.tables.scores ∧
    ∃ job ∈ world.jobs, job.id = made.draft.jobId ∧ job.scoreId = some made.scoreId
  answer : ∀ answer, phase.answer = some answer → request.IsConfirm →
    ∃ job ∈ world.jobs, job.jobUuid = request.jobUuid ∧
      ∃ score ∈ world.tables.scores, job.scoreId = some score.id ∧ score.scoreUuid = answer

/-- Nothing that a request knows of is gone. -/
structure Extends (world world' : ReviewWorld) : Prop where
  issued : ∀ uuid ∈ world.issued, uuid ∈ world'.issued
  scores : ∀ score ∈ world.tables.scores, score ∈ world'.tables.scores
  jobs : ∀ job ∈ world.jobs, ∃ job' ∈ world'.jobs, job'.id = job.id ∧
    job'.jobUuid = job.jobUuid ∧ ∀ scoreId, job.scoreId = some scoreId →
      job'.scoreId = some scoreId

theorem DraftOf.mono (he : world.Extends world') (h : DraftOf service world request draft) :
    DraftOf service world' request draft := by
  obtain ⟨job, hjob, huuid, hid⟩ := h.job
  obtain ⟨job', hjob', hid', huuid', -⟩ := he.jobs job hjob
  exact { h with
    issued := he.issued _ h.issued
    job := ⟨job', hjob', huuid'.trans huuid, hid'.trans hid⟩ }

theorem RequestOk.mono (he : world.Extends world')
    (hobjects : ∀ draft, phase.storedDraft = some draft →
      world'.objects draft.key = world.objects draft.key)
    (h : RequestOk service world request phase) : RequestOk service world' request phase where
  draft draft hdraft := (h.draft draft hdraft).mono he
  object draft hdraft := (hobjects draft hdraft).trans (h.object draft hdraft)
  todo := h.todo
  made made hmade := by
    obtain ⟨hscore, job, hjob, hid, hlinked⟩ := h.made made hmade
    obtain ⟨job', hjob', hid', -, hlinked'⟩ := he.jobs job hjob
    exact ⟨he.scores _ hscore, job', hjob', hid'.trans hid, hlinked' _ hlinked⟩
  answer answer hanswer hconfirm := by
    obtain ⟨job, hjob, huuid, score, hscore, hlinked, hanswer⟩ :=
      h.answer answer hanswer hconfirm
    obtain ⟨job', hjob', -, huuid', hlinked'⟩ := he.jobs job hjob
    exact ⟨job', hjob', huuid'.trans huuid, score, he.scores _ hscore, hlinked' _ hlinked, hanswer⟩

/-- The imports, the scores and what belongs to them are the same. -/
structure SameScores (world world' : ReviewWorld) : Prop where
  jobs : world'.jobs = world.jobs
  tables : world'.tables = world.tables
  renderAssets : world'.renderAssets = world.renderAssets
  inputAssets : world'.uploads.inputAssets = world.uploads.inputAssets

/-- The invariant of the system. -/
structure Valid (service : ReviewService) (start world : ReviewWorld) : Prop where
  accounted : Accounted world.usage
  held : Held start.usage.statusOf world.usage.statusOf world.holds
  tables : TablesOk start world
  jobs : ∀ job ∈ world.jobs, JobOk start world job
  requests : ∀ requestId request phase, world.requests requestId = some (request, phase) →
    RequestOk service world request phase
  /-- No two requests draw the same uuid. -/
  alone : ∀ i j request request' phase phase' draft draft',
    world.requests i = some (request, phase) → world.requests j = some (request', phase') →
    phase.draft = some draft → phase'.draft = some draft' →
    draft.scoreUuid = draft'.scoreUuid → i = j

/-! ## The steps -/

/-- What a step does to the request it is about: the world and the phase after
it. -/
inductive PhaseStep (service : ReviewService) (world : ReviewWorld) (request : ReviewRequest) :
    ReviewPhase → ReviewWorld → ReviewPhase → Prop
  | raise {error : ReviewError} {objects : StorageKey → Option String}
      (ho : ∀ key : StorageKey, key.IsSource → objects key = world.objects key) :
      PhaseStep service world request .received { world with objects } (.failed error none)
  | existing {job : ReviewJob} {score : Score} (hconfirm : request.IsConfirm)
      (hjob : ownedJob world request = .ok job) (hscore : linkedScore world job = some score) :
      PhaseStep service world request .received world
        (.finishing none [.cleanupBinaryArtifacts] score.scoreUuid)
  | reserve {title : Option String} {scoreUuid revisionUuid reservationId : String}
      {draft : ConfirmDraft} {usage : StorageDb} (hconfirm : request.IsConfirm)
      (hread : service.readConfirm world request title scoreUuid revisionUuid =
        .ok (.draft draft))
      (hfresh : scoreUuid ∉ world.issued) (hnew : world.usage.statusOf reservationId = none)
      (ha : Accounted usage) (hstatus : usage.statusOf =
        Function.update world.usage.statusOf reservationId (some .reserved)) :
      PhaseStep service world request .received
        { world with usage, issued := scoreUuid :: world.issued } (.reserved draft reservationId)
  | put {draft : ConfirmDraft} {reservationId : String} :
      PhaseStep service world request (.reserved draft reservationId)
        (world.putBytes draft.key draft.content) (.stored draft reservationId)
  | fail {phase : ReviewPhase} {error : ReviewError} {stored : Bool} {draft : ConfirmDraft}
      {reservationId : String} {objects : StorageKey → Option String}
      (hr : phase.reservation = some (reservationId, .reserved)) (hd : phase.draft = some draft)
      (hm : phase.made = none)
      (ho : ∀ key : StorageKey, key.IsSource → objects key = world.objects key) :
      PhaseStep service world request phase { world with objects }
        (.failing error stored draft reservationId)
  | commit {draft : ConfirmDraft} {reservationId : String} {made : ConfirmedScore}
      {committed : ReviewWorld} {todo : List ReviewFollowUp} (hdraft : made.draft = draft)
      (hc : Commits world made committed) (htodo : ∀ followUp ∈ todo, followUp.Ok request) :
      PhaseStep service world request (.stored draft reservationId) committed
        (.committed made reservationId todo)
  | release {error : ReviewError} {stored : Bool} {draft : ConfirmDraft} {reservationId : String}
      {objects : StorageKey → Option String} {usage : StorageDb}
      (ho : ∀ key, key ≠ draft.key → objects key = world.objects key) (ha : Accounted usage)
      (hstatus : usage.statusOf =
        Function.update world.usage.statusOf reservationId (some .released)) :
      PhaseStep service world request (.failing error stored draft reservationId)
        { world with objects, usage } (.failed error (some reservationId))
  | settle {made : ConfirmedScore} {reservationId : String} {todo : List ReviewFollowUp}
      {usage : StorageDb} (ha : Accounted usage)
      (hstatus : usage.statusOf =
        Function.update world.usage.statusOf reservationId (some .committed)) :
      PhaseStep service world request (.committed made reservationId todo) { world with usage }
        (.finishing (some made) todo made.draft.scoreUuid)
  | unsettled {made : ConfirmedScore} {reservationId : String} {todo : List ReviewFollowUp}
      {error : ReviewError} :
      PhaseStep service world request (.committed made reservationId todo) world
        (.raised (some made) error (some reservationId))
  | update {artifacts : List ImportArtifact} {objects : StorageKey → Option String}
      {todo : List ReviewFollowUp} {answer : String} (hupdate : ¬request.IsConfirm)
      (hkeys : ∀ artifact ∈ artifacts, ¬artifact.storageKey.IsSource)
      (ho : ∀ key : StorageKey, key.IsSource → objects key = world.objects key)
      (htodo : ∀ followUp ∈ todo, followUp.Ok request) :
      PhaseStep service world request .received
        { world with objects, uploads := { world.uploads with artifacts } }
        (.finishing none todo answer)
  | charge {made : Option ConfirmedScore} {followUp : ReviewFollowUp}
      {todo : List ReviewFollowUp} {answer : String} {usage : StorageDb} (ha : Accounted usage)
      (hstatus : usage.statusOf = world.usage.statusOf ∨ ∃ uuid,
        world.usage.statusOf uuid = none ∧
        usage.statusOf = Function.update world.usage.statusOf uuid (some .committed)) :
      PhaseStep service world request (.finishing made (followUp :: todo) answer)
        { world with usage } (.finishing made todo answer)
  | delete {made : Option ConfirmedScore} {followUp : ReviewFollowUp}
      {todo : List ReviewFollowUp} {answer : String} {objects : StorageKey → Option String}
      (ho : ∀ key : StorageKey, key.IsSource → objects key = world.objects key) :
      PhaseStep service world request (.finishing made (followUp :: todo) answer)
        { world with objects } (.finishing made todo answer)
  | cleanup {made : Option ConfirmedScore} {todo more : List ReviewFollowUp} {answer : String}
      {job : ReviewJob} (hconfirm : request.IsConfirm) (hjob : ownedJob world request = .ok job)
      (hmore : ∀ followUp ∈ more, followUp.Ok request) :
      PhaseStep service world request
        (.finishing made (.cleanupBinaryArtifacts :: todo) answer)
        { world with uploads := (world.uploads.cleanupBinaryArtifacts job.id).1 }
        (.finishing made (more ++ todo) answer)
  | interrupt {made : Option ConfirmedScore} {todo : List ReviewFollowUp} {answer : String}
      {error : ReviewError} :
      PhaseStep service world request (.finishing made todo answer) world
        (.raised made error none)
  | answer {made : Option ConfirmedScore} {answer : String} :
      PhaseStep service world request (.finishing made [] answer) world (.answered made answer)

/-- A request goes on from a phase. -/
def Advances (service : ReviewService) (world : ReviewWorld) (requestId : Nat)
    (request : ReviewRequest) (phase : ReviewPhase) (world' : ReviewWorld) : Prop :=
  ∃ after phase', PhaseStep service world request phase after phase' ∧
    after.requests = world.requests ∧ world' = after.setPhase requestId request phase'

theorem Valid.statusOf (hv : Valid service start world)
    (h : world.requests requestId = some (request, phase)) {uuid : String}
    {status : StorageUsageReservationStatus} (hphase : phase.reservation = some (uuid, status)) :
    world.usage.statusOf uuid = some status := by
  refine hv.held.statuses requestId uuid status ?_
  rw [holds, h]
  exact hphase

theorem confirmFor_advances (hv : Valid service start world) (requestId : Nat)
    (hconfirm : request.IsConfirm) (title : Option String) {scoreUuid : String}
    (revisionUuid reservationUuid : String) (hfresh : scoreUuid ∉ world.issued) :
    Advances service world requestId request .received (world.confirmFor service requestId request
      title scoreUuid revisionUuid reservationUuid) := by
  unfold confirmFor
  split
  · exact ⟨_, _, .raise fun _ _ => rfl, rfl, rfl⟩
  · rename_i score hread
    unfold ReviewService.readConfirm at hread
    split at hread
    · cases hread
    rename_i job hjob
    split at hread
    · rename_i score' hscore
      cases hread
      exact ⟨_, _, .existing hconfirm hjob hscore, rfl, rfl⟩
    · split_ifs at hread
      cases hread
  · rename_i draft hread
    split
    · exact ⟨_, _, .raise fun _ _ => rfl, rfl, rfl⟩
    · rename_i handle usage hreserve
      obtain ⟨hid, hnew, hstatus⟩ := reserve_statusOf hreserve
      rw [← hid] at hnew hstatus
      exact ⟨_, _, .reserve hconfirm hread hfresh hnew (reserve_accounted hv.accounted hreserve)
        hstatus, rfl, rfl⟩

theorem releaseFor_advances (hv : Valid service start world) {error : ReviewError} {stored : Bool}
    {reservationId : String}
    (h : world.requests requestId = some (request, .failing error stored draft reservationId))
    (deleteRaises : Bool) :
    Advances service world requestId request (.failing error stored draft reservationId)
      (world.releaseFor requestId request error stored draft reservationId deleteRaises) := by
  obtain ⟨usage, hrun, hstatus⟩ :=
    releaseReservation_statusOf hv.accounted (hv.statusOf h rfl)
  have ha := releaseReservation_accounted hv.accounted hrun
  simp only [releaseFor, hrun]
  split_ifs
  · exact ⟨_, _, .release (fun key hkey => Function.update_of_ne hkey _ _) ha hstatus, rfl, rfl⟩
  · exact ⟨_, _, .release (fun _ _ => rfl) ha hstatus, rfl, rfl⟩

theorem settleFor_advances (hv : Valid service start world) {reservationId : String}
    (h : world.requests requestId = some (request, .committed made reservationId todo)) :
    Advances service world requestId request (.committed made reservationId todo)
      (world.settleFor requestId request made reservationId todo) := by
  obtain ⟨usage, hrun, hstatus⟩ := commitReservation_statusOf hv.accounted (hv.statusOf h rfl)
    ⟨some "score_revision_source", some made.sourceUuid, some made.draft.key.path⟩
  simp only [settleFor, hrun]
  exact ⟨_, _, .settle (commitReservation_accounted hv.accounted hrun) hstatus, rfl, rfl⟩

/-- The transaction of an update writes artifacts only, and no document of a
revision. -/
theorem update_cases {uuid : String} {fault : UpdateFault}
    {r : Except ReviewError (List ReviewFollowUp)} (ht : TablesOk start world)
    (h : service.update world request uuid fault = (after, r)) :
    (∃ objects error, r = .error error ∧ after = { world with objects } ∧
      ∀ key : StorageKey, key.IsSource → objects key = world.objects key) ∨
    ∃ objects artifacts todo, r = .ok todo ∧
      after = { world with objects, uploads := { world.uploads with artifacts } } ∧
      (∀ key : StorageKey, key.IsSource → objects key = world.objects key) ∧
      (∀ artifact ∈ artifacts, ¬artifact.storageKey.IsSource) ∧
      ∀ followUp ∈ todo, followUp.Ok request := by
  have hput : ∀ (objects : StorageKey → Option String) (jobUuid uuid : String)
      (content : Option String), ∀ key : StorageKey, key.IsSource →
      Function.update objects (reviewMusicxmlKey jobUuid uuid) content key = objects key := by
    intro objects jobUuid uuid content key hkey
    refine Function.update_of_ne ?_ _ _
    rintro rfl
    exact reviewMusicxmlKey_not_isSource jobUuid uuid hkey
  have hdelete : ∀ (objects : StorageKey → Option String) (jobUuid uuid content : String),
      ∀ key : StorageKey, key.IsSource →
      Function.update (Function.update objects (reviewMusicxmlKey jobUuid uuid) (some content))
        (reviewMusicxmlKey jobUuid uuid) none key = objects key := by
    intro objects jobUuid uuid content key hkey
    rw [Function.update_idem]
    exact hput objects jobUuid uuid none key hkey
  unfold ReviewService.update at h
  split at h
  · cases h
    exact .inl ⟨_, _, rfl, rfl, fun _ _ => rfl⟩
  split_ifs at h
  · cases h
    exact .inl ⟨_, _, rfl, rfl, fun _ _ => rfl⟩
  · cases h
    exact .inl ⟨_, _, rfl, rfl, fun _ _ => rfl⟩
  split at h
  · cases h
    exact .inl ⟨_, _, rfl, rfl, fun _ _ => rfl⟩
  · rename_i job hjob hstate hvalid rows artifact hartifact
    have hmem : artifact ∈ world.uploads.artifacts := by
      have hin : artifact ∈ reviewMusicxml world.uploads job.id := by
        rw [hartifact]
        exact List.mem_singleton_self _
      exact List.mem_of_mem_filter hin
    simp only at h
    split at h
    · cases h
      exact .inl ⟨_, _, rfl, rfl, fun _ _ => rfl⟩
    · cases h
      exact .inl ⟨_, _, rfl, rfl, hput _ _ _ _⟩
    · cases h
      exact .inl ⟨_, _, rfl, rfl, hdelete _ _ _ _⟩
    · split_ifs at h
      · cases h
        exact .inl ⟨_, _, rfl, rfl, hdelete _ _ _ _⟩
      · cases h
        refine .inr ⟨_, _, _, rfl, rfl, hput _ _ _ _, fun row hrow => ?_, fun followUp hf => ?_⟩
        · rcases mem_update hrow with ⟨hrow, -⟩ | ⟨row₀, -, -, rfl⟩
          · exact ht.artifactKeys row hrow
          · exact reviewMusicxmlKey_not_isSource _ _
        · simp only [updateFollowUps, List.cons_append, List.nil_append, List.mem_cons] at hf
          rcases hf with rfl | rfl | hf
          · trivial
          · trivial
          · split_ifs at hf
            · rw [List.mem_singleton.mp hf]
              exact ht.artifactKeys artifact hmem
            · cases hf
  · cases h
    exact .inl ⟨_, _, rfl, rfl, fun _ _ => rfl⟩

theorem cleanupFollowUps_ok (ht : TablesOk start world) {jobId : ImportJobId} {userId : UserId}
    {followUp : ReviewFollowUp}
    (h : followUp ∈ (world.uploads.cleanupBinaryArtifacts jobId).2.flatMap
      (cleanupFollowUps userId)) : followUp.Ok request := by
  obtain ⟨item, hitem, h⟩ := List.mem_flatMap.mp h
  simp only [cleanupFollowUps, List.mem_append, List.mem_singleton] at h
  rcases h with h | rfl
  · split_ifs at h
    · rw [List.mem_singleton.mp h]
      show ¬item.storageKey.IsSource
      rcases UploadTables.cleanupObjects_storageKey hitem with
        ⟨artifact, hartifact, hkey⟩ | ⟨blob, hblob, hkey⟩
      · rw [← hkey]
        exact ht.artifactKeys artifact hartifact
      · rw [← hkey]
        exact ht.blobKeys blob hblob
    · cases h
  · trivial

theorem follow_step (hv : Valid service start world) {followUp : ReviewFollowUp}
    (hf : followUp.Ok request) {made : Option ConfirmedScore} {more : List ReviewFollowUp}
    {answer reservationUuid : String} {raises : Bool}
    (h : world.follow request reservationUuid raises followUp = .ok (after, more)) :
    PhaseStep service world request (.finishing made (followUp :: todo) answer) after
      (.finishing made (more ++ todo) answer) ∧ after.requests = world.requests := by
  cases followUp with
  | recordRelease usageRequest =>
    simp only [follow] at h
    split_ifs at h
    split at h
    · cases h
    · rename_i usage hrun
      cases h
      exact ⟨.charge (recordRelease_accounted hv.accounted hrun)
        (.inl (recordRelease_statusOf hrun)), rfl⟩
  | recordAllocation usageRequest =>
    simp only [follow] at h
    split_ifs at h
    split at h
    · cases h
    · rename_i usage hrun
      cases h
      exact ⟨.charge (recordAllocation_accounted hv.accounted hrun)
        ((recordAllocation_statusOf hv.accounted hrun).imp_right fun h => ⟨_, h⟩), rfl⟩
  | deleteObject key bestEffort =>
    simp only [follow] at h
    split_ifs at h
    · cases h
      exact ⟨.delete fun _ _ => rfl, rfl⟩
    · cases h
      refine ⟨.delete fun key' hkey' => Function.update_of_ne ?_ _ _, rfl⟩
      rintro rfl
      exact hf hkey'
  | cleanupBinaryArtifacts =>
    simp only [follow] at h
    split at h
    · cases h
    · rename_i job hjob
      split_ifs at h
      cases h
      exact ⟨.cleanup hf hjob fun followUp hmem => cleanupFollowUps_ok hv.tables hmem, rfl⟩

theorem confirmFollowUps_ok (hconfirm : request.IsConfirm) (draft : ConfirmDraft)
    (uuids : ConfirmUuids) (rows : List (ImportJobUpload × Upload × StorageBlob)) :
    ∀ followUp ∈ confirmFollowUps draft uuids rows, followUp.Ok request := by
  intro followUp hf
  simp only [confirmFollowUps, List.mem_append, List.mem_flatMap, List.mem_singleton] at hf
  rcases hf with ⟨row, -, hf⟩ | rfl
  · simp only [promotedUsage, List.mem_cons, List.not_mem_nil, or_false] at hf
    rcases hf with rfl | rfl
    · trivial
    · trivial
  · exact hconfirm

/-- A request comes in, or one of those there are goes on. -/
theorem step_cases {action : ReviewAction} (hv : Valid service start world)
    (hs : Step service world action world') :
    (∃ request, world.requests action.requestId = none ∧
      world' = world.setPhase action.requestId request .received) ∨
    ∃ request phase, world.requests action.requestId = some (request, phase) ∧
      Advances service world action.requestId request phase world' := by
  cases action with
  | submit requestId request =>
    simp only [Step, next] at hs
    split at hs
    · rename_i hnone
      cases hs
      exact .inl ⟨request, hnone, rfl⟩
    · cases hs
  | confirm requestId scoreUuid revisionUuid reservationUuid =>
    simp only [Step, next] at hs
    split at hs
    · rename_i jobUuid userId content title hr
      split_ifs at hs with hfresh
      cases hs
      have hconfirm : (ReviewRequest.confirm jobUuid userId content title).IsConfirm := trivial
      exact .inr ⟨_, _, hr, confirmFor_advances hv requestId hconfirm title _ _ hfresh⟩
    · cases hs
  | putBytes requestId raises =>
    simp only [Step, next] at hs
    split at hs
    · rename_i request draft reservationId hr
      refine .inr ⟨request, _, hr, ?_⟩
      split_ifs at hs
      · cases hs
        exact ⟨world, _, .fail rfl rfl rfl fun _ _ => rfl, rfl, rfl⟩
      · cases hs
        exact ⟨_, _, .put, rfl, rfl⟩
    · cases hs
  | commit requestId uuids fault =>
    simp only [Step, next] at hs
    split at hs
    · rename_i request draft reservationId hr
      refine .inr ⟨request, _, hr, ?_⟩
      split at hs
      · rename_i rolledBack hcommit
        cases hs
        obtain ⟨objects, rfl, ho⟩ := commit_rolledBack hcommit
        exact ⟨_, _, .fail rfl rfl rfl ho, rfl, rfl⟩
      · rename_i rolledBack after made todo hcommit
        cases hs
        obtain ⟨hdraft, hc, rfl⟩ := commit_cases hcommit
        have hconfirm := ((hv.requests _ _ _ hr).draft draft rfl).confirm
        exact ⟨_, _, .commit hdraft hc (confirmFollowUps_ok hconfirm _ _ _), hc.requests, rfl⟩
    · cases hs
  | release requestId deleteRaises =>
    simp only [Step, next] at hs
    split at hs
    · rename_i request error stored draft reservationId hr
      cases hs
      exact .inr ⟨request, _, hr, releaseFor_advances hv hr deleteRaises⟩
    · cases hs
  | commitReservation requestId raises =>
    simp only [Step, next] at hs
    split at hs
    · rename_i request made reservationId todo hr
      refine .inr ⟨request, _, hr, ?_⟩
      split_ifs at hs
      · cases hs
        exact ⟨_, _, .unsettled, rfl, rfl⟩
      · cases hs
        exact settleFor_advances hv hr
    · cases hs
  | update requestId uuid fault =>
    simp only [Step, next] at hs
    split at hs
    · rename_i jobUuid userId content hr
      refine .inr ⟨_, _, hr, ?_⟩
      split at hs
      · rename_i rolledBack error hupdate
        cases hs
        obtain ⟨objects, e, -, rfl, ho⟩ | ⟨objects, artifacts, todo, he, -⟩ :=
          update_cases hv.tables hupdate
        · exact ⟨_, _, .raise ho, rfl, rfl⟩
        · cases he
      · rename_i after todo hupdate
        cases hs
        obtain ⟨objects, e, he, -⟩ | ⟨objects, artifacts, todo', he, rfl, ho, hkeys, htodo⟩ :=
          update_cases hv.tables hupdate
        · cases he
        · cases he
          exact ⟨_, _, .update (fun h => h) hkeys ho htodo, rfl, rfl⟩
    · cases hs
  | follow requestId reservationUuid raises =>
    simp only [Step, next] at hs
    split at hs
    · rename_i request made todo answer hr
      refine .inr ⟨request, _, hr, ?_⟩
      split at hs
      · cases hs
        exact ⟨_, _, .answer, rfl, rfl⟩
      · rename_i followUp todo
        split at hs
        · cases hs
          exact ⟨_, _, .interrupt, rfl, rfl⟩
        · rename_i after more hfollow
          cases hs
          have hf := (hv.requests _ _ _ hr).todo followUp List.mem_cons_self
          obtain ⟨hstep, hrequests⟩ := follow_step hv hf hfollow
          exact ⟨_, _, hstep, hrequests, rfl⟩
    · cases hs

/-! ## The second score is kept out -/

/-- The constraint on the originating import: a transaction that commits has
found the import without a score. -/
theorem Valid.commit_unlinked (hv : Valid service start world) (hc : Commits world made after)
    {job : ReviewJob} (hjob : job ∈ world.jobs) (hid : job.id = made.draft.jobId) :
    job.scoreId = none := by
  cases hlinked : job.scoreId with
  | none => rfl
  | some scoreId =>
    obtain ⟨-, requestId, request, phase, made', -, -, -, hconfirmed⟩ :=
      (hv.jobs job hjob).linked scoreId hlinked
    refine absurd (Or.inr ⟨rfl, ?_⟩) (hc.free made'.score hconfirmed.score)
    show some made'.draft.jobId = some made.draft.jobId
    rw [hconfirmed.jobId, hid]

theorem Valid.commit_extends (hv : Valid service start world) (hc : Commits world made after) :
    world.Extends after where
  issued uuid huuid := by rwa [hc.issued]
  scores score hscore := by
    rw [hv.tables.scores_commit hc]
    exact List.mem_append_left _ hscore
  jobs job hjob := by
    rw [hc.jobs]
    by_cases hid : job.id = made.draft.jobId
    · refine ⟨_, List.mem_map_of_mem hjob, ?_⟩
      rw [if_pos hid]
      refine ⟨rfl, rfl, fun scoreId hlinked => ?_⟩
      rw [hv.commit_unlinked hc hjob hid] at hlinked
      cases hlinked
    · exact ⟨job, mem_update_of_ne hjob hid, rfl, rfl, fun _ h => h⟩

section Confirmed

variable {job : ReviewJob} {made made' : ConfirmedScore} {after : ReviewWorld}

/-- A later transaction leaves the score of an import as it is. -/
theorem Confirmed.commit (ht : TablesOk start world) (hc : Commits world made after)
    (h : Confirmed start world job made') : Confirmed start after job made' := by
  have hscoreId : made'.scoreId < made.scoreId := by
    rw [hc.scoreId]
    exact ht.scoreIds made'.score h.score
  have hrevisionId : made'.revisionId < made.revisionId := by
    have hsource : made'.source ∈ world.tables.sources.filter
        (·.revisionId = made'.revisionId) := by
      rw [h.sources]
      exact List.mem_singleton_self _
    rw [hc.revisionId]
    exact ht.sourceIds made'.source (List.mem_of_mem_filter hsource)
  obtain ⟨assetUuid, huploads⟩ := hc.uploads
  refine ⟨h.jobId, ?_, ?_, ?_, ?_⟩
  · rw [ht.scores_commit hc]
    exact List.mem_append_left _ h.score
  · have hne : ¬made.revision.scoreId = made'.scoreId := Nat.ne_of_gt hscoreId
    rw [ScoreTables.revisionsOf, hc.revisions, List.filter_append,
      List.filter_cons_of_neg (by simpa using hne), List.filter_nil, List.append_nil]
    exact h.revisions
  · have hne : ¬made.source.revisionId = made'.revisionId := Nat.ne_of_gt hrevisionId
    rw [hc.sources, List.filter_append, List.filter_cons_of_neg (by simpa using hne),
      List.filter_nil, List.append_nil]
    exact h.sources
  · rw [huploads, List.filter_append]
    have hnil : (promoteUploadsToScoreInputs made.scoreId assetUuid
        (sortedJobUploadRows world.uploads made.draft.jobId)).filter
        (·.scoreId = made'.scoreId) = [] := by
      refine List.filter_eq_nil_iff.mpr fun asset hasset e => ?_
      exact Nat.ne_of_gt hscoreId ((promote_scoreId hasset).symm.trans (of_decide_eq_true e))
    rw [hnil, List.append_nil]
    exact h.inputs

/-- What a transaction makes for an import. -/
theorem Commits.confirmed (ht : TablesOk start world) (hc : Commits world made after)
    (hid : made.draft.jobId = job.id)
    (hlinks : world.uploads.linksOf job.id = start.uploads.linksOf job.id) :
    Confirmed start after job made := by
  obtain ⟨assetUuid, huploads⟩ := hc.uploads
  refine ⟨hid, ?_, ?_, ?_, ?_⟩
  · rw [ht.scores_commit hc]
    exact List.mem_append_right _ (List.mem_singleton_self _)
  · have hnil : world.tables.revisions.filter (·.scoreId = made.scoreId) = [] := by
      refine List.filter_eq_nil_iff.mpr fun revision hrevision e => ?_
      exact Nat.ne_of_lt (ht.revisionIds revision hrevision)
        ((of_decide_eq_true e).trans hc.scoreId)
    rw [ScoreTables.revisionsOf, hc.revisions, List.filter_append, hnil, List.nil_append]
    exact List.filter_eq_self.mpr fun revision hrevision => by
      rw [List.mem_singleton.mp hrevision]
      exact decide_eq_true rfl
  · have hnil : world.tables.sources.filter (·.revisionId = made.revisionId) = [] := by
      refine List.filter_eq_nil_iff.mpr fun source hsource e => ?_
      exact Nat.ne_of_lt (ht.sourceIds source hsource)
        ((of_decide_eq_true e).trans hc.revisionId)
    rw [hc.sources, List.filter_append, hnil, List.nil_append]
    exact List.filter_eq_self.mpr fun source hsource => by
      rw [List.mem_singleton.mp hsource]
      exact decide_eq_true rfl
  · have hnil : world.uploads.inputAssets.filter (·.scoreId = made.scoreId) = [] := by
      refine List.filter_eq_nil_iff.mpr fun asset hasset e => ?_
      exact Nat.ne_of_lt (ht.assetIds asset hasset) ((of_decide_eq_true e).trans hc.scoreId)
    have hall : (promoteUploadsToScoreInputs made.scoreId assetUuid
        (sortedJobUploadRows world.uploads made.draft.jobId)).filter
        (·.scoreId = made.scoreId) = promoteUploadsToScoreInputs made.scoreId assetUuid
        (sortedJobUploadRows world.uploads made.draft.jobId) :=
      List.filter_eq_self.mpr fun asset hasset => decide_eq_true (promote_scoreId hasset)
    rw [huploads, List.filter_append, hnil, hall, List.nil_append, promote_uploadIds, hid,
      ← hlinks]
    exact sortedJobUploadRows_perm ht.uploads job.id

end Confirmed

end ReviewWorld

end NoteVerse.Backend

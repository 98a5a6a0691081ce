import NoteVerse.Backend.ImportDispatch
import NoteVerse.Lib.Transition

/-!
# Imports in review

An import that has reached review (`PENDING_REVIEW` or `CONFIRMED`) is to stay
there, with its results. A transaction breaks this only in two ways
(`keepsReviews_iff_reviewSafe`): a scan finds an expired lease on one, or a
worker reports progress or failure for one.
-/

namespace NoteVerse.Backend

open Table Transition

def ImportJob.InReview (job : ImportJob) : Prop :=
  job.state = .pendingReview ∨ job.state = .confirmed

instance (job : ImportJob) : Decidable job.InReview := inferInstanceAs (Decidable (_ ∨ _))

/-- The import `job` is still in review as `job'`, with the results of its
pipeline. -/
structure ImportJob.Keeps (job job' : ImportJob) : Prop where
  inReview : job'.InReview
  currentStep : job'.currentStep = job.currentStep
  startedAt : job'.startedAt = job.startedAt
  progress : job.progress = 100 → job'.progress = 100
  finishedAt : job.finishedAt.isSome → job'.finishedAt.isSome

/-- Every import in review that is still there is in review, with its results. -/
def KeepsReviews (jobs jobs' : List ImportJob) : Prop :=
  ∀ job ∈ jobs, job.InReview → ∀ job' ∈ jobs', job'.jobUuid = job.jobUuid → job.Keeps job'

variable {job : ImportJob}

theorem ImportJob.Keeps.refl (h : job.InReview) : job.Keeps job :=
  ⟨h, rfl, rfl, id, id⟩

theorem ImportJob.Keeps.trans {job₁ job₂ job₃ : ImportJob} (h : job₁.Keeps job₂)
    (h' : job₂.Keeps job₃) : job₁.Keeps job₃ :=
  ⟨h'.inReview, h'.currentStep.trans h.currentStep, h'.startedAt.trans h.startedAt,
    fun hp => h'.progress (h.progress hp), fun hp => h'.finishedAt (h.finishedAt hp)⟩

variable {settings : ImportDispatchSettings} {now : Int}

/-! ## What a change of a job keeps -/

/-- An expired lease that a scan takes away: a delivery with no attempts left,
or any processing. -/
def leaseLost (settings : ImportDispatchSettings) (now : Int) (job : ImportJob) : Bool :=
  staleProcessing settings now job ||
    staleDispatch settings now job && settings.dispatchMaxAttempts ≤ job.dispatchAttemptCount

@[simp] theorem recoverJob_jobUuid (job : ImportJob) :
    (recoverJob settings now job).jobUuid = job.jobUuid := by
  unfold recoverJob terminalFailure resetPipelineState
  split_ifs <;> rfl

@[simp] theorem dispatchJob_jobUuid (job : ImportJob) :
    (dispatchJob now job).jobUuid = job.jobUuid := rfl

@[simp] theorem releaseDispatchedJob_jobUuid (error : String) (job : ImportJob) :
    (releaseDispatchedJob now error job).jobUuid = job.jobUuid := by
  unfold releaseDispatchedJob
  split_ifs <;> rfl

/-- A scan leaves an import in review as it is, unless it takes its lease. -/
theorem keeps_recoverJob_iff (h : job.InReview) :
    job.Keeps (recoverJob settings now job) ↔ leaseLost settings now job = false := by
  unfold recoverJob leaseLost
  cases hd : staleDispatch settings now job <;> cases hp : staleProcessing settings now job
  · simpa using ImportJob.Keeps.refl h
  · refine iff_of_false (fun hk => ?_) (by simp)
    have hr := hk.inReview
    simp only [Bool.not_false, Bool.not_true, Bool.and_false, Bool.false_eq_true, if_false] at hr
    split_ifs at hr <;> simp [ImportJob.InReview, terminalFailure, resetPipelineState] at hr
  · by_cases hm : settings.dispatchMaxAttempts ≤ job.dispatchAttemptCount
    · refine iff_of_false (fun hk => ?_) (by simp [hm])
      have hr := hk.inReview
      simp [hm, ImportJob.InReview, terminalFailure] at hr
    · refine iff_of_true ?_ (by simp [hm])
      simp only [Bool.not_true, Bool.not_false, Bool.and_true, Bool.false_eq_true, if_false, hm]
      exact ⟨h, rfl, rfl, id, id⟩
  · refine iff_of_false (fun hk => ?_) (by simp)
    have hr := hk.inReview
    simp only [Bool.not_true, Bool.and_false, Bool.false_eq_true, if_false] at hr
    split_ifs at hr <;> simp [ImportJob.InReview, terminalFailure, resetPipelineState] at hr

theorem keeps_dispatchJob_iff {job' : ImportJob} :
    job.Keeps (dispatchJob now job') ↔ job.Keeps job' :=
  ⟨fun h => ⟨h.inReview, h.currentStep, h.startedAt, h.progress, h.finishedAt⟩,
    fun h => ⟨h.inReview, h.currentStep, h.startedAt, h.progress, h.finishedAt⟩⟩

theorem keeps_completeJob (h : job.InReview) : job.Keeps (completeJob now job) :=
  ⟨h, rfl, rfl, id, id⟩

theorem keeps_releaseDispatchedJob {error : String} (h : job.InReview) :
    job.Keeps (releaseDispatchedJob now error job) := by
  unfold releaseDispatchedJob
  split_ifs
  · exact .refl h
  · exact ⟨h, rfl, rfl, id, id⟩

theorem keeps_succeedJob (job : ImportJob) : job.Keeps (succeedJob now job) :=
  ⟨.inl rfl, rfl, rfl, fun _ => rfl, fun _ => rfl⟩

theorem keeps_confirmJob (scoreId : Int) (job : ImportJob) : job.Keeps (confirmJob scoreId job) :=
  ⟨.inr rfl, rfl, rfl, id, id⟩

theorem not_inReview_of_claimable (h : claimable settings now job = true) : ¬ job.InReview := by
  simp only [claimable, Bool.and_eq_true, decide_eq_true_eq] at h
  rintro (hr | hr) <;> rw [hr] at h <;> simp at h

theorem not_inReview_of_retryable (h : retryable job = true) : ¬ job.InReview := by
  simp only [retryable, Bool.and_eq_true, decide_eq_true_eq] at h
  rintro (hr | hr)
  · exact h.1.2 hr
  · exact h.2 hr

/-! ## Changes of the table -/

section Tables

variable {jobs : List ImportJob}

theorem eq_of_jobUuid_eq (hk : (jobs.map (·.jobUuid)).Nodup) {job job' : ImportJob}
    (h : job ∈ jobs) (h' : job' ∈ jobs) (e : job'.jobUuid = job.jobUuid) : job' = job :=
  List.inj_on_of_nodup_map hk h' h e

theorem keepsReviews_refl (hk : (jobs.map (·.jobUuid)).Nodup) : KeepsReviews jobs jobs := by
  intro job hjob hr job' hjob' e
  rw [eq_of_jobUuid_eq hk hjob hjob' e]
  exact .refl hr

theorem keepsReviews_map_iff (hk : (jobs.map (·.jobUuid)).Nodup) (f : ImportJob → ImportJob)
    (hf : ∀ job, (f job).jobUuid = job.jobUuid) :
    KeepsReviews jobs (jobs.map f) ↔ ∀ job ∈ jobs, job.InReview → job.Keeps (f job) := by
  constructor
  · intro h job hjob hr
    exact h job hjob hr (f job) (List.mem_map_of_mem hjob) (hf job)
  · intro h job hjob hr job' hjob' e
    obtain ⟨job₀, hjob₀, rfl⟩ := List.mem_map.mp hjob'
    rw [eq_of_jobUuid_eq hk hjob hjob₀ ((hf job₀).symm.trans e)]
    exact h job hjob hr

theorem keepsReviews_update_iff (hk : (jobs.map (·.jobUuid)).Nodup) (f : ImportJob → ImportJob)
    (hf : ∀ job, (f job).jobUuid = job.jobUuid) (jobUuid : String) :
    KeepsReviews jobs (update ImportJob.jobUuid jobUuid f jobs) ↔
      ∀ job ∈ jobs, job.jobUuid = jobUuid → job.InReview → job.Keeps (f job) := by
  rw [update, keepsReviews_map_iff hk _ fun job => by split_ifs <;> simp [hf]]
  refine forall₂_congr fun job hjob => ?_
  by_cases e : job.jobUuid = jobUuid
  · simp [e]
  · simpa [e] using fun hr => ImportJob.Keeps.refl hr

/-- Removing jobs. -/
theorem keepsReviews_of_sublist (hk : (jobs.map (·.jobUuid)).Nodup) {jobs' : List ImportJob}
    (h : jobs'.Sublist jobs) : KeepsReviews jobs jobs' :=
  fun job hjob hr job' hjob' e => keepsReviews_refl hk job hjob hr job' (h.subset hjob') e

theorem keepsReviews_recoverAndClaimDue_iff (hk : (jobs.map (·.jobUuid)).Nodup)
    (locked : List String) :
    KeepsReviews jobs (recoverAndClaimDue settings now locked jobs).1 ↔
      ∀ job ∈ jobs, job.InReview → leaseLost settings now job = false := by
  simp only [recoverAndClaimDue, List.map_map]
  rw [keepsReviews_map_iff hk _ fun job => by
    simp only [Function.comp_apply]
    split_ifs <;> simp]
  refine forall₂_congr fun job hjob => forall_congr' fun hr => ?_
  rw [← keeps_recoverJob_iff hr]
  simp only [Function.comp_apply]
  split_ifs
  · exact keeps_dispatchJob_iff
  · rfl

theorem keepsReviews_claim (hk : (jobs.map (·.jobUuid)).Nodup) (jobUuid : String) :
    KeepsReviews jobs (claim settings now jobs jobUuid).1 := by
  unfold claim
  cases hf : find ImportJob.jobUuid jobUuid jobs with
  | none => exact keepsReviews_refl hk
  | some job =>
    -- the claimed job is not in review, and the others stay as they are
    have hclaim : ∀ f : ImportJob → ImportJob, (∀ job, (f job).jobUuid = job.jobUuid) →
        claimable settings now job = true →
        KeepsReviews jobs (update ImportJob.jobUuid jobUuid f jobs) := fun f hf' hc => by
      rw [keepsReviews_update_iff hk f hf']
      intro job' hjob' e hr
      rw [eq_of_jobUuid_eq hk (find_mem hf) hjob' (e.trans (find_key hf).symm)] at hr
      exact absurd hr (not_inReview_of_claimable hc)
    simp only
    split_ifs with hc hs
    · exact keepsReviews_refl hk
    · exact hclaim _ (fun _ => rfl) (by simpa using hc)
    · exact hclaim _ (fun _ => rfl) (by simpa using hc)

end Tables

/-- The states that an import can have while its worker is in a phase. -/
def WorkerPhase.Allows : WorkerPhase → ImportJobState → Prop
  | .running, state | .failing, state => state = .pending ∨ state = .running
  | .finalized, state => state = .pendingReview ∨ state = .confirmed
  | .failed, state => state = .pending ∨ state = .running ∨ state = .failure

theorem WorkerPhase.Allows.not_inReview {phase : WorkerPhase} (h : phase.Allows job.state)
    (hp : phase ≠ .finalized) : ¬ job.InReview := by
  rintro (hr | hr) <;> rw [hr] at h <;> cases phase <;> simp [WorkerPhase.Allows] at h hp

/-! ## Transactions -/

namespace ImportWorld

/-- A transaction of the system at some time. -/
def Step (settings : ImportDispatchSettings) (world : ImportWorld) (action : Int × ImportAction)
    (world' : ImportWorld) : Prop :=
  world.next settings action.1 action.2 = some world'

/-- Job ids are drawn once. -/
structure Issued (world : ImportWorld) : Prop where
  uuids : (world.jobs.map (·.jobUuid)).Nodup
  issued : ∀ job ∈ world.jobs, job.jobUuid ∈ world.issued

/-- The steps that keep the imports in review: a scan takes no lease of one,
and no worker reports progress or failure for one. -/
def ReviewSafe (settings : ImportDispatchSettings) (world : ImportWorld) :
    Int × ImportAction → Prop
  | (now, .scan _) => ∀ job ∈ world.jobs, job.InReview → leaseLost settings now job = false
  | (_, .progress workerId _) | (_, .finalizeFailure workerId _) =>
    ∀ worker, world.worker workerId = some worker → ∀ job ∈ world.jobs,
      job.jobUuid = worker.jobUuid → ¬ job.InReview
  | _ => True

variable {world world' : ImportWorld} {action : Int × ImportAction}

theorem advance_cases {workerId : Nat} {before after : WorkerPhase}
    {transaction : List ImportJob → String → List ImportJob}
    (h : world.advance workerId before after transaction = some world') :
    ∃ worker, world.worker workerId = some worker ∧ worker.phase = before ∧
      world' = { world with
        jobs := transaction world.jobs worker.jobUuid
        workers := update ImportWorker.workerId workerId (fun w => { w with phase := after })
          world.workers } := by
  unfold advance at h
  split at h
  · cases h
  · rename_i worker hw
    split_ifs at h with hp
    cases h
    exact ⟨worker, hw, not_not.mp hp, rfl⟩

/-- What a step does to the jobs, for the actions of a worker. -/
theorem keepsReviews_advance_iff (hw : world.Issued) {workerId : Nat} {before after : WorkerPhase}
    (f : ImportJob → ImportJob) (hf : ∀ job, (f job).jobUuid = job.jobUuid)
    (h : world.advance workerId before after
      (fun jobs uuid => update ImportJob.jobUuid uuid f jobs) = some world') :
    KeepsReviews world.jobs world'.jobs ↔
      ∀ worker, world.worker workerId = some worker → ∀ job ∈ world.jobs,
        job.jobUuid = worker.jobUuid → job.InReview → job.Keeps (f job) := by
  obtain ⟨worker, hworker, -, rfl⟩ := advance_cases h
  rw [keepsReviews_update_iff hw.uuids f hf]
  constructor
  · intro hk w hw' job hjob e hr
    rw [hworker] at hw'
    cases hw'
    exact hk job hjob e hr
  · intro hk job hjob e hr
    exact hk worker hworker job hjob e hr

theorem keepsReviews_iff_reviewSafe (hw : world.Issued) (h : Step settings world action world') :
    KeepsReviews world.jobs world'.jobs ↔ world.ReviewSafe settings action := by
  obtain ⟨now, action⟩ := action
  have hrefl := keepsReviews_refl hw.uuids
  cases action with
  | submit jobUuid storageKeys options =>
    simp only [Step, next] at h
    split_ifs at h with hnew
    cases h
    refine iff_of_true (fun job hjob hr job' hjob' e => ?_) trivial
    rcases List.mem_append.mp hjob' with hjob' | hjob'
    · exact hrefl job hjob hr job' hjob' e
    · obtain rfl := List.mem_singleton.mp hjob'
      exact absurd (hw.issued job hjob) (e ▸ hnew)
  | scan locked =>
    cases h
    exact keepsReviews_recoverAndClaimDue_iff hw.uuids locked
  | releaseDispatch jobUuid error =>
    cases h
    refine iff_of_true ?_ trivial
    exact (keepsReviews_update_iff hw.uuids _ (by simp) _).mpr fun job _ _ hr =>
      keeps_releaseDispatchedJob hr
  | deliver workerId jobUuid =>
    simp only [Step, next] at h
    split_ifs at h
    · cases h
      exact iff_of_true (keepsReviews_claim hw.uuids jobUuid) trivial
    · cases h
      exact iff_of_true (keepsReviews_claim hw.uuids jobUuid) trivial
  | progress workerId report =>
    rw [keepsReviews_advance_iff hw (progressJob now .running report) (fun _ => rfl) h]
    refine forall₅_congr fun worker hworker job hjob e => ?_
    refine ⟨fun hk hr => ?_, fun hn hr => absurd hr hn⟩
    have hr' := (hk hr).inReview
    simp [ImportJob.InReview, progressJob] at hr'
  | finalizeSuccess workerId =>
    exact iff_of_true ((keepsReviews_advance_iff hw (succeedJob now) (fun _ => rfl) h).mpr
      fun worker _ job _ _ _ => keeps_succeedJob job) trivial
  | raises workerId =>
    simp only [Step, next] at h
    split at h
    · cases h
    · split_ifs at h
      obtain ⟨worker, -, -, rfl⟩ := advance_cases h
      exact iff_of_true hrefl trivial
  | finalizeFailure workerId report =>
    rw [keepsReviews_advance_iff hw (failJob now report) (fun _ => rfl) h]
    refine forall₅_congr fun worker hworker job hjob e => ?_
    refine ⟨fun hk hr => ?_, fun hn hr => absurd hr hn⟩
    have hr' := (hk hr).inReview
    simp [ImportJob.InReview, failJob] at hr'
  | dropFailure workerId =>
    simp only [Step, next] at h
    obtain ⟨worker, -, -, rfl⟩ := advance_cases h
    exact iff_of_true hrefl trivial
  | complete workerId =>
    simp only [Step, next] at h
    split at h
    · cases h
    · split_ifs at h
      cases h
      refine iff_of_true ?_ trivial
      exact (keepsReviews_update_iff hw.uuids (completeJob now) (fun _ => rfl) _).mpr
        fun job _ _ hr => keeps_completeJob hr
  | crash workerId =>
    simp only [Step, next] at h
    split_ifs at h
    cases h
    exact iff_of_true hrefl trivial
  | confirmCheck jobUuid scoreExists =>
    simp only [Step, next] at h
    split at h
    · cases h
    · split_ifs at h
      · cases h; exact iff_of_true hrefl trivial
      · cases h; exact iff_of_true hrefl trivial
  | confirmCommit jobUuid scoreId =>
    simp only [Step, next] at h
    split_ifs at h
    cases h
    refine iff_of_true ?_ trivial
    exact (keepsReviews_update_iff hw.uuids (confirmJob scoreId) (fun _ => rfl) _).mpr
      fun job _ _ _ => keeps_confirmJob scoreId job
  | confirmAbort jobUuid =>
    cases h
    exact iff_of_true hrefl trivial
  | retry jobUuid =>
    simp only [Step, next] at h
    split at h
    · cases h
    · rename_i job₀ hjob₀
      split_ifs at h with hretry
      cases h
      refine iff_of_true ?_ trivial
      refine (keepsReviews_update_iff hw.uuids (retryJob now) (fun _ => rfl) _).mpr
        fun job hjob e hr => ?_
      rw [eq_of_jobUuid_eq hw.uuids (find_mem hjob₀) hjob (e.trans (find_key hjob₀).symm)] at hr
      exact absurd hr (not_inReview_of_retryable (by simpa using hretry))
  | delete jobUuid =>
    simp only [Step, next] at h
    split at h
    · cases h
    · split_ifs at h
      cases h
      exact iff_of_true (keepsReviews_of_sublist hw.uuids List.filter_sublist) trivial

/-! ## Runs -/

theorem map_jobUuid_recoverAndClaimDue (locked : List String) (jobs : List ImportJob) :
    (recoverAndClaimDue settings now locked jobs).1.map (·.jobUuid) = jobs.map (·.jobUuid) := by
  simp only [recoverAndClaimDue, List.map_map]
  refine List.map_congr_left fun job _ => ?_
  simp only [Function.comp_apply]
  split_ifs <;> simp

theorem map_jobUuid_claim (jobs : List ImportJob) (jobUuid : String) :
    (claim settings now jobs jobUuid).1.map (·.jobUuid) = jobs.map (·.jobUuid) := by
  unfold claim
  split
  · rfl
  · split_ifs
    · rfl
    · exact map_key_update fun _ h => h
    · exact map_key_update fun _ h => h

/-- A step draws one new job id, or adds none. -/
theorem step_jobUuids (h : Step settings world action world') :
    (∃ jobUuid, jobUuid ∉ world.issued ∧ world'.issued = jobUuid :: world.issued ∧
      world'.jobs.map (·.jobUuid) = world.jobs.map (·.jobUuid) ++ [jobUuid]) ∨
    world'.issued = world.issued ∧
      (world'.jobs.map (·.jobUuid)).Sublist (world.jobs.map (·.jobUuid)) := by
  obtain ⟨now, action⟩ := action
  -- all but two actions change jobs in place
  have hplace : world'.issued = world.issued →
      world'.jobs.map (·.jobUuid) = world.jobs.map (·.jobUuid) →
      world'.issued = world.issued ∧
        (world'.jobs.map (·.jobUuid)).Sublist (world.jobs.map (·.jobUuid)) :=
    fun hi hj => ⟨hi, hj ▸ List.Sublist.refl _⟩
  have hadvance : ∀ {workerId before after} (f : ImportJob → ImportJob),
      (∀ job, (f job).jobUuid = job.jobUuid) →
      world.advance workerId before after (fun jobs uuid => update ImportJob.jobUuid uuid f jobs) =
        some world' → world'.issued = world.issued ∧
        (world'.jobs.map (·.jobUuid)).Sublist (world.jobs.map (·.jobUuid)) := by
    intro workerId before after f hf hadv
    obtain ⟨worker, -, -, rfl⟩ := advance_cases hadv
    exact hplace rfl (map_key_update fun job e => (hf job).trans e)
  cases action with
  | submit jobUuid storageKeys options =>
    simp only [Step, next] at h
    split_ifs at h with hnew
    cases h
    exact .inl ⟨jobUuid, hnew, rfl, by simp [newJob]⟩
  | scan locked =>
    cases h
    exact .inr (hplace rfl (map_jobUuid_recoverAndClaimDue locked _))
  | releaseDispatch jobUuid error =>
    cases h
    exact .inr (hplace rfl (map_key_update fun job e => by simpa using e))
  | deliver workerId jobUuid =>
    simp only [Step, next] at h
    split_ifs at h
    · cases h
      exact .inr (hplace rfl (map_jobUuid_claim _ _))
    · cases h
      exact .inr (hplace rfl (map_jobUuid_claim _ _))
  | progress workerId report => exact .inr (hadvance (progressJob now .running report) (fun _ => rfl) h)
  | finalizeSuccess workerId => exact .inr (hadvance (succeedJob now) (fun _ => rfl) h)
  | raises workerId =>
    simp only [Step, next] at h
    split at h
    · cases h
    · split_ifs at h
      obtain ⟨worker, -, -, rfl⟩ := advance_cases h
      exact .inr (hplace rfl rfl)
  | finalizeFailure workerId report => exact .inr (hadvance (failJob now report) (fun _ => rfl) h)
  | dropFailure workerId =>
    simp only [Step, next] at h
    obtain ⟨worker, -, -, rfl⟩ := advance_cases h
    exact .inr (hplace rfl rfl)
  | complete workerId =>
    simp only [Step, next] at h
    split at h
    · cases h
    · split_ifs at h
      cases h
      exact .inr (hplace rfl (map_key_update fun job e => e))
  | crash workerId =>
    simp only [Step, next] at h
    split_ifs at h
    cases h
    exact .inr (hplace rfl rfl)
  | confirmCheck jobUuid scoreExists =>
    simp only [Step, next] at h
    split at h
    · cases h
    · split_ifs at h
      · cases h; exact .inr (hplace rfl rfl)
      · cases h; exact .inr (hplace rfl rfl)
  | confirmCommit jobUuid scoreId =>
    simp only [Step, next] at h
    split_ifs at h
    cases h
    exact .inr (hplace rfl (map_key_update fun job e => e))
  | confirmAbort jobUuid =>
    cases h
    exact .inr (hplace rfl rfl)
  | retry jobUuid =>
    simp only [Step, next] at h
    split at h
    · cases h
    · split_ifs at h
      cases h
      exact .inr (hplace rfl (map_key_update fun job e => e))
  | delete jobUuid =>
    simp only [Step, next] at h
    split at h
    · cases h
    · split_ifs at h
      cases h
      exact .inr ⟨rfl, List.filter_sublist.map _⟩

theorem Issued.step (hw : world.Issued) (h : Step settings world action world') :
    world'.Issued := by
  have hissued : ∀ jobUuid ∈ world.jobs.map (·.jobUuid), jobUuid ∈ world.issued := by
    rintro _ hu
    obtain ⟨job, hjob, rfl⟩ := List.mem_map.mp hu
    exact hw.issued job hjob
  obtain ⟨jobUuid, hnew, hi, hj⟩ | ⟨hi, hj⟩ := step_jobUuids h
  · refine ⟨?_, fun job hjob => ?_⟩
    · rw [hj, List.nodup_append]
      refine ⟨hw.uuids, by simp, ?_⟩
      rintro u hu _ hu' rfl
      obtain rfl := List.mem_singleton.mp hu'
      exact hnew (hissued u hu)
    · have hu := List.mem_map_of_mem (f := (·.jobUuid)) hjob
      rw [hj, List.mem_append, List.mem_singleton] at hu
      rw [hi, List.mem_cons]
      exact hu.symm.imp id (hissued _)
  · exact ⟨hw.uuids.sublist hj, fun job hjob =>
      hi ▸ hissued _ (hj.subset (List.mem_map_of_mem hjob))⟩

/-- A job that a step left behind was there before, if its id had been drawn. -/
theorem exists_of_step (h : Step settings world action world') {job' : ImportJob}
    (hjob' : job' ∈ world'.jobs) (hi : job'.jobUuid ∈ world.issued) :
    ∃ job ∈ world.jobs, job.jobUuid = job'.jobUuid := by
  have hu := List.mem_map_of_mem (f := (·.jobUuid)) hjob'
  rw [← List.mem_map]
  obtain ⟨jobUuid, hnew, -, hj⟩ | ⟨-, hj⟩ := step_jobUuids h
  · rw [hj, List.mem_append, List.mem_singleton] at hu
    exact hu.resolve_right fun e => hnew (e ▸ hi)
  · exact hj.subset hu

theorem issued_of_reachable (h : Reachable (· = start) (Step settings) world) : world.Issued :=
  h.invariant (by rintro _ rfl; exact ⟨.nil, by simp [start]⟩) fun _ _ _ hw hs => hw.step hs

/-- In a run of safe steps, the imports in review stay there. -/
theorem keepsReviews_of_run (hw : world.Issued)
    (h : Reachable (· = world) (guarded (ReviewSafe settings) (Step settings)) world') :
    KeepsReviews world.jobs world'.jobs := by
  have hrun : world'.Issued ∧ world.issued ⊆ world'.issued ∧
      KeepsReviews world.jobs world'.jobs := by
    refine h.invariant (p := fun s => s.Issued ∧ world.issued ⊆ s.issued ∧
      KeepsReviews world.jobs s.jobs) ?_ ?_
    · rintro _ rfl
      exact ⟨hw, List.Subset.refl _, keepsReviews_refl hw.uuids⟩
    · rintro s action s' ⟨hs, hsub, hk⟩ ⟨hsafe, hstep⟩
      refine ⟨hs.step hstep, ?_, fun job hjob hr job' hjob' e => ?_⟩
      · obtain ⟨jobUuid, -, hi, -⟩ | ⟨hi, -⟩ := step_jobUuids hstep
        · rw [hi]; exact fun u hu => List.mem_cons_of_mem _ (hsub hu)
        · rw [hi]; exact hsub
      · have hi : job'.jobUuid ∈ s.issued := hsub (e ▸ hw.issued job hjob)
        obtain ⟨job₁, hjob₁, e₁⟩ := exists_of_step hstep hjob' hi
        have hkeep := hk job hjob hr job₁ hjob₁ (e₁.trans e)
        have hkeep' := (keepsReviews_iff_reviewSafe hs hstep).mpr hsafe job₁ hjob₁ hkeep.inReview
          job' hjob' e₁.symm
        exact hkeep.trans hkeep'
  exact hrun.2.2

end ImportWorld

end NoteVerse.Backend

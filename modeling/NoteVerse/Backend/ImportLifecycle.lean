import NoteVerse.Backend.ImportReview

/-!
# One worker to a lease

`Owned` is the invariant of the runs in which no import leaves review: each
worker calls `complete` within its lease, none is lost or raises between
`finalize_success` and `complete`, and no operator retries an import that a
worker holds. In these runs a lease has one worker, and an import in review
is completed or held by the worker that finalized it. `reviews_kept` states
both this and when a single step is safe; `scan_discards_review` is a run with
a worker that is lost.
-/

namespace NoteVerse.Backend

open Table Transition

variable {settings : ImportDispatchSettings} {now : Int}

namespace ImportWorld

/-! ## Runs in which workers finish within their lease -/

/-- The conditions on a step under which a lease has one worker: no scan takes
the lease of a live worker, no worker is lost or raises once it has finalized
its import, and no operator retries an import that a worker holds. -/
def Attended (settings : ImportDispatchSettings) (world : ImportWorld) :
    Int × ImportAction → Prop
  | (now, .scan _) => ∀ worker ∈ world.workers, ∀ job ∈ world.jobs,
      job.jobUuid = worker.jobUuid → staleProcessing settings now job = false
  | (_, .raises workerId) | (_, .crash workerId) =>
    ∀ worker, world.worker workerId = some worker → worker.phase ≠ .finalized
  | (_, .retry jobUuid) => ∀ worker ∈ world.workers, worker.jobUuid ≠ jobUuid
  | _ => True

/-- Each lease has at most one worker, and an import in review is completed or
held by the worker that finalized it. -/
structure Owned (world : ImportWorld) : Prop where
  jobs : world.Issued
  workerIds : (world.workers.map (·.workerId)).Nodup
  workerJobs : (world.workers.map (·.jobUuid)).Nodup
  workersIssued : ∀ worker ∈ world.workers, worker.jobUuid ∈ world.issued
  confirmingIssued : ∀ jobUuid ∈ world.confirming, jobUuid ∈ world.issued
  leased : ∀ worker ∈ world.workers, ∀ job ∈ world.jobs, job.jobUuid = worker.jobUuid →
    job.dispatchStatus = .processing ∧ worker.phase.Allows job.state
  review : ∀ job ∈ world.jobs, job.InReview → job.dispatchStatus = .completed ∨
    ∃ worker ∈ world.workers, worker.jobUuid = job.jobUuid ∧ worker.phase = .finalized
  confirming : ∀ job ∈ world.jobs, job.jobUuid ∈ world.confirming → job.InReview

variable {world world' : ImportWorld} {job : ImportJob} {jobUuid : String} {workerId : Nat}

theorem Owned.worker_eq (h : world.Owned) {worker worker' : ImportWorker}
    (hw : worker ∈ world.workers) (hw' : worker' ∈ world.workers)
    (e : worker.jobUuid = worker'.jobUuid) : worker = worker' :=
  List.inj_on_of_nodup_map h.workerJobs hw hw' e

theorem Owned.reviewSafe {action : Int × ImportAction} (h : world.Owned)
    (ha : world.Attended settings action) (hs : ∃ world', Step settings world action world') :
    world.ReviewSafe settings action := by
  obtain ⟨now, action⟩ := action
  obtain ⟨world', hs⟩ := hs
  -- a worker that is not past `finalize_success` has no import in review
  have hworker : ∀ {workerId before after transaction}, before ≠ .finalized →
      world.advance workerId before after transaction = some world' →
      ∀ worker, world.worker workerId = some worker → ∀ job ∈ world.jobs,
        job.jobUuid = worker.jobUuid → ¬ job.InReview := by
    intro workerId before after transaction hb hadv worker hw job hjob e
    obtain ⟨worker', hw', hphase, -⟩ := advance_cases hadv
    rw [hw] at hw'
    cases hw'
    exact (h.leased worker (find_mem hw) job hjob e).2.not_inReview (hphase ▸ hb)
  cases action with
  | scan locked =>
    intro job hjob hr
    rcases h.review job hjob hr with hc | ⟨worker, hw, e, -⟩
    · simp [leaseLost, staleProcessing, staleDispatch, hc]
    · have hp := (h.leased worker hw job hjob e.symm).1
      have hstale : staleProcessing settings now job = false := ha worker hw job hjob e.symm
      simp [leaseLost, hstale, staleDispatch, hp]
  | progress workerId report =>
    simp only [Step, next] at hs
    exact hworker (by decide) hs
  | finalizeFailure workerId report =>
    simp only [Step, next] at hs
    exact hworker (by decide) hs
  | _ => trivial

/-- A change of the jobs in place, with the workers and reviews after it. -/
theorem Owned.map (h : world.Owned) (f : ImportJob → ImportJob)
    (hf : ∀ job, (f job).jobUuid = job.jobUuid) {workers : List ImportWorker}
    {confirming : List String} (hids : (workers.map (·.workerId)).Nodup)
    (hjobs : (workers.map (·.jobUuid)).Nodup)
    (hissued : ∀ worker ∈ workers, worker.jobUuid ∈ world.issued)
    (hconfirmingIssued : ∀ jobUuid ∈ confirming, jobUuid ∈ world.issued)
    (hleased : ∀ worker ∈ workers, ∀ job ∈ world.jobs, job.jobUuid = worker.jobUuid →
      (f job).dispatchStatus = .processing ∧ worker.phase.Allows (f job).state)
    (hreview : ∀ job ∈ world.jobs, (f job).InReview → (f job).dispatchStatus = .completed ∨
      ∃ worker ∈ workers, worker.jobUuid = job.jobUuid ∧ worker.phase = .finalized)
    (hconfirming : ∀ job ∈ world.jobs, job.jobUuid ∈ confirming → (f job).InReview) :
    Owned ⟨world.jobs.map f, workers, confirming, world.issued⟩ where
  jobs := by
    refine ⟨?_, fun job' hjob' => ?_⟩
    · have huuids := h.jobs.uuids
      simpa [Function.comp_def, hf] using huuids
    · obtain ⟨job, hjob, rfl⟩ := List.mem_map.mp hjob'
      rw [hf]
      exact h.jobs.issued job hjob
  workerIds := hids
  workerJobs := hjobs
  workersIssued := hissued
  confirmingIssued := hconfirmingIssued
  leased worker hw job' hjob' e := by
    obtain ⟨job, hjob, rfl⟩ := List.mem_map.mp hjob'
    exact hleased worker hw job hjob ((hf job).symm.trans e)
  review job' hjob' hr := by
    obtain ⟨job, hjob, rfl⟩ := List.mem_map.mp hjob'
    rw [hf]
    exact hreview job hjob hr
  confirming job' hjob' hc := by
    obtain ⟨job, hjob, rfl⟩ := List.mem_map.mp hjob'
    exact hconfirming job hjob (hf job ▸ hc)

/-- A change of the jobs alone. -/
theorem Owned.mapJobs (h : world.Owned) (f : ImportJob → ImportJob)
    (hf : ∀ job, (f job).jobUuid = job.jobUuid)
    (hleased : ∀ worker ∈ world.workers, ∀ job ∈ world.jobs, job.jobUuid = worker.jobUuid →
      (f job).dispatchStatus = .processing ∧ worker.phase.Allows (f job).state)
    (hreview : ∀ job ∈ world.jobs, (f job).InReview → job.InReview ∧
      (job.dispatchStatus = .completed → (f job).dispatchStatus = .completed))
    (hconfirming : ∀ job ∈ world.jobs, job.InReview → (f job).InReview) :
    Owned { world with jobs := world.jobs.map f } :=
  h.map f hf h.workerIds h.workerJobs h.workersIssued h.confirmingIssued hleased
    (fun job hjob hr =>
      (h.review job hjob (hreview job hjob hr).1).imp (hreview job hjob hr).2 id)
    fun job hjob hc => hconfirming job hjob (h.confirming job hjob hc)

/-! ### The scan -/

theorem recoverJob_of_not_stale (hd : job.dispatchStatus ≠ .dispatched)
    (hp : staleProcessing settings now job = false) : recoverJob settings now job = job := by
  simp [recoverJob, staleDispatch, hd, hp]

theorem staleProcessing_of_ne (h : job.dispatchStatus ≠ .processing) :
    staleProcessing settings now job = false := by
  simp [staleProcessing, h]

theorem inReview_of_recoverJob (h : (recoverJob settings now job).InReview) : job.InReview := by
  unfold recoverJob at h
  split_ifs at h
  · exact h
  · simp [ImportJob.InReview, terminalFailure] at h
  · simp [ImportJob.InReview, resetPipelineState] at h
  · exact h

theorem mem_dueJobs {locked : List String} {jobs : List ImportJob}
    (h : jobUuid ∈ dueJobs settings now locked jobs) :
    ∃ job ∈ jobs, job.jobUuid = jobUuid ∧ isDue settings now job = true := by
  obtain ⟨job, hjob, rfl⟩ := List.mem_map.mp h
  have hmem := List.mem_filter.mp ((List.mem_insertionSort _).mp (List.mem_of_mem_take hjob))
  exact ⟨job, hmem.1, rfl, ((Bool.and_eq_true _ _).mp hmem.2).1⟩

/-- What a scan makes of a job. -/
def scanJob (settings : ImportDispatchSettings) (now : Int) (locked : List String)
    (jobs : List ImportJob) (job : ImportJob) : ImportJob :=
  if (dueJobs settings now locked jobs).contains job.jobUuid then
    dispatchJob now (recoverJob settings now job)
  else recoverJob settings now job

theorem recoverAndClaimDue_eq (locked : List String) (jobs : List ImportJob) :
    (recoverAndClaimDue settings now locked jobs).1 =
      jobs.map (scanJob settings now locked jobs) := by
  simp only [recoverAndClaimDue, List.map_map]
  refine List.map_congr_left fun job _ => ?_
  simp only [Function.comp_apply, recoverJob_jobUuid, scanJob]

theorem isDue_state (h : isDue settings now job = true) :
    job.state = .pending ∧ (job.dispatchStatus = .pending ∨ job.dispatchStatus = .failed) := by
  simp only [isDue, Bool.and_eq_true, Bool.or_eq_true, decide_eq_true_eq] at h
  exact h.1.1

/-- A job that is due holds no lease. -/
theorem recoverJob_of_isDue (h : isDue settings now job = true) :
    recoverJob settings now job = job := by
  apply recoverJob_of_not_stale
  · rcases (isDue_state h).2 with hd | hd <;> simp [hd]
  · apply staleProcessing_of_ne
    rcases (isDue_state h).2 with hd | hd <;> simp [hd]

variable (settings now) in
theorem scanJob_cases {jobs : List ImportJob} (hk : (jobs.map (·.jobUuid)).Nodup)
    (hjob : job ∈ jobs) (locked : List String) :
    scanJob settings now locked jobs job = recoverJob settings now job ∨
      isDue settings now job = true ∧ scanJob settings now locked jobs job = dispatchJob now job := by
  unfold scanJob
  split_ifs with hdue
  · rw [List.contains_iff_mem] at hdue
    obtain ⟨job₀, hjob₀, e, hd⟩ := mem_dueJobs hdue
    rw [eq_of_jobUuid_eq hk hjob hjob₀ e] at hd
    exact .inr ⟨hd, by rw [recoverJob_of_isDue hd]⟩
  · exact .inl rfl

theorem Owned.scan (h : world.Owned) {locked : List String}
    (ha : ∀ worker ∈ world.workers, ∀ job ∈ world.jobs,
      job.jobUuid = worker.jobUuid → staleProcessing settings now job = false) :
    Owned { world with jobs := (recoverAndClaimDue settings now locked world.jobs).1 } := by
  rw [recoverAndClaimDue_eq]
  -- a job that is not in line for delivery stays as it is
  have hsame : ∀ job ∈ world.jobs, (job.dispatchStatus = .processing ∨
      job.dispatchStatus = .completed) → staleProcessing settings now job = false →
      scanJob settings now locked world.jobs job = job := by
    intro job hjob hd hp
    have hrecover : recoverJob settings now job = job :=
      recoverJob_of_not_stale (by rcases hd with hd | hd <;> simp [hd]) hp
    rcases scanJob_cases settings now h.jobs.uuids hjob locked with he | ⟨hdue, -⟩
    · rw [he, hrecover]
    · rcases (isDue_state hdue).2 with hd' | hd' <;> simp [hd'] at hd
  refine h.mapJobs _ (fun job => ?_) (fun worker hw job hjob e => ?_) (fun job hjob hr => ?_)
    (fun job hjob hr => ?_)
  · unfold scanJob
    split_ifs <;> simp
  · obtain ⟨hd, hallows⟩ := h.leased worker hw job hjob e
    rw [hsame job hjob (.inl hd) (ha worker hw job hjob e)]
    exact ⟨hd, hallows⟩
  · refine ⟨?_, fun hc => ?_⟩
    · rcases scanJob_cases settings now h.jobs.uuids hjob locked with he | ⟨-, he⟩
      · rw [he] at hr
        exact inReview_of_recoverJob hr
      · rw [he] at hr
        exact hr
    · rw [hsame job hjob (.inr hc) (staleProcessing_of_ne (by simp [hc]))]
      exact hc
  · rcases h.review job hjob hr with hc | ⟨worker, hw, e, -⟩
    · rw [hsame job hjob (.inr hc) (staleProcessing_of_ne (by simp [hc]))]
      exact hr
    · rw [hsame job hjob (.inl (h.leased worker hw job hjob e.symm).1) (ha worker hw job hjob e.symm)]
      exact hr

/-! ### The workers -/

theorem mem_update_phase {workers : List ImportWorker} {phase : WorkerPhase} {worker : ImportWorker}
    (h : worker ∈ update ImportWorker.workerId workerId (fun w => { w with phase }) workers) :
    worker ∈ workers ∧ worker.workerId ≠ workerId ∨
      ∃ w ∈ workers, w.workerId = workerId ∧ worker = { w with phase } :=
  mem_update h

theorem map_update_phase {β : Type} (g : ImportWorker → β) (workers : List ImportWorker)
    (workerId : Nat) {phase : WorkerPhase} (hg : ∀ w : ImportWorker, g { w with phase } = g w) :
    (update ImportWorker.workerId workerId (fun w => { w with phase }) workers).map g =
      workers.map g := by
  rw [update, List.map_map]
  refine List.map_congr_left fun w _ => ?_
  simp only [Function.comp_apply]
  split_ifs
  · exact hg w
  · rfl

/-- A worker that had not finalized its import moves on. -/
theorem Owned.advance (h : world.Owned) (workerId : Nat) (before after : WorkerPhase)
    (f : ImportJob → ImportJob) (hf : ∀ job, (f job).jobUuid = job.jobUuid)
    (hbefore : before ≠ .finalized)
    (hphase : ∀ job, before.Allows job.state → job.dispatchStatus = .processing →
      (f job).dispatchStatus = .processing ∧ after.Allows (f job).state)
    (hadv : world.advance workerId before after
      (fun jobs uuid => update ImportJob.jobUuid uuid f jobs) = some world') : world'.Owned := by
  obtain ⟨worker, hworker, hwb, rfl⟩ := advance_cases hadv
  have hmem := find_mem hworker
  have hid := find_key hworker
  -- the import of the worker is not in review before the step
  have hnot : ∀ job ∈ world.jobs, job.jobUuid = worker.jobUuid → ¬ job.InReview :=
    fun job hjob e => (h.leased worker hmem job hjob e).2.not_inReview (hwb ▸ hbefore)
  refine h.map (fun job => if job.jobUuid = worker.jobUuid then f job else job)
    (fun job => by split_ifs <;> simp [hf]) ?_ ?_ ?_ h.confirmingIssued ?_ ?_ ?_
  · rw [map_update_phase _ _ _ fun _ => rfl]
    exact h.workerIds
  · rw [map_update_phase _ _ _ fun _ => rfl]
    exact h.workerJobs
  · intro w hw
    rcases mem_update_phase hw with ⟨hw, -⟩ | ⟨w₀, hw₀, -, rfl⟩
    · exact h.workersIssued w hw
    · exact h.workersIssued w₀ hw₀
  · intro w hw job hjob e
    rcases mem_update_phase hw with ⟨hw, hne⟩ | ⟨w₀, hw₀, hid₀, rfl⟩
    · have hother : job.jobUuid ≠ worker.jobUuid := fun e' =>
        hne (by rw [h.worker_eq hw hmem (e.symm.trans e'), hid])
      rw [if_neg hother]
      exact h.leased w hw job hjob e
    · obtain rfl : w₀ = worker := List.inj_on_of_nodup_map h.workerIds hw₀ hmem (hid₀.trans hid.symm)
      obtain ⟨hd, hallows⟩ := h.leased w₀ hw₀ job hjob e
      rw [if_pos e]
      exact hphase job (hwb ▸ hallows) hd
  · intro job hjob hr
    by_cases e : job.jobUuid = worker.jobUuid
    · rw [if_pos e] at hr ⊢
      obtain ⟨hd, hallows⟩ := h.leased worker hmem job hjob e
      obtain ⟨-, hafter⟩ := hphase job (hwb ▸ hallows) hd
      have hfinal : after = .finalized := by
        by_contra hne
        exact hafter.not_inReview hne hr
      exact .inr ⟨{ worker with phase := after },
        List.mem_map.mpr ⟨worker, hmem, if_pos hid⟩, e.symm, hfinal⟩
    · rw [if_neg e] at hr ⊢
      refine (h.review job hjob hr).imp id fun ⟨w, hw, e', hp⟩ => ⟨w, ?_, e', hp⟩
      refine mem_update_of_ne hw fun hid' => e ?_
      rw [← e', List.inj_on_of_nodup_map h.workerIds hw hmem (hid'.trans hid.symm)]
  · intro job hjob hc
    have hr := h.confirming job hjob hc
    rw [if_neg fun e => hnot job hjob e hr]
    exact hr

variable (settings now) in
theorem claim_cases (jobs : List ImportJob) (jobUuid : String) :
    claim settings now jobs jobUuid = (jobs, none) ∨
    ∃ job ∈ jobs, job.jobUuid = jobUuid ∧ claimable settings now job = true ∧
      (claim settings now jobs jobUuid = (update ImportJob.jobUuid jobUuid
          (terminalFailure now "Import job has no persisted uploads") jobs, none) ∨
        ∃ payload, claim settings now jobs jobUuid =
          (update ImportJob.jobUuid jobUuid (startProcessing now) jobs, some payload)) := by
  unfold claim
  cases hf : find ImportJob.jobUuid jobUuid jobs with
  | none => exact .inl rfl
  | some job =>
    simp only
    split_ifs with hc hs
    · exact .inl rfl
    · exact .inr ⟨job, find_mem hf, find_key hf, by simpa using hc, .inl rfl⟩
    · exact .inr ⟨job, find_mem hf, find_key hf, by simpa using hc, .inr ⟨_, rfl⟩⟩

theorem claimable_state (h : claimable settings now job = true) :
    job.dispatchStatus ≠ .processing ∧ job.state = .pending := by
  simp only [claimable, Bool.and_eq_true, decide_eq_true_eq] at h
  exact ⟨h.1.1.1.1, h.1.1.2⟩

variable (settings now) in
theorem Owned.deliver (h : world.Owned) (jobUuid : String) (hnew : world.worker workerId = none) :
    Owned { world with
      jobs := (claim settings now world.jobs jobUuid).1
      workers := if (claim settings now world.jobs jobUuid).2.isSome then
          ⟨workerId, jobUuid, .running⟩ :: world.workers
        else world.workers } := by
  obtain hc | ⟨job, hjob, rfl, hclaim, hc⟩ := claim_cases settings now world.jobs jobUuid
  · rw [hc]
    exact h
  obtain ⟨hd, hstate⟩ := claimable_state hclaim
  -- the job has no worker yet, since its dispatch is not processing
  have hfree : ∀ worker ∈ world.workers, worker.jobUuid ≠ job.jobUuid := fun worker hw e =>
    hd (h.leased worker hw job hjob e.symm).1
  have hsame : ∀ job' ∈ world.jobs, job'.jobUuid = job.jobUuid → job' = job := fun job' hjob' e =>
    eq_of_jobUuid_eq h.jobs.uuids hjob hjob' e
  rcases hc with hc | ⟨payload, hc⟩
  · rw [hc]
    refine h.mapJobs _ (fun j => by split_ifs <;> rfl) (fun w hw j hj e => ?_) (fun j hj hr => ?_)
      fun j hj hr => ?_
    · rw [if_neg fun e' => hfree w hw (e.symm.trans e')]
      exact h.leased w hw j hj e
    · split_ifs at hr ⊢
      · simp [ImportJob.InReview, terminalFailure] at hr
      · exact ⟨hr, id⟩
    · have hne : j.jobUuid ≠ job.jobUuid := fun e =>
        not_inReview_of_claimable hclaim (hsame j hj e ▸ hr)
      rw [if_neg hne]
      exact hr
  · rw [hc]
    simp only [Option.isSome_some, if_true]
    refine h.map _ (fun j => by split_ifs <;> rfl) ?_ ?_ ?_ h.confirmingIssued ?_ ?_ ?_
    · rw [List.map_cons, List.nodup_cons]
      exact ⟨find_eq_none_iff.mp hnew, h.workerIds⟩
    · rw [List.map_cons, List.nodup_cons]
      refine ⟨fun hu => ?_, h.workerJobs⟩
      obtain ⟨w, hw, e⟩ := List.mem_map.mp hu
      exact hfree w hw e
    · rintro w (_ | ⟨_, hw⟩)
      · exact h.jobs.issued job hjob
      · exact h.workersIssued w hw
    · rintro w (_ | ⟨_, hw⟩) j hj e
      · rw [if_pos e, hsame j hj e]
        exact ⟨rfl, .inl hstate⟩
      · rw [if_neg fun e' => hfree w hw (e.symm.trans e')]
        exact h.leased w hw j hj e
    · intro j hj hr
      have hne : j.jobUuid ≠ job.jobUuid := fun e => by
        rw [if_pos e, hsame j hj e] at hr
        exact not_inReview_of_claimable hclaim hr
      rw [if_neg hne] at hr ⊢
      refine (h.review j hj hr).imp id ?_
      rintro ⟨w, hw, hp⟩
      exact ⟨w, List.mem_cons_of_mem _ hw, hp⟩
    · intro j hj hconf
      have hr := h.confirming j hj hconf
      have hne : j.jobUuid ≠ job.jobUuid := fun e =>
        not_inReview_of_claimable hclaim (hsame j hj e ▸ hr)
      rw [if_neg hne]
      exact hr

/-- A worker that has not finalized an import disappears. -/
theorem Owned.removeWorker (h : world.Owned)
    (hphase : ∀ worker, world.worker workerId = some worker → worker.phase ≠ .finalized) :
    Owned (world.removeWorker workerId) := by
  have hsub : (world.removeWorker workerId).workers.Sublist world.workers := List.filter_sublist
  refine ⟨⟨h.jobs.uuids, h.jobs.issued⟩, h.workerIds.sublist (hsub.map _),
    h.workerJobs.sublist (hsub.map _), fun w hw => h.workersIssued w (hsub.subset hw), h.confirmingIssued,
    fun w hw => h.leased w (hsub.subset hw), fun job hjob hr => ?_, h.confirming⟩
  refine (h.review job hjob hr).imp id fun ⟨w, hw, e, hp⟩ => ⟨w, ?_, e, hp⟩
  refine List.mem_filter.mpr ⟨hw, ?_⟩
  simp only [decide_eq_true_eq]
  rintro rfl
  exact hphase w (find_of_mem h.workerIds hw) hp

theorem Owned.complete {world : ImportWorld} (h : world.Owned) {worker : ImportWorker}
    (hworker : worker ∈ world.workers) :
    Owned ({ world with
      jobs := complete now world.jobs worker.jobUuid }.removeWorker worker.workerId) := by
  have hsub : (Table.delete ImportWorker.workerId worker.workerId world.workers).Sublist
    world.workers := List.filter_sublist
  -- the other workers have other imports
  have hother : ∀ w ∈ Table.delete ImportWorker.workerId worker.workerId world.workers,
      w.jobUuid ≠ worker.jobUuid := fun w hw e => by
    have hne := (List.mem_filter.mp hw).2
    rw [h.worker_eq (hsub.subset hw) hworker e] at hne
    simp at hne
  refine h.map _ (fun j => by split_ifs <;> rfl) (h.workerIds.sublist (hsub.map _))
    (h.workerJobs.sublist (hsub.map _)) (fun w hw => h.workersIssued w (hsub.subset hw))
    h.confirmingIssued (fun w hw j hj e => ?_) (fun j hj hr => ?_) fun j hj hconf => ?_
  · rw [if_neg fun e' => hother w hw (e.symm.trans e')]
    exact h.leased w (hsub.subset hw) j hj e
  · by_cases e : j.jobUuid = worker.jobUuid
    · rw [if_pos e]
      exact .inl rfl
    · rw [if_neg e] at hr ⊢
      refine (h.review j hj hr).imp id fun ⟨w, hw, e', hp⟩ => ⟨w, ?_, e', hp⟩
      refine List.mem_filter.mpr ⟨hw, ?_⟩
      simp only [decide_eq_true_eq]
      intro hid
      exact e (e'.symm.trans (congrArg _ (List.inj_on_of_nodup_map h.workerIds hw hworker hid)))
  · have hr := h.confirming j hj hconf
    split_ifs
    · exact hr
    · exact hr

/-! ### Every step -/

theorem Owned.submit (h : world.Owned) (settings : ImportDispatchSettings)
    (hnew : jobUuid ∉ world.issued) (storageKeys : List String) (options : Option String) :
    Owned { world with
      jobs := world.jobs ++ [newJob now jobUuid storageKeys options]
      issued := jobUuid :: world.issued } := by
  have hstep : Step settings world (now, .submit jobUuid storageKeys options) { world with
      jobs := world.jobs ++ [newJob now jobUuid storageKeys options]
      issued := jobUuid :: world.issued } := by
    simp only [Step, next, if_neg hnew]
  have hmem : ∀ job ∈ world.jobs ++ [newJob now jobUuid storageKeys options], job ∈ world.jobs ∨
      job = newJob now jobUuid storageKeys options := fun job hjob => by
    simpa using hjob
  refine ⟨h.jobs.step hstep, h.workerIds, h.workerJobs,
    fun w hw => List.mem_cons_of_mem _ (h.workersIssued w hw),
    fun u hu => List.mem_cons_of_mem _ (h.confirmingIssued u hu), fun w hw job hjob e => ?_,
    fun job hjob hr => ?_, fun job hjob hc => ?_⟩
  · rcases hmem job hjob with hjob | rfl
    · exact h.leased w hw job hjob e
    · exact absurd (h.workersIssued w hw) (e ▸ hnew)
  · rcases hmem job hjob with hjob | rfl
    · exact h.review job hjob hr
    · simp [ImportJob.InReview, newJob] at hr
  · rcases hmem job hjob with hjob | rfl
    · exact h.confirming job hjob hc
    · exact absurd (h.confirmingIssued _ hc) hnew

theorem Owned.releaseDispatch {world : ImportWorld} (h : world.Owned) (jobUuid error : String) :
    Owned { world with jobs := releaseDispatch now world.jobs jobUuid error } := by
  have hkeep : ∀ job, (releaseDispatchedJob now error job).state = job.state := fun job => by
    unfold releaseDispatchedJob
    split_ifs <;> rfl
  have hsame : ∀ job, job.dispatchStatus ≠ .dispatched →
      releaseDispatchedJob now error job = job := fun job hd => if_pos hd
  refine h.mapJobs _ (fun j => by split_ifs <;> simp) (fun w hw j hj e => ?_) (fun j hj hr => ?_)
    fun j hj hr => ?_
  · obtain ⟨hd, hallows⟩ := h.leased w hw j hj e
    rw [hsame j (by simp [hd]), ite_self]
    exact ⟨hd, hallows⟩
  · refine ⟨?_, fun hc => ?_⟩
    · split_ifs at hr
      · simpa only [ImportJob.InReview, hkeep] using hr
      · exact hr
    · rw [hsame j (by simp [hc]), ite_self]
      exact hc
  · split_ifs
    · simpa only [ImportJob.InReview, hkeep] using hr
    · exact hr

theorem Owned.confirmCheck (h : world.Owned) (hjob : job ∈ world.jobs)
    (hstate : job.state = .pendingReview) :
    Owned { world with confirming := job.jobUuid :: world.confirming } := by
  refine ⟨⟨h.jobs.uuids, h.jobs.issued⟩, h.workerIds, h.workerJobs, h.workersIssued,
    fun u hu => ?_, h.leased, h.review, fun j hj hc => ?_⟩
  · rcases List.mem_cons.mp hu with rfl | hu
    · exact h.jobs.issued job hjob
    · exact h.confirmingIssued u hu
  · rcases List.mem_cons.mp hc with e | hc
    · rw [eq_of_jobUuid_eq h.jobs.uuids hjob hj e]
      exact .inl hstate
    · exact h.confirming j hj hc

theorem Owned.delete (h : world.Owned) (jobUuid : String) :
    Owned { world with jobs := Table.delete ImportJob.jobUuid jobUuid world.jobs } := by
  have hsub : (Table.delete ImportJob.jobUuid jobUuid world.jobs).Sublist world.jobs :=
    List.filter_sublist
  exact ⟨⟨h.jobs.uuids.sublist (hsub.map _), fun j hj => h.jobs.issued j (hsub.subset hj)⟩,
    h.workerIds, h.workerJobs, h.workersIssued, h.confirmingIssued,
    fun w hw j hj => h.leased w hw j (hsub.subset hj), fun j hj => h.review j (hsub.subset hj),
    fun j hj => h.confirming j (hsub.subset hj)⟩

theorem Owned.confirmCommit (h : world.Owned) (hconf : jobUuid ∈ world.confirming) (scoreId : Int) :
    Owned { world with
      jobs := update ImportJob.jobUuid jobUuid (confirmJob scoreId) world.jobs
      confirming := world.confirming.erase jobUuid } := by
  refine h.map _ (fun j => by split_ifs <;> rfl) h.workerIds h.workerJobs h.workersIssued
    (fun u hu => h.confirmingIssued u (List.mem_of_mem_erase hu)) (fun w hw j hj e => ?_)
    (fun j hj hr => ?_) fun j hj hc => ?_
  · obtain ⟨hd, hallows⟩ := h.leased w hw j hj e
    split_ifs with he
    · -- an import in confirmation is in review, so its worker has finalized it
      have hr : j.InReview := h.confirming j hj (he ▸ hconf)
      have hp : w.phase = .finalized := by
        by_contra hne
        exact hallows.not_inReview hne hr
      exact ⟨hd, by rw [hp]; exact .inr rfl⟩
    · exact ⟨hd, hallows⟩
  · split_ifs at hr ⊢ with he
    · exact h.review j hj (h.confirming j hj (he ▸ hconf))
    · exact h.review j hj hr
  · have hr := h.confirming j hj (List.mem_of_mem_erase hc)
    split_ifs
    · exact .inr rfl
    · exact hr

theorem Owned.retry (h : world.Owned) (hjob : job ∈ world.jobs) (hretry : retryable job = true)
    (hfree : ∀ worker ∈ world.workers, worker.jobUuid ≠ job.jobUuid) :
    Owned { world with
      jobs := update ImportJob.jobUuid job.jobUuid (retryJob now) world.jobs } := by
  refine h.mapJobs _ (fun j => by split_ifs <;> rfl) (fun w hw j hj e => ?_) (fun j hj hr => ?_)
    fun j hj hr => ?_
  · rw [if_neg fun e' => hfree w hw (e.symm.trans e')]
    exact h.leased w hw j hj e
  · split_ifs at hr ⊢
    · simp [ImportJob.InReview, retryJob] at hr
    · exact ⟨hr, id⟩
  · have hne : j.jobUuid ≠ job.jobUuid := fun e =>
      not_inReview_of_retryable hretry (eq_of_jobUuid_eq h.jobs.uuids hjob hj e ▸ hr)
    rw [if_neg hne]
    exact hr

theorem Owned.step {action : Int × ImportAction} (h : world.Owned)
    (ha : world.Attended settings action) (hs : Step settings world action world') :
    world'.Owned := by
  obtain ⟨now, action⟩ := action
  have herase : ∀ jobUuid, Owned { world with confirming := world.confirming.erase jobUuid } :=
    fun jobUuid => ⟨⟨h.jobs.uuids, h.jobs.issued⟩, h.workerIds, h.workerJobs, h.workersIssued,
      fun u hu => h.confirmingIssued u (List.mem_of_mem_erase hu), h.leased, h.review,
      fun j hj hc => h.confirming j hj (List.mem_of_mem_erase hc)⟩
  have hid : ∀ (jobs : List ImportJob) (uuid : String),
      update ImportJob.jobUuid uuid (fun job => job) jobs = jobs := fun jobs uuid => by
    simp [update]
  cases action with
  | submit jobUuid storageKeys options =>
    simp only [Step, next] at hs
    split_ifs at hs with hnew
    cases hs
    exact h.submit settings hnew storageKeys options
  | scan locked =>
    cases hs
    exact h.scan ha
  | releaseDispatch jobUuid error =>
    cases hs
    exact h.releaseDispatch jobUuid error
  | deliver workerId jobUuid =>
    simp only [Step, next] at hs
    split_ifs at hs with hnew hpayload
    · cases hs
      have hown := h.deliver settings now jobUuid (by simpa using hnew)
      rwa [if_pos hpayload] at hown
    · cases hs
      have hown := h.deliver settings now jobUuid (by simpa using hnew)
      rwa [if_neg hpayload] at hown
  | progress workerId report =>
    exact h.advance workerId .running .running (progressJob now .running report) (fun _ => rfl)
      (by decide) (fun job hallows hd => ⟨hd, .inr rfl⟩) hs
  | finalizeSuccess workerId =>
    exact h.advance workerId .running .finalized (succeedJob now) (fun _ => rfl) (by decide)
      (fun job hallows hd => ⟨hd, .inl rfl⟩) hs
  | raises workerId =>
    simp only [Step, next] at hs
    cases hw : world.worker workerId with
    | none => simp [hw] at hs
    | some worker =>
      simp only [hw] at hs
      split_ifs at hs with hp
      have hne : worker.phase ≠ .finalized := ha worker hw
      have hrun : worker.phase = .running := hp.resolve_right hne
      rw [hrun] at hs
      refine h.advance workerId .running .failing (fun job => job) (fun _ => rfl) (by decide)
        (fun job hallows hd => ⟨hd, hallows⟩) ?_
      simpa only [hid] using hs
  | finalizeFailure workerId report =>
    exact h.advance workerId .failing .failed (failJob now report) (fun _ => rfl) (by decide)
      (fun job hallows hd => ⟨hd, .inr (.inr rfl)⟩) hs
  | dropFailure workerId =>
    refine h.advance workerId .failing .failed (fun job => job) (fun _ => rfl) (by decide)
      (fun job hallows hd => ⟨hd, hallows.imp id .inl⟩) ?_
    simpa only [hid, Step, next] using hs
  | complete workerId =>
    simp only [Step, next] at hs
    cases hw : world.worker workerId with
    | none => simp [hw] at hs
    | some worker =>
      simp only [hw] at hs
      split_ifs at hs
      cases hs
      obtain rfl := find_key hw
      exact h.complete (find_mem hw)
  | crash workerId =>
    simp only [Step, next] at hs
    split_ifs at hs
    cases hs
    exact h.removeWorker ha
  | confirmCheck jobUuid scoreExists =>
    simp only [Step, next] at hs
    cases hj : world.job jobUuid with
    | none => simp [hj] at hs
    | some job =>
      simp only [hj] at hs
      split_ifs at hs with h₁ h₂
      · cases hs
        exact h
      · cases hs
        obtain rfl := find_key hj
        exact h.confirmCheck (find_mem hj) (not_not.mp h₂)
  | confirmCommit jobUuid scoreId =>
    simp only [Step, next] at hs
    split_ifs at hs with hc
    cases hs
    exact h.confirmCommit hc scoreId
  | confirmAbort jobUuid =>
    cases hs
    exact herase jobUuid
  | retry jobUuid =>
    simp only [Step, next] at hs
    cases hj : world.job jobUuid with
    | none => simp [hj] at hs
    | some job =>
      simp only [hj] at hs
      split_ifs at hs with hr
      cases hs
      obtain rfl := find_key hj
      exact h.retry (find_mem hj) (by simpa using hr) ha
  | delete jobUuid =>
    simp only [Step, next] at hs
    cases hj : world.job jobUuid with
    | none => simp [hj] at hs
    | some job =>
      simp only [hj] at hs
      split_ifs at hs
      cases hs
      exact h.delete jobUuid

theorem owned_of_reachable
    (h : Reachable (· = start) (guarded (Attended settings) (Step settings)) world) :
    world.Owned := by
  refine h.invariant ?_ fun _ _ _ hw hs => hw.step hs.1 hs.2
  rintro _ rfl
  exact ⟨⟨.nil, by simp [start]⟩, .nil, .nil, by simp [start], by simp [start], by simp [start],
    by simp [start], by simp [start]⟩

/-- In every reachable state, a step keeps the imports in review exactly if it
is safe; in every run of safe steps from there they stay in review with their
results. A run in which each lease has one worker that finishes has safe steps
only. -/
theorem reviews_kept (settings : ImportDispatchSettings) :
    (∀ world, Reachable (· = start) (Step settings) world →
      (∀ action world', Step settings world action world' →
        (KeepsReviews world.jobs world'.jobs ↔ world.ReviewSafe settings action)) ∧
      ∀ world', Reachable (· = world) (guarded (ReviewSafe settings) (Step settings)) world' →
        KeepsReviews world.jobs world'.jobs) ∧
    ∀ world, Reachable (· = start) (guarded (Attended settings) (Step settings)) world →
      ∀ action, Attended settings world action → (∃ world', Step settings world action world') →
        world.ReviewSafe settings action :=
  ⟨fun _ h => ⟨fun _ _ hs => keepsReviews_iff_reviewSafe (issued_of_reachable h) hs,
      fun _ hrun => keepsReviews_of_run (issued_of_reachable h) hrun⟩,
    fun _ h _ ha hs => (owned_of_reachable h).reviewSafe ha hs⟩

/-! ## A worker lost after it finalized its import -/

theorem reachable_of_run {actions : List (Int × ImportAction)}
    (h : Reachable (· = start) (Step settings) world)
    (hrun : world.run settings actions = some world') :
    Reachable (· = start) (Step settings) world' := by
  induction actions generalizing world with
  | nil => cases hrun; exact h
  | cons action actions ih =>
    obtain ⟨world₁, hnext, hrun⟩ := Option.bind_eq_some_iff.mp hrun
    exact ih (.step (a := action) h hnext) hrun

def importSettings : ImportDispatchSettings := ⟨300, 1200, 3, 20⟩

/-- An import is submitted, delivered and processed up to `finalize_success`. -/
def finalizedRun : List (Int × ImportAction) :=
  [(0, .submit "job" ["blobs/page.png"] none), (0, .scan []), (1, .deliver 0 "job"),
    (2, .progress 0 ⟨50, some "ocr", none, none, some 1⟩), (100, .finalizeSuccess 0)]

def finalizedWorld : ImportWorld := (start.run importSettings finalizedRun).getD start

/-- The worker is lost before it completes the dispatch. -/
def lostWorld : ImportWorld := finalizedWorld.removeWorker 0

/-- The scan that finds the lease expired. -/
def resetWorld : ImportWorld :=
  { lostWorld with jobs := (recoverAndClaimDue importSettings 1201 [] lostWorld.jobs).1 }

/-- The scan discards the finished import: it is queued once more. -/
theorem scan_discards_review :
    start.run importSettings (finalizedRun ++ [(100, .crash 0)]) = some lostWorld ∧
      lostWorld.jobs.map (fun job => (job.state, job.progress)) = [(.pendingReview, 100)] ∧
      lostWorld.next importSettings 1201 (.scan []) = some resetWorld ∧
      resetWorld.jobs.map (fun job => (job.state, job.progress)) = [(.pending, 0)] ∧
      ¬ KeepsReviews lostWorld.jobs resetWorld.jobs := by
  refine ⟨by decide, by decide, rfl, by decide, fun hk => ?_⟩
  have hkeep := hk (lostWorld.jobs.get ⟨0, by decide⟩) (by decide) (by decide)
    (resetWorld.jobs.get ⟨0, by decide⟩) (by decide) (by decide)
  exact absurd hkeep.inReview (by decide)

/-- The worker completes the dispatch: a safe step. -/
theorem complete_keeps_review :
    (KeepsReviews finalizedWorld.jobs (complete 101 finalizedWorld.jobs "job") ↔
      finalizedWorld.ReviewSafe importSettings (101, .complete 0)) ∧
    start.ReviewSafe importSettings (0, .scan []) := by
  have hreach : Reachable (· = start) (Step importSettings) finalizedWorld :=
    reachable_of_run (.start rfl) (show start.run importSettings finalizedRun = some finalizedWorld by decide)
  have hstep : Step importSettings finalizedWorld (101, .complete 0)
      ({ finalizedWorld with
        jobs := complete 101 finalizedWorld.jobs "job" }.removeWorker 0) := by
    show finalizedWorld.next importSettings 101 (.complete 0) = _
    decide
  exact ⟨((reviews_kept importSettings).1 finalizedWorld hreach).1 _ _ hstep,
    (reviews_kept importSettings).2 start (.start rfl) (0, .scan []) (fun _ hw => nomatch hw)
      ⟨_, rfl⟩⟩

end ImportWorld

end NoteVerse.Backend

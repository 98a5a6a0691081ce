import NoteVerse.Backend.ImportLifecycle

/-!
# Imports that are not stranded

An import that is `PENDING` or `RUNNING` is to be in the hands of the
scheduler or of a worker, and one with no attempts left that no worker
processes is to be in a final state. Two steps break this
(`unstranded_iff_progressSafe`): a worker that reports progress for an import
whose lease was taken away, and a worker that completes the dispatch before
the import has ended. `imports_not_stranded` states when a step is safe, what
holds along safe steps, and which runs have safe steps only.
-/

namespace NoteVerse.Backend

open Table Transition

variable {settings : ImportDispatchSettings} {now : Int}

def ImportJob.Final (job : ImportJob) : Prop :=
  job.state = .failure ∨ job.state = .pendingReview ∨ job.state = .confirmed

/-- The scheduler or a worker can still move the import, or it has ended. -/
structure ImportJob.Unstranded (settings : ImportDispatchSettings) (job : ImportJob) : Prop where
  pending : job.state = .pending →
    (job.dispatchStatus = .pending ∨ job.dispatchStatus = .failed) ∧
      job.dispatchAttemptCount < settings.dispatchMaxAttempts ∨
    job.dispatchStatus = .dispatched ∧ job.dispatchedAt.isSome ∨
    job.dispatchStatus = .processing ∧ job.dispatchStartedAt.isSome
  running : job.state = .running → job.dispatchStatus = .processing ∧ job.dispatchStartedAt.isSome
  exhausted : settings.dispatchMaxAttempts ≤ job.dispatchAttemptCount →
    job.dispatchStatus ≠ .processing → job.Final

/-- What a dispatch status says about the other columns of the dispatch. -/
structure ImportJob.Dispatched (settings : ImportDispatchSettings) (job : ImportJob) : Prop where
  pending : job.dispatchStatus = .pending →
    job.dispatchAttemptCount < settings.dispatchMaxAttempts
  dispatched : job.dispatchStatus = .dispatched → job.dispatchedAt.isSome ∧
    job.dispatchAttemptCount < settings.dispatchMaxAttempts
  processing : job.dispatchStatus = .processing → job.dispatchStartedAt.isSome

variable {job : ImportJob}

theorem ImportJob.Final.unstranded (h : job.Final) :
    job.Unstranded settings where
  pending hs := by rcases h with h | h | h <;> simp [h] at hs
  running hs := by rcases h with h | h | h <;> simp [h] at hs
  exhausted _ _ := h

theorem ImportJob.Unstranded.not_completed (h : job.Unstranded settings)
    (hs : job.state = .pending ∨ job.state = .running) : job.dispatchStatus ≠ .completed := by
  intro hc
  rcases hs with hs | hs
  · have hp := h.pending hs
    simp [hc] at hp
  · have hr := h.running hs
    simp [hc] at hr

/-- From some time on, a scan moves an import that has not ended. -/
theorem ImportJob.Unstranded.movable (h : job.Unstranded settings)
    (hs : job.state = .pending ∨ job.state = .running) :
    ∃ time, ∀ now, time ≤ now → isDue settings now job = true ∨
      staleDispatch settings now job = true ∨ staleProcessing settings now job = true := by
  have hleased : job.dispatchStatus = .processing ∧ job.dispatchStartedAt.isSome →
      ∃ time, ∀ now, time ≤ now → staleProcessing settings now job = true := by
    rintro ⟨hp, hsome⟩
    obtain ⟨startedAt, hstarted⟩ := Option.isSome_iff_exists.mp hsome
    refine ⟨startedAt + settings.processingTimeoutSeconds, fun now hn => ?_⟩
    have hcutoff : startedAt ≤ now - settings.processingTimeoutSeconds := by omega
    simp [staleProcessing, hp, hstarted, hcutoff]
  rcases hs with hs | hs
  · rcases h.pending hs with ⟨hd, hmax⟩ | ⟨hd, hsome⟩ | hleased'
    · refine ⟨job.nextDispatchAt, fun now hn => .inl ?_⟩
      simp [isDue, hs, hd, hn, hmax]
    · obtain ⟨dispatchedAt, hat⟩ := Option.isSome_iff_exists.mp hsome
      refine ⟨dispatchedAt + settings.dispatchTimeoutSeconds, fun now hn => .inr (.inl ?_)⟩
      have hcutoff : dispatchedAt ≤ now - settings.dispatchTimeoutSeconds := by omega
      simp [staleDispatch, hd, hat, hcutoff]
    · obtain ⟨time, htime⟩ := hleased hleased'
      exact ⟨time, fun now hn => .inr (.inr (htime now hn))⟩
  · obtain ⟨time, htime⟩ := hleased (h.running hs)
    exact ⟨time, fun now hn => .inr (.inr (htime now hn))⟩

namespace ImportWorld

/-! ## What a step does to one job -/

/-- The change of one job in a step of a world at the time `now`. -/
inductive JobStep (settings : ImportDispatchSettings) (world : ImportWorld) (now : Int) :
    ImportAction → ImportJob → ImportJob → Prop
  | same {action : ImportAction} {job : ImportJob} : JobStep settings world now action job job
  | recover {locked : List String} {job : ImportJob} :
    JobStep settings world now (.scan locked) job (recoverJob settings now job)
  | dispatch {locked : List String} {job : ImportJob} :
    isDue settings now job = true →
    JobStep settings world now (.scan locked) job (dispatchJob now job)
  | release {jobUuid error : String} {job : ImportJob} :
    JobStep settings world now (.releaseDispatch jobUuid error) job
      (releaseDispatchedJob now error job)
  | exhaust {workerId : Nat} {jobUuid error : String} {job : ImportJob} :
    claimable settings now job = true →
    JobStep settings world now (.deliver workerId jobUuid) job (terminalFailure now error job)
  | process {workerId : Nat} {jobUuid : String} {job : ImportJob} :
    claimable settings now job = true →
    JobStep settings world now (.deliver workerId jobUuid) job (startProcessing now job)
  | progress {workerId : Nat} {worker : ImportWorker} {report : ProgressReport} {job : ImportJob} :
    world.worker workerId = some worker → worker.phase = .running → job.jobUuid = worker.jobUuid →
    JobStep settings world now (.progress workerId report) job
      (progressJob now .running report job)
  | succeed {workerId : Nat} {worker : ImportWorker} {job : ImportJob} :
    world.worker workerId = some worker → worker.phase = .running → job.jobUuid = worker.jobUuid →
    JobStep settings world now (.finalizeSuccess workerId) job (succeedJob now job)
  | fail {workerId : Nat} {report : FailureReport} {job : ImportJob} :
    JobStep settings world now (.finalizeFailure workerId report) job (failJob now report job)
  | complete {workerId : Nat} {worker : ImportWorker} {job : ImportJob} :
    world.worker workerId = some worker → job.jobUuid = worker.jobUuid →
    JobStep settings world now (.complete workerId) job (completeJob now job)
  | confirm {jobUuid : String} {scoreId : Int} {job : ImportJob} :
    jobUuid ∈ world.confirming → job.jobUuid = jobUuid →
    JobStep settings world now (.confirmCommit jobUuid scoreId) job (confirmJob scoreId job)
  | retry {jobUuid : String} {job : ImportJob} : job.jobUuid = jobUuid →
    JobStep settings world now (.retry jobUuid) job (retryJob now job)

variable {world world' : ImportWorld} {action : ImportAction} {job' job : ImportJob}
  {worker : ImportWorker}

theorem jobStep_update {f : ImportJob → ImportJob} {jobUuid : String}
    (hf : ∀ job ∈ world.jobs, job.jobUuid = jobUuid → JobStep settings world now action job (f job))
    (h : job' ∈ update ImportJob.jobUuid jobUuid f world.jobs) :
    ∃ job ∈ world.jobs, JobStep settings world now action job job' := by
  rcases mem_update h with ⟨hjob, -⟩ | ⟨job, hjob, e, rfl⟩
  · exact ⟨job', hjob, .same⟩
  · exact ⟨job, hjob, hf job hjob e⟩

/-- A job after a step is new, or was there before the step. -/
theorem step_job (hw : world.Issued) (h : Step settings world (now, action) world')
    (hjob' : job' ∈ world'.jobs) :
    (∃ jobUuid storageKeys options, action = .submit jobUuid storageKeys options ∧
      job' = newJob now jobUuid storageKeys options) ∨
    ∃ job ∈ world.jobs, JobStep settings world now action job job' := by
  have hsame : world'.jobs = world.jobs →
      ∃ job ∈ world.jobs, JobStep settings world now action job job' :=
    fun e => ⟨job', e ▸ hjob', .same⟩
  cases action with
  | submit jobUuid storageKeys options =>
    simp only [Step, next] at h
    split_ifs at h with hnew
    cases h
    rcases List.mem_append.mp hjob' with hjob' | hjob'
    · exact .inr ⟨job', hjob', .same⟩
    · exact .inl ⟨jobUuid, storageKeys, options, rfl, List.mem_singleton.mp hjob'⟩
  | scan locked =>
    cases h
    rw [recoverAndClaimDue_eq] at hjob'
    obtain ⟨job, hjob, rfl⟩ := List.mem_map.mp hjob'
    rcases scanJob_cases settings now hw.uuids hjob locked with he | ⟨hdue, he⟩
    · exact .inr ⟨job, hjob, he ▸ .recover⟩
    · exact .inr ⟨job, hjob, he ▸ .dispatch hdue⟩
  | releaseDispatch jobUuid error =>
    cases h
    exact .inr (jobStep_update (fun _ _ _ => .release) hjob')
  | deliver workerId jobUuid =>
    simp only [Step, next] at h
    split_ifs at h
    all_goals
      cases h
      obtain hc | ⟨job, hjob, rfl, hclaim, hc | ⟨payload, hc⟩⟩ :=
        claim_cases settings now world.jobs jobUuid
    all_goals simp only [hc] at hjob'
    · exact .inr (hsame (by rw [hc]))
    · refine .inr (jobStep_update (fun j hj e => ?_) hjob')
      exact .exhaust (eq_of_jobUuid_eq hw.uuids hjob hj e ▸ hclaim)
    · refine .inr (jobStep_update (fun j hj e => ?_) hjob')
      exact .process (eq_of_jobUuid_eq hw.uuids hjob hj e ▸ hclaim)
    · exact .inr (hsame (by rw [hc]))
    · refine .inr (jobStep_update (fun j hj e => ?_) hjob')
      exact .exhaust (eq_of_jobUuid_eq hw.uuids hjob hj e ▸ hclaim)
    · refine .inr (jobStep_update (fun j hj e => ?_) hjob')
      exact .process (eq_of_jobUuid_eq hw.uuids hjob hj e ▸ hclaim)
  | progress workerId report =>
    simp only [Step, next] at h
    obtain ⟨worker, hworker, hphase, rfl⟩ := advance_cases h
    exact .inr (jobStep_update (fun _ _ e => .progress hworker hphase e) hjob')
  | finalizeSuccess workerId =>
    simp only [Step, next] at h
    obtain ⟨worker, hworker, hphase, rfl⟩ := advance_cases h
    exact .inr (jobStep_update (fun _ _ e => .succeed hworker hphase e) hjob')
  | raises workerId =>
    simp only [Step, next] at h
    split at h
    · cases h
    · split_ifs at h
      obtain ⟨worker, -, -, rfl⟩ := advance_cases h
      exact .inr (hsame rfl)
  | finalizeFailure workerId report =>
    simp only [Step, next] at h
    obtain ⟨worker, -, -, rfl⟩ := advance_cases h
    exact .inr (jobStep_update (fun _ _ _ => .fail) hjob')
  | dropFailure workerId =>
    simp only [Step, next] at h
    obtain ⟨worker, -, -, rfl⟩ := advance_cases h
    exact .inr (hsame rfl)
  | complete workerId =>
    simp only [Step, next] at h
    split at h
    · cases h
    · rename_i worker hworker
      split_ifs at h
      cases h
      exact .inr (jobStep_update (fun _ _ e => .complete hworker e) hjob')
  | crash workerId =>
    simp only [Step, next] at h
    split_ifs at h
    cases h
    exact .inr (hsame rfl)
  | confirmCheck jobUuid scoreExists =>
    simp only [Step, next] at h
    split at h
    · cases h
    · split_ifs at h
      · cases h; exact .inr (hsame rfl)
      · cases h; exact .inr (hsame rfl)
  | confirmCommit jobUuid scoreId =>
    simp only [Step, next] at h
    split_ifs at h with hc
    cases h
    exact .inr (jobStep_update (fun _ _ e => .confirm hc e) hjob')
  | confirmAbort jobUuid =>
    cases h
    exact .inr (hsame rfl)
  | retry jobUuid =>
    simp only [Step, next] at h
    split at h
    · cases h
    · split_ifs at h
      cases h
      exact .inr (jobStep_update (fun _ _ e => .retry e) hjob')
  | delete jobUuid =>
    simp only [Step, next] at h
    split at h
    · cases h
    · split_ifs at h
      cases h
      exact .inr ⟨job', (List.mem_filter.mp hjob').1, .same⟩

/-! ## When a step keeps the imports from being stranded -/

theorem dispatched_recoverJob (h : job.Dispatched settings) :
    (recoverJob settings now job).Dispatched settings := by
  unfold recoverJob
  split_ifs with hstale hmax
  · exact h
  · exact ⟨by simp [terminalFailure], by simp [terminalFailure], by simp [terminalFailure]⟩
  · have hmax' : job.dispatchAttemptCount < settings.dispatchMaxAttempts := by omega
    exact ⟨fun _ => hmax', by simp [resetPipelineState], by simp [resetPipelineState]⟩
  · have hmax' : job.dispatchAttemptCount < settings.dispatchMaxAttempts := by omega
    exact ⟨fun _ => hmax', by simp, by simp⟩

theorem isDue_attempts (h : isDue settings now job = true) :
    job.dispatchAttemptCount < settings.dispatchMaxAttempts := by
  simp only [isDue, Bool.and_eq_true, decide_eq_true_eq] at h
  exact h.2

theorem JobStep.dispatched (hmax : 0 < settings.dispatchMaxAttempts) (h : job.Dispatched settings)
    (hs : JobStep settings world now action job job') : job'.Dispatched settings := by
  cases hs with
  | same => exact h
  | recover => exact dispatched_recoverJob h
  | dispatch hdue => exact ⟨by simp [dispatchJob], fun _ => ⟨rfl, (isDue_attempts hdue :)⟩,
      by simp [dispatchJob]⟩
  | release =>
    unfold releaseDispatchedJob
    split_ifs with hd
    · exact h
    · exact ⟨fun _ => (h.dispatched (not_not.mp hd)).2, by simp, by simp⟩
  | exhaust => exact ⟨by simp [terminalFailure], by simp [terminalFailure], by simp [terminalFailure]⟩
  | process => exact ⟨by simp [startProcessing], by simp [startProcessing], fun _ => rfl⟩
  | progress | succeed | fail | confirm => exact ⟨h.pending, h.dispatched, h.processing⟩
  | complete => exact ⟨by simp [completeJob], by simp [completeJob], by simp [completeJob]⟩
  | retry => exact ⟨fun _ => hmax, by simp [retryJob], by simp [retryJob]⟩

/-- The columns of the dispatch fit its status in every reachable state. -/
theorem dispatched_of_reachable (hmax : 0 < settings.dispatchMaxAttempts)
    (h : Reachable (· = start) (Step settings) world) :
    ∀ job ∈ world.jobs, job.Dispatched settings := by
  refine h.invariant_of_reachable (p := fun world => ∀ job ∈ world.jobs, job.Dispatched settings)
    (by rintro _ rfl; simp [start]) ?_
  rintro world ⟨now, action⟩ world' hr hw hs job' hjob'
  obtain ⟨jobUuid, keys, options, -, rfl⟩ | ⟨job, hjob, hstep⟩ :=
    step_job (issued_of_reachable hr) hs hjob'
  · exact ⟨fun _ => hmax, by simp [newJob], by simp [newJob]⟩
  · exact hstep.dispatched hmax (hw job hjob)

/-- The steps that strand no import: a worker reports progress only for one
that is processed, and completes the dispatch only of one that has ended. -/
def ProgressSafe (world : ImportWorld) : Int × ImportAction → Prop
  | (_, .progress workerId _) => ∀ worker, world.worker workerId = some worker →
      ∀ job ∈ world.jobs, job.jobUuid = worker.jobUuid → job.dispatchStatus = .processing
  | (_, .complete workerId) => ∀ worker, world.worker workerId = some worker →
      ∀ job ∈ world.jobs, job.jobUuid = worker.jobUuid → job.Final
  | _ => True

theorem unstranded_recoverJob (h : job.Unstranded settings) :
    (recoverJob settings now job).Unstranded settings := by
  unfold recoverJob
  split_ifs with hstale hmax hp
  · exact h
  · exact ImportJob.Final.unstranded (.inl rfl)
  · have hmax' : job.dispatchAttemptCount < settings.dispatchMaxAttempts := by omega
    exact ⟨fun _ => .inl ⟨.inl rfl, hmax'⟩, by simp [resetPipelineState],
      fun hm => absurd hmax' (Nat.not_lt.mpr hm)⟩
  · have hmax' : job.dispatchAttemptCount < settings.dispatchMaxAttempts := by omega
    refine ⟨fun _ => .inl ⟨.inl rfl, hmax'⟩, fun hs => ?_,
      fun hm => absurd hmax' (Nat.not_lt.mpr hm)⟩
    -- a delivery has not started the pipeline
    have hd : staleDispatch settings now job = true := by simpa [hp] using hstale
    simp only [staleDispatch, Bool.and_eq_true, decide_eq_true_eq] at hd
    have hr := (h.running hs).1
    simp [hd.1] at hr

theorem unstranded_releaseDispatchedJob {error : String} (hd : job.Dispatched settings)
    (h : job.Unstranded settings) : (releaseDispatchedJob now error job).Unstranded settings := by
  unfold releaseDispatchedJob
  split_ifs with hs
  · exact h
  · have hmax := (hd.dispatched (not_not.mp hs)).2
    refine ⟨fun _ => .inl ⟨.inl rfl, hmax⟩, fun hr => ?_,
      fun hm => absurd hmax (Nat.not_lt.mpr hm)⟩
    have hp := (h.running hr).1
    simp [not_not.mp hs] at hp

theorem JobStep.unstranded (hmax : 0 < settings.dispatchMaxAttempts) (hjob : job ∈ world.jobs)
    (hd : job.Dispatched settings) (h : job.Unstranded settings)
    (hsafe : world.ProgressSafe (now, action)) (hs : JobStep settings world now action job job') :
    job'.Unstranded settings := by
  cases hs with
  | same => exact h
  | recover => exact unstranded_recoverJob h
  | dispatch hdue =>
    have hattempts := isDue_attempts hdue
    refine ⟨fun _ => .inr (.inl ⟨rfl, rfl⟩), fun hr => ?_,
      fun hm => absurd hattempts (Nat.not_lt.mpr hm)⟩
    have hpending := (isDue_state hdue).1
    rw [show job.state = .running from hr] at hpending
    cases hpending
  | release => exact unstranded_releaseDispatchedJob hd h
  | exhaust => exact ImportJob.Final.unstranded (.inl rfl)
  | process hclaim =>
    refine ⟨fun _ => .inr (.inr ⟨rfl, rfl⟩), fun _ => ⟨rfl, rfl⟩, fun _ hp => absurd rfl hp⟩
  | progress hworker _ e =>
    have hp : job.dispatchStatus = .processing :=
      hsafe _ hworker job hjob e
    exact ⟨by simp [progressJob], fun _ => ⟨hp, hd.processing hp⟩, fun _ hne => absurd hp hne⟩
  | succeed => exact ImportJob.Final.unstranded (.inr (.inl rfl))
  | fail => exact ImportJob.Final.unstranded (.inl rfl)
  | complete hworker e =>
    have hfinal : (completeJob now job).Final := hsafe _ hworker job hjob e
    exact hfinal.unstranded
  | confirm => exact ImportJob.Final.unstranded (.inr (.inr rfl))
  | retry => exact ⟨fun _ => .inl ⟨.inl rfl, hmax⟩, by simp [retryJob],
      fun hm => absurd hmax (Nat.not_lt.mpr hm)⟩

/-- A change that a worker makes to its job. -/
theorem advance_mem {workerId : Nat} {before after : WorkerPhase} {f : ImportJob → ImportJob}
    (h : world.advance workerId before after
      (fun jobs uuid => update ImportJob.jobUuid uuid f jobs) = some world')
    (hworker : world.worker workerId = some worker) (hjob : job ∈ world.jobs)
    (e : job.jobUuid = worker.jobUuid) : f job ∈ world'.jobs := by
  obtain ⟨worker', hworker', -, rfl⟩ := advance_cases h
  rw [hworker] at hworker'
  cases hworker'
  exact List.mem_map.mpr ⟨job, hjob, if_pos e⟩

/-- A step strands no import exactly if it is safe. -/
theorem unstranded_iff_progressSafe {action : Int × ImportAction}
    (hmax : 0 < settings.dispatchMaxAttempts) (hreach : Reachable (· = start) (Step settings) world)
    (h : ∀ job ∈ world.jobs, job.Unstranded settings) (hs : Step settings world action world') :
    (∀ job ∈ world'.jobs, job.Unstranded settings) ↔ world.ProgressSafe action := by
  obtain ⟨now, action⟩ := action
  constructor
  · intro h'
    cases action with
    | progress workerId report =>
      intro worker hworker job hjob e
      simp only [Step, next] at hs
      have hrunning := (h' _ (advance_mem (f := progressJob now .running report) hs hworker hjob e)).running rfl
      exact hrunning.1
    | complete workerId =>
      intro worker hworker job hjob e
      simp only [Step, next, hworker] at hs
      split_ifs at hs
      cases hs
      have hmem : completeJob now job ∈ complete now world.jobs worker.jobUuid :=
        List.mem_map.mpr ⟨job, hjob, if_pos e⟩
      have hcompleted := (h' _ hmem).not_completed
      have hstate : ¬ (job.state = .pending ∨ job.state = .running) := fun hstate =>
        hcompleted hstate rfl
      unfold ImportJob.Final
      cases hjobState : job.state <;> simp [hjobState] at hstate ⊢
    | _ => trivial
  · intro hsafe job' hjob'
    have hw := issued_of_reachable hreach
    obtain ⟨jobUuid, keys, options, -, rfl⟩ | ⟨job, hjob, hstep⟩ := step_job hw hs hjob'
    · exact ⟨fun _ => .inl ⟨.inl rfl, hmax⟩, by simp [newJob],
        fun hm => absurd hmax (Nat.not_lt.mpr hm)⟩
    · exact hstep.unstranded hmax hjob (dispatched_of_reachable hmax hreach job hjob)
        (h job hjob) hsafe

theorem unstranded_of_run (hmax : 0 < settings.dispatchMaxAttempts)
    (h : Reachable (· = start) (guarded ProgressSafe (Step settings)) world) :
    ∀ job ∈ world.jobs, job.Unstranded settings := by
  have hrun : Reachable (· = start) (Step settings) world ∧
      ∀ job ∈ world.jobs, job.Unstranded settings := by
    refine h.invariant (p := fun world => Reachable (· = start) (Step settings) world ∧
      ∀ job ∈ world.jobs, job.Unstranded settings) ?_ ?_
    · rintro _ rfl
      exact ⟨.start rfl, by simp [start]⟩
    · rintro world action world' ⟨hreach, hw⟩ ⟨hsafe, hs⟩
      exact ⟨.step hreach hs, (unstranded_iff_progressSafe hmax hreach hw hs).mpr hsafe⟩
  exact hrun.2

/-- The scan after the lease of a job with no attempts left has run out ends
the job. -/
theorem scan_ends_exhausted (hw : world.Issued) {locked : List String}
    (hs : Step settings world (now, .scan locked) world') (hjob : job ∈ world.jobs)
    (hmax : settings.dispatchMaxAttempts ≤ job.dispatchAttemptCount)
    (hstale : staleProcessing settings now job = true) :
    ∀ job' ∈ world'.jobs, job'.jobUuid = job.jobUuid → job'.state = .failure := by
  have hrecover : recoverJob settings now job =
      terminalFailure now "Import worker delivery attempts exhausted" job := by
    simp [recoverJob, hstale, hmax]
  cases hs
  rw [recoverAndClaimDue_eq]
  intro job' hjob' e
  obtain ⟨job₀, hjob₀, rfl⟩ := List.mem_map.mp hjob'
  have hkey : job₀.jobUuid = job.jobUuid := by
    rw [← e]
    unfold scanJob
    split_ifs <;> simp
  obtain rfl := eq_of_jobUuid_eq hw.uuids hjob hjob₀ hkey
  rcases scanJob_cases settings now hw.uuids hjob locked with he | ⟨hdue, -⟩
  · rw [he, hrecover]
    rfl
  · rw [recoverJob_of_isDue hdue] at hrecover
    have hstate := (isDue_state hdue).1
    rw [hrecover] at hstate
    cases hstate

/-! ## Runs in which workers finish -/

/-- Each worker finishes within its lease, and `finalize_failure` does not
raise. -/
def Finishing (settings : ImportDispatchSettings) (world : ImportWorld)
    (action : Int × ImportAction) : Prop :=
  world.Attended settings action ∧ ∀ workerId, action.2 ≠ .dropFailure workerId

/-- The import of a worker that is past its handler has failed. -/
def Reported (world : ImportWorld) : Prop :=
  ∀ worker ∈ world.workers, worker.phase = .failed → ∀ job ∈ world.jobs,
    job.jobUuid = worker.jobUuid → job.state = .failure

theorem JobStep.jobUuid_eq (hs : JobStep settings world now action job job') :
    job'.jobUuid = job.jobUuid := by
  cases hs with
  | recover => exact recoverJob_jobUuid job
  | release => exact releaseDispatchedJob_jobUuid _ job
  | _ => rfl

/-- A failed import that a worker holds stays as it is, in a run in which
workers finish. -/
theorem JobStep.state_of_failed (howned : world.Owned) (ha : world.Attended settings (now, action))
    (hworker : worker ∈ world.workers) (hphase : worker.phase = .failed) (hjob : job ∈ world.jobs)
    (e : job.jobUuid = worker.jobUuid) (hstate : job.state = .failure)
    (hs : JobStep settings world now action job job') : job'.state = .failure := by
  have hleased : job.dispatchStatus = .processing := (howned.leased worker hworker job hjob e).1
  -- another worker of the import would be the same worker
  have hother : ∀ {workerId worker'}, world.worker workerId = some worker' →
      worker'.phase = .running → job.jobUuid ≠ worker'.jobUuid := by
    intro workerId worker' hworker' hrunning e'
    rw [howned.worker_eq hworker (find_mem hworker') (e.symm.trans e'), hrunning] at hphase
    cases hphase
  have hrecover : ∀ locked, action = .scan locked → recoverJob settings now job = job := by
    rintro locked rfl
    exact recoverJob_of_not_stale (by simp [hleased]) (ha worker hworker job hjob e)
  cases hs with
  | same => exact hstate
  | recover =>
    rw [hrecover _ rfl]
    exact hstate
  | dispatch hdue =>
    have hpending := (isDue_state hdue).1
    rw [hstate] at hpending
    cases hpending
  | release =>
    rw [releaseDispatchedJob, if_pos (by simp [hleased])]
    exact hstate
  | exhaust => rfl
  | process hclaim =>
    rw [(claimable_state hclaim).2] at hstate
    cases hstate
  | progress hworker' hrunning e' => exact absurd e' (hother hworker' hrunning)
  | succeed hworker' hrunning e' => exact absurd e' (hother hworker' hrunning)
  | fail => rfl
  | complete => exact hstate
  | confirm hconfirming e' =>
    rcases howned.confirming job hjob (e' ▸ hconfirming) with hr | hr <;> rw [hr] at hstate <;>
      cases hstate
  | retry e' => exact absurd (e.symm.trans e') (ha worker hworker)

/-- A worker past its handler was there before, unless the step is its
`finalize_failure`. -/
theorem step_failed_worker {action : Int × ImportAction} (hs : Step settings world action world')
    (hworker : worker ∈ world'.workers) (hphase : worker.phase = .failed) :
    worker ∈ world.workers ∨ (∃ workerId report, action.2 = .finalizeFailure workerId report) ∨
      ∃ workerId, action.2 = .dropFailure workerId := by
  obtain ⟨now, action⟩ := action
  have hadvance : ∀ {workerId before after transaction}, after ≠ .failed →
      world.advance workerId before after transaction = some world' → worker ∈ world.workers := by
    intro workerId before after transaction hafter hadv
    obtain ⟨w, -, -, rfl⟩ := advance_cases hadv
    rcases mem_update_phase hworker with ⟨hw, -⟩ | ⟨w₀, -, -, rfl⟩
    · exact hw
    · exact absurd hphase hafter
  cases action with
  | submit jobUuid storageKeys options =>
    simp only [Step, next] at hs
    split_ifs at hs
    cases hs
    exact .inl hworker
  | scan locked => cases hs; exact .inl hworker
  | releaseDispatch jobUuid error => cases hs; exact .inl hworker
  | deliver workerId jobUuid =>
    simp only [Step, next] at hs
    split_ifs at hs
    · cases hs
      rcases List.mem_cons.mp hworker with rfl | hworker
      · cases hphase
      · exact .inl hworker
    · cases hs
      exact .inl hworker
  | progress workerId report =>
    simp only [Step, next] at hs
    exact .inl (hadvance (by decide) hs)
  | finalizeSuccess workerId =>
    simp only [Step, next] at hs
    exact .inl (hadvance (by decide) hs)
  | raises workerId =>
    simp only [Step, next] at hs
    split at hs
    · cases hs
    · split_ifs at hs
      exact .inl (hadvance (by decide) hs)
  | finalizeFailure workerId report => exact .inr (.inl ⟨workerId, report, rfl⟩)
  | dropFailure workerId => exact .inr (.inr ⟨workerId, rfl⟩)
  | complete workerId =>
    simp only [Step, next] at hs
    split at hs
    · cases hs
    · split_ifs at hs
      cases hs
      exact .inl (List.mem_filter.mp hworker).1
  | crash workerId =>
    simp only [Step, next] at hs
    split_ifs at hs
    cases hs
    exact .inl (List.mem_filter.mp hworker).1
  | confirmCheck jobUuid scoreExists =>
    simp only [Step, next] at hs
    split at hs
    · cases hs
    · split_ifs at hs
      · cases hs; exact .inl hworker
      · cases hs; exact .inl hworker
  | confirmCommit jobUuid scoreId =>
    simp only [Step, next] at hs
    split_ifs at hs
    cases hs
    exact .inl hworker
  | confirmAbort jobUuid => cases hs; exact .inl hworker
  | retry jobUuid =>
    simp only [Step, next] at hs
    split at hs
    · cases hs
    · split_ifs at hs
      cases hs
      exact .inl hworker
  | delete jobUuid =>
    simp only [Step, next] at hs
    split at hs
    · cases hs
    · split_ifs at hs
      cases hs
      exact .inl hworker

theorem Reported.step {world world' : ImportWorld} {action : Int × ImportAction}
    (h : world.Reported) (howned : world.Owned) (ha : world.Finishing settings action)
    (hs : Step settings world action world') : world'.Reported := by
  intro worker hworker hphase job' hjob' e
  obtain ⟨now, action⟩ := action
  -- a worker that was there before the step
  have hold : worker ∈ world.workers → job'.state = .failure := by
    intro hworker
    obtain ⟨jobUuid, keys, options, rfl, rfl⟩ | ⟨job, hjob, hstep⟩ :=
      step_job howned.jobs hs hjob'
    · simp only [Step, next] at hs
      split_ifs at hs with hnew
      have hissued := howned.workersIssued worker hworker
      rw [← e] at hissued
      exact absurd hissued hnew
    · have e' := hstep.jobUuid_eq.symm.trans e
      exact hstep.state_of_failed howned ha.1 hworker hphase hjob e' (h worker hworker hphase job hjob e')
  obtain hworker' | ⟨workerId, report, rfl⟩ | ⟨workerId, hdrop⟩ :=
    step_failed_worker hs hworker hphase
  · exact hold hworker'
  · simp only [Step, next] at hs
    obtain ⟨w, hw, -, rfl⟩ := advance_cases hs
    rcases mem_update_phase hworker with ⟨hw', -⟩ | ⟨w₀, hw₀, hid, rfl⟩
    · exact hold hw'
    · obtain rfl : w₀ = w := List.inj_on_of_nodup_map howned.workerIds hw₀ (find_mem hw)
        (hid.trans (find_key hw).symm)
      rcases mem_update hjob' with ⟨-, hne⟩ | ⟨job, -, -, rfl⟩
      · exact absurd e hne
      · rfl
  · exact absurd hdrop (ha.2 workerId)

theorem reported_of_reachable
    (h : Reachable (· = start) (guarded (Finishing settings) (Step settings)) world) :
    world.Owned ∧ world.Reported := by
  have howned : ∀ {world}, Reachable (· = start) (guarded (Finishing settings) (Step settings)) world →
      world.Owned := fun h =>
    owned_of_reachable (h.mono fun _ _ _ hs => ⟨hs.1.1, hs.2⟩)
  refine ⟨howned h, h.invariant_of_reachable (p := Reported) ?_ ?_⟩
  · rintro _ rfl
    simp [Reported, start]
  · rintro world action world' hr hw ⟨ha, hs⟩
    exact hw.step (howned hr) ha hs

/-- In a run in which workers finish, every step is safe. -/
theorem Owned.progressSafe {action : Int × ImportAction} (h : world.Owned) (hr : world.Reported)
    (hs : ∃ world', Step settings world action world') : world.ProgressSafe action := by
  obtain ⟨now, action⟩ := action
  obtain ⟨world', hs⟩ := hs
  cases action with
  | progress workerId report =>
    intro worker hworker job hjob e
    exact (h.leased worker (find_mem hworker) job hjob e).1
  | complete workerId =>
    intro worker hworker job hjob e
    simp only [Step, next, hworker] at hs
    split_ifs at hs with hphase
    rcases hphase with hphase | hphase
    · have hallows := (h.leased worker (find_mem hworker) job hjob e).2
      rw [hphase] at hallows
      exact .inr hallows
    · exact .inl (hr worker (find_mem hworker) hphase job hjob e)
  | _ => trivial

/-- From every reachable state in which no import is stranded, a step strands
none exactly if it is safe; in every run of safe steps none is stranded, so
each that has not ended is moved by every scan from some time on, and ended by
the scan if it has no attempts left. A run in which workers finish within
their lease and `finalize_failure` does not raise has safe steps only. -/
theorem imports_not_stranded (settings : ImportDispatchSettings)
    (hmax : 0 < settings.dispatchMaxAttempts) :
    (∀ world, Reachable (· = start) (Step settings) world →
      (∀ job ∈ world.jobs, job.Unstranded settings) →
      ∀ action world', Step settings world action world' →
        ((∀ job ∈ world'.jobs, job.Unstranded settings) ↔ world.ProgressSafe action)) ∧
    (∀ world, Reachable (· = start) (guarded ProgressSafe (Step settings)) world →
      ∀ job ∈ world.jobs, job.Unstranded settings ∧
        (job.state = .pending ∨ job.state = .running →
          job.dispatchStatus ≠ .completed ∧
          ∃ time, ∀ now, time ≤ now → isDue settings now job = true ∨
            staleDispatch settings now job = true ∨ staleProcessing settings now job = true) ∧
        ∀ now locked world', settings.dispatchMaxAttempts ≤ job.dispatchAttemptCount →
          staleProcessing settings now job = true → Step settings world (now, .scan locked) world' →
          ∀ job' ∈ world'.jobs, job'.jobUuid = job.jobUuid → job'.state = .failure) ∧
    ∀ world, Reachable (· = start) (guarded (Finishing settings) (Step settings)) world →
      ∀ action, Finishing settings world action → (∃ world', Step settings world action world') →
        world.ProgressSafe action := by
  refine ⟨fun world hreach h action world' hs => unstranded_iff_progressSafe hmax hreach h hs,
    fun world hrun job hjob => ?_, fun world hrun action _ hs => ?_⟩
  · have hjob' := unstranded_of_run hmax hrun job hjob
    have hw := issued_of_reachable (hrun.mono fun _ _ _ => guarded_step)
    exact ⟨hjob', fun hs => ⟨hjob'.not_completed hs, hjob'.movable hs⟩,
      fun now locked world' hexhausted hstale hs =>
        scan_ends_exhausted hw hs hjob hexhausted hstale⟩
  · obtain ⟨howned, hreported⟩ := reported_of_reachable hrun
    exact howned.progressSafe hreported hs

/-! ## A worker that outlives its lease -/

/-- The scan takes the lease of a worker that has finalized its import. -/
def takenWorld : ImportWorld :=
  (finalizedWorld.next importSettings 1201 (.scan [])).getD start

/-- The late worker completes the dispatch of the import that is queued again:
no scan or worker takes it up. -/
def strandedWorld : ImportWorld := (takenWorld.next importSettings 1300 (.complete 0)).getD start

theorem late_complete_strands :
    start.run importSettings (finalizedRun ++ [(1201, .scan []), (1300, .complete 0)]) =
        some strandedWorld ∧
      strandedWorld.jobs.map (fun job => (job.state, job.dispatchStatus)) =
        [(.pending, .completed)] ∧
      ¬ ∀ job ∈ strandedWorld.jobs, job.Unstranded importSettings := by
  refine ⟨by decide, by decide, fun h => ?_⟩
  have hjob := h (strandedWorld.jobs.get ⟨0, by decide⟩) (by decide)
  exact hjob.not_completed (.inl (by decide)) (by decide)

/-- The worker completes the dispatch within its lease: a safe step. -/
theorem complete_in_lease :
    0 < importSettings.dispatchMaxAttempts ∧
      ((∀ job ∈ complete 101 finalizedWorld.jobs "job", job.Unstranded importSettings) ↔
        finalizedWorld.ProgressSafe (101, .complete 0)) ∧
      start.ProgressSafe (0, .scan []) := by
  have hreach : Reachable (· = start) (Step importSettings) finalizedWorld :=
    reachable_of_run (.start rfl)
      (show start.run importSettings finalizedRun = some finalizedWorld by decide)
  have hstep : Step importSettings finalizedWorld (101, .complete 0)
      ({ finalizedWorld with
        jobs := complete 101 finalizedWorld.jobs "job" }.removeWorker 0) := by
    show finalizedWorld.next importSettings 101 (.complete 0) = _
    decide
  have hfinal : ∀ job ∈ finalizedWorld.jobs, job.Unstranded importSettings := by
    intro job hjob
    have hstate : job.state = .pendingReview := by
      revert job
      decide
    exact ImportJob.Final.unstranded (.inr (.inl hstate))
  have hprogress := imports_not_stranded importSettings (by decide)
  have hfinishing : Finishing importSettings start (0, .scan []) :=
    ⟨fun worker hw => (List.not_mem_nil hw).elim, fun _ hdrop => nomatch hdrop⟩
  exact ⟨by decide, hprogress.1 finalizedWorld hreach hfinal _ _ hstep,
    hprogress.2.2 start (.start rfl) (0, .scan []) hfinishing ⟨_, rfl⟩⟩

end ImportWorld

end NoteVerse.Backend

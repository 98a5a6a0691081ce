import NoteVerse.Backend.OutboxSteps

/-!
# Fencing

A completed record is to stay completed, and a worker whose record a newer
attempt has claimed is to leave it alone. The calls `complete` and `fail` act
on whatever they find, so a step breaks this exactly if it is such a call from
a worker that is too late (`fenced_iff_fenceSafe`). `outbox_fenced` states
this, what holds along safe steps, and that the steps are safe in every run in
which no scan takes the lease of a live worker.
-/

namespace NoteVerse.Backend

open Table Python Transition

variable {τ ρ π : Type} {service : OutboxService τ ρ π} {now : Int}

/-- The record says already what `complete` would write. -/
def OutboxRecord.CompletedAt (now : Int) (outbox : OutboxRecord τ) : Prop :=
  outbox.status = .completed ∧ outbox.completedAt = some now ∧ outbox.lastError = none ∧
    outbox.updatedAt = now

/-- The record says already what `fail` would write. -/
def OutboxService.FailedAt (service : OutboxService τ ρ π) (now : Int) (error : String)
    (outbox : OutboxRecord τ) : Prop :=
  outbox.status = .failed ∧
    outbox.nextAttemptAt =
      now + exponentialRetryDelaySeconds service.retryBaseSeconds outbox.attemptCount ∧
    outbox.lastError = some (sliceTo 4000 error) ∧ outbox.updatedAt = now

theorem OutboxRecord.complete_eq_self_iff (outbox : OutboxRecord τ) :
    outbox.complete now = outbox ↔ outbox.CompletedAt now := by
  cases outbox
  simp only [complete, CompletedAt, OutboxRecord.mk.injEq, true_and]
  constructor
  · rintro ⟨h₁, h₂, h₃, h₄⟩
    exact ⟨h₁.symm, h₂.symm, h₃.symm, h₄.symm⟩
  · rintro ⟨h₁, h₂, h₃, h₄⟩
    exact ⟨h₁.symm, h₂.symm, h₃.symm, h₄.symm⟩

theorem OutboxService.fail_eq_self_iff (error : String) (outbox : OutboxRecord τ) :
    service.fail now error outbox = outbox ↔ service.FailedAt now error outbox := by
  cases outbox
  simp only [fail, FailedAt, OutboxRecord.mk.injEq, true_and]
  constructor
  · rintro ⟨h₁, h₂, h₃, h₄⟩
    exact ⟨h₁.symm, h₂.symm, h₃.symm, h₄.symm⟩
  · rintro ⟨h₁, h₂, h₃, h₄⟩
    exact ⟨h₁.symm, h₂.symm, h₃.symm, h₄.symm⟩

namespace OutboxWorld

/-- A newer attempt has claimed the record of the worker. -/
def Superseded (world : OutboxWorld τ) (worker : OutboxWorker) : Prop :=
  ∃ workerId, worker.workerId < workerId ∧
    .claimed worker.outboxUuid workerId ∈ world.history

/-- What a step is to leave alone. -/
structure Fenced (world : OutboxWorld τ) (action : Int × OutboxAction τ ρ)
    (world' : OutboxWorld τ) : Prop where
  /-- A record leaves `COMPLETED` at most by an operator's retry. -/
  completed : (∀ outboxUuid, action.2 ≠ .retry outboxUuid) → ∀ outbox ∈ world.records,
    outbox.status = .completed → ∀ outbox' ∈ world'.records,
      outbox'.outboxUuid = outbox.outboxUuid → outbox'.status = .completed
  /-- The result of a superseded worker changes nothing. -/
  superseded : ∀ workerId,
    (action.2 = .complete workerId ∨ ∃ error, action.2 = .fail workerId error) →
    ∀ worker, world.worker workerId = some worker → world.Superseded worker →
      world'.records = world.records

/-- The steps that leave them alone: no `fail` arrives for a completed record,
and no result of a superseded worker that does not repeat what the record
says. -/
def FenceSafe (service : OutboxService τ ρ π) (world : OutboxWorld τ) :
    Int × OutboxAction τ ρ → Prop
  | (now, .complete workerId) => ∀ worker, world.worker workerId = some worker →
      ∀ outbox ∈ world.records, outbox.outboxUuid = worker.outboxUuid →
        world.Superseded worker → outbox.CompletedAt now
  | (now, .fail workerId error) => ∀ worker, world.worker workerId = some worker →
      ∀ outbox ∈ world.records, outbox.outboxUuid = worker.outboxUuid →
        outbox.status ≠ .completed ∧
          (world.Superseded worker → service.FailedAt now error outbox)
  | _ => True

variable {world world' : OutboxWorld τ} {outbox outbox' : OutboxRecord τ}
  {action : Int × OutboxAction τ ρ}

/-- A completed record stays completed in a step that is no `fail` for it. -/
theorem RecordStep.completed {action : OutboxAction τ ρ} {events : List OutboxEvent}
    (hs : RecordStep service world now action events outbox outbox')
    (h : outbox.status = .completed)
    (hfail : ∀ workerId error, action = .fail workerId error → ∀ worker,
      world.worker workerId = some worker → outbox.outboxUuid ≠ worker.outboxUuid) :
    outbox'.status = .completed := by
  cases hs with
  | same => exact h
  | recover =>
    rw [OutboxService.recover_eq_self (by simp [h]) (by simp [h])]
    exact h
  | dispatch =>
    have hdispatch : service.isDispatchable now outbox = false := by
      simp [OutboxService.isDispatchable, h]
    simpa [OutboxService.markDispatched, hdispatch] using h
  | release => simp [OutboxRecord.releaseDispatch, h]
  | start hclaim => exact absurd h (OutboxService.claimable_cases hclaim).2.1
  | terminal => rfl
  | exhaust hclaim => exact absurd h (OutboxService.claimable_cases hclaim).2.1
  | complete => rfl
  | fail hworker e => exact absurd e (hfail _ _ rfl _ hworker)
  | retry hr => simp [OutboxRecord.retryable, h] at hr

/-- The state after the result of a worker. -/
theorem step_result {workerId : Nat} {worker : OutboxWorker}
    (hworker : world.worker workerId = some worker) :
    (Step service world (now, .complete workerId) world' →
      world'.records = update OutboxRecord.outboxUuid worker.outboxUuid (OutboxRecord.complete now)
        world.records) ∧
    ∀ error, Step service world (now, .fail workerId error) world' →
      world'.records = update OutboxRecord.outboxUuid worker.outboxUuid (service.fail now error)
        world.records := by
  constructor
  · intro hs
    simp only [Step, next, hworker] at hs
    cases hs
    rfl
  · intro error hs
    simp only [Step, next, hworker] at hs
    cases hs
    rfl

theorem completed_of_step (hw : world.Distinct) (hs : Step service world action world')
    (hsafe : world.FenceSafe service action) (h : outbox ∈ world.records)
    (hc : outbox.status = .completed) (h' : outbox' ∈ world'.records)
    (e : outbox'.outboxUuid = outbox.outboxUuid) : outbox'.status = .completed := by
  obtain ⟨now, action⟩ := action
  obtain ⟨events, -, hrecords⟩ := step_record hw hs
  obtain ⟨outboxUuid, target, -, hnone, -, rfl⟩ | ⟨outbox₀, h₀, hstep⟩ := hrecords outbox' h'
  · have hkey := List.mem_map_of_mem (f := OutboxRecord.outboxUuid) h
    rw [← e] at hkey
    exact absurd hkey (find_eq_none_iff.mp hnone)
  · obtain rfl : outbox = outbox₀ := hw.record_eq h h₀ (e.symm.trans hstep.outboxUuid_eq)
    refine hstep.completed hc ?_
    rintro workerId error rfl worker hworker e'
    exact (hsafe worker hworker outbox h e').1 hc

/-- A step leaves alone what it is to leave alone exactly if it is safe. -/
theorem fenced_iff_fenceSafe (hw : world.Distinct) (hs : Step service world action world') :
    Fenced world action world' ↔ world.FenceSafe service action := by
  constructor
  · intro h
    obtain ⟨now, action⟩ := action
    cases action with
    | complete workerId =>
      intro worker hworker outbox hmem e hsup
      have hsame := h.superseded workerId (.inl rfl) worker hworker hsup
      rw [(step_result hworker).1 hs, update_eq_self_iff] at hsame
      exact outbox.complete_eq_self_iff.mp (hsame outbox hmem e)
    | fail workerId error =>
      intro worker hworker outbox hmem e
      have hrecords := (step_result hworker).2 error hs
      constructor
      · intro hc
        have hmem' : service.fail now error outbox ∈ world'.records := by
          rw [hrecords]
          exact List.mem_map.mpr ⟨outbox, hmem, if_pos e⟩
        have hstays := h.completed (by simp) outbox hmem hc _ hmem' rfl
        cases hstays
      · intro hsup
        have hsame := h.superseded workerId (.inr ⟨error, rfl⟩) worker hworker hsup
        rw [hrecords, update_eq_self_iff] at hsame
        exact (service.fail_eq_self_iff error outbox).mp (hsame outbox hmem e)
    | _ => trivial
  · intro hsafe
    refine ⟨fun _ outbox hmem hc outbox' hmem' e =>
      completed_of_step hw hs hsafe hmem hc hmem' e, ?_⟩
    obtain ⟨now, action⟩ := action
    rintro workerId (rfl | ⟨error, rfl⟩) worker hworker hsup
    · rw [(step_result hworker).1 hs, update_eq_self_iff]
      intro outbox hmem e
      exact outbox.complete_eq_self_iff.mpr (hsafe worker hworker outbox hmem e hsup)
    · rw [(step_result hworker).2 error hs, update_eq_self_iff]
      intro outbox hmem e
      exact (service.fail_eq_self_iff error outbox).mpr ((hsafe worker hworker outbox hmem e).2 hsup)

/-- In a run of safe steps, a completed record stays completed. -/
theorem completed_of_run (hw : world.Distinct)
    (h : Reachable (· = world) (guarded (FenceSafe service) (Step service)) world') :
    ∀ outbox ∈ world.records, outbox.status = .completed → ∀ outbox' ∈ world'.records,
      outbox'.outboxUuid = outbox.outboxUuid → outbox'.status = .completed := by
  have hrun : world'.Distinct ∧ ∀ outbox ∈ world.records, outbox.status = .completed →
      ∃ outbox' ∈ world'.records, outbox'.outboxUuid = outbox.outboxUuid ∧
        outbox'.status = .completed := by
    refine h.invariant (p := fun world' => world'.Distinct ∧ ∀ outbox ∈ world.records,
      outbox.status = .completed → ∃ outbox' ∈ world'.records,
        outbox'.outboxUuid = outbox.outboxUuid ∧ outbox'.status = .completed) ?_ ?_
    · rintro _ rfl
      exact ⟨hw, fun outbox hmem hc => ⟨outbox, hmem, rfl, hc⟩⟩
    · rintro s action s' ⟨hs, hcompleted⟩ ⟨hsafe, hstep⟩
      refine ⟨hs.step hstep, fun outbox hmem hc => ?_⟩
      obtain ⟨outbox₁, hmem₁, e₁, hc₁⟩ := hcompleted outbox hmem hc
      obtain ⟨outbox₂, hmem₂, e₂⟩ := exists_of_step hstep hmem₁
      exact ⟨outbox₂, hmem₂, e₂.trans e₁,
        completed_of_step hs hstep hsafe hmem₁ hc₁ hmem₂ e₂⟩
  intro outbox hmem hc outbox' hmem' e
  obtain ⟨outbox₁, hmem₁, e₁, hc₁⟩ := hrun.2 outbox hmem hc
  rw [hrun.1.record_eq hmem' hmem₁ (e.trans e₁.symm)]
  exact hc₁

/-! ## Runs in which workers finish within their lease -/

/-- No scan takes the lease of a live worker. -/
def Attended (service : OutboxService τ ρ π) (world : OutboxWorld τ) :
    Int × OutboxAction τ ρ → Prop
  | (now, .scan) => ∀ worker ∈ world.workers, ∀ outbox ∈ world.records,
      outbox.outboxUuid = worker.outboxUuid → service.leaseExpired now outbox = false
  | _ => True

/-- Each live worker processes its record, alone. -/
structure Held (world : OutboxWorld τ) : Prop where
  distinct : world.Distinct
  claims : ∀ outboxUuid workerId, .claimed outboxUuid workerId ∈ world.history →
    workerId < world.workerCount
  processing : ∀ worker ∈ world.workers, ∃ outbox ∈ world.records,
    outbox.outboxUuid = worker.outboxUuid ∧ outbox.status = .processing
  current : ∀ worker ∈ world.workers, ¬ world.Superseded worker
  alone : ∀ worker ∈ world.workers, ∀ worker' ∈ world.workers,
    worker.outboxUuid = worker'.outboxUuid → worker.workerId = worker'.workerId

theorem Held.fenceSafe (h : world.Held) (action : Int × OutboxAction τ ρ) :
    world.FenceSafe service action := by
  obtain ⟨now, action⟩ := action
  cases action with
  | complete workerId =>
    intro worker hworker outbox hmem e hsup
    exact absurd hsup (h.current worker (find_mem hworker))
  | fail workerId error =>
    intro worker hworker outbox hmem e
    refine ⟨fun hc => ?_, fun hsup => absurd hsup (h.current worker (find_mem hworker))⟩
    obtain ⟨outbox', hmem', e', hp⟩ := h.processing worker (find_mem hworker)
    rw [h.distinct.record_eq hmem hmem' (e.trans e'.symm), hp] at hc
    cases hc
  | _ => trivial

/-- The record of a live worker stays as it is in a step that is not the
worker's result. -/
theorem RecordStep.of_held {action : OutboxAction τ ρ} {events : List OutboxEvent}
    (hs : RecordStep service world now action events outbox outbox') (h : world.Held)
    (ha : world.Attended service (now, action)) {worker : OutboxWorker}
    (hworker : worker ∈ world.workers) (hmem : outbox ∈ world.records)
    (e : outbox.outboxUuid = worker.outboxUuid) (hp : outbox.status = .processing)
    (hcomplete : action ≠ .complete worker.workerId)
    (hfail : ∀ error, action ≠ .fail worker.workerId error) :
    outbox' = outbox ∧ ∀ event ∈ events, event.outboxUuid ≠ outbox.outboxUuid := by
  -- the result of another worker is about another record
  have hother : ∀ {workerId worker'}, world.worker workerId = some worker' →
      outbox.outboxUuid = worker'.outboxUuid → workerId = worker.workerId := by
    intro workerId worker' hworker' e'
    rw [← find_key hworker']
    exact h.alone worker' (find_mem hworker') worker hworker (e'.symm.trans e)
  cases hs with
  | same hevents => exact ⟨rfl, hevents⟩
  | recover =>
    have hlease : service.leaseExpired now outbox = false := ha worker hworker outbox hmem e
    exact ⟨by simp [OutboxService.recover, hlease], by simp⟩
  | dispatch =>
    have hdispatch : service.isDispatchable now outbox = false := by
      simp [OutboxService.isDispatchable, hp]
    exact ⟨by simp [OutboxService.markDispatched, hdispatch], by simp⟩
  | release => exact ⟨by simp [OutboxRecord.releaseDispatch, hp], by simp⟩
  | start hclaim => exact absurd hp (OutboxService.claimable_cases hclaim).1
  | terminal hclaim => exact absurd hp (OutboxService.claimable_cases hclaim).1
  | exhaust hclaim => exact absurd hp (OutboxService.claimable_cases hclaim).1
  | complete hworker' e' => exact absurd (by rw [hother hworker' e']) hcomplete
  | fail hworker' e' => exact absurd (by rw [hother hworker' e']) (hfail _)
  | retry hr => simp [OutboxRecord.retryable, hp] at hr

theorem step_workerCount (h : Step service world action world') :
    world.workerCount ≤ world'.workerCount ∧
      ∀ outboxUuid workerId, .claimed outboxUuid workerId ∈ world'.history →
        .claimed outboxUuid workerId ∈ world.history ∨
          workerId = world.workerCount ∧ world'.workerCount = world.workerCount + 1 := by
  obtain ⟨now, action⟩ := action
  cases action with
  | create outboxUuid target =>
    simp only [Step, next] at h
    split_ifs at h
    cases h
    exact ⟨Nat.le_refl _, fun u w hmem => by simpa using hmem⟩
  | scan => cases h; exact ⟨Nat.le_refl _, fun u w hmem => .inl hmem⟩
  | markDispatched outboxUuid => cases h; exact ⟨Nat.le_refl _, fun u w hmem => .inl hmem⟩
  | releaseDispatch outboxUuid error => cases h; exact ⟨Nat.le_refl _, fun u w hmem => .inl hmem⟩
  | deliver outboxUuid resources =>
    cases h
    refine ⟨Nat.le_add_right _ _, fun u w hmem => ?_⟩
    obtain ⟨hc, he⟩ | ⟨outbox, -, rfl, -, ⟨⟨payload, hc⟩, he⟩ | ⟨hc, he⟩ | ⟨hc, he⟩⟩ :=
      claim_cases service now world outboxUuid resources
    all_goals simp only [he] at hmem
    · exact .inl hmem
    · rcases List.mem_cons.mp hmem with e | hmem
      · injection e with _ e
        exact .inr ⟨e, by simp [hc]⟩
      · exact .inl hmem
    · exact .inl hmem
    · exact .inl (by simpa using hmem)
  | complete workerId =>
    simp only [Step, next] at h
    split at h
    · cases h
    · cases h
      exact ⟨Nat.le_refl _, fun u w hmem => .inl hmem⟩
  | fail workerId error =>
    simp only [Step, next] at h
    split at h
    · cases h
    · cases h
      exact ⟨Nat.le_refl _, fun u w hmem => .inl hmem⟩
  | crash workerId =>
    simp only [Step, next] at h
    split_ifs at h
    cases h
    exact ⟨Nat.le_refl _, fun u w hmem => .inl hmem⟩
  | retry outboxUuid =>
    simp only [Step, next] at h
    split at h
    · cases h
    · split_ifs at h
      cases h
      exact ⟨Nat.le_refl _, fun u w hmem => .inl (by simpa using hmem)⟩

theorem Held.step {world world' : OutboxWorld τ} {action : Int × OutboxAction τ ρ}
    (h : world.Held) (ha : world.Attended service action)
    (hs : Step service world action world') : world'.Held := by
  obtain ⟨now, action⟩ := action
  have hdistinct := h.distinct.step hs
  obtain ⟨events, hhistory, hrecords⟩ := step_record h.distinct hs
  -- a worker that was there before the step still processes its record
  have hold : ∀ worker ∈ world.workers, action ≠ .complete worker.workerId →
      (∀ error, action ≠ .fail worker.workerId error) → ∃ outbox ∈ world.records,
        outbox ∈ world'.records ∧ outbox.outboxUuid = worker.outboxUuid ∧
        outbox.status = .processing ∧ ∀ event ∈ events, event.outboxUuid ≠ worker.outboxUuid := by
    intro worker hworker hcomplete hfail
    obtain ⟨outbox, hmem, e, hp⟩ := h.processing worker hworker
    obtain ⟨outbox', hmem', e'⟩ := exists_of_step hs hmem
    obtain ⟨u, target, -, hnone, -, rfl⟩ | ⟨outbox₀, hmem₀, hstep⟩ := hrecords outbox' hmem'
    · have hkey := List.mem_map_of_mem (f := OutboxRecord.outboxUuid) hmem
      rw [← e'] at hkey
      exact absurd hkey (find_eq_none_iff.mp hnone)
    · obtain rfl := h.distinct.record_eq hmem₀ hmem (hstep.outboxUuid_eq.symm.trans e')
      obtain ⟨rfl, hevents⟩ := hstep.of_held h ha hworker hmem e hp hcomplete hfail
      exact ⟨outbox', hmem, hmem', e, hp, fun event he => e ▸ hevents event he⟩
  have hclaims : ∀ outboxUuid workerId, .claimed outboxUuid workerId ∈ world'.history →
      workerId < world'.workerCount := by
    intro outboxUuid workerId hmem
    obtain ⟨hcount, hnew⟩ := step_workerCount hs
    rcases hnew outboxUuid workerId hmem with hmem | ⟨rfl, hcount'⟩
    · exact Nat.lt_of_lt_of_le (h.claims outboxUuid workerId hmem) hcount
    · omega
  refine ⟨hdistinct, hclaims, fun worker hworker => ?_, fun worker hworker => ?_,
    fun worker hworker worker' hworker' e => ?_⟩
  · obtain ⟨hworker, hcomplete, hfail⟩ | ⟨-, ⟨outbox, hmem, e, -⟩, -, hupdate⟩ :=
      step_worker hs hworker
    · obtain ⟨outbox, -, hmem', e, hp, -⟩ := hold worker hworker hcomplete hfail
      exact ⟨outbox, hmem', e, hp⟩
    · refine ⟨outbox.startProcessing now, ?_, e, rfl⟩
      rw [hupdate]
      exact List.mem_map.mpr ⟨outbox, hmem, if_pos e⟩
  · rintro ⟨workerId, hlt, hmem⟩
    obtain ⟨hworker, hcomplete, hfail⟩ | ⟨hid, -, hnew, -⟩ := step_worker hs hworker
    · obtain ⟨outbox, -, -, e, -, hevents⟩ := hold worker hworker hcomplete hfail
      rw [hhistory, List.mem_append] at hmem
      rcases hmem with hmem | hmem
      · exact hevents _ hmem rfl
      · exact h.current worker hworker ⟨workerId, hlt, hmem⟩
    · rw [hnew, List.mem_cons] at hmem
      rcases hmem with e | hmem
      · injection e with _ e
        omega
      · have hbound := h.claims _ _ hmem
        omega
  · -- a record that is claimed in the step has no worker before
    have hfree : ∀ w ∈ world.workers, action ≠ .complete w.workerId →
        (∀ error, action ≠ .fail w.workerId error) → ∀ outbox ∈ world.records,
        service.claimable now outbox = true → outbox.outboxUuid ≠ w.outboxUuid := by
      intro w hw hcomplete hfail outbox hmem hclaim e
      obtain ⟨outbox₁, hmem₁, -, e₁, hp, -⟩ := hold w hw hcomplete hfail
      rw [h.distinct.record_eq hmem₁ hmem (e₁.trans e.symm)] at hp
      exact (OutboxService.claimable_cases hclaim).1 hp
    obtain ⟨hw, hc, hf⟩ | ⟨hid, ⟨outbox, hmem, eo, hclaim⟩, -, -⟩ := step_worker hs hworker <;>
    obtain ⟨hw', hc', hf'⟩ | ⟨hid', ⟨outbox', hmem', eo', hclaim'⟩, -, -⟩ :=
      step_worker hs hworker'
    · exact h.alone worker hw worker' hw' e
    · exact absurd (eo'.trans e.symm) (hfree worker hw hc hf outbox' hmem' hclaim')
    · exact absurd (eo.trans e) (hfree worker' hw' hc' hf' outbox hmem hclaim)
    · exact hid.trans hid'.symm

theorem held_of_reachable
    (h : Reachable (· = start) (guarded (Attended service) (Step service)) world) : world.Held := by
  refine h.invariant ?_ fun _ _ _ hw hs => hw.step hs.1 hs.2
  rintro _ rfl
  exact ⟨.nil, by simp [start], by simp [start], by simp [start], by simp [start]⟩

/-- In every reachable state, a step leaves completed records and the records
of newer attempts alone exactly if it is safe; in every run of safe steps from
there a completed record stays completed. A run in which no scan takes the
lease of a live worker has safe steps only. -/
theorem outbox_fenced (service : OutboxService τ ρ π) :
    (∀ world, Reachable (· = start) (Step service) world →
      (∀ action world', Step service world action world' →
        (Fenced world action world' ↔ world.FenceSafe service action)) ∧
      ∀ world', Reachable (· = world) (guarded (FenceSafe service) (Step service)) world' →
        ∀ outbox ∈ world.records, outbox.status = .completed → ∀ outbox' ∈ world'.records,
          outbox'.outboxUuid = outbox.outboxUuid → outbox'.status = .completed) ∧
    ∀ world, Reachable (· = start) (guarded (Attended service) (Step service)) world →
      ∀ action, world.FenceSafe service action :=
  ⟨fun _ h => ⟨fun _ _ hs => fenced_iff_fenceSafe (distinct_of_reachable h) hs,
      fun _ hrun => completed_of_run (distinct_of_reachable h) hrun⟩,
    fun _ h action => (held_of_reachable h).fenceSafe action⟩

/-! ## A worker that outlives its lease -/

theorem reachable_of_run {actions : List (Int × OutboxAction τ ρ)}
    (h : Reachable (· = start) (Step service) world)
    (hrun : world.run service actions = some world') :
    Reachable (· = start) (Step service) world' := by
  induction actions generalizing world with
  | nil => cases hrun; exact h
  | cons action actions ih =>
    obtain ⟨world₁, hnext, hrun⟩ := Option.bind_eq_some_iff.mp hrun
    exact ih (.step (a := action) h hnext) hrun

def playbackSettings : OutboxSettings := ⟨300, 1200, 60, 5, 20⟩

def playbackService := playbackOutboxService playbackSettings

def playbackScores : OutboxScores where
  score _ := some ⟨"score", true⟩
  revision _ := some ⟨"revision", 1, "hash"⟩

/-- A playback asset is asked for, dispatched and claimed by a first worker;
its lease runs out, and a second worker claims the record. -/
def reclaimedRun : List (Int × OutboxAction PlaybackTarget OutboxScores) :=
  [(0, .create "outbox" ⟨1, 1, "hash", .audio⟩), (1, .markDispatched "outbox"),
    (2, .deliver "outbox" playbackScores), (1202, .scan), (1203, .markDispatched "outbox"),
    (1204, .deliver "outbox" playbackScores)]

def reclaimedWorld : OutboxWorld PlaybackTarget := (start.run playbackService reclaimedRun).getD start

/-- The second worker completes the record. -/
def completedWorld : OutboxWorld PlaybackTarget :=
  (reclaimedWorld.next playbackService 1300 (.complete 1)).getD start

/-- The first worker fails, and the completed record is to be delivered
again. -/
def failedWorld : OutboxWorld PlaybackTarget :=
  (completedWorld.next playbackService 1301 (.fail 0 "render failed")).getD start

theorem late_fail_reopens :
    start.run playbackService (reclaimedRun ++ [(1300, .complete 1)]) = some completedWorld ∧
      completedWorld.next playbackService 1301 (.fail 0 "render failed") = some failedWorld ∧
      completedWorld.records.map (·.status) = [.completed] ∧
      failedWorld.records.map (·.status) = [.failed] ∧
      ¬ Fenced completedWorld (1301, (.fail 0 "render failed" :
        OutboxAction PlaybackTarget OutboxScores)) failedWorld := by
  refine ⟨by decide, by decide, by decide, by decide, fun h => ?_⟩
  have hstays := h.completed (by simp) (completedWorld.records.get ⟨0, by decide⟩) (by decide)
    (by decide) (failedWorld.records.get ⟨0, by decide⟩) (by decide) (by decide)
  exact absurd hstays (by decide)

/-- The second worker's result is safe. -/
theorem complete_fenced :
    (Fenced reclaimedWorld (1300, (.complete 1 : OutboxAction PlaybackTarget OutboxScores))
        completedWorld ↔ reclaimedWorld.FenceSafe playbackService (1300, .complete 1)) ∧
      (start : OutboxWorld PlaybackTarget).FenceSafe playbackService (0, .complete 0) := by
  have hreach : Reachable (· = start) (Step playbackService) reclaimedWorld :=
    reachable_of_run (.start rfl)
      (show start.run playbackService reclaimedRun = some reclaimedWorld by decide)
  have hstep : Step playbackService reclaimedWorld (1300, .complete 1) completedWorld := by
    show reclaimedWorld.next playbackService 1300 (.complete 1) = some completedWorld
    decide
  have hfenced := outbox_fenced playbackService
  exact ⟨(hfenced.1 reclaimedWorld hreach).1 _ _ hstep, hfenced.2 start (.start rfl) _⟩

end OutboxWorld

end NoteVerse.Backend

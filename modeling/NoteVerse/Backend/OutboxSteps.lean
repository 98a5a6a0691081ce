import NoteVerse.Backend.Outbox

/-!
# Steps of an outbox

`step_record` and `step_worker` say once what a step of the system does to a
record and to the live workers; the invariants of the outboxes are case
analyses on them.
-/

namespace NoteVerse.Backend

open Table Transition

variable {τ ρ π : Type} {service : OutboxService τ ρ π} {now : Int}

@[simp] theorem OutboxRecord.startProcessing_outboxUuid (outbox : OutboxRecord τ) :
    (outbox.startProcessing now).outboxUuid = outbox.outboxUuid := rfl

@[simp] theorem OutboxRecord.complete_outboxUuid (outbox : OutboxRecord τ) :
    (outbox.complete now).outboxUuid = outbox.outboxUuid := rfl

@[simp] theorem OutboxService.fail_outboxUuid (error : String) (outbox : OutboxRecord τ) :
    (service.fail now error outbox).outboxUuid = outbox.outboxUuid := rfl

@[simp] theorem OutboxService.markDispatched_outboxUuid (outbox : OutboxRecord τ) :
    (service.markDispatched now outbox).outboxUuid = outbox.outboxUuid := by
  unfold markDispatched
  split_ifs <;> rfl

@[simp] theorem OutboxRecord.releaseDispatch_outboxUuid (error : String) (outbox : OutboxRecord τ) :
    (outbox.releaseDispatch now error).outboxUuid = outbox.outboxUuid := by
  unfold releaseDispatch
  split_ifs <;> rfl

@[simp] theorem OutboxService.recover_outboxUuid (outbox : OutboxRecord τ) :
    (service.recover now outbox).outboxUuid = outbox.outboxUuid := by
  unfold recover
  split_ifs <;> rfl

variable {outbox : OutboxRecord τ}

theorem OutboxService.claimable_cases (h : service.claimable now outbox = true) :
    outbox.status ≠ .processing ∧ outbox.status ≠ .completed ∧
      outbox.attemptCount < service.maxAttempts := by
  simp only [claimable, Bool.and_eq_true, decide_eq_true_eq] at h
  exact ⟨h.1.1.1, h.1.1.2, h.2⟩

/-- A record without a lease stays as it is in a scan. -/
theorem OutboxService.recover_eq_self (hd : outbox.status ≠ .dispatched)
    (hp : outbox.status ≠ .processing) : service.recover now outbox = outbox := by
  have hlease : service.leaseExpired now outbox = false := by
    simp [leaseExpired, deliveryLeaseExpired, hd, hp]
  simp [recover, hlease]

def OutboxEvent.outboxUuid : OutboxEvent → String
  | .created outboxUuid | .claimed outboxUuid _ | .exhausted outboxUuid | .retried outboxUuid =>
    outboxUuid

namespace OutboxWorld

/-- The change of one record in a step of a world at the time `now`, with the
events of the step. -/
inductive RecordStep (service : OutboxService τ ρ π) (world : OutboxWorld τ) (now : Int) :
    OutboxAction τ ρ → List OutboxEvent → OutboxRecord τ → OutboxRecord τ → Prop
  | same {action : OutboxAction τ ρ} {events : List OutboxEvent} {outbox : OutboxRecord τ} :
    (∀ event ∈ events, event.outboxUuid ≠ outbox.outboxUuid) →
    RecordStep service world now action events outbox outbox
  | recover {outbox : OutboxRecord τ} :
    RecordStep service world now .scan [] outbox (service.recover now outbox)
  | dispatch {outboxUuid : String} {outbox : OutboxRecord τ} :
    RecordStep service world now (.markDispatched outboxUuid) [] outbox
      (service.markDispatched now outbox)
  | release {outboxUuid error : String} {outbox : OutboxRecord τ} :
    RecordStep service world now (.releaseDispatch outboxUuid error) [] outbox
      (outbox.releaseDispatch now error)
  | start {resources : ρ} {outbox : OutboxRecord τ} : service.claimable now outbox = true →
    RecordStep service world now (.deliver outbox.outboxUuid resources)
      [.claimed outbox.outboxUuid world.workerCount] outbox (outbox.startProcessing now)
  | terminal {resources : ρ} {outbox : OutboxRecord τ} : service.claimable now outbox = true →
    RecordStep service world now (.deliver outbox.outboxUuid resources) [] outbox
      (outbox.complete now)
  | exhaust {resources : ρ} {outbox : OutboxRecord τ} : service.claimable now outbox = true →
    RecordStep service world now (.deliver outbox.outboxUuid resources)
      [.exhausted outbox.outboxUuid] outbox (service.exhaustUnavailableResources now outbox)
  | complete {workerId : Nat} {worker : OutboxWorker} {outbox : OutboxRecord τ} :
    world.worker workerId = some worker → outbox.outboxUuid = worker.outboxUuid →
    RecordStep service world now (.complete workerId) [] outbox (outbox.complete now)
  | fail {workerId : Nat} {worker : OutboxWorker} {error : String} {outbox : OutboxRecord τ} :
    world.worker workerId = some worker → outbox.outboxUuid = worker.outboxUuid →
    RecordStep service world now (.fail workerId error) [] outbox (service.fail now error outbox)
  | retry {outbox : OutboxRecord τ} : outbox.retryable = true →
    RecordStep service world now (.retry outbox.outboxUuid) [.retried outbox.outboxUuid] outbox
      (outbox.retry now)

variable {world world' : OutboxWorld τ} {action : OutboxAction τ ρ}
  {outbox outbox' : OutboxRecord τ}

theorem RecordStep.outboxUuid_eq {events : List OutboxEvent}
    (h : RecordStep service world now action events outbox outbox') :
    outbox'.outboxUuid = outbox.outboxUuid := by
  cases h with
  | recover => exact service.recover_outboxUuid outbox
  | dispatch => exact service.markDispatched_outboxUuid outbox
  | release => exact outbox.releaseDispatch_outboxUuid _
  | _ => rfl

/-- A step that changes records in place. -/
theorem recordStep_update {events : List OutboxEvent} {f : OutboxRecord τ → OutboxRecord τ}
    {outboxUuid : String} (hevents : ∀ event ∈ events, event.outboxUuid = outboxUuid)
    (hf : ∀ outbox ∈ world.records, outbox.outboxUuid = outboxUuid →
      RecordStep service world now action events outbox (f outbox))
    (h : outbox' ∈ update OutboxRecord.outboxUuid outboxUuid f world.records) :
    ∃ outbox ∈ world.records, RecordStep service world now action events outbox outbox' := by
  rcases mem_update h with ⟨hmem, hne⟩ | ⟨outbox, hmem, e, rfl⟩
  · exact ⟨outbox', hmem, .same fun event he e => hne (e.symm.trans (hevents event he))⟩
  · exact ⟨outbox, hmem, hf outbox hmem e⟩

variable (service now) in
theorem claim_cases (world : OutboxWorld τ) (outboxUuid : String) (resources : ρ) :
    service.claim now world.records outboxUuid resources = (world.records, none) ∧
      world.claimEvents service now outboxUuid resources = [] ∨
    ∃ outbox ∈ world.records, outbox.outboxUuid = outboxUuid ∧
      service.claimable now outbox = true ∧
      ((∃ payload, service.claim now world.records outboxUuid resources =
          (update OutboxRecord.outboxUuid outboxUuid (OutboxRecord.startProcessing now)
            world.records, some payload)) ∧
        world.claimEvents service now outboxUuid resources =
          [.claimed outboxUuid world.workerCount] ∨
      service.claim now world.records outboxUuid resources =
          (update OutboxRecord.outboxUuid outboxUuid (OutboxRecord.complete now) world.records,
            none) ∧
        world.claimEvents service now outboxUuid resources = [] ∨
      service.claim now world.records outboxUuid resources =
          (update OutboxRecord.outboxUuid outboxUuid (service.exhaustUnavailableResources now)
            world.records, none) ∧
        world.claimEvents service now outboxUuid resources = [.exhausted outboxUuid]) := by
  unfold OutboxService.claim claimEvents record
  cases hf : find OutboxRecord.outboxUuid outboxUuid world.records with
  | none => exact .inl ⟨rfl, rfl⟩
  | some outbox =>
    simp only
    split_ifs with hclaim
    · exact .inl ⟨rfl, rfl⟩
    · refine .inr ⟨outbox, find_mem hf, find_key hf, by simpa using hclaim, ?_⟩
      cases service.buildPayload resources outbox with
      | payload body => exact .inl ⟨⟨_, rfl⟩, rfl⟩
      | terminalCompleted => exact .inr (.inl ⟨rfl, rfl⟩)
      | unavailable => exact .inr (.inr ⟨rfl, rfl⟩)

/-- Outbox ids are drawn once. -/
def Distinct (world : OutboxWorld τ) : Prop := (world.records.map (·.outboxUuid)).Nodup

theorem Distinct.record_eq (hw : world.Distinct) (h : outbox ∈ world.records)
    (h' : outbox' ∈ world.records) (e : outbox.outboxUuid = outbox'.outboxUuid) :
    outbox = outbox' :=
  List.inj_on_of_nodup_map hw h h' e

/-- A record after a step is new, or was there before the step. -/
theorem step_record (hw : world.Distinct) (h : Step service world (now, action) world') :
    ∃ events, world'.history = events ++ world.history ∧ ∀ outbox' ∈ world'.records,
      (∃ outboxUuid target, action = .create outboxUuid target ∧
        world.record outboxUuid = none ∧ events = [.created outboxUuid] ∧
        outbox' = newOutbox now outboxUuid target) ∨
      ∃ outbox ∈ world.records, RecordStep service world now action events outbox outbox' := by
  cases action with
  | create outboxUuid target =>
    simp only [Step, next] at h
    split_ifs at h with hnew
    cases h
    have hnone : world.record outboxUuid = none := by simpa using hnew
    refine ⟨[.created outboxUuid], rfl, fun outbox' hmem => ?_⟩
    rcases List.mem_append.mp hmem with hmem | hmem
    · refine .inr ⟨outbox', hmem, .same fun event he e => ?_⟩
      obtain rfl := List.mem_singleton.mp he
      have hkey := List.mem_map_of_mem (f := OutboxRecord.outboxUuid) hmem
      rw [← e] at hkey
      exact find_eq_none_iff.mp hnone hkey
    · exact .inl ⟨outboxUuid, target, rfl, hnone, rfl, List.mem_singleton.mp hmem⟩
  | scan =>
    cases h
    refine ⟨[], rfl, fun outbox' hmem => .inr ?_⟩
    obtain ⟨outbox, houtbox, rfl⟩ := List.mem_map.mp hmem
    exact ⟨outbox, houtbox, .recover⟩
  | markDispatched outboxUuid =>
    cases h
    exact ⟨[], rfl, fun outbox' hmem =>
      .inr (recordStep_update (by simp) (fun _ _ _ => .dispatch) hmem)⟩
  | releaseDispatch outboxUuid error =>
    cases h
    exact ⟨[], rfl, fun outbox' hmem =>
      .inr (recordStep_update (by simp) (fun _ _ _ => .release) hmem)⟩
  | deliver outboxUuid resources =>
    cases h
    refine ⟨_, rfl, fun outbox' hmem => .inr ?_⟩
    obtain ⟨hc, he⟩ | ⟨outbox, houtbox, rfl, hclaim, ⟨⟨payload, hc⟩, he⟩ | ⟨hc, he⟩ | ⟨hc, he⟩⟩ :=
      claim_cases service now world outboxUuid resources
    all_goals
      simp only [hc] at hmem
      rw [he]
    · exact ⟨outbox', hmem, .same (by simp)⟩
    · refine recordStep_update (by simp [OutboxEvent.outboxUuid]) (fun o ho e => ?_) hmem
      rw [hw.record_eq ho houtbox e]
      exact .start hclaim
    · refine recordStep_update (by simp) (fun o ho e => ?_) hmem
      rw [hw.record_eq ho houtbox e]
      exact .terminal hclaim
    · refine recordStep_update (by simp [OutboxEvent.outboxUuid]) (fun o ho e => ?_) hmem
      rw [hw.record_eq ho houtbox e]
      exact .exhaust hclaim
  | complete workerId =>
    simp only [Step, next] at h
    split at h
    · cases h
    · rename_i worker hworker
      cases h
      exact ⟨[], rfl, fun outbox' hmem =>
        .inr (recordStep_update (by simp) (fun _ _ e => .complete hworker e) hmem)⟩
  | fail workerId error =>
    simp only [Step, next] at h
    split at h
    · cases h
    · rename_i worker hworker
      cases h
      exact ⟨[], rfl, fun outbox' hmem =>
        .inr (recordStep_update (by simp) (fun _ _ e => .fail hworker e) hmem)⟩
  | crash workerId =>
    simp only [Step, next] at h
    split_ifs at h
    cases h
    exact ⟨[], rfl, fun outbox' hmem => .inr ⟨outbox', hmem, .same (by simp)⟩⟩
  | retry outboxUuid =>
    simp only [Step, next] at h
    split at h
    · cases h
    · rename_i outbox hfind
      split_ifs at h with hr
      cases h
      obtain rfl := find_key hfind
      refine ⟨[.retried outbox.outboxUuid], rfl, fun outbox' hmem => .inr ?_⟩
      refine recordStep_update (by simp [OutboxEvent.outboxUuid]) (fun o ho e => ?_) hmem
      rw [hw.record_eq ho (find_mem hfind) e]
      have hretry : service.operatorRetry = true ∧ outbox.retryable = true := by simpa using hr
      exact .retry hretry.2

/-- The records of a world keep their ids, and a step adds at most one. -/
theorem step_outboxUuids {action : Int × OutboxAction τ ρ} (h : Step service world action world') :
    world'.records.map (·.outboxUuid) = world.records.map (·.outboxUuid) ∨
      ∃ outboxUuid, outboxUuid ∉ world.records.map (·.outboxUuid) ∧
        world'.records.map (·.outboxUuid) = world.records.map (·.outboxUuid) ++ [outboxUuid] := by
  obtain ⟨now, action⟩ := action
  cases action with
  | create outboxUuid target =>
    simp only [Step, next] at h
    split_ifs at h with hnew
    cases h
    have hnone : world.record outboxUuid = none := by simpa using hnew
    exact .inr ⟨outboxUuid, find_eq_none_iff.mp hnone, by simp [newOutbox]⟩
  | scan =>
    cases h
    exact .inl (by simp [OutboxService.recoverAndListDue, Function.comp_def])
  | markDispatched outboxUuid =>
    cases h
    exact .inl (map_key_update fun outbox e => by simpa using e)
  | releaseDispatch outboxUuid error =>
    cases h
    exact .inl (map_key_update fun outbox e => by simpa using e)
  | deliver outboxUuid resources =>
    cases h
    refine .inl ?_
    obtain ⟨hc, -⟩ | ⟨outbox, -, -, -, ⟨⟨payload, hc⟩, -⟩ | ⟨hc, -⟩ | ⟨hc, -⟩⟩ :=
      claim_cases service now world outboxUuid resources
    all_goals simp only [hc]
    · exact map_key_update fun outbox e => e
    · exact map_key_update fun outbox e => e
    · exact map_key_update fun outbox e => e
  | complete workerId =>
    simp only [Step, next] at h
    split at h
    · cases h
    · cases h
      exact .inl (map_key_update fun outbox e => e)
  | fail workerId error =>
    simp only [Step, next] at h
    split at h
    · cases h
    · cases h
      exact .inl (map_key_update fun outbox e => e)
  | crash workerId =>
    simp only [Step, next] at h
    split_ifs at h
    cases h
    exact .inl rfl
  | retry outboxUuid =>
    simp only [Step, next] at h
    split at h
    · cases h
    · split_ifs at h
      cases h
      exact .inl (map_key_update fun outbox e => e)

/-- A record is still there after a step. -/
theorem exists_of_step {action : Int × OutboxAction τ ρ} (h : Step service world action world')
    (hmem : outbox ∈ world.records) :
    ∃ outbox' ∈ world'.records, outbox'.outboxUuid = outbox.outboxUuid := by
  have hold := List.mem_map_of_mem (f := (·.outboxUuid)) hmem
  have hkey : outbox.outboxUuid ∈ world'.records.map (·.outboxUuid) := by
    obtain e | ⟨u, -, e⟩ := step_outboxUuids h
    · rw [e]
      exact hold
    · rw [e]
      exact List.mem_append_left _ hold
  exact List.mem_map.mp hkey

theorem Distinct.step {action : Int × OutboxAction τ ρ} (hw : world.Distinct)
    (h : Step service world action world') : world'.Distinct := by
  unfold Distinct at hw ⊢
  obtain e | ⟨outboxUuid, hnew, e⟩ := step_outboxUuids h
  · rw [e]
    exact hw
  · rw [e, List.nodup_append]
    refine ⟨hw, by simp, ?_⟩
    rintro u hu _ hu' rfl
    obtain rfl := List.mem_singleton.mp hu'
    exact hnew hu

theorem distinct_of_reachable (h : Reachable (· = start) (Step service) world) : world.Distinct :=
  h.invariant (by rintro _ rfl; exact .nil) fun _ _ _ hw hs => hw.step hs

/-- A live worker after a step was there before, and the step is not its
result, or it has claimed its record in the step. -/
theorem step_worker (h : Step service world (now, action) world') {worker : OutboxWorker}
    (hworker : worker ∈ world'.workers) :
    worker ∈ world.workers ∧ action ≠ .complete worker.workerId ∧
        (∀ error, action ≠ .fail worker.workerId error) ∨
      worker.workerId = world.workerCount ∧
        (∃ outbox ∈ world.records, outbox.outboxUuid = worker.outboxUuid ∧
          service.claimable now outbox = true) ∧
        world'.history = .claimed worker.outboxUuid worker.workerId :: world.history ∧
        world'.records = update OutboxRecord.outboxUuid worker.outboxUuid
          (OutboxRecord.startProcessing now) world.records := by
  cases action with
  | create outboxUuid target =>
    simp only [Step, next] at h
    split_ifs at h
    cases h
    exact .inl ⟨hworker, by simp, by simp⟩
  | scan => cases h; exact .inl ⟨hworker, by simp, by simp⟩
  | markDispatched outboxUuid => cases h; exact .inl ⟨hworker, by simp, by simp⟩
  | releaseDispatch outboxUuid error => cases h; exact .inl ⟨hworker, by simp, by simp⟩
  | deliver outboxUuid resources =>
    cases h
    obtain ⟨hc, he⟩ | ⟨outbox, houtbox, rfl, hclaim, ⟨⟨payload, hc⟩, he⟩ | ⟨hc, he⟩ | ⟨hc, he⟩⟩ :=
      claim_cases service now world outboxUuid resources
    all_goals simp only [hc, he, Option.isSome_none, Option.isSome_some] at hworker ⊢
    · exact .inl ⟨hworker, by simp, by simp⟩
    · rcases List.mem_cons.mp hworker with rfl | hworker
      · exact .inr ⟨rfl, ⟨outbox, houtbox, rfl, hclaim⟩, rfl, rfl⟩
      · exact .inl ⟨hworker, by simp, by simp⟩
    · exact .inl ⟨hworker, by simp, by simp⟩
    · exact .inl ⟨hworker, by simp, by simp⟩
  | complete workerId =>
    simp only [Step, next] at h
    split at h
    · cases h
    · cases h
      obtain ⟨hmem, hne⟩ := List.mem_filter.mp hworker
      refine .inl ⟨hmem, fun e => ?_, by simp⟩
      simp only [decide_eq_true_eq] at hne
      injection e with e
      exact hne e.symm
  | fail workerId error =>
    simp only [Step, next] at h
    split at h
    · cases h
    · cases h
      obtain ⟨hmem, hne⟩ := List.mem_filter.mp hworker
      refine .inl ⟨hmem, by simp, fun error' e => ?_⟩
      simp only [decide_eq_true_eq] at hne
      injection e with e
      exact hne e.symm
  | crash workerId =>
    simp only [Step, next] at h
    split_ifs at h
    cases h
    exact .inl ⟨(List.mem_filter.mp hworker).1, by simp, by simp⟩
  | retry outboxUuid =>
    simp only [Step, next] at h
    split at h
    · cases h
    · split_ifs at h
      cases h
      exact .inl ⟨hworker, by simp, by simp⟩

end OutboxWorld

end NoteVerse.Backend

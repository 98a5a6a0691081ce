import NoteVerse.Backend.OutboxFencing

/-!
# Progress of an outbox

In every reachable state the attempts of a record are the claims since it was
created or retried (or all of them, once a claim has found its resources
unavailable), a leased record has the time of its lease, and a record with
attempts left is due from some time on, or made due by the recovery of its
lease. `OutboxRecord.Progress` is the invariant; `playback_outbox_progress`
states it of the playback outbox.
-/

namespace NoteVerse.Backend

open Table Transition

variable {τ ρ π : Type} {service : OutboxService τ ρ π} {now : Int}

/-- The claims of a record since its creation or the last retry; the last
event comes first. -/
def claimsSince (outboxUuid : String) : List OutboxEvent → Nat
  | [] => 0
  | event :: history =>
    if event.outboxUuid ≠ outboxUuid then claimsSince outboxUuid history
    else match event with
      | .created _ | .retried _ => 0
      | .claimed _ _ => claimsSince outboxUuid history + 1
      | .exhausted _ => claimsSince outboxUuid history

/-- A claim has found the resources of a record unavailable since then. -/
def exhaustedSince (outboxUuid : String) : List OutboxEvent → Bool
  | [] => false
  | event :: history =>
    if event.outboxUuid ≠ outboxUuid then exhaustedSince outboxUuid history
    else match event with
      | .created _ | .retried _ => false
      | .claimed _ _ => exhaustedSince outboxUuid history
      | .exhausted _ => true

/-- The attempts of a record as its history tells them. -/
def countedAttempts (service : OutboxService τ ρ π) (outboxUuid : String)
    (history : List OutboxEvent) : Nat :=
  if exhaustedSince outboxUuid history then service.maxAttempts
  else claimsSince outboxUuid history

/-- The record can be dispatched and claimed. -/
def OutboxService.Due (service : OutboxService τ ρ π) (now : Int) (outbox : OutboxRecord τ) :
    Prop :=
  service.isDispatchable now outbox = true ∧ service.claimable now outbox = true

structure OutboxRecord.Progress (service : OutboxService τ ρ π) (history : List OutboxEvent)
    (outbox : OutboxRecord τ) : Prop where
  bounded : outbox.attemptCount ≤ service.maxAttempts
  counted : outbox.attemptCount = countedAttempts service outbox.outboxUuid history
  dispatched : outbox.status = .dispatched → outbox.dispatchedAt.isSome
  processing : outbox.status = .processing → outbox.startedAt.isSome

variable {outboxUuid : String} {events history : List OutboxEvent} {outbox : OutboxRecord τ}

theorem claimsSince_append (h : ∀ event ∈ events, event.outboxUuid ≠ outboxUuid) :
    claimsSince outboxUuid (events ++ history) = claimsSince outboxUuid history := by
  induction events with
  | nil => rfl
  | cons event events ih =>
    rw [List.forall_mem_cons] at h
    simp [claimsSince, h.1, ih h.2]

theorem exhaustedSince_append (h : ∀ event ∈ events, event.outboxUuid ≠ outboxUuid) :
    exhaustedSince outboxUuid (events ++ history) = exhaustedSince outboxUuid history := by
  induction events with
  | nil => rfl
  | cons event events ih =>
    rw [List.forall_mem_cons] at h
    simp [exhaustedSince, h.1, ih h.2]

theorem countedAttempts_append (h : ∀ event ∈ events, event.outboxUuid ≠ outboxUuid) :
    countedAttempts service outboxUuid (events ++ history) =
      countedAttempts service outboxUuid history := by
  rw [countedAttempts, claimsSince_append h, exhaustedSince_append h, countedAttempts]

/-- A record with attempts left has not found its resources unavailable. -/
theorem OutboxRecord.Progress.not_exhausted (h : outbox.Progress service history)
    (hleft : outbox.attemptCount < service.maxAttempts) :
    exhaustedSince outbox.outboxUuid history = false := by
  have hcounted := h.counted
  unfold countedAttempts at hcounted
  split_ifs at hcounted with he
  · omega
  · simpa using he

theorem progress_newOutbox (outboxUuid : String) (target : τ) (history : List OutboxEvent) :
    (newOutbox now outboxUuid target).Progress service (.created outboxUuid :: history) where
  bounded := Nat.zero_le _
  counted := by
    simp [newOutbox, countedAttempts, exhaustedSince, claimsSince, OutboxEvent.outboxUuid]
  dispatched h := by cases h
  processing h := by cases h

/-- A change that touches neither the attempts nor the history. -/
theorem OutboxRecord.Progress.of_same {outbox' : OutboxRecord τ}
    (h : outbox.Progress service history) (hcount : outbox'.attemptCount = outbox.attemptCount)
    (huuid : outbox'.outboxUuid = outbox.outboxUuid)
    (hd : outbox'.status = .dispatched → outbox'.dispatchedAt.isSome)
    (hp : outbox'.status = .processing → outbox'.startedAt.isSome) :
    outbox'.Progress service history where
  bounded := hcount ▸ h.bounded
  counted := by rw [hcount, huuid, h.counted]
  dispatched := hd
  processing := hp

theorem OutboxService.claimable_of_isDispatchable (h : service.isDispatchable now outbox = true) :
    service.claimable now outbox = true := by
  simp only [isDispatchable, Bool.and_eq_true, Bool.or_eq_true, decide_eq_true_eq] at h
  obtain ⟨⟨hs, hcount⟩, hnext⟩ := h
  have hwait : ¬ now < outbox.nextAttemptAt := by omega
  rcases hs with hs | hs <;> simp [claimable, hs, hcount, hwait]

/-- A record with attempts left is due from some time on, or under a lease
whose recovery makes it due. -/
theorem OutboxRecord.Progress.due {history : List OutboxEvent} {outbox : OutboxRecord τ}
    (h : outbox.Progress service history) (hstatus : outbox.status ≠ .completed)
    (hleft : outbox.attemptCount < service.maxAttempts) :
    (∃ time, ∀ now, time ≤ now → service.Due now outbox) ∨
      (outbox.status = .dispatched ∨ outbox.status = .processing) ∧
      ∃ time, ∀ now, time ≤ now → service.leaseExpired now outbox = true ∧
        service.Due now (service.recover now outbox) := by
  -- recovery makes a leased record due at once
  have hrecover : ∀ now, service.leaseExpired now outbox = true →
      service.Due now (service.recover now outbox) := by
    intro now hlease
    have hdue : service.isDispatchable now (service.recover now outbox) = true := by
      simp [OutboxService.isDispatchable, OutboxService.recover, hlease, hleft]
    exact ⟨hdue, OutboxService.claimable_of_isDispatchable hdue⟩
  have hdue : outbox.status = .pending ∨ outbox.status = .failed →
      ∃ time, ∀ now, time ≤ now → service.Due now outbox := by
    intro hs
    refine ⟨outbox.nextAttemptAt, fun now hn => ?_⟩
    have hdispatch : service.isDispatchable now outbox = true := by
      simp [OutboxService.isDispatchable, hs, hleft, hn]
    exact ⟨hdispatch, OutboxService.claimable_of_isDispatchable hdispatch⟩
  cases hs : outbox.status with
  | pending => exact .inl (hdue (.inl hs))
  | failed => exact .inl (hdue (.inr hs))
  | completed => exact absurd hs hstatus
  | dispatched =>
    obtain ⟨time, htime⟩ := deliveryLeaseExpired_of_dispatched (σ := OutboxStatus) (h.dispatched hs)
    refine .inr ⟨.inl rfl, time, fun now hn => ?_⟩
    have hlease : service.leaseExpired now outbox = true := by
      rw [OutboxService.leaseExpired, hs]
      exact htime now hn
    exact ⟨hlease, hrecover now hlease⟩
  | processing =>
    obtain ⟨time, htime⟩ := deliveryLeaseExpired_of_processing (σ := OutboxStatus) (h.processing hs)
    refine .inr ⟨.inr rfl, time, fun now hn => ?_⟩
    have hlease : service.leaseExpired now outbox = true := by
      rw [OutboxService.leaseExpired, hs]
      exact htime now hn
    exact ⟨hlease, hrecover now hlease⟩

namespace OutboxWorld

theorem RecordStep.progress {world : OutboxWorld τ} {action : OutboxAction τ ρ}
    {events : List OutboxEvent} {outbox outbox' : OutboxRecord τ}
    (hs : RecordStep service world now action events outbox outbox')
    (h : outbox.Progress service world.history) :
    outbox'.Progress service (events ++ world.history) := by
  cases hs with
  | same hevents =>
    exact ⟨h.bounded, by rw [countedAttempts_append hevents, h.counted], h.dispatched, h.processing⟩
  | recover =>
    unfold OutboxService.recover
    split_ifs
    · exact h
    · exact h.of_same rfl rfl (by simp) (by simp)
  | dispatch =>
    unfold OutboxService.markDispatched
    split_ifs
    · exact h
    · exact h.of_same rfl rfl (fun _ => rfl) (by simp)
  | release =>
    unfold OutboxRecord.releaseDispatch
    split_ifs
    · exact h
    · exact h.of_same rfl rfl (by simp) (by simp)
  | start hclaim =>
    have hleft := (OutboxService.claimable_cases hclaim).2.2
    have hnot := h.not_exhausted hleft
    have hcounted := h.counted
    simp only [countedAttempts, hnot, Bool.false_eq_true, if_false] at hcounted
    refine ⟨hleft, ?_, by simp [OutboxRecord.startProcessing], fun _ => rfl⟩
    simp [OutboxRecord.startProcessing, countedAttempts, exhaustedSince, claimsSince,
      OutboxEvent.outboxUuid, hnot, hcounted]
  | terminal => exact h.of_same rfl rfl (by simp [OutboxRecord.complete]) (by simp [OutboxRecord.complete])
  | exhaust =>
    refine ⟨Nat.le_refl _, ?_, by simp [OutboxService.exhaustUnavailableResources],
      by simp [OutboxService.exhaustUnavailableResources]⟩
    simp [OutboxService.exhaustUnavailableResources, countedAttempts, exhaustedSince,
      OutboxEvent.outboxUuid]
  | complete => exact h.of_same rfl rfl (by simp [OutboxRecord.complete]) (by simp [OutboxRecord.complete])
  | fail => exact h.of_same rfl rfl (by simp [OutboxService.fail]) (by simp [OutboxService.fail])
  | retry =>
    refine ⟨Nat.zero_le _, ?_, by simp [OutboxRecord.retry], by simp [OutboxRecord.retry]⟩
    simp [OutboxRecord.retry, countedAttempts, exhaustedSince, claimsSince, OutboxEvent.outboxUuid]

theorem progress_of_reachable {world : OutboxWorld τ}
    (h : Reachable (· = start) (Step service) world) :
    ∀ outbox ∈ world.records, outbox.Progress service world.history := by
  refine h.invariant_of_reachable
    (p := fun world => ∀ outbox ∈ world.records, outbox.Progress service world.history)
    (by rintro _ rfl; simp [start]) ?_
  rintro world ⟨now, action⟩ world' hreach hw hs outbox' hmem'
  obtain ⟨events, hhistory, hrecords⟩ := step_record (distinct_of_reachable hreach) hs
  rw [hhistory]
  obtain ⟨outboxUuid, target, -, -, rfl, rfl⟩ | ⟨outbox, hmem, hstep⟩ := hrecords outbox' hmem'
  · exact progress_newOutbox outboxUuid target world.history
  · exact hstep.progress (hw outbox hmem)

/-- No playback delivery is stuck with attempts left. -/
theorem playback_outbox_progress (settings : OutboxSettings) (world : OutboxWorld PlaybackTarget)
    (h : Reachable (· = start) (Step (playbackOutboxService settings)) world)
    (outbox : OutboxRecord PlaybackTarget) (hmem : outbox ∈ world.records) :
    outbox.attemptCount ≤ settings.maxAttempts ∧
      outbox.attemptCount = (if exhaustedSince outbox.outboxUuid world.history then
          settings.maxAttempts else claimsSince outbox.outboxUuid world.history) ∧
      (outbox.status = .dispatched → outbox.dispatchedAt.isSome) ∧
      (outbox.status = .processing → outbox.startedAt.isSome) ∧
      (outbox.status ≠ .completed → outbox.attemptCount < settings.maxAttempts →
        (∃ time, ∀ now, time ≤ now → (playbackOutboxService settings).Due now outbox) ∨
        (outbox.status = .dispatched ∨ outbox.status = .processing) ∧
        ∃ time, ∀ now, time ≤ now →
          (playbackOutboxService settings).leaseExpired now outbox = true ∧
          (playbackOutboxService settings).Due now
            ((playbackOutboxService settings).recover now outbox)) := by
  have hprogress := progress_of_reachable h outbox hmem
  exact ⟨hprogress.bounded, hprogress.counted, hprogress.dispatched, hprogress.processing,
    fun hstatus hleft => hprogress.due hstatus hleft⟩

/-- The record of the second attempt has counted both. -/
theorem playback_outbox_progress_reclaimedWorld :
    ∃ outbox ∈ reclaimedWorld.records, outbox.attemptCount = 2 ∧
      outbox.attemptCount ≤ playbackSettings.maxAttempts := by
  have hreach : Reachable (· = start) (Step playbackService) reclaimedWorld :=
    reachable_of_run (.start rfl)
      (show start.run playbackService reclaimedRun = some reclaimedWorld by decide)
  have hmem : reclaimedWorld.records.get ⟨0, by decide⟩ ∈ reclaimedWorld.records := by decide
  exact ⟨_, hmem, by decide, (playback_outbox_progress playbackSettings _ hreach _ hmem).1⟩

end OutboxWorld

end NoteVerse.Backend

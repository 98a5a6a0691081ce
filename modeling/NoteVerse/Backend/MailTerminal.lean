import NoteVerse.Backend.MailOutbox

/-!
# Terminal mails

A mail that has reached a terminal status is to stay there, its body is to be
erased exactly then, and a failed mail is to have attempts left. Two kinds of
step break this (`kept_iff_mailSafe`): a worker reports on a mail that is
terminal already, and a scan takes the lease of the last attempt of a mail.
`mails_end` states when a step is safe, what holds along safe steps, and which
runs have safe steps only.
-/

namespace NoteVerse.Backend

open Table Transition

variable {settings : MailOutboxSettings} {now : Int}

namespace MailRecord

/-- What is to hold of every record. -/
structure Sound (settings : MailOutboxSettings) (outbox : MailRecord) : Prop where
  erased : outbox.textBody = none ∧ outbox.htmlBody = none ↔ outbox.status.Terminal
  failed : outbox.status = .failed → outbox.attemptCount < settings.maxAttempts

/-- What a status says about the other columns. -/
structure Timed (settings : MailOutboxSettings) (outbox : MailRecord) : Prop where
  dispatched : outbox.status = .dispatched → outbox.attemptCount < settings.maxAttempts
  completed : outbox.status.Terminal → outbox.completedAt.isSome

variable {outbox : MailRecord}

/-- A record with no body left in a terminal status. -/
theorem sound_of_erased (ht : outbox.textBody = none) (hh : outbox.htmlBody = none)
    (hs : outbox.status.Terminal) : outbox.Sound settings := by
  refine ⟨iff_of_true ⟨ht, hh⟩ hs, fun hf => ?_⟩
  rcases hs with hs | hs | hs <;> rw [hs] at hf <;> cases hf

/-- A change of a live record that keeps the body. -/
theorem Sound.of_live {outbox' : MailRecord} (h : outbox.Sound settings)
    (hlive : ¬ outbox.status.Terminal) (hlive' : ¬ outbox'.status.Terminal)
    (ht : outbox'.textBody = outbox.textBody) (hh : outbox'.htmlBody = outbox.htmlBody)
    (hf : outbox'.status = .failed → outbox'.attemptCount < settings.maxAttempts) :
    outbox'.Sound settings := by
  refine ⟨iff_of_false (fun he => hlive (h.erased.mp ?_)) hlive', hf⟩
  rwa [ht, hh] at he

theorem claim_of_terminal (h : outbox.status.Terminal) :
    outbox.claim settings now = (outbox, none) := by
  simp [claim, h]

/-- What a claim makes of a record. -/
theorem claim_cases (settings : MailOutboxSettings) (now : Int) (outbox : MailRecord) :
    outbox.claim settings now = (outbox, none) ∨
    ¬ outbox.status.Terminal ∧ outbox.status ≠ .processing ∧
      ((outbox.claim settings now).2 = none ∧
          (outbox.claim settings now).1.textBody = none ∧
          (outbox.claim settings now).1.htmlBody = none ∧
          (outbox.claim settings now).1.status.Terminal ∧
          (outbox.claim settings now).1.completedAt = some now ∨
        outbox.attemptCount < settings.maxAttempts ∧
          ∃ textBody, outbox.claim settings now = (outbox.startProcessing now, some textBody)) := by
  unfold claim
  split_ifs with h₁ h₂ h₃ h₄
  · exact .inl rfl
  all_goals
    have hlive : ¬ outbox.status.Terminal ∧ outbox.status ≠ .processing := by
      simp only [Bool.or_eq_true, decide_eq_true_eq, not_or] at h₁
      exact ⟨h₁.2, h₁.1⟩
  · exact .inr ⟨hlive.1, hlive.2, .inl ⟨rfl, rfl, rfl, .inr (.inr rfl), rfl⟩⟩
  · exact .inl rfl
  · exact .inr ⟨hlive.1, hlive.2, .inl ⟨rfl, rfl, rfl, .inr (.inl rfl), rfl⟩⟩
  · split
    · exact .inr ⟨hlive.1, hlive.2, .inl ⟨rfl, rfl, rfl, .inr (.inl rfl), rfl⟩⟩
    · exact .inr ⟨hlive.1, hlive.2, .inl ⟨rfl, rfl, rfl, .inr (.inl rfl), rfl⟩⟩
    · exact .inr ⟨hlive.1, hlive.2, .inr ⟨by omega, _, rfl⟩⟩

@[simp] theorem claim_outboxUuid (outbox : MailRecord) :
    (outbox.claim settings now).1.outboxUuid = outbox.outboxUuid := by
  unfold claim
  split_ifs
  · rfl
  · rfl
  · rfl
  · rfl
  · split <;> rfl

@[simp] theorem transientFailure_outboxUuid (error : String) (outbox : MailRecord) :
    (outbox.transientFailure settings now error).outboxUuid = outbox.outboxUuid := by
  unfold transientFailure
  split_ifs <;> rfl

@[simp] theorem markDispatched_outboxUuid (outbox : MailRecord) :
    (outbox.markDispatched settings now).outboxUuid = outbox.outboxUuid := by
  unfold markDispatched
  split_ifs <;> rfl

@[simp] theorem releaseDispatch_outboxUuid (error : String) (outbox : MailRecord) :
    (outbox.releaseDispatch now error).outboxUuid = outbox.outboxUuid := by
  unfold releaseDispatch
  split_ifs <;> rfl

@[simp] theorem recover_outboxUuid (outbox : MailRecord) :
    (outbox.recover settings now).outboxUuid = outbox.outboxUuid := by
  unfold recover
  split_ifs <;> rfl

@[simp] theorem scan_outboxUuid (outbox : MailRecord) :
    (outbox.scan settings now).outboxUuid = outbox.outboxUuid := by
  unfold scan
  split_ifs
  · exact recover_outboxUuid outbox
  · exact recover_outboxUuid outbox

theorem recover_eq_self (hd : outbox.status ≠ .dispatched) (hp : outbox.status ≠ .processing) :
    outbox.recover settings now = outbox := by
  have hlease : outbox.leaseExpired settings now = false := by
    simp [leaseExpired, deliveryLeaseExpired, hd, hp]
  simp [recover, hlease]

theorem scan_of_terminal (h : outbox.status.Terminal) : outbox.scan settings now = outbox := by
  have hne : outbox.expirable now = false ∧ outbox.status ≠ .dispatched ∧
      outbox.status ≠ .processing := by
    rcases h with h | h | h <;> simp [expirable, h]
  rw [scan, hne.1, recover_eq_self hne.2.1 hne.2.2]
  rfl

/-- A scan leaves a processed mail alone, or takes its lease. -/
theorem scan_of_processing (h : outbox.status = .processing) :
    outbox.scan settings now = outbox.recover settings now := by
  have hne : outbox.expirable now = false := by simp [expirable, h]
  simp [scan, hne]

theorem leaseExpired_cases (h : outbox.leaseExpired settings now = true) :
    outbox.status = .dispatched ∨ outbox.status = .processing :=
  status_of_deliveryLeaseExpired h

theorem isDispatchable_cases (h : outbox.isDispatchable settings now = true) :
    (outbox.status = .pending ∨ outbox.status = .failed) ∧
      outbox.attemptCount < settings.maxAttempts := by
  simp only [isDispatchable, Bool.and_eq_true, Bool.or_eq_true, decide_eq_true_eq] at h
  exact h.1.1

theorem not_terminal_of_retryable (h : outbox.retryable = true) :
    ¬ outbox.status.Terminal ∧ outbox.status ≠ .processing := by
  simp only [retryable, Bool.and_eq_true, Bool.not_eq_true', decide_eq_false_iff_not,
    decide_eq_true_eq] at h
  exact ⟨h.1.2, h.1.1.1⟩

/-- A failed mail with attempts left is delivered again, or expires. -/
theorem Sound.failed_due (h : outbox.Sound settings) (hs : outbox.status = .failed) :
    ∃ time, ∀ now, time ≤ now → outbox.isDispatchable settings now = true ∨
      (outbox.scan settings now).status = .expired := by
  refine ⟨outbox.nextAttemptAt, fun now hn => ?_⟩
  cases he : outbox.isExpired now with
  | true =>
    refine .inr ?_
    simp [scan, expirable, he, hs, finish]
  | false =>
    refine .inl ?_
    simp [isDispatchable, hs, h.failed hs, hn, he]

/-- A terminal mail is cleaned up in the end. -/
theorem Timed.cleanable (h : outbox.Timed settings) (hs : outbox.status.Terminal) :
    ∃ time, ∀ now, time ≤ now → outbox.cleanable settings now = true := by
  obtain ⟨completedAt, hc⟩ := Option.isSome_iff_exists.mp (h.completed hs)
  refine ⟨completedAt + settings.retentionDays * 86400 + 1, fun now hn => ?_⟩
  have hcutoff : completedAt < now - settings.retentionDays * 86400 := by omega
  simp [MailRecord.cleanable, hs, hc, hcutoff]

end MailRecord

namespace MailWorld

/-! ## What a step does to a record -/

/-- The worker that reports its result in an action. -/
def reporter : MailAction → Option Nat
  | .sent workerId _ | .transientFailure workerId _ | .permanentFailure workerId _ => some workerId
  | _ => none

/-- The change of one record in a step of a world at the time `now`. -/
inductive RecordStep (settings : MailOutboxSettings) (world : MailWorld) (now : Int) :
    MailAction → MailRecord → MailRecord → Prop
  | same {action : MailAction} {outbox : MailRecord} :
    (∀ workerId worker, reporter action = some workerId → world.worker workerId = some worker →
      outbox.outboxUuid ≠ worker.outboxUuid) →
    RecordStep settings world now action outbox outbox
  | scan {locked : List String} {outbox : MailRecord} :
    RecordStep settings world now (.scan locked) outbox (outbox.scan settings now)
  | dispatch {outboxUuid : String} {outbox : MailRecord} :
    RecordStep settings world now (.markDispatched outboxUuid) outbox
      (outbox.markDispatched settings now)
  | release {outboxUuid error : String} {outbox : MailRecord} :
    RecordStep settings world now (.releaseDispatch outboxUuid error) outbox
      (outbox.releaseDispatch now error)
  | claim {workerId : Nat} {outbox : MailRecord} :
    RecordStep settings world now (.deliver workerId outbox.outboxUuid) outbox
      (outbox.claim settings now).1
  | sent {workerId : Nat} {worker : MailWorker} {providerMessageId : Option String}
      {outbox : MailRecord} :
    world.worker workerId = some worker → outbox.outboxUuid = worker.outboxUuid →
    RecordStep settings world now (.sent workerId providerMessageId) outbox
      (outbox.sent now providerMessageId)
  | transientFailure {workerId : Nat} {worker : MailWorker} {error : String}
      {outbox : MailRecord} :
    world.worker workerId = some worker → outbox.outboxUuid = worker.outboxUuid →
    RecordStep settings world now (.transientFailure workerId error) outbox
      (outbox.transientFailure settings now error)
  | permanentFailure {workerId : Nat} {worker : MailWorker} {error : String}
      {outbox : MailRecord} :
    world.worker workerId = some worker → outbox.outboxUuid = worker.outboxUuid →
    RecordStep settings world now (.permanentFailure workerId error) outbox
      (outbox.permanentFailure now error)
  | retry {outbox : MailRecord} : outbox.retryable = true →
    RecordStep settings world now (.retry outbox.outboxUuid) outbox (outbox.retry now)

variable {world world' : MailWorld} {action : MailAction} {outbox outbox' : MailRecord}
  {f : MailRecord → MailRecord}

theorem RecordStep.outboxUuid_eq (h : RecordStep settings world now action outbox outbox') :
    outbox'.outboxUuid = outbox.outboxUuid := by
  cases h with
  | scan => exact outbox.scan_outboxUuid
  | dispatch => exact outbox.markDispatched_outboxUuid
  | release => exact outbox.releaseDispatch_outboxUuid _
  | claim => exact outbox.claim_outboxUuid
  | transientFailure => exact outbox.transientFailure_outboxUuid _
  | _ => rfl

/-- What changes the records with an outbox id is a step of every record. -/
theorem recordStep_update {outboxUuid : String}
    (hreporter : ∀ workerId worker, reporter action = some workerId →
      world.worker workerId = some worker → worker.outboxUuid = outboxUuid)
    (hf : ∀ outbox ∈ world.records, outbox.outboxUuid = outboxUuid →
      RecordStep settings world now action outbox (f outbox)) :
    ∀ outbox ∈ world.records, RecordStep settings world now action outbox
      (if outbox.outboxUuid = outboxUuid then f outbox else outbox) := by
  intro outbox hmem
  split_ifs with e
  · exact hf outbox hmem e
  · exact .same fun workerId worker hr hw e' => e (e'.trans (hreporter workerId worker hr hw))

theorem report_cases {workerId : Nat} (h : world.report workerId f = some world') :
    ∃ worker, world.worker workerId = some worker ∧
      world' = { world with
        records := update MailRecord.outboxUuid worker.outboxUuid f world.records }.removeWorker
          workerId := by
  unfold report at h
  split at h
  · cases h
  · rename_i worker hworker
    cases h
    exact ⟨worker, hworker, rfl⟩

theorem claimMail_records (records : List MailRecord) (outboxUuid : String) :
    (claimMail settings now records outboxUuid).1 =
      update MailRecord.outboxUuid outboxUuid (fun outbox => (outbox.claim settings now).1)
        records := by
  unfold claimMail
  cases hf : find MailRecord.outboxUuid outboxUuid records with
  | none =>
    refine (update_eq_self fun outbox hmem e => ?_).symm
    exact find_eq_none_iff.mp hf (e ▸ List.mem_map_of_mem hmem)
  | some outbox => rfl

/-- Outbox ids are drawn once. -/
structure Issued (world : MailWorld) : Prop where
  uuids : (world.records.map (·.outboxUuid)).Nodup
  issued : ∀ outbox ∈ world.records, outbox.outboxUuid ∈ world.issued

theorem Issued.record_eq (hw : world.Issued) (h : outbox ∈ world.records)
    (h' : outbox' ∈ world.records) (e : outbox.outboxUuid = outbox'.outboxUuid) :
    outbox = outbox' :=
  List.inj_on_of_nodup_map hw.uuids h h' e

/-- The records after a step that adds none: some of those before it, among
them all that are not terminal, each changed in place. -/
structure RecordsKept (settings : MailOutboxSettings) (now : Int) (action : MailAction)
    (world world' : MailWorld) : Prop where
  issued : world'.issued = world.issued
  records : ∃ (kept : List MailRecord) (f : MailRecord → MailRecord),
    kept.Sublist world.records ∧
    (∀ outbox ∈ world.records, ¬ outbox.status.Terminal → outbox ∈ kept) ∧
    (∀ outbox ∈ world.records, RecordStep settings world now action outbox (f outbox)) ∧
    world'.records = kept.map f

/-- A step adds at most the record of a new mail, or keeps the records. -/
theorem step_records (hw : world.Issued) (h : Step settings world (now, action) world') :
    (∃ outboxUuid message, action = .enqueue outboxUuid message ∧ outboxUuid ∉ world.issued ∧
      world'.issued = outboxUuid :: world.issued ∧
      (world'.records = world.records ∨
        world'.records = world.records ++ [newMail now outboxUuid message])) ∨
    RecordsKept settings now action world world' := by
  have hplace : ∀ f, world'.issued = world.issued → world'.records = world.records.map f →
      (∀ outbox ∈ world.records, RecordStep settings world now action outbox (f outbox)) →
      RecordsKept settings now action world world' :=
    fun f hi hr hf => ⟨hi, world.records, f, .refl _, fun _ hmem _ => hmem, hf, hr⟩
  have hreport : ∀ {workerId} (f : MailRecord → MailRecord), reporter action = some workerId →
      (∀ worker outbox, world.worker workerId = some worker →
        outbox.outboxUuid = worker.outboxUuid →
        RecordStep settings world now action outbox (f outbox)) →
      world.report workerId f = some world' → RecordsKept settings now action world world' := by
    intro workerId f hr hf hrep
    obtain ⟨worker, hworker, rfl⟩ := report_cases hrep
    refine hplace _ rfl rfl (recordStep_update (fun w worker' hr' hw => ?_)
      fun outbox _ e => hf worker outbox hworker e)
    obtain rfl := Option.some.inj (hr.symm.trans hr')
    rw [Option.some.inj (hworker.symm.trans hw)]
  cases action with
  | enqueue outboxUuid message =>
    simp only [Step, next] at h
    split_ifs at h with hnew
    cases h
    refine .inl ⟨outboxUuid, message, rfl, hnew, rfl, ?_⟩
    simp only [queueMail]
    split
    · exact .inl rfl
    · exact .inr rfl
  | scan locked =>
    cases h
    exact .inr (hplace _ rfl rfl fun _ _ => .scan)
  | markDispatched outboxUuid =>
    cases h
    exact .inr (hplace _ rfl rfl (recordStep_update (by simp [reporter]) fun _ _ _ => .dispatch))
  | releaseDispatch outboxUuid error =>
    cases h
    exact .inr (hplace _ rfl rfl (recordStep_update (by simp [reporter]) fun _ _ _ => .release))
  | deliver workerId outboxUuid =>
    simp only [Step, next] at h
    split_ifs at h
    all_goals
      cases h
      exact .inr (hplace _ rfl (claimMail_records world.records outboxUuid)
        (recordStep_update (by simp [reporter]) fun _ _ e => e ▸ .claim))
  | sent workerId providerMessageId =>
    exact .inr (hreport (·.sent now providerMessageId) rfl (fun _ _ hw e => .sent hw e) h)
  | transientFailure workerId error =>
    exact .inr (hreport (·.transientFailure settings now error) rfl
      (fun _ _ hw e => .transientFailure hw e) h)
  | permanentFailure workerId error =>
    exact .inr (hreport (·.permanentFailure now error) rfl
      (fun _ _ hw e => .permanentFailure hw e) h)
  | crash workerId =>
    simp only [Step, next] at h
    split_ifs at h
    cases h
    exact .inr (hplace id rfl (List.map_id _).symm fun _ _ => .same (by simp [reporter]))
  | cleanup =>
    cases h
    refine .inr ⟨rfl, _, id, List.filter_sublist, fun outbox hmem hlive => ?_,
      fun _ _ => .same (by simp [reporter]), (List.map_id _).symm⟩
    have hkeep : outbox.cleanable settings now = false := by simp [MailRecord.cleanable, hlive]
    exact List.mem_filter.mpr ⟨hmem, by simp [hkeep]⟩
  | retry outboxUuid =>
    simp only [Step, next] at h
    split at h
    · cases h
    · rename_i outbox hfind
      split_ifs at h with hr
      cases h
      obtain rfl := find_key hfind
      refine .inr (hplace _ rfl rfl (recordStep_update (by simp [reporter]) fun o ho e => ?_))
      rw [hw.record_eq ho (find_mem hfind) e]
      exact .retry (by simpa using hr)

/-- A record after a step is new, or was there before the step. -/
theorem step_record (hw : world.Issued) (h : Step settings world (now, action) world')
    (hmem : outbox' ∈ world'.records) :
    (∃ outboxUuid message, action = .enqueue outboxUuid message ∧ outboxUuid ∉ world.issued ∧
      outbox' = newMail now outboxUuid message) ∨
    ∃ outbox ∈ world.records, RecordStep settings world now action outbox outbox' := by
  obtain ⟨outboxUuid, message, rfl, hnew, -, hr⟩ | ⟨-, kept, f, hkept, -, hf, hr⟩ :=
    step_records hw h
  · have hsame : RecordStep settings world now (.enqueue outboxUuid message) outbox' outbox' :=
      .same (by simp [reporter])
    rcases hr with hr | hr <;> rw [hr] at hmem
    · exact .inr ⟨outbox', hmem, hsame⟩
    · rcases List.mem_append.mp hmem with hmem | hmem
      · exact .inr ⟨outbox', hmem, hsame⟩
      · exact .inl ⟨outboxUuid, message, rfl, hnew, List.mem_singleton.mp hmem⟩
  · rw [hr] at hmem
    obtain ⟨outbox, houtbox, rfl⟩ := List.mem_map.mp hmem
    exact .inr ⟨outbox, hkept.subset houtbox, hf outbox (hkept.subset houtbox)⟩

/-- A step draws at most one outbox id, which is new. -/
theorem step_outboxUuids (hw : world.Issued) (h : Step settings world (now, action) world') :
    (∃ outboxUuid, outboxUuid ∉ world.issued ∧ world'.issued = outboxUuid :: world.issued ∧
      (world'.records.map (·.outboxUuid)).Sublist
        (world.records.map (·.outboxUuid) ++ [outboxUuid])) ∨
    world'.issued = world.issued ∧
      (world'.records.map (·.outboxUuid)).Sublist (world.records.map (·.outboxUuid)) := by
  obtain ⟨outboxUuid, message, -, hnew, hi, hr⟩ | ⟨hi, kept, f, hkept, -, hf, hr⟩ :=
    step_records hw h
  · refine .inl ⟨outboxUuid, hnew, hi, ?_⟩
    rcases hr with hr | hr <;> rw [hr]
    · exact List.sublist_append_left _ _
    · simp [newMail]
  · refine .inr ⟨hi, ?_⟩
    have hkeys : (kept.map f).map (·.outboxUuid) = kept.map (·.outboxUuid) := by
      rw [List.map_map]
      exact List.map_congr_left fun o ho => (hf o (hkept.subset ho)).outboxUuid_eq
    rw [hr, hkeys]
    exact hkept.map _

theorem Issued.step {action : Int × MailAction} (hw : world.Issued)
    (h : Step settings world action world') : world'.Issued := by
  obtain ⟨now, action⟩ := action
  have hissued : ∀ outboxUuid ∈ world.records.map (·.outboxUuid), outboxUuid ∈ world.issued := by
    rintro _ hu
    obtain ⟨outbox, hmem, rfl⟩ := List.mem_map.mp hu
    exact hw.issued outbox hmem
  obtain ⟨outboxUuid, hnew, hi, hr⟩ | ⟨hi, hr⟩ := step_outboxUuids hw h
  · refine ⟨?_, fun outbox hmem => ?_⟩
    · refine List.Nodup.sublist hr ?_
      rw [List.nodup_append]
      refine ⟨hw.uuids, by simp, ?_⟩
      rintro u hu _ hu' rfl
      obtain rfl := List.mem_singleton.mp hu'
      exact hnew (hissued u hu)
    · have hu := hr.subset (List.mem_map_of_mem (f := (·.outboxUuid)) hmem)
      rw [List.mem_append, List.mem_singleton] at hu
      rw [hi, List.mem_cons]
      exact hu.symm.imp id (hissued _)
  · exact ⟨hw.uuids.sublist hr, fun outbox hmem =>
      hi ▸ hissued _ (hr.subset (List.mem_map_of_mem hmem))⟩

theorem issued_of_reachable (h : Reachable (· = start) (Step settings) world) : world.Issued :=
  h.invariant (by rintro _ rfl; exact ⟨.nil, by simp [start]⟩) fun _ _ _ hw hs => hw.step hs

/-! ## When a step keeps the mails -/

theorem RecordStep.timed (hs : RecordStep settings world now action outbox outbox')
    (h : outbox.Timed settings) : outbox'.Timed settings := by
  -- a finished record has the time of its end
  have hfinished : ∀ {outbox' : MailRecord}, outbox'.status.Terminal →
      outbox'.completedAt.isSome → outbox'.Timed settings := by
    intro outbox' hs hc
    refine ⟨fun hd => ?_, fun _ => hc⟩
    rcases hs with hs | hs | hs <;> rw [hs] at hd <;> cases hd
  have hrecover : (outbox.recover settings now).Timed settings := by
    unfold MailRecord.recover
    split_ifs
    · exact h
    · exact ⟨by simp, by simp [MailOutboxStatus.Terminal]⟩
  cases hs with
  | same => exact h
  | scan =>
    unfold MailRecord.scan
    split_ifs
    · exact hfinished (.inr (.inr rfl)) rfl
    · exact hrecover
  | dispatch =>
    unfold MailRecord.markDispatched
    split_ifs with hd
    · exact h
    · have hdue : outbox.isDispatchable settings now = true := by simpa using hd
      exact ⟨fun _ => (MailRecord.isDispatchable_cases hdue).2,
        by simp [MailOutboxStatus.Terminal]⟩
  | release =>
    unfold MailRecord.releaseDispatch
    split_ifs
    · exact h
    · exact ⟨by simp, by simp [MailOutboxStatus.Terminal]⟩
  | claim =>
    obtain hc | ⟨-, -, ⟨-, -, -, ht, hc⟩ | ⟨-, body, hc⟩⟩ := MailRecord.claim_cases settings now outbox
    · rw [hc]
      exact h
    · exact hfinished ht (by simp [hc])
    · rw [hc]
      exact ⟨by simp [MailRecord.startProcessing],
        by simp [MailRecord.startProcessing, MailOutboxStatus.Terminal]⟩
  | sent => exact hfinished (.inl rfl) rfl
  | transientFailure =>
    unfold MailRecord.transientFailure
    split_ifs
    · exact hfinished (.inr (.inl rfl)) rfl
    · exact ⟨by simp, by simp [MailOutboxStatus.Terminal]⟩
  | permanentFailure => exact hfinished (.inr (.inl rfl)) rfl
  | retry => exact ⟨by simp [MailRecord.retry], by simp [MailRecord.retry, MailOutboxStatus.Terminal]⟩

theorem timed_of_reachable (h : Reachable (· = start) (Step settings) world) :
    ∀ outbox ∈ world.records, outbox.Timed settings := by
  refine h.invariant_of_reachable (p := fun world => ∀ outbox ∈ world.records, outbox.Timed settings)
    (by rintro _ rfl; simp [start]) ?_
  rintro world ⟨now, action⟩ world' hr hw hs outbox' hmem'
  obtain ⟨outboxUuid, message, -, -, rfl⟩ | ⟨outbox, hmem, hstep⟩ :=
    step_record (issued_of_reachable hr) hs hmem'
  · exact ⟨by simp [newMail], by simp [newMail, MailOutboxStatus.Terminal]⟩
  · exact hstep.timed (hw outbox hmem)

/-- The mails that are there after a step are sound, and those that were
terminal have the same status. -/
structure Kept (settings : MailOutboxSettings) (world world' : MailWorld) : Prop where
  terminal : ∀ outbox ∈ world.records, outbox.status.Terminal → ∀ outbox' ∈ world'.records,
    outbox'.outboxUuid = outbox.outboxUuid → outbox'.status = outbox.status
  sound : ∀ outbox ∈ world'.records, outbox.Sound settings

/-- The steps that keep the mails: no scan takes the lease of a last attempt,
and no worker reports on a mail that is terminal, but in the same way. -/
def MailSafe (settings : MailOutboxSettings) (world : MailWorld) : Int × MailAction → Prop
  | (now, .scan _) => ∀ outbox ∈ world.records, outbox.status = .processing →
      settings.maxAttempts ≤ outbox.attemptCount → outbox.leaseExpired settings now = false
  | (_, .sent workerId _) => ∀ worker, world.worker workerId = some worker →
      ∀ outbox ∈ world.records, outbox.outboxUuid = worker.outboxUuid →
        outbox.status.Terminal → outbox.status = .sent
  | (_, .transientFailure workerId _) => ∀ worker, world.worker workerId = some worker →
      ∀ outbox ∈ world.records, outbox.outboxUuid = worker.outboxUuid →
        outbox.status.Terminal →
          outbox.status = .permanentFailure ∧ settings.maxAttempts ≤ outbox.attemptCount
  | (_, .permanentFailure workerId _) => ∀ worker, world.worker workerId = some worker →
      ∀ outbox ∈ world.records, outbox.outboxUuid = worker.outboxUuid →
        outbox.status.Terminal → outbox.status = .permanentFailure
  | _ => True

theorem sound_scan (ht : outbox.Timed settings) (h : outbox.Sound settings)
    (hsafe : outbox.status = .processing → settings.maxAttempts ≤ outbox.attemptCount →
      outbox.leaseExpired settings now = false) : (outbox.scan settings now).Sound settings := by
  unfold MailRecord.scan
  split_ifs
  · exact MailRecord.sound_of_erased rfl rfl (.inr (.inr rfl))
  · cases hlease : outbox.leaseExpired settings now with
    | false => simpa [MailRecord.recover, hlease] using h
    | true =>
      have hleft : outbox.attemptCount < settings.maxAttempts := by
        rcases MailRecord.leaseExpired_cases hlease with hs | hs
        · exact ht.dispatched hs
        · by_contra hn
          rw [hsafe hs (by omega)] at hlease
          cases hlease
      have hlive : ¬ outbox.status.Terminal := by
        rcases MailRecord.leaseExpired_cases hlease with hs | hs <;>
          simp [hs, MailOutboxStatus.Terminal]
      have hrecover : outbox.recover settings now = { outbox with
          status := .failed, nextAttemptAt := now, lastError := some "Mail delivery lease expired",
          updatedAt := now } := by
        simp [MailRecord.recover, hlease]
      rw [hrecover]
      exact h.of_live hlive (by simp [MailOutboxStatus.Terminal]) rfl rfl fun _ => hleft

/-- A safe step keeps a record sound, and the status of a terminal one. -/
theorem RecordStep.kept (hs : RecordStep settings world now action outbox outbox')
    (hsafe : world.MailSafe settings (now, action)) (hmem : outbox ∈ world.records)
    (ht : outbox.Timed settings) (h : outbox.Sound settings) :
    (outbox.status.Terminal → outbox'.status = outbox.status) ∧ outbox'.Sound settings := by
  cases hs with
  | same => exact ⟨fun _ => rfl, h⟩
  | scan =>
    refine ⟨fun hterm => ?_, sound_scan ht h (hsafe outbox hmem)⟩
    rw [MailRecord.scan_of_terminal hterm]
  | dispatch =>
    unfold MailRecord.markDispatched
    split_ifs with hd
    · exact ⟨fun _ => rfl, h⟩
    · have hdue : outbox.isDispatchable settings now = true := by simpa using hd
      have hlive : ¬ outbox.status.Terminal := by
        rcases (MailRecord.isDispatchable_cases hdue).1 with hs | hs <;>
          simp [hs, MailOutboxStatus.Terminal]
      exact ⟨fun hterm => absurd hterm hlive,
        h.of_live hlive (by simp [MailOutboxStatus.Terminal]) rfl rfl (by simp)⟩
  | release =>
    unfold MailRecord.releaseDispatch
    split_ifs with hd
    · exact ⟨fun _ => rfl, h⟩
    · have hlive : ¬ outbox.status.Terminal := by
        simp [not_not.mp hd, MailOutboxStatus.Terminal]
      exact ⟨fun hterm => absurd hterm hlive,
        h.of_live hlive (by simp [MailOutboxStatus.Terminal]) rfl rfl (by simp)⟩
  | claim =>
    obtain hc | ⟨hlive, -, ⟨-, ht', hh', hterm, -⟩ | ⟨-, body, hc⟩⟩ :=
      MailRecord.claim_cases settings now outbox
    · rw [hc]
      exact ⟨fun _ => rfl, h⟩
    · exact ⟨fun hterm => absurd hterm hlive, MailRecord.sound_of_erased ht' hh' hterm⟩
    · rw [hc]
      exact ⟨fun hterm => absurd hterm hlive,
        h.of_live hlive (by simp [MailRecord.startProcessing, MailOutboxStatus.Terminal]) rfl rfl
          (by simp [MailRecord.startProcessing])⟩
  | sent hworker e =>
    refine ⟨fun hterm => ?_, MailRecord.sound_of_erased rfl rfl (.inl rfl)⟩
    exact (hsafe _ hworker outbox hmem e hterm).symm
  | transientFailure hworker e =>
    unfold MailRecord.transientFailure
    split_ifs with hmax
    · refine ⟨fun hterm => ?_, MailRecord.sound_of_erased rfl rfl (.inr (.inl rfl))⟩
      exact (hsafe _ hworker outbox hmem e hterm).1.symm
    · have hlive : ¬ outbox.status.Terminal := fun hterm =>
        hmax (hsafe _ hworker outbox hmem e hterm).2
      exact ⟨fun hterm => absurd hterm hlive,
        h.of_live hlive (by simp [MailOutboxStatus.Terminal]) rfl rfl fun _ => by
          show outbox.attemptCount < settings.maxAttempts
          omega⟩
  | permanentFailure hworker e =>
    refine ⟨fun hterm => ?_, MailRecord.sound_of_erased rfl rfl (.inr (.inl rfl))⟩
    exact (hsafe _ hworker outbox hmem e hterm).symm
  | retry hr =>
    have hlive := (MailRecord.not_terminal_of_retryable hr).1
    exact ⟨fun hterm => absurd hterm hlive,
      h.of_live hlive (by simp [MailRecord.retry, MailOutboxStatus.Terminal]) rfl rfl
        (by simp [MailRecord.retry])⟩

/-- The record of a worker after its report. -/
theorem report_mem {workerId : Nat} (h : world.report workerId f = some world')
    {worker : MailWorker} (hworker : world.worker workerId = some worker)
    (hmem : outbox ∈ world.records) (e : outbox.outboxUuid = worker.outboxUuid) :
    f outbox ∈ world'.records := by
  obtain ⟨worker', hworker', rfl⟩ := report_cases h
  rw [hworker] at hworker'
  cases hworker'
  exact List.mem_map.mpr ⟨outbox, hmem, if_pos e⟩

/-- A step keeps the mails exactly if it is safe. -/
theorem kept_iff_mailSafe {action : Int × MailAction}
    (hreach : Reachable (· = start) (Step settings) world)
    (h : ∀ outbox ∈ world.records, outbox.Sound settings) (hs : Step settings world action world') :
    Kept settings world world' ↔ world.MailSafe settings action := by
  obtain ⟨now, action⟩ := action
  have hw := issued_of_reachable hreach
  constructor
  · intro hkept
    cases action with
    | scan locked =>
      intro outbox hmem hp hmax
      by_contra hlease
      have hlease : outbox.leaseExpired settings now = true := by simpa using hlease
      have hscan : outbox.scan settings now ∈ world'.records := by
        cases hs
        exact List.mem_map_of_mem hmem
      have hfailed : (outbox.scan settings now).status = .failed ∧
          (outbox.scan settings now).attemptCount = outbox.attemptCount := by
        rw [MailRecord.scan_of_processing hp]
        simp [MailRecord.recover, hlease]
      have hleft := (hkept.sound _ hscan).failed hfailed.1
      omega
    | sent workerId providerMessageId =>
      intro worker hworker outbox hmem e hterm
      have hmem' := report_mem (f := (·.sent now providerMessageId)) hs hworker hmem e
      exact (hkept.terminal outbox hmem hterm _ hmem' rfl).symm
    | transientFailure workerId error =>
      intro worker hworker outbox hmem e hterm
      have hmem' := report_mem (f := (·.transientFailure settings now error)) hs hworker hmem e
      have hstatus := hkept.terminal outbox hmem hterm _ hmem' (by simp)
      unfold MailRecord.transientFailure at hstatus
      split_ifs at hstatus with hmax
      · exact ⟨hstatus.symm, hmax⟩
      · rw [← hstatus] at hterm
        simp [MailOutboxStatus.Terminal] at hterm
    | permanentFailure workerId error =>
      intro worker hworker outbox hmem e hterm
      have hmem' := report_mem (f := (·.permanentFailure now error)) hs hworker hmem e
      exact (hkept.terminal outbox hmem hterm _ hmem' rfl).symm
    | _ => trivial
  · intro hsafe
    have htimed := timed_of_reachable hreach
    refine ⟨fun outbox hmem hterm outbox' hmem' e => ?_, fun outbox' hmem' => ?_⟩
    · obtain ⟨outboxUuid, message, -, hnew, rfl⟩ | ⟨outbox₀, hmem₀, hstep⟩ :=
        step_record hw hs hmem'
      · have hissued := hw.issued outbox hmem
        rw [← e] at hissued
        exact absurd hissued hnew
      · obtain rfl := hw.record_eq hmem₀ hmem (hstep.outboxUuid_eq.symm.trans e)
        exact (hstep.kept hsafe hmem (htimed _ hmem) (h _ hmem)).1 hterm
    · obtain ⟨outboxUuid, message, -, -, rfl⟩ | ⟨outbox, hmem, hstep⟩ := step_record hw hs hmem'
      · exact ⟨by simp [newMail, MailOutboxStatus.Terminal], by simp [newMail]⟩
      · exact (hstep.kept hsafe hmem (htimed _ hmem) (h _ hmem)).2

theorem sound_of_run
    (h : Reachable (· = start) (guarded (MailSafe settings) (Step settings)) world) :
    Reachable (· = start) (Step settings) world ∧
      ∀ outbox ∈ world.records, outbox.Sound settings := by
  refine h.invariant (p := fun world => Reachable (· = start) (Step settings) world ∧
    ∀ outbox ∈ world.records, outbox.Sound settings) ?_ ?_
  · rintro _ rfl
    exact ⟨.start rfl, by simp [start]⟩
  · rintro world action world' ⟨hreach, hw⟩ ⟨hsafe, hs⟩
    exact ⟨.step hreach hs, ((kept_iff_mailSafe hreach hw hs).mpr hsafe).sound⟩

/-- In a run of safe steps, a terminal mail keeps its status until it is
cleaned up. -/
theorem terminal_of_run
    (hreach : Reachable (· = start) (guarded (MailSafe settings) (Step settings)) world)
    (h : Reachable (· = world) (guarded (MailSafe settings) (Step settings)) world') :
    ∀ outbox ∈ world.records, outbox.status.Terminal → ∀ outbox' ∈ world'.records,
      outbox'.outboxUuid = outbox.outboxUuid → outbox'.status = outbox.status := by
  have hrun : Reachable (· = start) (guarded (MailSafe settings) (Step settings)) world' ∧
      world.issued ⊆ world'.issued ∧
      ∀ outbox ∈ world.records, outbox.status.Terminal → ∀ outbox' ∈ world'.records,
        outbox'.outboxUuid = outbox.outboxUuid → outbox'.status = outbox.status := by
    refine h.invariant (p := fun s =>
      Reachable (· = start) (guarded (MailSafe settings) (Step settings)) s ∧
      world.issued ⊆ s.issued ∧
      ∀ outbox ∈ world.records, outbox.status.Terminal → ∀ outbox' ∈ s.records,
        outbox'.outboxUuid = outbox.outboxUuid → outbox'.status = outbox.status) ?_ ?_
    · rintro _ rfl
      refine ⟨hreach, List.Subset.refl _, fun outbox hmem _ outbox' hmem' e => ?_⟩
      rw [(issued_of_reachable (sound_of_run hreach).1).record_eq hmem' hmem e]
    · rintro s ⟨now, action⟩ s' ⟨hs, hsub, hkeep⟩ hstep
      obtain ⟨hreach', hsound⟩ := sound_of_run hs
      have hissued' := issued_of_reachable hreach'
      have hkept := (kept_iff_mailSafe hreach' hsound hstep.2).mpr hstep.1
      refine ⟨.step hs hstep, ?_, fun outbox hmem hterm outbox' hmem' e => ?_⟩
      · obtain ⟨u, -, hi, -⟩ | ⟨hi, -⟩ := step_outboxUuids hissued' hstep.2
        · rw [hi]
          exact fun v hv => List.mem_cons_of_mem _ (hsub hv)
        · rw [hi]
          exact hsub
      · obtain ⟨u, message, -, hnew, rfl⟩ | ⟨outbox₁, hmem₁, hrec⟩ :=
          step_record hissued' hstep.2 hmem'
        · have hissued := hsub ((issued_of_reachable (sound_of_run hreach).1).issued outbox hmem)
          rw [← e] at hissued
          exact absurd hissued hnew
        · have hstatus := hkeep outbox hmem hterm outbox₁ hmem₁ (hrec.outboxUuid_eq.symm.trans e)
          rw [← hstatus]
          exact hkept.terminal outbox₁ hmem₁ (hstatus ▸ hterm) outbox' hmem' hrec.outboxUuid_eq
  exact hrun.2.2

/-! ## Runs in which workers report within their lease -/

/-- No scan takes the lease of a live worker, and no worker is lost in the
last attempt of its mail. -/
def Attended (settings : MailOutboxSettings) (world : MailWorld) : Int × MailAction → Prop
  | (now, .scan _) => ∀ worker ∈ world.workers, ∀ outbox ∈ world.records,
      outbox.outboxUuid = worker.outboxUuid → outbox.leaseExpired settings now = false
  | (_, .crash workerId) => ∀ worker, world.worker workerId = some worker →
      ∀ outbox ∈ world.records, outbox.outboxUuid = worker.outboxUuid →
        outbox.attemptCount < settings.maxAttempts
  | _ => True

/-- Each live worker processes its mail, alone, and a last attempt has its
worker. -/
structure Held (settings : MailOutboxSettings) (world : MailWorld) : Prop where
  issued : world.Issued
  workerIds : (world.workers.map (·.workerId)).Nodup
  processing : ∀ worker ∈ world.workers, ∃ outbox ∈ world.records,
    outbox.outboxUuid = worker.outboxUuid ∧ outbox.status = .processing
  alone : ∀ worker ∈ world.workers, ∀ worker' ∈ world.workers,
    worker.outboxUuid = worker'.outboxUuid → worker.workerId = worker'.workerId
  exhausted : ∀ outbox ∈ world.records, outbox.status = .processing →
    settings.maxAttempts ≤ outbox.attemptCount →
    ∃ worker ∈ world.workers, worker.outboxUuid = outbox.outboxUuid

/-- The mail of a live worker is being processed. -/
theorem Held.status (h : world.Held settings) {worker : MailWorker}
    (hworker : worker ∈ world.workers) (hmem : outbox ∈ world.records)
    (e : outbox.outboxUuid = worker.outboxUuid) : outbox.status = .processing := by
  obtain ⟨outbox', hmem', e', hp⟩ := h.processing worker hworker
  rw [h.issued.record_eq hmem hmem' (e.trans e'.symm)]
  exact hp

theorem Held.mailSafe {action : Int × MailAction} (h : world.Held settings)
    (ha : world.Attended settings action) : world.MailSafe settings action := by
  obtain ⟨now, action⟩ := action
  have hlive : ∀ {workerId worker}, world.worker workerId = some worker →
      ∀ outbox ∈ world.records, outbox.outboxUuid = worker.outboxUuid →
        ¬ outbox.status.Terminal := by
    intro workerId worker hworker outbox hmem e
    simp [h.status (find_mem hworker) hmem e, MailOutboxStatus.Terminal]
  cases action with
  | scan locked =>
    intro outbox hmem hp hmax
    obtain ⟨worker, hworker, e⟩ := h.exhausted outbox hmem hp hmax
    exact ha worker hworker outbox hmem e.symm
  | sent workerId providerMessageId =>
    intro worker hworker outbox hmem e hterm
    exact absurd hterm (hlive hworker outbox hmem e)
  | transientFailure workerId error =>
    intro worker hworker outbox hmem e hterm
    exact absurd hterm (hlive hworker outbox hmem e)
  | permanentFailure workerId error =>
    intro worker hworker outbox hmem e hterm
    exact absurd hterm (hlive hworker outbox hmem e)
  | _ => trivial

/-- A record that is being processed stays as it is, if its worker does not
report and its lease is not taken. -/
theorem RecordStep.of_processing (hs : RecordStep settings world now action outbox outbox')
    (hp : outbox.status = .processing)
    (hlease : ∀ locked, action = .scan locked → outbox.leaseExpired settings now = false)
    (hreporter : ∀ workerId worker, reporter action = some workerId →
      world.worker workerId = some worker → outbox.outboxUuid ≠ worker.outboxUuid) :
    outbox' = outbox := by
  cases hs with
  | same => rfl
  | scan =>
    rw [MailRecord.scan_of_processing hp]
    simp [MailRecord.recover, hlease _ rfl]
  | dispatch =>
    have hd : outbox.isDispatchable settings now = false := by
      simp [MailRecord.isDispatchable, hp]
    simp [MailRecord.markDispatched, hd]
  | release => simp [MailRecord.releaseDispatch, hp]
  | claim => simp [MailRecord.claim, hp]
  | sent hworker e => exact absurd e (hreporter _ _ rfl hworker)
  | transientFailure hworker e => exact absurd e (hreporter _ _ rfl hworker)
  | permanentFailure hworker e => exact absurd e (hreporter _ _ rfl hworker)
  | retry hr => exact absurd hp (MailRecord.not_terminal_of_retryable hr).2

/-- A record that is not terminal is still there after a step. -/
theorem exists_of_step (hw : world.Issued) (h : Step settings world (now, action) world')
    (hmem : outbox ∈ world.records) (hlive : ¬ outbox.status.Terminal) :
    ∃ outbox' ∈ world'.records, outbox'.outboxUuid = outbox.outboxUuid := by
  obtain ⟨outboxUuid, message, -, -, -, hr⟩ | ⟨-, kept, f, -, hkept, hf, hr⟩ := step_records hw h
  · refine ⟨outbox, ?_, rfl⟩
    rcases hr with hr | hr <;> rw [hr]
    · exact hmem
    · exact List.mem_append_left _ hmem
  · rw [hr]
    exact ⟨f outbox, List.mem_map_of_mem (hkept outbox hmem hlive), (hf outbox hmem).outboxUuid_eq⟩

/-- The live workers after a step that adds none: the worker that reports or
is lost is gone. -/
structure WorkersKept (settings : MailOutboxSettings) (now : Int) (action : MailAction)
    (world world' : MailWorld) : Prop where
  sublist : world'.workers.Sublist world.workers
  quiet : ∀ worker ∈ world'.workers, reporter action ≠ some worker.workerId
  stay : ∀ worker ∈ world.workers, reporter action ≠ some worker.workerId →
    action ≠ .crash worker.workerId → worker ∈ world'.workers
  unclaimed : ∀ workerId outboxUuid, action = .deliver workerId outboxUuid →
    (claimMail settings now world.records outboxUuid).2 = none

/-- A step adds no worker, or one that has claimed its mail. -/
theorem step_workers (h : Step settings world (now, action) world') :
    WorkersKept settings now action world world' ∨
    ∃ worker, ∃ outbox ∈ world.records,
      action = .deliver worker.workerId worker.outboxUuid ∧
      world.worker worker.workerId = none ∧ outbox.outboxUuid = worker.outboxUuid ∧
      outbox.status ≠ .processing ∧ outbox.startProcessing now ∈ world'.records ∧
      world'.workers = worker :: world.workers := by
  have hsame : reporter action = none → (∀ workerId outboxUuid,
      action ≠ .deliver workerId outboxUuid) → world'.workers = world.workers →
      WorkersKept settings now action world world' := by
    intro hr hd e
    refine ⟨by rw [e], fun _ _ => by simp [hr], fun worker hw _ _ => e ▸ hw,
      fun workerId outboxUuid ha => absurd ha (hd workerId outboxUuid)⟩
  have hreport : ∀ {workerId f}, reporter action = some workerId → (∀ workerId outboxUuid,
      action ≠ .deliver workerId outboxUuid) → world.report workerId f = some world' →
      WorkersKept settings now action world world' := by
    intro workerId f hr hd hrep
    obtain ⟨w, -, rfl⟩ := report_cases hrep
    refine ⟨List.filter_sublist, fun worker hw e => ?_, fun worker hw hne _ => ?_,
      fun workerId outboxUuid ha => absurd ha (hd workerId outboxUuid)⟩
    · have hne := (List.mem_filter.mp hw).2
      simp only [decide_eq_true_eq] at hne
      rw [hr] at e
      exact hne (Option.some.inj e).symm
    · refine List.mem_filter.mpr ⟨hw, ?_⟩
      simp only [decide_eq_true_eq]
      rw [hr] at hne
      exact fun e => hne (congrArg some e.symm)
  cases action with
  | enqueue outboxUuid message =>
    simp only [Step, next] at h
    split_ifs at h
    cases h
    exact .inl (hsame rfl (by simp) rfl)
  | scan locked => cases h; exact .inl (hsame rfl (by simp) rfl)
  | markDispatched outboxUuid => cases h; exact .inl (hsame rfl (by simp) rfl)
  | releaseDispatch outboxUuid error => cases h; exact .inl (hsame rfl (by simp) rfl)
  | deliver workerId outboxUuid =>
    simp only [Step, next] at h
    split_ifs at h with hbusy hsome
    · cases h
      refine .inr ⟨⟨workerId, outboxUuid⟩, ?_⟩
      cases hf : find MailRecord.outboxUuid outboxUuid world.records with
      | none => simp [claimMail, hf] at hsome
      | some outbox =>
        have hbody : (outbox.claim settings now).2.isSome = true := by
          simpa [claimMail, hf] using hsome
        obtain hc | ⟨-, hne, ⟨hc, -⟩ | ⟨-, textBody, hc⟩⟩ :=
          MailRecord.claim_cases settings now outbox
        · simp [hc] at hbody
        · simp [hc] at hbody
        · refine ⟨outbox, find_mem hf, rfl, by simpa using hbusy, find_key hf, hne, ?_, rfl⟩
          rw [claimMail_records]
          exact List.mem_map.mpr ⟨outbox, find_mem hf, (if_pos (find_key hf)).trans (congrArg Prod.fst hc)⟩
    · cases h
      refine .inl ⟨List.Sublist.refl _, fun _ _ => by simp [reporter], fun worker hw _ _ => hw,
        fun w u ha => ?_⟩
      cases ha
      simpa using hsome
  | sent workerId providerMessageId =>
    exact .inl (hreport (f := (·.sent now providerMessageId)) rfl (by simp) h)
  | transientFailure workerId error =>
    exact .inl (hreport (f := (·.transientFailure settings now error)) rfl (by simp) h)
  | permanentFailure workerId error =>
    exact .inl (hreport (f := (·.permanentFailure now error)) rfl (by simp) h)
  | crash workerId =>
    simp only [Step, next] at h
    split_ifs at h
    cases h
    refine .inl ⟨List.filter_sublist, fun _ _ => by simp [reporter],
      fun worker hw _ hne => List.mem_filter.mpr ⟨hw, ?_⟩, by simp⟩
    simp only [decide_eq_true_eq]
    exact fun e => hne (e ▸ rfl)
  | cleanup => cases h; exact .inl (hsame rfl (by simp) rfl)
  | retry outboxUuid =>
    simp only [Step, next] at h
    split at h
    · cases h
    · split_ifs at h
      cases h
      exact .inl (hsame rfl (by simp) rfl)

/-- Only a claim makes a record processed. -/
theorem RecordStep.processing (hs : RecordStep settings world now action outbox outbox')
    (hp : outbox'.status = .processing) :
    outbox' = outbox ∧
      (∀ workerId worker, reporter action = some workerId → world.worker workerId = some worker →
        outbox.outboxUuid ≠ worker.outboxUuid) ∨
    ∃ workerId, action = .deliver workerId outbox.outboxUuid ∧
      (outbox.claim settings now).2.isSome = true := by
  have hsilent : ∀ {action}, reporter action = none → ∀ workerId worker,
      reporter action = some workerId → world.worker workerId = some worker →
        outbox.outboxUuid ≠ worker.outboxUuid := by
    intro action hn workerId worker hr
    rw [hn] at hr
    cases hr
  cases hs with
  | same hreporter => exact .inl ⟨rfl, hreporter⟩
  | scan =>
    refine .inl ⟨?_, hsilent rfl⟩
    unfold MailRecord.scan MailRecord.recover at hp ⊢
    split_ifs at hp ⊢
    · cases hp
    · cases hp
    · rfl
  | dispatch =>
    refine .inl ⟨?_, hsilent rfl⟩
    unfold MailRecord.markDispatched at hp ⊢
    split_ifs at hp ⊢
    rfl
  | release =>
    refine .inl ⟨?_, hsilent rfl⟩
    unfold MailRecord.releaseDispatch at hp ⊢
    split_ifs at hp ⊢
    rfl
  | claim =>
    obtain hc | ⟨-, -, ⟨-, -, -, hterm, -⟩ | ⟨-, textBody, hc⟩⟩ :=
      MailRecord.claim_cases settings now outbox
    · exact .inl ⟨by rw [hc], hsilent rfl⟩
    · rw [hp] at hterm
      simp [MailOutboxStatus.Terminal] at hterm
    · exact .inr ⟨_, rfl, by simp [hc]⟩
  | sent => cases hp
  | transientFailure =>
    unfold MailRecord.transientFailure at hp
    split_ifs at hp
    cases hp
  | permanentFailure => cases hp
  | retry => cases hp

theorem Held.step {action : Int × MailAction} (h : world.Held settings)
    (ha : world.Attended settings action) (hs : Step settings world action world') :
    world'.Held settings := by
  obtain ⟨now, action⟩ := action
  -- a worker that does not report still processes its record
  have hold : ∀ worker ∈ world.workers, reporter action ≠ some worker.workerId →
      ∃ outbox ∈ world.records, outbox ∈ world'.records ∧
        outbox.outboxUuid = worker.outboxUuid ∧ outbox.status = .processing := by
    intro worker hworker hquiet
    obtain ⟨outbox, hmem, e, hp⟩ := h.processing worker hworker
    obtain ⟨outbox', hmem', e'⟩ :=
      exists_of_step h.issued hs hmem (by simp [hp, MailOutboxStatus.Terminal])
    obtain ⟨u, message, -, hnew, rfl⟩ | ⟨outbox₀, hmem₀, hstep⟩ := step_record h.issued hs hmem'
    · have hissued := h.issued.issued outbox hmem
      rw [← e'] at hissued
      exact absurd hissued hnew
    · obtain rfl := h.issued.record_eq hmem₀ hmem (hstep.outboxUuid_eq.symm.trans e')
      obtain rfl : outbox' = outbox₀ := by
        refine hstep.of_processing hp (fun locked hscan => ?_) fun workerId worker' hr hw e₀ => ?_
        · subst hscan
          exact ha worker hworker outbox₀ hmem e
        · have hid := h.alone worker hworker worker' (find_mem hw) (e.symm.trans e₀)
          rw [hid, find_key hw] at hquiet
          exact hquiet hr
      exact ⟨outbox', hmem, hmem', e, hp⟩
  have hissued := h.issued.step hs
  obtain ⟨hsub, hquiet, hstay, hnone⟩ |
    ⟨worker₀, outbox₀, hmem₀, rfl, hfree, e₀, hne, hstart, hworkers⟩ := step_workers hs
  · refine ⟨hissued, h.workerIds.sublist (hsub.map _), fun worker hworker => ?_,
      fun worker hworker worker' hworker' e =>
        h.alone worker (hsub.subset hworker) worker' (hsub.subset hworker') e,
      fun outbox' hmem' hp' hmax => ?_⟩
    · obtain ⟨outbox, -, hmem', e, hp⟩ := hold worker (hsub.subset hworker) (hquiet worker hworker)
      exact ⟨outbox, hmem', e, hp⟩
    · obtain ⟨u, message, -, -, rfl⟩ | ⟨outbox, hmem, hstep⟩ := step_record h.issued hs hmem'
      · cases hp'
      · obtain ⟨rfl, hreporter⟩ | ⟨workerId, rfl, hclaim⟩ := hstep.processing hp'
        · obtain ⟨worker, hworker, e⟩ := h.exhausted outbox' hmem hp' hmax
          have hfind : world.worker worker.workerId = some worker := find_of_mem h.workerIds hworker
          refine ⟨worker, hstay worker hworker (fun hr => hreporter _ _ hr hfind e.symm) ?_, e⟩
          rintro rfl
          have hleft := ha worker hfind outbox' hmem e.symm
          omega
        · have hfind : find MailRecord.outboxUuid outbox.outboxUuid world.records = some outbox :=
            find_of_mem h.issued.uuids hmem
          have hnone' := hnone workerId _ rfl
          simp [claimMail, hfind] at hnone'
          simp [hnone'] at hclaim
  · -- a worker has claimed a record that no worker processes
    have hother : ∀ worker ∈ world.workers, worker.outboxUuid ≠ worker₀.outboxUuid :=
      fun worker hworker e => hne (h.status hworker hmem₀ (e₀.trans e.symm))
    refine ⟨hissued, ?_, fun worker hworker => ?_, fun worker hworker worker' hworker' e => ?_,
      fun outbox' hmem' hp' hmax => ?_⟩
    · rw [hworkers, List.map_cons, List.nodup_cons]
      exact ⟨find_eq_none_iff.mp hfree, h.workerIds⟩
    · rw [hworkers] at hworker
      rcases List.mem_cons.mp hworker with rfl | hworker
      · exact ⟨outbox₀.startProcessing now, hstart, e₀, rfl⟩
      · obtain ⟨outbox, -, hmem', e, hp⟩ := hold worker hworker (by simp [reporter])
        exact ⟨outbox, hmem', e, hp⟩
    · rw [hworkers] at hworker hworker'
      rcases List.mem_cons.mp hworker with he | hworker <;>
        rcases List.mem_cons.mp hworker' with he' | hworker'
      · rw [he, he']
      · rw [he] at e
        exact absurd e.symm (hother worker' hworker')
      · rw [he'] at e
        exact absurd e (hother worker hworker)
      · exact h.alone worker hworker worker' hworker' e
    · rw [hworkers]
      obtain ⟨u, message, -, -, rfl⟩ | ⟨outbox, hmem, hstep⟩ := step_record h.issued hs hmem'
      · cases hp'
      · obtain ⟨rfl, -⟩ | ⟨workerId, haction, -⟩ := hstep.processing hp'
        · obtain ⟨worker, hworker, e⟩ := h.exhausted outbox' hmem hp' hmax
          exact ⟨worker, List.mem_cons_of_mem _ hworker, e⟩
        · refine ⟨worker₀, List.mem_cons_self, ?_⟩
          injection haction with _ haction
          rw [haction, hstep.outboxUuid_eq]

theorem held_of_reachable
    (h : Reachable (· = start) (guarded (Attended settings) (Step settings)) world) :
    world.Held settings := by
  refine h.invariant ?_ fun _ _ _ hw hs => hw.step hs.1 hs.2
  rintro _ rfl
  exact ⟨⟨.nil, by simp [start]⟩, .nil, by simp [start], by simp [start], by simp [start]⟩

/-- From every reachable state with sound mails, a step keeps them exactly if
it is safe. In every run of safe steps all mails are sound and the terminal
ones keep their status: they are not claimed again and are cleaned up in the
end, and a failed one is delivered again or expires. A run in which workers
report within their lease and none is lost in a last attempt has safe steps
only. -/
theorem mails_end (settings : MailOutboxSettings) :
    (∀ world, Reachable (· = start) (Step settings) world →
      (∀ outbox ∈ world.records, outbox.Sound settings) →
      ∀ action world', Step settings world action world' →
        (Kept settings world world' ↔ world.MailSafe settings action)) ∧
    (∀ world, Reachable (· = start) (guarded (MailSafe settings) (Step settings)) world →
      (∀ outbox ∈ world.records, outbox.Sound settings ∧
        (outbox.status.Terminal → (∀ now, outbox.claim settings now = (outbox, none)) ∧
          ∃ time, ∀ now, time ≤ now → outbox.cleanable settings now = true) ∧
        (outbox.status = .failed → ∃ time, ∀ now, time ≤ now →
          outbox.isDispatchable settings now = true ∨
            (outbox.scan settings now).status = .expired)) ∧
      ∀ world', Reachable (· = world) (guarded (MailSafe settings) (Step settings)) world' →
        ∀ outbox ∈ world.records, outbox.status.Terminal → ∀ outbox' ∈ world'.records,
          outbox'.outboxUuid = outbox.outboxUuid → outbox'.status = outbox.status) ∧
    ∀ world, Reachable (· = start) (guarded (Attended settings) (Step settings)) world →
      ∀ action, Attended settings world action → world.MailSafe settings action := by
  refine ⟨fun world hreach h action world' hs => kept_iff_mailSafe hreach h hs,
    fun world hrun => ⟨fun outbox hmem => ?_, fun world' h => terminal_of_run hrun h⟩,
    fun world hrun action ha => (held_of_reachable hrun).mailSafe ha⟩
  obtain ⟨hreach, hsound⟩ := sound_of_run hrun
  exact ⟨hsound outbox hmem,
    fun hterm => ⟨fun now => MailRecord.claim_of_terminal hterm,
      (timed_of_reachable hreach outbox hmem).cleanable hterm⟩,
    fun hfailed => (hsound outbox hmem).failed_due hfailed⟩

/-! ## A lease taken in the last attempt -/

theorem reachable_of_run {actions : List (Int × MailAction)}
    (h : Reachable (· = start) (Step settings) world)
    (hrun : world.run settings actions = some world') :
    Reachable (· = start) (Step settings) world' := by
  induction actions generalizing world with
  | nil => cases hrun; exact h
  | cons action actions ih =>
    obtain ⟨world₁, hnext, hrun⟩ := Option.bind_eq_some_iff.mp hrun
    exact ih (.step (a := action) h hnext) hrun

def mailSettings : MailOutboxSettings := ⟨120, 120, 30, 1, 50, 7⟩

/-- A mail without a time of expiry is claimed in its only attempt. -/
def claimedRun : List (Int × MailAction) :=
  [(0, .enqueue "outbox" ⟨"invite", "key", "a@b.c", "subject", "body", none, none⟩),
    (1, .markDispatched "outbox"), (2, .deliver 0 "outbox")]

def claimedWorld : MailWorld := (start.run mailSettings claimedRun).getD start

/-- The scan takes the lease: the mail is failed with no attempts left. -/
def strandedWorld : MailWorld := (claimedWorld.next mailSettings 122 (.scan [])).getD start

theorem scan_strands_mail :
    start.run mailSettings (claimedRun ++ [(122, .scan [])]) = some strandedWorld ∧
      strandedWorld.records.map (fun outbox =>
        (outbox.status, outbox.attemptCount, outbox.textBody)) = [(.failed, 1, some "body")] ∧
      ¬ ∀ outbox ∈ strandedWorld.records, outbox.Sound mailSettings := by
  refine ⟨by decide, by decide, fun h => ?_⟩
  have hsound := h (strandedWorld.records.get ⟨0, by decide⟩) (by decide)
  exact absurd (hsound.failed (by decide)) (by decide)

/-- The worker reports within its lease: a safe step. -/
theorem sent_keeps_mails :
    (Kept mailSettings claimedWorld
        ((claimedWorld.next mailSettings 3 (.sent 0 (some "id"))).getD start) ↔
      claimedWorld.MailSafe mailSettings (3, .sent 0 (some "id"))) ∧
    start.MailSafe mailSettings (0, .scan []) := by
  have hreach : Reachable (· = start) (Step mailSettings) claimedWorld :=
    reachable_of_run (.start rfl)
      (show start.run mailSettings claimedRun = some claimedWorld by decide)
  have hstep : Step mailSettings claimedWorld (3, .sent 0 (some "id"))
      ((claimedWorld.next mailSettings 3 (.sent 0 (some "id"))).getD start) := by
    show claimedWorld.next mailSettings 3 (.sent 0 (some "id")) = _
    decide
  have hsound : ∀ outbox ∈ claimedWorld.records, outbox.Sound mailSettings := by
    intro outbox hmem
    have hstatus : outbox.status = .processing ∧ outbox.textBody = some "body" := by
      revert outbox
      decide
    exact ⟨by simp [hstatus, MailOutboxStatus.Terminal], by simp [hstatus]⟩
  have hend := mails_end mailSettings
  exact ⟨hend.1 claimedWorld hreach hsound _ _ hstep,
    hend.2.2 start (.start rfl) (0, .scan []) fun worker hw => (List.not_mem_nil hw).elim⟩

end MailWorld

end NoteVerse.Backend

import NoteVerse.Backend.StorageUsage
import NoteVerse.Lib.Transition

/-!
# The storage accounts add up

`Accounted` is the joint invariant of the account rows, the counter rows, the
reservations and the event ledger. Each operation is inverted once (`*_cases`:
it raises and keeps every value, or it writes back one account, one counter,
one reservation and one event), and `Accounted.write` says when such a write
keeps the invariant. `storage_accounting` is the statement about runs.
-/

namespace NoteVerse.Backend

open Table Transition

/-! ## The values of the accounts -/

namespace StorageDb

def accountUsed (db : StorageDb) (userId : UserId) : Int :=
  ((db.accounts userId).map (·.usedBytes)).getD 0

def accountReserved (db : StorageDb) (userId : UserId) : Int :=
  ((db.accounts userId).map (·.reservedBytes)).getD 0

def counterUsed (db : StorageDb) (userId : UserId) (category : StorageUsageCategory) : Int :=
  ((db.counters (userId, category)).map (·.usedBytes)).getD 0

def counterReserved (db : StorageDb) (userId : UserId) (category : StorageUsageCategory) : Int :=
  ((db.counters (userId, category)).map (·.reservedBytes)).getD 0

end StorageDb

/-- What a reservation holds of a counter. -/
def heldBy (userId : UserId) (category : StorageUsageCategory) (r : StorageUsageReservation) :
    Int :=
  if userId = r.userId ∧ category = r.category ∧ r.status = .reserved then r.bytesReserved else 0

/-- What a reservation holds of an account. -/
def quotaHeldBy (userId : UserId) (r : StorageUsageReservation) : Int :=
  if userId = r.userId ∧ r.countsTowardQuota = true ∧ r.status = .reserved then r.bytesReserved
  else 0

/-- What an event adds to a counter. -/
def deltaOf (userId : UserId) (category : StorageUsageCategory) (e : StorageUsageEvent) : Int :=
  if userId = e.userId ∧ category = e.category then e.deltaBytes else 0

/-- The joint invariant of accounts, counters, reservations and events. -/
structure Accounted (db : StorageDb) : Prop where
  uuids : (db.reservations.map (·.reservationUuid)).Nodup
  positive : ∀ r ∈ db.reservations, 0 < r.bytesReserved
  counts : ∀ r ∈ db.reservations, r.countsTowardQuota = countsTowardQuota r.category
  accounts : ∀ r ∈ db.reservations, (db.accounts r.userId).isSome
  counterReserved : ∀ u c, db.counterReserved u c = total (heldBy u c) db.reservations
  accountReserved : ∀ u, db.accountReserved u = total (quotaHeldBy u) db.reservations
  counterUsed : ∀ u c, db.counterUsed u c = total (deltaOf u c) db.events
  accountUsed : ∀ u, db.accountUsed u = (quotaCategories.map (db.counterUsed u)).sum
  counterUsed_nonneg : ∀ u c, 0 ≤ db.counterUsed u c
  limit : ∀ u account, db.accounts u = some account →
    account.usedBytes + account.reservedBytes ≤ account.quotaLimitBytes

/-- Two states of the tables with the same values. -/
structure SameUsage (db db' : StorageDb) : Prop where
  accountUsed : ∀ u, db'.accountUsed u = db.accountUsed u
  accountReserved : ∀ u, db'.accountReserved u = db.accountReserved u
  counterUsed : ∀ u c, db'.counterUsed u c = db.counterUsed u c
  counterReserved : ∀ u c, db'.counterReserved u c = db.counterReserved u c
  reservations : db'.reservations = db.reservations
  events : db'.events = db.events

/-! ## Saving the rows of a user -/

section Save

variable (db : StorageDb) (u v : UserId) (c d : StorageUsageCategory)
  (account : StorageUsageAccount) (counter : StorageUsageCounter)

@[simp] theorem save_reservations : (db.save u c account counter).reservations = db.reservations :=
  rfl

@[simp] theorem save_events : (db.save u c account counter).events = db.events := rfl

@[simp] theorem save_policies : (db.save u c account counter).policies = db.policies := rfl

@[simp] theorem save_reservation (uuid : String) :
    (db.save u c account counter).reservation uuid = db.reservation uuid := rfl

@[simp] theorem save_save (account' : StorageUsageAccount) (counter' : StorageUsageCounter) :
    (db.save u c account counter).save u c account' counter' = db.save u c account' counter' := by
  simp only [StorageDb.save, Function.update_idem]

theorem save_accounts : (db.save u c account counter).accounts v =
    if v = u then some account else db.accounts v := by
  show Function.update _ _ _ _ = _
  rw [Function.update_apply]

theorem save_counters : (db.save u c account counter).counters (v, d) =
    if v = u ∧ d = c then some counter else db.counters (v, d) := by
  show Function.update _ _ _ _ = _
  rw [Function.update_apply]
  simp only [Prod.mk.injEq]

theorem save_accountUsed : (db.save u c account counter).accountUsed v =
    if v = u then account.usedBytes else db.accountUsed v := by
  simp only [StorageDb.accountUsed, save_accounts]
  split_ifs <;> rfl

theorem save_accountReserved : (db.save u c account counter).accountReserved v =
    if v = u then account.reservedBytes else db.accountReserved v := by
  simp only [StorageDb.accountReserved, save_accounts]
  split_ifs <;> rfl

theorem save_counterUsed : (db.save u c account counter).counterUsed v d =
    if v = u ∧ d = c then counter.usedBytes else db.counterUsed v d := by
  simp only [StorageDb.counterUsed, save_counters]
  split_ifs <;> rfl

theorem save_counterReserved : (db.save u c account counter).counterReserved v d =
    if v = u ∧ d = c then counter.reservedBytes else db.counterReserved v d := by
  simp only [StorageDb.counterReserved, save_counters]
  split_ifs <;> rfl

end Save

/-- The account and the counter that an operation works on: the rows of the
user, or new rows of zero bytes. -/
structure Opened (db : StorageDb) (userId : UserId) (category : StorageUsageCategory)
    (account : StorageUsageAccount) (counter : StorageUsageCounter) : Prop where
  accountUsed : account.usedBytes = db.accountUsed userId
  accountReserved : account.reservedBytes = db.accountReserved userId
  counterUsed : counter.usedBytes = db.counterUsed userId category
  counterReserved : counter.reservedBytes = db.counterReserved userId category
  limit : db.accounts userId = some account ∨
    db.accounts userId = none ∧ 0 ≤ account.quotaLimitBytes

variable {db db' : StorageDb} {u : UserId} {c : StorageUsageCategory}
  {account : StorageUsageAccount} {counter : StorageUsageCounter} {uuid : String}
  {request : UsageRequest} {r : Except StorageError Unit} {object : StorageObject}
  {row : StorageUsageReservation}

theorem Opened.sameUsage (h : Opened db u c account counter) :
    SameUsage db (db.save u c account counter) where
  accountUsed v := by
    rw [save_accountUsed]
    split_ifs with hv
    · rw [h.accountUsed, hv]
    · rfl
  accountReserved v := by
    rw [save_accountReserved]
    split_ifs with hv
    · rw [h.accountReserved, hv]
    · rfl
  counterUsed v d := by
    rw [save_counterUsed]
    split_ifs with hv
    · rw [h.counterUsed, hv.1, hv.2]
    · rfl
  counterReserved v d := by
    rw [save_counterReserved]
    split_ifs with hv
    · rw [h.counterReserved, hv.1, hv.2]
    · rfl
  reservations := rfl
  events := rfl

theorem SameUsage.refl (db : StorageDb) : SameUsage db db :=
  ⟨fun _ => rfl, fun _ => rfl, fun _ _ => rfl, fun _ _ => rfl, rfl, rfl⟩

/-- The tables are as they were, or have new rows of zero bytes for a user. -/
def Kept (db db' : StorageDb) : Prop :=
  db' = db ∨ ∃ u c account counter, Opened db u c account counter ∧
    db' = db.save u c account counter

theorem Kept.sameUsage (h : Kept db db') : SameUsage db db' := by
  rcases h with rfl | ⟨u, c, account, counter, ho, rfl⟩
  · exact .refl _
  · exact ho.sameUsage

theorem ensureAccount_cases {r : Except StorageError _} (h : (ensureAccount u).run db = (r, db')) :
    (∃ e, r = .error e ∧ db' = db) ∨ ∃ account, r = .ok account ∧
      db' = { db with accounts := Function.update db.accounts u (some account) } ∧
      (db.accounts u = some account ∨ db.accounts u = none ∧ account.usedBytes = 0 ∧
        account.reservedBytes = 0 ∧ 0 ≤ account.quotaLimitBytes) := by
  simp only [ensureAccount, requireDefaultPolicy, Session.run_get_bind] at h
  cases ha : db.accounts u with
  | some account =>
    simp only [ha, Session.run_pure] at h
    cases h
    refine .inr ⟨account, rfl, ?_, .inl rfl⟩
    rw [Function.update_eq_self_iff.mpr ha.symm]
  | none =>
    simp only [ha] at h
    cases hp : db.policies defaultPlanCode with
    | none =>
      simp only [bind_assoc, Session.run_get_bind, hp, Session.run_raise_bind] at h
      cases h
      exact .inl ⟨_, rfl, rfl⟩
    | some quotaLimitBytes =>
      simp only [bind_assoc, Session.run_get_bind, hp, pure_bind] at h
      split_ifs at h with hneg
      · cases h
        exact .inl ⟨_, rfl, rfl⟩
      · cases h
        exact .inr ⟨_, rfl, rfl, .inr ⟨rfl, rfl, rfl, by simpa using hneg⟩⟩

theorem ensureCounter_run (db : StorageDb) (u : UserId) (c : StorageUsageCategory) :
    ∃ counter, (ensureCounter u c).run db =
        (.ok counter, { db with counters := Function.update db.counters (u, c) (some counter) }) ∧
      counter.usedBytes = db.counterUsed u c ∧ counter.reservedBytes = db.counterReserved u c := by
  simp only [ensureCounter, Session.run_get_bind, StorageDb.counterUsed, StorageDb.counterReserved]
  cases hc : db.counters (u, c) with
  | some counter =>
    refine ⟨counter, ?_, rfl, rfl⟩
    rw [Function.update_eq_self_iff.mpr hc.symm, Session.run_pure]
  | none => exact ⟨⟨0, 0⟩, rfl, rfl, rfl⟩

/-- The two calls that open every operation: they raise and change nothing, or
they save rows with the values of the user. -/
theorem ensure_cases {α : Type} {f : StorageUsageAccount → StorageUsageCounter → StorageSession α}
    {r : Except StorageError α}
    (h : (do f (← ensureAccount u) (← ensureCounter u c) : StorageSession α).run db = (r, db')) :
    (∃ e, r = .error e ∧ db' = db) ∨ ∃ account counter, Opened db u c account counter ∧
      (f account counter).run (db.save u c account counter) = (r, db') := by
  rcases Session.run_bind_cases h with ⟨account, s₁, ha, h⟩ | ⟨e, ha, rfl⟩
  · obtain ⟨e, he, -⟩ | ⟨account', he, rfl, hlimit⟩ := ensureAccount_cases ha
    · cases he
    cases he
    obtain ⟨counter, hc, hused, hreserved⟩ := ensureCounter_run
      { db with accounts := Function.update db.accounts u (some account) } u c
    rw [Session.run_bind_of_ok hc] at h
    refine .inr ⟨account, counter, ?_, h⟩
    rcases hlimit with hlimit | ⟨hnone, hu, hr, hlimit⟩
    · exact ⟨by simp [StorageDb.accountUsed, hlimit], by simp [StorageDb.accountReserved, hlimit],
        hused, hreserved, .inl hlimit⟩
    · exact ⟨by simp [StorageDb.accountUsed, hnone, hu],
        by simp [StorageDb.accountReserved, hnone, hr], hused, hreserved, .inr ⟨hnone, hlimit⟩⟩
  · obtain ⟨e', he, rfl⟩ | ⟨account', he, -⟩ := ensureAccount_cases ha
    · exact .inl ⟨e, rfl, rfl⟩
    · cases he

/-! ## What each operation does -/

/-- The account of a user with a hold of `bytes`, if the category counts. -/
def holdAccount (counts : Bool) (bytes : Int) (account : StorageUsageAccount) :
    StorageUsageAccount :=
  if counts then { account with reservedBytes := account.reservedBytes + bytes } else account

theorem applyReservationHold_cases (account : StorageUsageAccount) (counter : StorageUsageCounter)
    (bytes : Int) (counts : Bool) :
    (∃ e, applyReservationHold account counter bytes counts = .error e) ∨
      applyReservationHold account counter bytes counts = .ok (holdAccount counts bytes account,
        { counter with reservedBytes := counter.reservedBytes + bytes }) ∧
      (counts = true → account.usedBytes + account.reservedBytes + bytes ≤
        account.quotaLimitBytes) := by
  unfold applyReservationHold assertQuotaAvailable holdAccount
  cases counts with
  | false => exact .inr ⟨rfl, by simp⟩
  | true =>
    by_cases hq : account.usedBytes + account.reservedBytes + bytes ≤ account.quotaLimitBytes
    · rw [if_pos rfl, if_pos hq]
      exact .inr ⟨rfl, fun _ => hq⟩
    · rw [if_pos rfl, if_neg hq]
      exact .inl ⟨_, rfl⟩

theorem addReservation_run (start db : StorageDb) (reservation : StorageUsageReservation) :
    (addReservation start reservation).run db =
      if (db.reservation reservation.reservationUuid).isSome then (.error .integrity, start)
      else (.ok (), { db with reservations := db.reservations ++ [reservation] }) := by
  simp only [addReservation, Session.run_get_bind]
  split_ifs <;> rfl

theorem reserve_cases {r : Except StorageError StorageReservationHandle}
    (h : (reserve uuid request).run db = (r, db')) :
    (∃ e, r = .error e ∧ Kept db db') ∨ ∃ account counter,
      Opened db request.userId request.category account counter ∧
      r = .ok ⟨uuid, request.bytesCount⟩ ∧ 0 < request.bytesCount ∧ db.reservation uuid = none ∧
      (countsTowardQuota request.category = true →
        account.usedBytes + account.reservedBytes + request.bytesCount ≤
          account.quotaLimitBytes) ∧
      db' = { db.save request.userId request.category
          (holdAccount (countsTowardQuota request.category) request.bytesCount account)
          { counter with reservedBytes := counter.reservedBytes + request.bytesCount } with
        reservations := db.reservations ++ [newReservation uuid request.userId request.category
          request.bytesCount (countsTowardQuota request.category) request.reason
          request.object] } := by
  unfold reserve at h
  split_ifs at h with hb
  · cases h
    exact .inl ⟨_, rfl, .inl rfl⟩
  simp only [Session.run_get_bind] at h
  obtain ⟨e, rfl, rfl⟩ | ⟨account, counter, ho, h⟩ := ensure_cases h
  · exact .inl ⟨e, rfl, .inl rfl⟩
  obtain ⟨e, he⟩ | ⟨he, hq⟩ := applyReservationHold_cases account counter request.bytesCount
    (countsTowardQuota request.category)
  · rw [he, Session.run_lift_error_bind] at h
    cases h
    exact .inl ⟨e, rfl, .inr ⟨_, _, _, _, ho, rfl⟩⟩
  · rw [he, Session.run_lift_ok_bind] at h
    simp only [Session.run_modify_bind, save_save] at h
    rcases Session.run_bind_cases h with ⟨⟨⟩, s₁, ha, h⟩ | ⟨e, ha, rfl⟩
    · rw [addReservation_run] at ha
      split_ifs at ha with hdup
      · cases ha
      · cases ha
        cases h
        exact .inr ⟨account, counter, ho, rfl, by omega,
          by simpa [newReservation] using hdup, hq, rfl⟩
    · rw [addReservation_run] at ha
      split_ifs at ha with hdup
      · cases ha
        exact .inl ⟨_, rfl, .inl rfl⟩
      · cases ha

/-- The reservation of a uuid that is committed or released: the rows that
`f` changes are written back. -/
theorem commitReservation_cases (h : (commitReservation uuid object).run db = (r, db')) :
    Kept db db' ∨
    ∃ reservation account counter, db.reservation uuid = some reservation ∧
      reservation.status = .reserved ∧
      Opened db reservation.userId reservation.category account counter ∧ r = .ok () ∧
      db' = ((db.save reservation.userId reservation.category
          (commitReservedUsage account counter reservation object).1
          (commitReservedUsage account counter reservation object).2.1).saveReservation
          (commitReservedUsage account counter reservation object).2.2).addEvent
        ⟨reservation.userId, reservation.category, reservation.bytesReserved,
          reservation.countsTowardQuota, reservation.reason,
          (commitReservedUsage account counter reservation object).2.2.object⟩ := by
  simp only [commitReservation, Session.run_get_bind] at h
  cases hr : db.reservation uuid with
  | none =>
    simp only [hr, Session.run_raise] at h
    cases h
    exact .inl (.inl rfl)
  | some reservation =>
    simp only [hr] at h
    split_ifs at h with hs
    · cases h
      exact .inl (.inl rfl)
    rw [ne_eq, not_not] at hs
    obtain ⟨e, rfl, rfl⟩ | ⟨account, counter, ho, h⟩ := ensure_cases h
    · exact .inl (.inl rfl)
    simp only [commitReservedUsage, Session.run_modify, save_save] at h
    cases h
    exact .inr ⟨reservation, account, counter, rfl, hs, ho, rfl, rfl⟩

theorem releaseReservation_cases (h : (releaseReservation uuid).run db = (r, db')) :
    Kept db db' ∨
    ∃ reservation account counter, db.reservation uuid = some reservation ∧
      reservation.status = .reserved ∧
      Opened db reservation.userId reservation.category account counter ∧ r = .ok () ∧
      db' = (db.save reservation.userId reservation.category
          (releaseReservedUsage account counter reservation).1
          (releaseReservedUsage account counter reservation).2.1).saveReservation
          (releaseReservedUsage account counter reservation).2.2 := by
  simp only [releaseReservation, Session.run_get_bind] at h
  cases hr : db.reservation uuid with
  | none =>
    simp only [hr, Session.run_pure] at h
    cases h
    exact .inl (.inl rfl)
  | some reservation =>
    simp only [hr] at h
    split_ifs at h with hs
    · cases h
      exact .inl (.inl rfl)
    rw [ne_eq, not_not] at hs
    obtain ⟨e, rfl, rfl⟩ | ⟨account, counter, ho, h⟩ := ensure_cases h
    · exact .inl (.inl rfl)
    simp only [releaseReservedUsage, Session.run_modify, save_save] at h
    cases h
    exact .inr ⟨reservation, account, counter, rfl, hs, ho, rfl, rfl⟩

theorem recordRelease_cases (h : (recordRelease request).run db = (r, db')) :
    Kept db db' ∨
    ∃ account counter, Opened db request.userId request.category account counter ∧
      r = .ok () ∧ 0 < request.bytesCount ∧
      db' = (db.save request.userId request.category
          (releaseUsedUsage account counter request.bytesCount
            (countsTowardQuota request.category)).1
          (releaseUsedUsage account counter request.bytesCount
            (countsTowardQuota request.category)).2.1).addEvent
        ⟨request.userId, request.category, -min request.bytesCount counter.usedBytes,
          countsTowardQuota request.category, request.reason, request.object⟩ := by
  unfold recordRelease at h
  split_ifs at h with hb
  · cases h
    exact .inl (.inl rfl)
  obtain ⟨e, rfl, rfl⟩ | ⟨account, counter, ho, h⟩ := ensure_cases h
  · exact .inl (.inl rfl)
  simp only [releaseUsedUsage, Session.run_modify, save_save] at h
  cases h
  exact .inr ⟨account, counter, ho, rfl, by omega, rfl⟩

/-! ## The invariant -/

theorem Accounted.accountReserved_nonneg (h : Accounted db) (u : UserId) :
    0 ≤ db.accountReserved u := by
  rw [h.accountReserved]
  refine total_nonneg fun r hr => ?_
  have hpos := h.positive r hr
  unfold quotaHeldBy
  split_ifs <;> omega

theorem Accounted.counterReserved_nonneg (h : Accounted db) (u : UserId)
    (c : StorageUsageCategory) : 0 ≤ db.counterReserved u c := by
  rw [h.counterReserved]
  refine total_nonneg fun r hr => ?_
  have hpos := h.positive r hr
  unfold heldBy
  split_ifs <;> omega

/-- The sum over the quota categories, counter by counter. -/
theorem sum_quotaCategories (f : StorageUsageCategory → Int) :
    (quotaCategories.map f).sum = f .source + (f .upload + f .inputAsset) := by
  simp [quotaCategories]

theorem Accounted.accountUsed_nonneg (h : Accounted db) (u : UserId) : 0 ≤ db.accountUsed u := by
  have h₁ := h.counterUsed_nonneg u .source
  have h₂ := h.counterUsed_nonneg u .upload
  have h₃ := h.counterUsed_nonneg u .inputAsset
  rw [h.accountUsed, sum_quotaCategories]
  omega

/-- The used bytes of the account are at least those of a quota counter. -/
theorem Accounted.counterUsed_le (h : Accounted db) (u : UserId) (hc : countsTowardQuota c = true) :
    db.counterUsed u c ≤ db.accountUsed u := by
  have h₁ := h.counterUsed_nonneg u .source
  have h₂ := h.counterUsed_nonneg u .upload
  have h₃ := h.counterUsed_nonneg u .inputAsset
  rw [h.accountUsed, sum_quotaCategories]
  cases c <;> simp [countsTowardQuota, quotaCategories] at hc <;> omega

theorem Accounted.limit_of_opened (h : Accounted db) (ho : Opened db u c account counter) :
    account.usedBytes + account.reservedBytes ≤ account.quotaLimitBytes := by
  rcases ho.limit with hrow | ⟨hnone, hlimit⟩
  · exact h.limit u account hrow
  · rw [ho.accountUsed, ho.accountReserved]
    simpa [StorageDb.accountUsed, StorageDb.accountReserved, hnone] using hlimit

/-- Writing back an account, a counter, the reservations and the events keeps
the invariant if the values move by what the reservations and events say. -/
theorem Accounted.write (h : Accounted db) {account' : StorageUsageAccount}
    {counter' : StorageUsageCounter} (ho : Opened db u c account counter)
    (haccounts : db'.accounts = (db.save u c account' counter').accounts)
    (hcounters : db'.counters = (db.save u c account' counter').counters)
    (huuids : (db'.reservations.map (·.reservationUuid)).Nodup)
    (hrows : ∀ r ∈ db'.reservations, 0 < r.bytesReserved ∧
      r.countsTowardQuota = countsTowardQuota r.category ∧
      (r.userId = u ∨ (db.accounts r.userId).isSome))
    (hheld : ∀ v d, total (heldBy v d) db'.reservations = total (heldBy v d) db.reservations +
      if v = u ∧ d = c then counter'.reservedBytes - counter.reservedBytes else 0)
    (hquota : ∀ v, total (quotaHeldBy v) db'.reservations = total (quotaHeldBy v) db.reservations +
      if v = u then account'.reservedBytes - account.reservedBytes else 0)
    (hdelta : ∀ v d, total (deltaOf v d) db'.events = total (deltaOf v d) db.events +
      if v = u ∧ d = c then counter'.usedBytes - counter.usedBytes else 0)
    (hused : account'.usedBytes - account.usedBytes =
      if countsTowardQuota c then counter'.usedBytes - counter.usedBytes else 0)
    (hnonneg : 0 ≤ counter'.usedBytes)
    (hlimit : account'.usedBytes + account'.reservedBytes ≤ account'.quotaLimitBytes) :
    Accounted db' := by
  have eAU : ∀ v, db'.accountUsed v = if v = u then account'.usedBytes else db.accountUsed v := by
    intro v
    rw [← save_accountUsed db u v c account' counter', StorageDb.accountUsed, haccounts]; rfl
  have eAR : ∀ v, db'.accountReserved v =
      if v = u then account'.reservedBytes else db.accountReserved v := by
    intro v
    rw [← save_accountReserved db u v c account' counter', StorageDb.accountReserved, haccounts]; rfl
  have eCU : ∀ v d, db'.counterUsed v d =
      if v = u ∧ d = c then counter'.usedBytes else db.counterUsed v d := by
    intro v d
    rw [← save_counterUsed db u v c d account' counter', StorageDb.counterUsed, hcounters]; rfl
  have eCR : ∀ v d, db'.counterReserved v d =
      if v = u ∧ d = c then counter'.reservedBytes else db.counterReserved v d := by
    intro v d
    rw [← save_counterReserved db u v c d account' counter', StorageDb.counterReserved,
      hcounters]; rfl
  refine ⟨huuids, fun r hr => (hrows r hr).1, fun r hr => (hrows r hr).2.1, fun r hr => ?_,
    fun v d => ?_, fun v => ?_, fun v d => ?_, fun v => ?_, fun v d => ?_, fun v a ha => ?_⟩
  · rw [haccounts, save_accounts]
    split_ifs with hv
    · rfl
    · exact (hrows r hr).2.2.resolve_left hv
  · rw [eCR, hheld, ← h.counterReserved v d]
    split_ifs with hv
    · rw [hv.1, hv.2, ho.counterReserved]; omega
    · omega
  · rw [eAR, hquota, ← h.accountReserved v]
    split_ifs with hv
    · rw [hv, ho.accountReserved]; omega
    · omega
  · rw [eCU, hdelta, ← h.counterUsed v d]
    split_ifs with hv
    · rw [hv.1, hv.2, ho.counterUsed]; omega
    · omega
  · have hold := h.accountUsed v
    rw [sum_quotaCategories] at hold ⊢
    rw [eAU, eCU, eCU, eCU]
    have hau := ho.accountUsed
    have hcu := ho.counterUsed
    by_cases hv : v = u
    · subst hv
      cases c <;> simp [countsTowardQuota, quotaCategories] at hused ⊢ <;> omega
    · simp [hv, hold]
  · rw [eCU]
    split_ifs
    · exact hnonneg
    · exact h.counterUsed_nonneg v d
  · rw [haccounts, save_accounts] at ha
    split_ifs at ha with hv
    · cases ha; exact hlimit
    · exact h.limit v a ha

/-! ## Each operation keeps the invariant -/

theorem Kept.accounted (hk : Kept db db') (h : Accounted db) : Accounted db' := by
  rcases hk with rfl | ⟨u, c, account, counter, ho, rfl⟩
  · exact h
  refine h.write ho rfl rfl h.uuids (fun r hr => ⟨h.positive r hr, h.counts r hr,
    .inr (h.accounts r hr)⟩) ?_ ?_ ?_ ?_ ?_ (h.limit_of_opened ho)
  · simp
  · simp
  · simp
  · simp
  · rw [ho.counterUsed]; exact h.counterUsed_nonneg u c

theorem holdAccount_reservedBytes (counts : Bool) (bytes : Int) (account : StorageUsageAccount) :
    (holdAccount counts bytes account).reservedBytes =
      account.reservedBytes + if counts then bytes else 0 := by
  unfold holdAccount
  split_ifs <;> simp

theorem reserve_accounted {r : Except StorageError StorageReservationHandle} (h : Accounted db)
    (hr : (reserve uuid request).run db = (r, db')) : Accounted db' := by
  obtain ⟨e, -, hk⟩ | ⟨account, counter, ho, -, hpos, hnew, hq, rfl⟩ := reserve_cases hr
  · exact hk.accounted h
  have hlimit := h.limit_of_opened ho
  have hheld : ∀ v d, heldBy v d (newReservation uuid request.userId request.category
      request.bytesCount (countsTowardQuota request.category) request.reason request.object) =
      if v = request.userId ∧ d = request.category then request.bytesCount else 0 := fun v d => by
    simp [heldBy, newReservation]
  have hquota : ∀ v, quotaHeldBy v (newReservation uuid request.userId request.category
      request.bytesCount (countsTowardQuota request.category) request.reason request.object) =
      if v = request.userId ∧ countsTowardQuota request.category = true then request.bytesCount
      else 0 := fun v => by simp [quotaHeldBy, newReservation]
  refine h.write ho rfl rfl ?_ ?_ ?_ ?_ ?_ ?_ ?_ ?_
  · show ((db.reservations ++ [_]).map _).Nodup
    rw [List.map_append, List.nodup_append]
    refine ⟨h.uuids, by simp, ?_⟩
    rintro k hk _ hk' rfl
    obtain rfl := List.mem_singleton.mp hk'
    exact find_eq_none_iff.mp hnew hk
  · intro row hrow
    rcases List.mem_append.mp hrow with hrow | hrow
    · exact ⟨h.positive row hrow, h.counts row hrow, .inr (h.accounts row hrow)⟩
    · obtain rfl := List.mem_singleton.mp hrow
      exact ⟨hpos, rfl, .inl rfl⟩
  · intro v d
    show total _ (db.reservations ++ [_]) = _
    rw [total_append, total_cons, total_nil, hheld]
    split_ifs <;> simp
  · intro v
    show total _ (db.reservations ++ [_]) = _
    rw [total_append, total_cons, total_nil, hquota, holdAccount_reservedBytes]
    split_ifs <;> simp_all
  · simp
  · unfold holdAccount
    split_ifs <;> simp
  · show 0 ≤ counter.usedBytes
    rw [ho.counterUsed]
    exact h.counterUsed_nonneg _ _
  · unfold holdAccount
    split_ifs with hcounts
    · have hq' := hq hcounts
      simp only
      omega
    · exact hlimit

/-- The totals after a held reservation is settled: the row is replaced by one
that holds nothing. -/
theorem total_settled (h : Accounted db) (row' : StorageUsageReservation)
    (hf : db.reservation uuid = some row) (hs : row.status = .reserved)
    (hs' : row'.status ≠ .reserved) (hid : row'.reservationUuid = row.reservationUuid) :
    (∀ v d, total (heldBy v d) (db.saveReservation row').reservations =
      total (heldBy v d) db.reservations +
        if v = row.userId ∧ d = row.category then -row.bytesReserved else 0) ∧
    ∀ v, total (quotaHeldBy v) (db.saveReservation row').reservations =
      total (quotaHeldBy v) db.reservations +
        if v = row.userId ∧ row.countsTowardQuota = true then -row.bytesReserved else 0 := by
  have hkey := find_key hf
  have hupdate : ∀ weight : StorageUsageReservation → Int,
      total weight (db.saveReservation row').reservations =
        total weight db.reservations - weight row + weight row' := fun weight => by
    rw [StorageDb.saveReservation, hid, hkey]
    exact total_update h.uuids hf
  refine ⟨fun v d => ?_, fun v => ?_⟩
  · rw [hupdate]
    simp only [heldBy, hs, hs', and_true, and_false, if_false]
    split_ifs <;> omega
  · rw [hupdate]
    simp only [quotaHeldBy, hs, hs', and_true, and_false, if_false]
    split_ifs <;> omega

/-- The rows after a reservation is settled. -/
theorem rows_settled (h : Accounted db) (row' : StorageUsageReservation)
    (hf : db.reservation uuid = some row) (hid : row'.reservationUuid = row.reservationUuid)
    (hbytes : row'.bytesReserved = row.bytesReserved)
    (hcounts : row'.countsTowardQuota = row.countsTowardQuota) (hcat : row'.category = row.category)
    (huser : row'.userId = row.userId) :
    ((db.saveReservation row').reservations.map (·.reservationUuid)).Nodup ∧
    ∀ r ∈ (db.saveReservation row').reservations, 0 < r.bytesReserved ∧
      r.countsTowardQuota = countsTowardQuota r.category ∧
      (r.userId = row.userId ∨ (db.accounts r.userId).isSome) := by
  have hrow := find_mem hf
  refine ⟨?_, fun r hr => ?_⟩
  · rw [StorageDb.saveReservation, map_key_update fun _ _ => rfl]
    exact h.uuids
  · rcases mem_update hr with ⟨hr, -⟩ | ⟨_, -, -, rfl⟩
    · exact ⟨h.positive r hr, h.counts r hr, .inr (h.accounts r hr)⟩
    · rw [hbytes, hcounts, hcat, huser]
      exact ⟨h.positive row hrow, h.counts row hrow, .inl rfl⟩

theorem commitReservation_accounted (h : Accounted db)
    (hr : (commitReservation uuid object).run db = (r, db')) : Accounted db' := by
  obtain hk | ⟨row, account, counter, hf, hs, ho, -, rfl⟩ := commitReservation_cases hr
  · exact hk.accounted h
  have hpos := h.positive row (find_mem hf)
  have hcounts := h.counts row (find_mem hf)
  have hlimit := h.limit_of_opened ho
  have htotal := total_settled h (commitReservedUsage account counter row object).2.2 hf hs
    (by simp [commitReservedUsage]) rfl
  have hrows := rows_settled h (commitReservedUsage account counter row object).2.2 hf
    rfl rfl rfl rfl rfl
  refine h.write ho rfl rfl hrows.1 hrows.2 (fun v d => (htotal.1 v d).trans ?_)
    (fun v => (htotal.2 v).trans ?_) (fun v d => ?_) ?_ ?_ ?_
  · simp [commitReservedUsage]
  · cases hq : row.countsTowardQuota <;> simp [commitReservedUsage, hq]
  · show total _ (db.events ++ [_]) = _
    simp [deltaOf, commitReservedUsage]
  · cases hq : row.countsTowardQuota <;> simp [commitReservedUsage, ← hcounts, hq]
  · have hused := h.counterUsed_nonneg row.userId row.category
    rw [← ho.counterUsed] at hused
    simp only [commitReservedUsage]
    omega
  · cases hq : row.countsTowardQuota <;> simp [commitReservedUsage, hq] <;> omega

theorem releaseReservation_accounted (h : Accounted db)
    (hr : (releaseReservation uuid).run db = (r, db')) : Accounted db' := by
  obtain hk | ⟨row, account, counter, hf, hs, ho, -, rfl⟩ := releaseReservation_cases hr
  · exact hk.accounted h
  have hpos := h.positive row (find_mem hf)
  have hlimit := h.limit_of_opened ho
  have htotal := total_settled h (releaseReservedUsage account counter row).2.2 hf hs
    (by simp [releaseReservedUsage]) rfl
  have hrows := rows_settled h (releaseReservedUsage account counter row).2.2 hf
    rfl rfl rfl rfl rfl
  refine h.write ho rfl rfl hrows.1 hrows.2 (fun v d => (htotal.1 v d).trans ?_)
    (fun v => (htotal.2 v).trans ?_) (fun v d => ?_) ?_ ?_ ?_
  · simp [releaseReservedUsage]
  · cases hq : row.countsTowardQuota <;> simp [releaseReservedUsage, hq]
  · simp [releaseReservedUsage, StorageDb.saveReservation]
  · cases hq : row.countsTowardQuota <;> simp [releaseReservedUsage, hq]
  · rw [releaseReservedUsage, ho.counterUsed]
    exact h.counterUsed_nonneg _ _
  · cases hq : row.countsTowardQuota <;> simp [releaseReservedUsage, hq] <;> omega

/-- Neither release is clipped at zero: the counter and, for a quota category,
the account have the bytes released. -/
theorem recordRelease_accounted (h : Accounted db)
    (hr : (recordRelease request).run db = (r, db')) : Accounted db' := by
  obtain hk | ⟨account, counter, ho, -, hpos, rfl⟩ := recordRelease_cases hr
  · exact hk.accounted h
  have hlimit := h.limit_of_opened ho
  have hused := h.counterUsed_nonneg request.userId request.category
  have haccount := h.accountUsed_nonneg request.userId
  have hle := h.counterUsed_le request.userId (c := request.category)
  rw [← ho.counterUsed] at hused hle
  rw [← ho.accountUsed] at haccount hle
  refine h.write ho rfl rfl h.uuids (fun row hrow => ⟨h.positive row hrow, h.counts row hrow,
    .inr (h.accounts row hrow)⟩) (fun v d => ?_) (fun v => ?_) (fun v d => ?_) ?_ ?_ ?_
  · simp [releaseUsedUsage, StorageDb.addEvent]
  · cases hq : countsTowardQuota request.category <;>
      simp [releaseUsedUsage, StorageDb.addEvent]
  · show total _ (db.events ++ [_]) = _
    simp only [total_append, total_cons, total_nil, deltaOf, releaseUsedUsage]
    split_ifs <;> omega
  · cases hq : countsTowardQuota request.category
    · simp [releaseUsedUsage]
    · have hle' := hle hq
      simp only [releaseUsedUsage, if_true]
      omega
  · simp only [releaseUsedUsage]
    omega
  · cases hq : countsTowardQuota request.category
    · exact hlimit
    · have hle' := hle hq
      simp only [releaseUsedUsage, if_true]
      omega

/-! ## A settled reservation stays as it is -/

theorem Kept.mem_reservations (hk : Kept db db') (h : row ∈ db.reservations) :
    row ∈ db'.reservations := by
  rw [hk.sameUsage.reservations]
  exact h

/-- Writing back a reserved row leaves the rows that are not. -/
theorem mem_saveReservation (h : Accounted db) {row₀ row' : StorageUsageReservation}
    (hf : db.reservation uuid = some row₀) (hs : row₀.status = .reserved)
    (hid : row'.reservationUuid = row₀.reservationUuid) (hrow : row ∈ db.reservations)
    (hsettled : row.status ≠ .reserved) : row ∈ (db.saveReservation row').reservations := by
  refine mem_update_of_ne hrow fun hkey => hsettled ?_
  rw [List.inj_on_of_nodup_map h.uuids hrow (find_mem hf) (hkey.trans hid), hs]

theorem commitReservation_settled (h : Accounted db)
    (hr : (commitReservation uuid object).run db = (r, db')) (hrow : row ∈ db.reservations)
    (hsettled : row.status ≠ .reserved) : row ∈ db'.reservations := by
  obtain hk | ⟨row₀, account, counter, hf, hs, -, -, rfl⟩ := commitReservation_cases hr
  · exact hk.mem_reservations hrow
  · exact mem_saveReservation h hf hs rfl hrow hsettled

theorem releaseReservation_settled (h : Accounted db)
    (hr : (releaseReservation uuid).run db = (r, db')) (hrow : row ∈ db.reservations)
    (hsettled : row.status ≠ .reserved) : row ∈ db'.reservations := by
  obtain hk | ⟨row₀, account, counter, hf, hs, -, -, rfl⟩ := releaseReservation_cases hr
  · exact hk.mem_reservations hrow
  · exact mem_saveReservation h hf hs rfl hrow hsettled

theorem reserve_mem {r : Except StorageError StorageReservationHandle}
    (hr : (reserve uuid request).run db = (r, db')) (hrow : row ∈ db.reservations) :
    row ∈ db'.reservations := by
  obtain ⟨e, -, hk⟩ | ⟨account, counter, -, -, -, -, -, rfl⟩ := reserve_cases hr
  · exact hk.mem_reservations hrow
  · exact List.mem_append_left _ hrow

theorem recordRelease_mem (hr : (recordRelease request).run db = (r, db'))
    (hrow : row ∈ db.reservations) : row ∈ db'.reservations := by
  obtain hk | ⟨account, counter, -, -, -, rfl⟩ := recordRelease_cases hr
  · exact hk.mem_reservations hrow
  · exact hrow

/-! ## Allocation -/

/-- A reservation of a user with an account is committed without an exception. -/
theorem commitReservation_ok (hf : db.reservation uuid = some row)
    (ha : (db.accounts row.userId).isSome) (object : StorageObject) :
    ((commitReservation uuid object).run db).1 = .ok () := by
  obtain ⟨account, ha⟩ := Option.isSome_iff_exists.mp ha
  obtain ⟨counter, hc, -⟩ := ensureCounter_run db row.userId row.category
  have haccount : (ensureAccount row.userId).run db = (.ok account, db) := by
    simp only [ensureAccount, Session.run_get_bind, ha, Session.run_pure]
  simp only [commitReservation, Session.run_get_bind, hf]
  split_ifs
  · rfl
  · rw [Session.run_bind_of_ok haccount, Session.run_bind_of_ok hc]
    rfl

/-- An allocation raises before it holds anything, or reserves and commits. -/
theorem recordAllocation_cases (h : Accounted db)
    (hr : (recordAllocation uuid request).run db = (r, db')) :
    (∃ e, r = .error e ∧ Kept db db') ∨ (r = .ok () ∧ request.bytesCount ≤ 0 ∧ db' = db) ∨
    ∃ db₁, r = .ok () ∧ 0 < request.bytesCount ∧
      (reserve uuid request).run db = (.ok ⟨uuid, request.bytesCount⟩, db₁) ∧
      (commitReservation uuid request.object).run db₁ = (.ok (), db') := by
  unfold recordAllocation at hr
  split_ifs at hr with hb
  · cases hr
    exact .inr (.inl ⟨rfl, hb, rfl⟩)
  rcases Session.run_bind_cases hr with ⟨handle, db₁, hres, hr⟩ | ⟨e, hres, rfl⟩
  · obtain ⟨e, he, -⟩ | ⟨account, counter, -, he, -, hnew, -, hdb₁⟩ := reserve_cases hres
    · cases he
    cases he
    have h₁ := reserve_accounted h hres
    have hmem : newReservation uuid request.userId request.category request.bytesCount
        (countsTowardQuota request.category) request.reason request.object ∈ db₁.reservations := by
      rw [hdb₁]
      exact List.mem_append_right _ (List.mem_singleton_self _)
    have hok := commitReservation_ok (find_of_mem h₁.uuids hmem) (h₁.accounts _ hmem)
      request.object
    have hr' : r = .ok () := by
      rw [← hok]
      exact (congrArg Prod.fst hr).symm
    subst hr'
    exact .inr (.inr ⟨db₁, rfl, by omega, hres, hr⟩)
  · obtain ⟨e', -, hk⟩ | ⟨account, counter, -, he, -⟩ := reserve_cases hres
    · exact .inl ⟨e, rfl, hk⟩
    · cases he

theorem recordAllocation_accounted (h : Accounted db)
    (hr : (recordAllocation uuid request).run db = (r, db')) : Accounted db' := by
  obtain ⟨e, -, hk⟩ | ⟨-, -, rfl⟩ | ⟨db₁, -, -, hres, hcommit⟩ := recordAllocation_cases h hr
  · exact hk.accounted h
  · exact h
  · exact commitReservation_accounted (reserve_accounted h hres) hcommit

theorem recordAllocation_settled (h : Accounted db)
    (hr : (recordAllocation uuid request).run db = (r, db')) (hrow : row ∈ db.reservations)
    (hsettled : row.status ≠ .reserved) : row ∈ db'.reservations := by
  obtain ⟨e, -, hk⟩ | ⟨-, -, rfl⟩ | ⟨db₁, -, -, hres, hcommit⟩ := recordAllocation_cases h hr
  · exact hk.mem_reservations hrow
  · exact hrow
  · exact commitReservation_settled (reserve_accounted h hres) hcommit (reserve_mem hres hrow)
      hsettled

/-! ## Runs -/

/-- The operations of the service. -/
inductive StorageOperation
  | reserve (uuid : String) (request : UsageRequest)
  | commitReservation (reservationId : String) (object : StorageObject)
  | releaseReservation (reservationId : String)
  | recordAllocation (uuid : String) (request : UsageRequest)
  | recordRelease (request : UsageRequest)
  deriving DecidableEq, Repr

namespace StorageOperation

def run : StorageOperation → StorageSession Unit
  | reserve uuid request => do
    let _ ← Backend.reserve uuid request
  | commitReservation reservationId object => Backend.commitReservation reservationId object
  | releaseReservation reservationId => Backend.releaseReservation reservationId
  | recordAllocation uuid request => Backend.recordAllocation uuid request
  | recordRelease request => Backend.recordRelease request

def runSync : StorageOperation → StorageSession Unit
  | reserve uuid request => do
    let _ ← Backend.reserveSync uuid request
  | commitReservation reservationId object => Backend.commitReservationSync reservationId object
  | releaseReservation reservationId => Backend.releaseReservationSync reservationId
  | recordAllocation uuid request => Backend.recordAllocationSync uuid request
  | recordRelease request => Backend.recordReleaseSync request

theorem runSync_eq_run (operation : StorageOperation) : operation.runSync = operation.run := by
  cases operation <;> rfl

/-- Running an operation: the flag says whether it is the synchronous form. -/
def Runs (db : StorageDb) (operation : Bool × StorageOperation) (r : Except StorageError Unit)
    (db' : StorageDb) : Prop :=
  (if operation.1 then operation.2.runSync else operation.2.run).run db = (r, db')

theorem Runs.run_eq {db db' : StorageDb} {operation : Bool × StorageOperation}
    {r : Except StorageError Unit} (h : Runs db operation r db') :
    operation.2.run.run db = (r, db') := by
  rwa [Runs, runSync_eq_run, ite_self] at h

def Step (db : StorageDb) (operation : Bool × StorageOperation) (db' : StorageDb) : Prop :=
  ∃ r, Runs db operation r db'

end StorageOperation

open StorageOperation

theorem StorageOperation.reserve_run
    (hr : (StorageOperation.reserve uuid request).run.run db = (r, db')) :
    ∃ r', (Backend.reserve uuid request).run db = (r', db') ∧ ∀ e, r = .error e → r' = .error e := by
  rcases Session.run_bind_cases hr with ⟨handle, s₁, hres, hr⟩ | ⟨e, hres, rfl⟩
  · cases hr
    exact ⟨_, hres, fun e he => by cases he⟩
  · exact ⟨_, hres, fun e' he => by cases he; rfl⟩

variable {operation : StorageOperation}

/-- Each operation keeps the invariant. -/
theorem StorageOperation.run_accounted (h : Accounted db) (hr : operation.run.run db = (r, db')) :
    Accounted db' := by
  cases operation with
  | reserve uuid request =>
    obtain ⟨r', hr, -⟩ := StorageOperation.reserve_run hr
    exact reserve_accounted h hr
  | commitReservation reservationId object => exact commitReservation_accounted h hr
  | releaseReservation reservationId => exact releaseReservation_accounted h hr
  | recordAllocation uuid request => exact recordAllocation_accounted h hr
  | recordRelease request => exact recordRelease_accounted h hr

/-- No operation touches a settled reservation. -/
theorem StorageOperation.run_settled (h : Accounted db) (hr : operation.run.run db = (r, db'))
    (hrow : row ∈ db.reservations) (hsettled : row.status ≠ .reserved) :
    row ∈ db'.reservations := by
  cases operation with
  | reserve uuid request =>
    obtain ⟨r', hr, -⟩ := StorageOperation.reserve_run hr
    exact reserve_mem hr hrow
  | commitReservation reservationId object => exact commitReservation_settled h hr hrow hsettled
  | releaseReservation reservationId => exact releaseReservation_settled h hr hrow hsettled
  | recordAllocation uuid request => exact recordAllocation_settled h hr hrow hsettled
  | recordRelease request => exact recordRelease_mem hr hrow

/-- An operation that raises keeps every value, also before a rollback. -/
theorem StorageOperation.run_error {e : StorageError} (h : Accounted db)
    (hr : operation.run.run db = (.error e, db')) : Kept db db' := by
  cases operation with
  | reserve uuid request =>
    obtain ⟨r', hr, he⟩ := StorageOperation.reserve_run hr
    obtain rfl := he e rfl
    obtain ⟨e', -, hk⟩ | ⟨account, counter, -, hok, -⟩ := reserve_cases hr
    · exact hk
    · cases hok
  | commitReservation reservationId object =>
    obtain hk | ⟨row, account, counter, -, -, -, hok, -⟩ := commitReservation_cases hr
    · exact hk
    · cases hok
  | releaseReservation reservationId =>
    obtain hk | ⟨row, account, counter, -, -, -, hok, -⟩ := releaseReservation_cases hr
    · exact hk
    · cases hok
  | recordAllocation uuid request =>
    obtain ⟨e, -, hk⟩ | ⟨hok, -⟩ | ⟨db₁, hok, -⟩ := recordAllocation_cases h hr
    · exact hk
    · cases hok
    · cases hok
  | recordRelease request =>
    obtain hk | ⟨account, counter, -, hok, -⟩ := recordRelease_cases hr
    · exact hk
    · cases hok

/-- Tables without reservations and events, in which no user has stored or
reserved a byte. -/
structure EmptyAccounts (db : StorageDb) : Prop where
  reservations : db.reservations = []
  events : db.events = []
  accounts : ∀ u account, db.accounts u = some account →
    account.usedBytes = 0 ∧ account.reservedBytes = 0 ∧ 0 ≤ account.quotaLimitBytes
  counters : ∀ key counter, db.counters key = some counter →
    counter.usedBytes = 0 ∧ counter.reservedBytes = 0

theorem EmptyAccounts.accounted (h : EmptyAccounts db) : Accounted db := by
  have hAU : ∀ u, db.accountUsed u = 0 := fun u => by
    cases ha : db.accounts u with
    | none => simp [StorageDb.accountUsed, ha]
    | some account => simp [StorageDb.accountUsed, ha, (h.accounts u account ha).1]
  have hAR : ∀ u, db.accountReserved u = 0 := fun u => by
    cases ha : db.accounts u with
    | none => simp [StorageDb.accountReserved, ha]
    | some account => simp [StorageDb.accountReserved, ha, (h.accounts u account ha).2.1]
  have hCU : ∀ u c, db.counterUsed u c = 0 := fun u c => by
    cases ha : db.counters (u, c) with
    | none => simp [StorageDb.counterUsed, ha]
    | some counter => simp [StorageDb.counterUsed, ha, (h.counters _ counter ha).1]
  have hCR : ∀ u c, db.counterReserved u c = 0 := fun u c => by
    cases ha : db.counters (u, c) with
    | none => simp [StorageDb.counterReserved, ha]
    | some counter => simp [StorageDb.counterReserved, ha, (h.counters _ counter ha).2]
  exact {
    uuids := by simp [h.reservations]
    positive := by simp [h.reservations]
    counts := by simp [h.reservations]
    accounts := by simp [h.reservations]
    counterReserved := by simp [h.reservations, hCR]
    accountReserved := by simp [h.reservations, hAR]
    counterUsed := by simp [h.events, hCU]
    accountUsed := by simp [hAU, hCU, quotaCategories]
    counterUsed_nonneg := fun u c => Int.le_of_eq (hCU u c).symm
    limit := fun u account ha => by
      have hrow := h.accounts u account ha
      omega }

theorem StorageOperation.accounted_of_reachable
    (h : Reachable EmptyAccounts StorageOperation.Step db) : Accounted db :=
  h.invariant (fun _ h0 => h0.accounted) fun db a db' hd hs => by
    obtain ⟨r, hr⟩ := hs
    exact run_accounted hd hr.run_eq

/-- In every state that operations on empty accounts reach, accounts and
counters agree with the reservations and the events, no value is negative and
no account is over its limit; a reservation that is not reserved any more
stays as it is in every run from there; and an operation that raises keeps
every value. -/
theorem storage_accounting {db : StorageDb}
    (h : Reachable EmptyAccounts StorageOperation.Step db) :
    ((∀ u c, db.counterReserved u c = total (heldBy u c) db.reservations) ∧
      (∀ u, db.accountReserved u = total (quotaHeldBy u) db.reservations) ∧
      (∀ u c, db.counterUsed u c = total (deltaOf u c) db.events) ∧
      (∀ u, db.accountUsed u = (quotaCategories.map (db.counterUsed u)).sum)) ∧
    ((∀ u, 0 ≤ db.accountUsed u ∧ 0 ≤ db.accountReserved u) ∧
      (∀ u c, 0 ≤ db.counterUsed u c ∧ 0 ≤ db.counterReserved u c) ∧
      ∀ u account, db.accounts u = some account →
        account.usedBytes + account.reservedBytes ≤ account.quotaLimitBytes) ∧
    ((db.reservations.map (·.reservationUuid)).Nodup ∧
      ∀ db', Reachable (· = db) StorageOperation.Step db' → ∀ row ∈ db.reservations,
        row.status ≠ .reserved → row ∈ db'.reservations) ∧
    ∀ operation e db', StorageOperation.Runs db operation (.error e) db' → SameUsage db db' := by
  have hd := accounted_of_reachable h
  refine ⟨⟨hd.counterReserved, hd.accountReserved, hd.counterUsed, hd.accountUsed⟩,
    ⟨fun u => ⟨hd.accountUsed_nonneg u, hd.accountReserved_nonneg u⟩,
      fun u c => ⟨hd.counterUsed_nonneg u c, hd.counterReserved_nonneg u c⟩, hd.limit⟩,
    ⟨hd.uuids, fun db' hrun row hrow hsettled => ?_⟩,
    fun operation e db' hr => (run_error hd hr.run_eq).sameUsage⟩
  have hrun' : Accounted db' ∧ row ∈ db'.reservations := by
    refine hrun.invariant (p := fun s => Accounted s ∧ row ∈ s.reservations) ?_ ?_
    · rintro _ rfl
      exact ⟨hd, hrow⟩
    · rintro s a s' ⟨hs, hrow⟩ ⟨r, hr⟩
      exact ⟨run_accounted hs hr.run_eq, run_settled hs hr.run_eq hrow hsettled⟩
  exact hrun'.2

/-- No rows, and a plan of 100 bytes. -/
def emptyStorage : StorageDb where
  policies := fun plan => if plan = defaultPlanCode then some 100 else none
  accounts := fun _ => none
  counters := fun _ => none
  reservations := []
  events := []

/-- An upload of 40 bytes that the first user has allocated. -/
def uploadRequest : UsageRequest := ⟨1, .upload, 40, "upload", ⟨some "upload", some "7", none⟩⟩

/-- The tables after the upload is allocated and 15 bytes are released. -/
def releasedStorage : StorageDb :=
  ((recordRelease { uploadRequest with bytesCount := 15 }).run
    ((recordAllocation "r-1" uploadRequest).run emptyStorage).2).2

theorem storage_accounting_releasedStorage :
    releasedStorage.accountUsed 1 = 25 ∧
      releasedStorage.accountUsed 1 =
        (quotaCategories.map (releasedStorage.counterUsed 1)).sum := by
  have hstart : EmptyAccounts emptyStorage :=
    ⟨rfl, rfl, fun _ _ h => (nomatch h), fun _ _ h => (nomatch h)⟩
  have hreach : Reachable EmptyAccounts StorageOperation.Step releasedStorage :=
    .step (a := (true, .recordRelease { uploadRequest with bytesCount := 15 }))
      (.step (a := (false, .recordAllocation "r-1" uploadRequest)) (.start hstart) ⟨.ok (), rfl⟩)
      ⟨.ok (), rfl⟩
  exact ⟨by decide, (storage_accounting hreach).1.2.2.2 1⟩

end NoteVerse.Backend

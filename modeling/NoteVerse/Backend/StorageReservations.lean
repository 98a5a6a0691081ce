import NoteVerse.Backend.StorageAccounting

/-!
# The status of a reservation

What the operations do to the statuses of the reservations, as functions of
the uuid. A service that reserves, and commits or releases what it reserved,
is followed by these lemmas only.
-/

namespace NoteVerse.Backend

open Table

/-- The status of the reservation under a uuid. -/
def StorageDb.statusOf (db : StorageDb) (uuid : String) : Option StorageUsageReservationStatus :=
  (db.reservation uuid).map (·.status)

variable {db db' : StorageDb} {uuid : String} {request : UsageRequest}

theorem Kept.statusOf (h : Kept db db') : db'.statusOf = db.statusOf := by
  funext uuid
  simp only [StorageDb.statusOf, StorageDb.reservation, h.sameUsage.reservations]

theorem statusOf_saveReservation (db : StorageDb) {row row' : StorageUsageReservation}
    (hf : db.reservation uuid = some row) (hid : row'.reservationUuid = row.reservationUuid) :
    (db.saveReservation row').statusOf = Function.update db.statusOf uuid (some row'.status) := by
  have hkey : row'.reservationUuid = uuid := hid.trans (find_key hf)
  funext uuid'
  rw [Function.update_apply]
  simp only [StorageDb.statusOf, StorageDb.reservation, StorageDb.saveReservation, hkey]
  rw [find_update fun _ _ => hkey]
  split_ifs with h
  · rw [show find StorageUsageReservation.reservationUuid uuid db.reservations = some row from hf]
    rfl
  · rfl

theorem statusOf_append (row : StorageUsageReservation)
    (hrows : db'.reservations = db.reservations ++ [row])
    (hnew : db.reservation row.reservationUuid = none) :
    db'.statusOf = Function.update db.statusOf row.reservationUuid (some row.status) := by
  funext uuid
  rw [Function.update_apply]
  simp only [StorageDb.statusOf, StorageDb.reservation, hrows, find_append_singleton]
  by_cases huuid : uuid = row.reservationUuid
  · rw [huuid, show find StorageUsageReservation.reservationUuid row.reservationUuid
      db.reservations = none from hnew, if_pos rfl, if_pos rfl]
    rfl
  · rw [if_neg huuid, if_neg (Ne.symm huuid), Option.or_none]

/-- A reservation that is made has a uuid of its own. -/
theorem reserve_statusOf {handle : StorageReservationHandle}
    (h : (reserve uuid request).run db = (.ok handle, db')) :
    handle.reservationId = uuid ∧ db.statusOf uuid = none ∧
      db'.statusOf = Function.update db.statusOf uuid (some .reserved) := by
  obtain ⟨e, he, -⟩ | ⟨account, counter, -, he, -, hnew, -, rfl⟩ := reserve_cases h
  · cases he
  cases he
  refine ⟨rfl, by rw [StorageDb.statusOf, hnew]; rfl, ?_⟩
  apply statusOf_append (newReservation uuid request.userId request.category
    request.bytesCount (countsTowardQuota request.category) request.reason request.object) rfl
  exact hnew

/-- The rows that the commit and the release of a reservation open. -/
theorem ensure_run {u : UserId} (ha : (db.accounts u).isSome) (c : StorageUsageCategory) :
    ∃ account counter,
      (ensureAccount u).run db = (.ok account, db) ∧
      (ensureCounter u c).run db =
        (.ok counter, { db with counters := Function.update db.counters (u, c) (some counter) }) := by
  obtain ⟨account, ha⟩ := Option.isSome_iff_exists.mp ha
  obtain ⟨counter, hc, -⟩ := ensureCounter_run db u c
  refine ⟨account, counter, ?_, hc⟩
  simp only [ensureAccount, Session.run_get_bind, ha, Session.run_pure]

section Settle

variable {db : StorageDb} {uuid : String}

theorem reservation_of_statusOf (h : db.statusOf uuid = some .reserved) :
    ∃ row, db.reservation uuid = some row ∧ row.status = .reserved := by
  simpa [StorageDb.statusOf] using h

/-- What is reserved can be committed. -/
theorem commitReservation_statusOf (ha : Accounted db) (h : db.statusOf uuid = some .reserved)
    (object : StorageObject) :
    ∃ db', (commitReservation uuid object).run db = (.ok (), db') ∧
      db'.statusOf = Function.update db.statusOf uuid (some .committed) := by
  obtain ⟨row, hf, hs⟩ := reservation_of_statusOf h
  obtain ⟨account, counter, haccount, hcounter⟩ :=
    ensure_run (ha.accounts row (find_mem hf)) row.category
  simp only [commitReservation, Session.run_get_bind, hf]
  rw [if_neg (not_not.mpr hs), Session.run_bind_of_ok haccount, Session.run_bind_of_ok hcounter]
  exact ⟨_, rfl, statusOf_saveReservation _ hf rfl⟩

/-- What is reserved can be released. -/
theorem releaseReservation_statusOf (ha : Accounted db) (h : db.statusOf uuid = some .reserved) :
    ∃ db', (releaseReservation uuid).run db = (.ok (), db') ∧
      db'.statusOf = Function.update db.statusOf uuid (some .released) := by
  obtain ⟨row, hf, hs⟩ := reservation_of_statusOf h
  obtain ⟨account, counter, haccount, hcounter⟩ :=
    ensure_run (ha.accounts row (find_mem hf)) row.category
  simp only [releaseReservation, Session.run_get_bind, hf]
  rw [if_neg (not_not.mpr hs), Session.run_bind_of_ok haccount, Session.run_bind_of_ok hcounter]
  exact ⟨_, rfl, statusOf_saveReservation _ hf rfl⟩

end Settle

/-- A release of used bytes leaves the reservations alone. -/
theorem recordRelease_statusOf {r : Except StorageError Unit}
    (h : (recordRelease request).run db = (r, db')) : db'.statusOf = db.statusOf := by
  obtain hk | ⟨account, counter, -, -, -, rfl⟩ := recordRelease_cases h
  · exact hk.statusOf
  · rfl

/-- An allocation is a reservation of its own, committed at once. -/
theorem recordAllocation_statusOf (ha : Accounted db)
    (h : (recordAllocation uuid request).run db = (.ok (), db')) :
    db'.statusOf = db.statusOf ∨ db.statusOf uuid = none ∧
      db'.statusOf = Function.update db.statusOf uuid (some .committed) := by
  obtain ⟨e, he, -⟩ | ⟨-, -, rfl⟩ | ⟨db₁, -, -, hreserve, hcommit⟩ := recordAllocation_cases ha h
  · cases he
  · exact .inl rfl
  · obtain ⟨-, hnew, hstatus⟩ := reserve_statusOf hreserve
    have hreserved : db₁.statusOf uuid = some .reserved := by
      rw [hstatus, Function.update_self]
    obtain ⟨db₂, hrun, hcommitted⟩ :=
      commitReservation_statusOf (reserve_accounted ha hreserve) hreserved request.object
    rw [hrun] at hcommit
    cases hcommit
    refine .inr ⟨hnew, ?_⟩
    rw [hcommitted, hstatus, Function.update_idem]

/-! ## What becomes of a reservation -/

/-- The row that a request reserves with. -/
def UsageRequest.reservation (request : UsageRequest) (uuid : String) : StorageUsageReservation :=
  newReservation uuid request.userId request.category request.bytesCount
    (countsTowardQuota request.category) request.reason request.object

/-- Two states with the same values of accounts and counters. -/
structure SameValues (db db' : StorageDb) : Prop where
  accountUsed : ∀ u, db'.accountUsed u = db.accountUsed u
  accountReserved : ∀ u, db'.accountReserved u = db.accountReserved u
  counterUsed : ∀ u c, db'.counterUsed u c = db.counterUsed u c
  counterReserved : ∀ u c, db'.counterReserved u c = db.counterReserved u c

/-- The bytes of a request are used, and nothing else has changed. -/
structure Charged (request : UsageRequest) (db db' : StorageDb) : Prop where
  accountUsed : ∀ u, db'.accountUsed u = db.accountUsed u +
    if u = request.userId ∧ countsTowardQuota request.category then request.bytesCount else 0
  accountReserved : ∀ u, db'.accountReserved u = db.accountReserved u
  counterUsed : ∀ u c, db'.counterUsed u c = db.counterUsed u c +
    if u = request.userId ∧ c = request.category then request.bytesCount else 0
  counterReserved : ∀ u c, db'.counterReserved u c = db.counterReserved u c

theorem SameValues.refl (db : StorageDb) : SameValues db db :=
  ⟨fun _ => rfl, fun _ => rfl, fun _ _ => rfl, fun _ _ => rfl⟩

section Reserved

variable {db db₁ : StorageDb} {uuid : String} {request : UsageRequest}
  {handle : StorageReservationHandle}

theorem reserve_rows (h : (reserve uuid request).run db = (.ok handle, db₁)) :
    db₁.reservations = db.reservations ++ [request.reservation uuid] ∧ db₁.events = db.events ∧
      db₁.reservation uuid = some (request.reservation uuid) := by
  obtain ⟨e, he, -⟩ | ⟨account, counter, -, -, -, hnew, -, rfl⟩ := reserve_cases h
  · cases he
  refine ⟨rfl, rfl, ?_⟩
  show find StorageUsageReservation.reservationUuid uuid (db.reservations ++ [_]) = _
  rw [find_append_singleton, show find _ uuid db.reservations = none from hnew, Option.none_or]
  exact if_pos rfl

/-- What is reserved and settled holds nothing more than before. -/
theorem total_reserve_settled (ha : Accounted db)
    (h : (reserve uuid request).run db = (.ok handle, db₁)) (row' : StorageUsageReservation)
    (hs' : row'.status ≠ .reserved) (hid : row'.reservationUuid = uuid) :
    (∀ u c, total (heldBy u c) (db₁.saveReservation row').reservations =
      total (heldBy u c) db.reservations) ∧
    ∀ u, total (quotaHeldBy u) (db₁.saveReservation row').reservations =
      total (quotaHeldBy u) db.reservations := by
  obtain ⟨hrows, -, hf⟩ := reserve_rows h
  obtain ⟨hheld, hquota⟩ : (∀ u c, total (heldBy u c) (db₁.saveReservation row').reservations =
      total (heldBy u c) db₁.reservations +
        if u = request.userId ∧ c = request.category then -request.bytesCount else 0) ∧
      ∀ u, total (quotaHeldBy u) (db₁.saveReservation row').reservations =
        total (quotaHeldBy u) db₁.reservations +
          if u = request.userId ∧ countsTowardQuota request.category = true
          then -request.bytesCount else 0 :=
    total_settled (reserve_accounted ha h) row' hf rfl hs' hid
  refine ⟨fun u c => ?_, fun u => ?_⟩
  · have hnew : heldBy u c (request.reservation uuid) =
        if u = request.userId ∧ c = request.category then request.bytesCount else 0 := by
      simp [heldBy, UsageRequest.reservation, newReservation]
    rw [hheld, hrows, total_append, total_cons, total_nil, hnew]
    split_ifs <;> omega
  · have hnew : quotaHeldBy u (request.reservation uuid) =
        if u = request.userId ∧ countsTowardQuota request.category = true
        then request.bytesCount else 0 := by
      simp [quotaHeldBy, UsageRequest.reservation, newReservation]
    rw [hquota, hrows, total_append, total_cons, total_nil, hnew]
    split_ifs <;> omega

/-- A reservation that is released leaves the values as they were. -/
theorem reserve_release (ha : Accounted db)
    (h : (reserve uuid request).run db = (.ok handle, db₁)) :
    ∃ db₂, (releaseReservation uuid).run db₁ = (.ok (), db₂) ∧ SameValues db db₂ ∧
      db₂.statusOf = Function.update db.statusOf uuid (some .released) := by
  have ha₁ := reserve_accounted ha h
  obtain ⟨-, -, hstatus⟩ := reserve_statusOf h
  obtain ⟨-, hevents, hf⟩ := reserve_rows h
  have hreserved : db₁.statusOf uuid = some .reserved := by rw [hstatus, Function.update_self]
  obtain ⟨db₂, hrun, hreleased⟩ := releaseReservation_statusOf ha₁ hreserved
  have hstatus₂ : db₂.statusOf = Function.update db.statusOf uuid (some .released) := by
    rw [hreleased, hstatus, Function.update_idem]
  refine ⟨db₂, hrun, ?_, hstatus₂⟩
  have ha₂ := releaseReservation_accounted ha₁ hrun
  obtain hk | ⟨row, account, counter, hrow, -, -, -, hdb₂⟩ := releaseReservation_cases hrun
  · have hsame := congrFun (hk.statusOf.symm.trans hreleased) uuid
    rw [hreserved, Function.update_self] at hsame
    exact absurd hsame (by decide)
  have hid : row.reservationUuid = uuid := find_key hrow
  obtain ⟨hheld, hquota⟩ := total_reserve_settled ha h
    (releaseReservedUsage account counter row).2.2 (by simp [releaseReservedUsage]) hid
  have hrows : db₂.reservations =
      (db₁.saveReservation (releaseReservedUsage account counter row).2.2).reservations := by
    rw [hdb₂]
    rfl
  have hevents₂ : db₂.events = db.events := by
    rw [hdb₂, ← hevents]
    rfl
  have hused : ∀ u c, db₂.counterUsed u c = db.counterUsed u c := fun u c => by
    rw [ha₂.counterUsed, ha.counterUsed, hevents₂]
  exact {
    accountUsed := fun u => by
      rw [ha₂.accountUsed, ha.accountUsed, sum_quotaCategories, sum_quotaCategories, hused, hused,
        hused]
    accountReserved := fun u => by rw [ha₂.accountReserved, ha.accountReserved, hrows, hquota]
    counterUsed := hused
    counterReserved := fun u c => by rw [ha₂.counterReserved, ha.counterReserved, hrows, hheld] }

/-- A reservation that is committed charges its bytes. -/
theorem reserve_commit (ha : Accounted db)
    (h : (reserve uuid request).run db = (.ok handle, db₁)) (object : StorageObject) :
    ∃ db₂, (commitReservation uuid object).run db₁ = (.ok (), db₂) ∧ Charged request db db₂ ∧
      db₂.statusOf = Function.update db.statusOf uuid (some .committed) := by
  have ha₁ := reserve_accounted ha h
  obtain ⟨-, -, hstatus⟩ := reserve_statusOf h
  obtain ⟨-, hevents, hf⟩ := reserve_rows h
  have hreserved : db₁.statusOf uuid = some .reserved := by rw [hstatus, Function.update_self]
  obtain ⟨db₂, hrun, hcommitted⟩ := commitReservation_statusOf ha₁ hreserved object
  have hstatus₂ : db₂.statusOf = Function.update db.statusOf uuid (some .committed) := by
    rw [hcommitted, hstatus, Function.update_idem]
  refine ⟨db₂, hrun, ?_, hstatus₂⟩
  have ha₂ := commitReservation_accounted ha₁ hrun
  obtain hk | ⟨row, account, counter, hrow, -, -, -, hdb₂⟩ := commitReservation_cases hrun
  · have hsame := congrFun (hk.statusOf.symm.trans hcommitted) uuid
    rw [hreserved, Function.update_self] at hsame
    exact absurd hsame (by decide)
  obtain rfl : request.reservation uuid = row := Option.some.inj (hf.symm.trans hrow)
  obtain ⟨hheld, hquota⟩ := total_reserve_settled ha h
    (commitReservedUsage account counter (request.reservation uuid) object).2.2
    (by simp [commitReservedUsage]) rfl
  have hrows : db₂.reservations = (db₁.saveReservation
      (commitReservedUsage account counter (request.reservation uuid) object).2.2).reservations := by
    rw [hdb₂]
    rfl
  have hused : ∀ u c, db₂.counterUsed u c = db.counterUsed u c +
      if u = request.userId ∧ c = request.category then request.bytesCount else 0 := fun u c => by
    rw [ha₂.counterUsed, ha.counterUsed, hdb₂, ← hevents]
    show total _ (db₁.events ++ [_]) = _
    rw [total_append, total_cons, total_nil, add_zero]
    rfl
  exact {
    accountUsed := fun u => by
      rw [ha₂.accountUsed, ha.accountUsed, sum_quotaCategories, sum_quotaCategories, hused, hused,
        hused]
      cases request.category <;> by_cases hu : u = request.userId <;>
        simp [hu, countsTowardQuota, quotaCategories] <;> omega
    accountReserved := fun u => by rw [ha₂.accountReserved, ha.accountReserved, hrows, hquota]
    counterUsed := hused
    counterReserved := fun u c => by rw [ha₂.counterReserved, ha.counterReserved, hrows, hheld] }

end Reserved

/-! ## When a reservation succeeds -/

/-- The account that a reservation opens: that of the user, or a new one of the default
plan. -/
def StorageDb.accountFor (db : StorageDb) (userId : UserId) : Option StorageUsageAccount :=
  match db.accounts userId with
  | some account => some account
  | none =>
    (db.policies defaultPlanCode).bind fun quotaLimitBytes =>
      if quotaLimitBytes < 0 then none else some ⟨defaultPlanCode, 0, 0, quotaLimitBytes⟩

/-- There is room for the bytes in an account, if they count. -/
def StorageUsageAccount.HasRoom (account : StorageUsageAccount) (request : UsageRequest) : Prop :=
  countsTowardQuota request.category = true →
    account.usedBytes + account.reservedBytes + request.bytesCount ≤ account.quotaLimitBytes

/-- The account has room for the bytes, and the uuid is new. -/
def StorageDb.Reservable (db : StorageDb) (uuid : String) (request : UsageRequest) : Prop :=
  0 < request.bytesCount ∧ db.reservation uuid = none ∧
    ∃ account, db.accountFor request.userId = some account ∧ account.HasRoom request

theorem ensureAccount_run (db : StorageDb) (userId : UserId) :
    (∃ account db₁, db.accountFor userId = some account ∧
      (ensureAccount userId).run db = (.ok account, db₁) ∧ db₁.reservations = db.reservations) ∨
    db.accountFor userId = none ∧ ∃ e, (ensureAccount userId).run db = (.error e, db) := by
  unfold StorageDb.accountFor
  simp only [ensureAccount, requireDefaultPolicy, Session.run_get_bind]
  cases haccount : db.accounts userId with
  | some account => exact .inl ⟨account, db, rfl, rfl, rfl⟩
  | none =>
    simp only [Session.run_bind, Session.run_get]
    cases hpolicy : db.policies defaultPlanCode with
    | none => exact .inr ⟨rfl, _, rfl⟩
    | some quotaLimitBytes =>
      by_cases hneg : quotaLimitBytes < 0
      · refine .inr ⟨if_pos hneg, .integrity, ?_⟩
        show ((if quotaLimitBytes < 0 then _ else _ : StorageSession _).run db) = _
        rw [if_pos hneg]
        rfl
      · refine .inl ⟨⟨defaultPlanCode, 0, 0, quotaLimitBytes⟩, { db with
          accounts := Function.update db.accounts userId
            (some ⟨defaultPlanCode, 0, 0, quotaLimitBytes⟩) }, if_neg hneg, ?_, rfl⟩
        show ((if quotaLimitBytes < 0 then _ else _ : StorageSession _).run db) = _
        rw [if_neg hneg]
        rfl

theorem applyReservationHold_ok_iff (account : StorageUsageAccount) (counter : StorageUsageCounter)
    (request : UsageRequest) :
    (∃ rows, applyReservationHold account counter request.bytesCount
      (countsTowardQuota request.category) = .ok rows) ↔ account.HasRoom request := by
  unfold applyReservationHold assertQuotaAvailable StorageUsageAccount.HasRoom
  cases countsTowardQuota request.category with
  | false => exact ⟨fun _ h => absurd h Bool.false_ne_true, fun _ => ⟨_, rfl⟩⟩
  | true =>
    by_cases hq : account.usedBytes + account.reservedBytes + request.bytesCount ≤
      account.quotaLimitBytes
    · rw [if_pos rfl, if_pos hq]
      exact ⟨fun _ _ => hq, fun _ => ⟨_, rfl⟩⟩
    · rw [if_pos rfl, if_neg hq]
      exact ⟨fun ⟨_, h⟩ => (nomatch h), fun h => absurd (h rfl) hq⟩

/-- What a reservation does once its rows are open. -/
theorem reserve_run {db₁ : StorageDb} (hbytes : 0 < request.bytesCount)
    {account : StorageUsageAccount}
    (hrun : (ensureAccount request.userId).run db = (.ok account, db₁)) :
    ∃ counter, (reserve uuid request).run db = (do
      let rows ← Session.lift (applyReservationHold account counter request.bytesCount
        (countsTowardQuota request.category))
      Session.modify fun db => db.save request.userId request.category rows.1 rows.2
      addReservation db (request.reservation uuid)
      return ⟨uuid, request.bytesCount⟩ : StorageSession _).run { db₁ with
        counters := Function.update db₁.counters (request.userId, request.category)
          (some counter) } := by
  obtain ⟨counter, hcounter, -⟩ := ensureCounter_run db₁ request.userId request.category
  refine ⟨counter, ?_⟩
  unfold reserve
  rw [if_neg (not_le.mpr hbytes)]
  simp only [Session.run_get_bind]
  rw [Session.run_bind_of_ok hrun, Session.run_bind_of_ok hcounter]
  rfl

/-- A reservation succeeds if and only if the account has room and the uuid is new. -/
theorem reserve_ok_iff (db : StorageDb) (uuid : String) (request : UsageRequest) :
    (∃ handle db₁, (reserve uuid request).run db = (.ok handle, db₁)) ↔
      db.Reservable uuid request := by
  constructor
  · rintro ⟨handle, db', h⟩
    obtain ⟨e, he, -⟩ | ⟨-, -, -, -, hbytes, hnew, -, -⟩ := reserve_cases h
    · cases he
    refine ⟨hbytes, hnew, ?_⟩
    obtain ⟨account, db₁, haccount, hrun, -⟩ | ⟨-, e, hrun⟩ := ensureAccount_run db request.userId
    · refine ⟨account, haccount, ?_⟩
      obtain ⟨counter, hreserve⟩ := reserve_run hbytes hrun
      rw [hreserve] at h
      obtain ⟨rows, s₁, hrows, -⟩ | ⟨e, -, he⟩ := Session.run_bind_cases h
      · exact (applyReservationHold_ok_iff account counter request).mp
          ⟨rows, congrArg Prod.fst hrows⟩
      · cases he
    · unfold reserve at h
      rw [if_neg (not_le.mpr hbytes)] at h
      simp only [Session.run_get_bind] at h
      rw [Session.run_bind_of_error hrun] at h
      cases h
  · rintro ⟨hbytes, hnew, account, haccount, hroom⟩
    obtain ⟨account', db₁, haccount', hrun, hrows⟩ | ⟨hnone, -⟩ :=
      ensureAccount_run db request.userId
    · obtain rfl := Option.some.inj (haccount.symm.trans haccount')
      obtain ⟨counter, hreserve⟩ := reserve_run hbytes hrun
      obtain ⟨rows, hhold⟩ := (applyReservationHold_ok_iff account counter request).mpr hroom
      rw [hreserve, hhold, Session.run_lift_ok_bind, Session.run_modify_bind]
      have hadd : ∀ s : StorageDb, s.reservations = db.reservations →
          (addReservation db (request.reservation uuid)).run s =
            (.ok (), { s with reservations := s.reservations ++ [request.reservation uuid] }) := by
        intro s hs
        rw [addReservation_run, if_neg]
        show ¬ (find StorageUsageReservation.reservationUuid uuid s.reservations).isSome
        rw [hs, show find _ uuid db.reservations = none from hnew]
        exact Bool.false_ne_true
      exact ⟨_, _, Session.run_bind_of_ok (hadd _ hrows)⟩
    · rw [hnone] at haccount
      cases haccount

/-! ## Requests that reserve -/

/-- What requests hold, each at most one reservation with the status it should
have. A row that is still reserved belongs to a request, or has been there
from the start. -/
structure Held (start statusOf : String → Option StorageUsageReservationStatus)
    (holds : Nat → Option (String × StorageUsageReservationStatus)) : Prop where
  statuses : ∀ i uuid status, holds i = some (uuid, status) → statusOf uuid = some status
  alone : ∀ i j uuid status status', holds i = some (uuid, status) →
    holds j = some (uuid, status') → i = j
  reserved : ∀ uuid, statusOf uuid = some .reserved →
    start uuid = some .reserved ∨ ∃ i, holds i = some (uuid, .reserved)

namespace Held

variable {start statusOf : String → Option StorageUsageReservationStatus}
  {holds : Nat → Option (String × StorageUsageReservationStatus)} {i : Nat} {uuid : String}
  {status : StorageUsageReservationStatus}

theorem of_start (hholds : ∀ i, holds i = none) : Held start start holds where
  statuses i uuid status h := by rw [hholds] at h; cases h
  alone i j uuid status status' h := by rw [hholds] at h; cases h
  reserved uuid h := .inl h

/-- A request reserves, under a new uuid. -/
theorem reserve (h : Held start statusOf holds) (hi : holds i = none)
    (hnew : statusOf uuid = none) :
    Held start (Function.update statusOf uuid (some .reserved))
      (Function.update holds i (some (uuid, .reserved))) := by
  have hother : ∀ j status', holds j ≠ some (uuid, status') := fun j status' hj => by
    rw [h.statuses j uuid status' hj] at hnew
    cases hnew
  constructor
  · intro j uuid' status' hj
    rw [Function.update_apply] at hj ⊢
    split_ifs at hj with hji
    · cases hj
      rw [if_pos rfl]
    · have hu : uuid' ≠ uuid := by
        rintro rfl
        exact hother j status' hj
      rw [if_neg hu]
      exact h.statuses j uuid' status' hj
  · intro j k uuid' s s' hj hk
    rw [Function.update_apply] at hj hk
    split_ifs at hj hk with hji hki hki
    · rw [hji, hki]
    · cases hj
      exact absurd hk (hother k s')
    · cases hk
      exact absurd hj (hother j s)
    · exact h.alone j k uuid' s s' hj hk
  · intro uuid' hu
    rw [Function.update_apply] at hu
    split_ifs at hu with he
    · subst he
      exact .inr ⟨i, by rw [Function.update_self]⟩
    · refine (h.reserved uuid' hu).imp_right fun ⟨j, hj⟩ => ⟨j, ?_⟩
      have hji : j ≠ i := by
        rintro rfl
        rw [hi] at hj
        cases hj
      rw [Function.update_of_ne hji]
      exact hj

/-- A request commits or releases what it has reserved. -/
theorem settle (h : Held start statusOf holds) (hi : holds i = some (uuid, .reserved))
    (hstatus : status ≠ .reserved) :
    Held start (Function.update statusOf uuid (some status))
      (Function.update holds i (some (uuid, status))) := by
  constructor
  · intro j uuid' status' hj
    rw [Function.update_apply] at hj ⊢
    split_ifs at hj with hji
    · cases hj
      rw [if_pos rfl]
    · have hu : uuid' ≠ uuid := by
        rintro rfl
        exact hji (h.alone j i _ _ _ hj hi)
      rw [if_neg hu]
      exact h.statuses j uuid' status' hj
  · intro j k uuid' s s' hj hk
    rw [Function.update_apply] at hj hk
    split_ifs at hj hk with hji hki hki
    · rw [hji, hki]
    · cases hj
      exact absurd (h.alone k i uuid _ _ hk hi) hki
    · cases hk
      exact absurd (h.alone j i uuid _ _ hj hi) hji
    · exact h.alone j k uuid' s s' hj hk
  · intro uuid' hu
    rw [Function.update_apply] at hu
    split_ifs at hu with he
    · exact absurd (Option.some.inj hu) hstatus
    · refine (h.reserved uuid' hu).imp_right fun ⟨j, hj⟩ => ⟨j, ?_⟩
      have hji : j ≠ i := by
        rintro rfl
        rw [hi] at hj
        cases hj
        exact he rfl
      rw [Function.update_of_ne hji]
      exact hj

/-- Something else reserves under a new uuid, and commits. -/
theorem other (h : Held start statusOf holds) (hnew : statusOf uuid = none)
    (hstatus : status ≠ .reserved) :
    Held start (Function.update statusOf uuid (some status)) holds where
  statuses i uuid' status' hi := by
    have hu : uuid' ≠ uuid := by
      rintro rfl
      rw [h.statuses i _ _ hi] at hnew
      cases hnew
    rw [Function.update_of_ne hu]
    exact h.statuses i uuid' status' hi
  alone := h.alone
  reserved uuid' hu := by
    rw [Function.update_apply] at hu
    split_ifs at hu
    · exact absurd (Option.some.inj hu) hstatus
    · exact h.reserved uuid' hu

/-- A request lets go of a reservation that is not reserved any more. -/
theorem forget (h : Held start statusOf holds) (hi : holds i = some (uuid, status))
    (hstatus : status ≠ .reserved) : Held start statusOf (Function.update holds i none) where
  statuses j uuid' status' hj := by
    rw [Function.update_apply] at hj
    split_ifs at hj
    exact h.statuses j uuid' status' hj
  alone j k uuid' s s' hj hk := by
    rw [Function.update_apply] at hj hk
    split_ifs at hj hk
    exact h.alone j k uuid' s s' hj hk
  reserved uuid' hu := by
    refine (h.reserved uuid' hu).imp_right fun ⟨j, hj⟩ => ⟨j, ?_⟩
    have hji : j ≠ i := by
      rintro rfl
      rw [hi] at hj
      cases hj
      exact hstatus rfl
    rw [Function.update_of_ne hji]
    exact hj

/-- A request goes on and holds what it held. -/
theorem keep (h : Held start statusOf holds) : Held start statusOf
    (Function.update holds i (holds i)) := by
  rwa [Function.update_eq_self]

end Held

end NoteVerse.Backend

import NoteVerse.Lib.Computable

/-!
# The delivery policy

`async_operations/delivery_policy.py`: the delay before a retry, and when the
lease of a delivery has run out. Times are in seconds.
-/

namespace NoteVerse.Backend

/-- The delay after the attempt with a number from one on. -/
def exponentialRetryDelaySeconds (baseSeconds : Nat) (attemptCount : Nat) : Int :=
  baseSeconds * 2 ^ (attemptCount - 1)

variable {σ : Type} [DecidableEq σ]

def deliveryLeaseExpired (status dispatchedStatus processingStatus : σ)
    (dispatchedAt startedAt : Option Int) (now dispatchTimeoutSeconds
      processingTimeoutSeconds : Int) : Bool :=
  status = dispatchedStatus && dispatchedAt.any (· ≤ now - dispatchTimeoutSeconds) ||
    status = processingStatus && startedAt.any (· ≤ now - processingTimeoutSeconds)

variable {dispatchedStatus processingStatus : σ} {dispatchedAt startedAt : Option Int}
  {now dispatchTimeoutSeconds processingTimeoutSeconds : Int}

/-- A lease that has run out is that of a delivery or of a worker. -/
theorem status_of_deliveryLeaseExpired {status : σ}
    (h : deliveryLeaseExpired status dispatchedStatus processingStatus dispatchedAt startedAt now
      dispatchTimeoutSeconds processingTimeoutSeconds = true) :
    status = dispatchedStatus ∨ status = processingStatus := by
  simp only [deliveryLeaseExpired, Bool.or_eq_true, Bool.and_eq_true, decide_eq_true_eq] at h
  exact h.imp And.left And.left

/-- The lease of a delivery with a time runs out. -/
theorem deliveryLeaseExpired_of_dispatched (h : dispatchedAt.isSome) :
    ∃ time, ∀ now, time ≤ now → deliveryLeaseExpired dispatchedStatus dispatchedStatus
      processingStatus dispatchedAt startedAt now dispatchTimeoutSeconds
      processingTimeoutSeconds = true := by
  obtain ⟨at', rfl⟩ := Option.isSome_iff_exists.mp h
  refine ⟨at' + dispatchTimeoutSeconds, fun now hn => ?_⟩
  have hcutoff : at' ≤ now - dispatchTimeoutSeconds := by omega
  simp [deliveryLeaseExpired, hcutoff]

/-- The lease of a worker with a time runs out. -/
theorem deliveryLeaseExpired_of_processing (h : startedAt.isSome) :
    ∃ time, ∀ now, time ≤ now → deliveryLeaseExpired processingStatus dispatchedStatus
      processingStatus dispatchedAt startedAt now dispatchTimeoutSeconds
      processingTimeoutSeconds = true := by
  obtain ⟨at', rfl⟩ := Option.isSome_iff_exists.mp h
  refine ⟨at' + processingTimeoutSeconds, fun now hn => ?_⟩
  have hcutoff : at' ≤ now - processingTimeoutSeconds := by omega
  simp [deliveryLeaseExpired, hcutoff]

end NoteVerse.Backend

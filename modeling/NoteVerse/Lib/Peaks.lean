import NoteVerse.Lib.Computable

/-!
# Runs and their peaks

The maximal runs of consecutive places where something holds, among the places below `n`, and
in each run the first place where a score is greatest.
-/

namespace Peaks

/-- It holds on all of `[first, stop)` and no further, among the places below `n`. -/
structure MaximalRun (good : ℕ → Prop) (n first stop : ℕ) : Prop where
  lt : first < stop
  le : stop ≤ n
  inside : ∀ i, first ≤ i → i < stop → good i
  left : first = 0 ∨ ¬ good (first - 1)
  right : stop = n ∨ ¬ good stop

/-- The first place of `[first, stop)` with the greatest score. -/
structure FirstPeak {α : Type*} [LinearOrder α] (score : ℕ → α) (first stop peak : ℕ) :
    Prop where
  ge : first ≤ peak
  lt : peak < stop
  greatest : ∀ i, first ≤ i → i < stop → score i ≤ score peak
  before : ∀ i, first ≤ i → i < peak → score i < score peak

variable {good : ℕ → Prop} {n first stop first' stop' : ℕ}

/-- A maximal run that begins in another one does so at its start. -/
theorem MaximalRun.first_eq (h : MaximalRun good n first stop)
    (h' : MaximalRun good n first' stop') (hle : first ≤ first') (hlt : first' < stop) :
    first' = first := by
  rcases h'.left with hzero | hnot
  · omega
  · by_contra hne
    exact hnot (h.inside _ (by omega) (by omega))

variable {α : Type*} [LinearOrder α] {score : ℕ → α} {peak peak' : ℕ}

theorem FirstPeak.eq (h : FirstPeak score first stop peak)
    (h' : FirstPeak score first stop peak') : peak = peak' := by
  have hle : ∀ {p q : ℕ}, FirstPeak score first stop p → FirstPeak score first stop q →
      p ≤ q := fun {p q} hp hq => Nat.not_lt.mp fun hlt =>
    not_lt.mpr (hq.greatest p hp.ge hp.lt) (hp.before q hq.ge hlt)
  exact Nat.le_antisymm (hle h h') (hle h' h)

/-- One place more is the peak if its score is greater, and else leaves it. -/
theorem FirstPeak.succ (h : FirstPeak score first stop peak) :
    FirstPeak score first (stop + 1) (if score peak < score stop then stop else peak) := by
  have hge := h.ge
  have hlt := h.lt
  split_ifs with hgreater
  · refine ⟨by omega, Nat.lt_succ_self stop, fun i hi histop => ?_, fun i hi histop => ?_⟩
    · rcases Nat.lt_succ_iff_lt_or_eq.mp histop with histop | rfl
      · exact (h.greatest i hi histop).trans hgreater.le
      · exact le_rfl
    · exact (h.greatest i hi histop).trans_lt hgreater
  · refine ⟨hge, by omega, fun i hi histop => ?_, h.before⟩
    rcases Nat.lt_succ_iff_lt_or_eq.mp histop with histop | rfl
    · exact h.greatest i hi histop
    · exact not_lt.mp hgreater

end Peaks

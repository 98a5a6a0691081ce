import NoteVerse.Lib.Computable

/-!
# Reading a table page by page

A page of a table holds the first rows whose keys are larger than a cursor, in
the order of their keys. Who goes on from the key of the last row has seen
each row that was there up to it (`mem_page`).
-/

namespace Keyset

variable {α κ : Type*} (key : α → κ)

/-- The cursor after some rows. -/
def after (cursor : κ) (page : List α) : κ := (page.getLast?.map key).getD cursor

@[simp] theorem after_nil (cursor : κ) : after key cursor [] = cursor := rfl

@[simp] theorem after_append_singleton (cursor : κ) (page : List α) (r : α) :
    after key cursor (page ++ [r]) = key r := by
  simp [after]

variable [LinearOrder κ]

theorem after_lt {key : α → κ} {cursor k : κ} {page : List α} (hc : cursor < k)
    (h : ∀ r ∈ page, key r < k) : after key cursor page < k := by
  rcases List.eq_nil_or_concat' page with rfl | ⟨pre, last, rfl⟩
  · exact hc
  · rw [after_append_singleton]
    exact h last (List.mem_append_right _ (List.mem_singleton_self _))

/-- The rows after a cursor, in the order of their keys. -/
def rest (cursor : κ) (rows : List α) : List α :=
  (rows.filter (cursor < key ·)).insertionSort (key · ≤ key ·)

def page (limit : Nat) (cursor : κ) (rows : List α) : List α :=
  (rest key cursor rows).take limit

variable {key} {limit : Nat} {cursor : κ} {rows : List α} {r : α}

theorem mem_rest : r ∈ rest key cursor rows ↔ r ∈ rows ∧ cursor < key r := by
  rw [rest, List.mem_insertionSort, List.mem_filter, decide_eq_true_iff]

theorem of_mem_page (h : r ∈ page key limit cursor rows) : r ∈ rows ∧ cursor < key r :=
  mem_rest.mp (List.mem_of_mem_take h)

/-- Distinct keys increase. -/
theorem rest_pairwise (hk : (rows.map key).Nodup) :
    (rest key cursor rows).Pairwise (key · < key ·) := by
  have : Std.Total fun a b : α => key a ≤ key b := ⟨fun a b => le_total (key a) (key b)⟩
  have : IsTrans α fun a b => key a ≤ key b := ⟨fun _ _ _ => le_trans⟩
  have hle : (rest key cursor rows).Pairwise (key · ≤ key ·) := List.pairwise_insertionSort _ _
  have hne : (rest key cursor rows).Pairwise fun a b => key a ≠ key b := by
    have hnodup : ((rest key cursor rows).map key).Nodup :=
      (((List.perm_insertionSort _ _).map key).nodup_iff).mpr (hk.sublist (List.filter_sublist.map _))
    exact List.pairwise_map.mp hnodup
  refine (hle.and hne).imp fun {a b} hab => ?_
  exact lt_of_le_of_ne hab.1 hab.2

theorem page_pairwise (hk : (rows.map key).Nodup) :
    (page key limit cursor rows).Pairwise (key · < key ·) :=
  (rest_pairwise hk).sublist (List.take_sublist _ _)

/-- The cursor after increasing rows is at least the keys of all of them. -/
theorem le_after {page : List α} (hp : page.Pairwise (key · < key ·)) (h : r ∈ page) :
    key r ≤ after key cursor page := by
  obtain ⟨pre, last, rfl⟩ := List.eq_nil_or_concat' page |>.resolve_left (List.ne_nil_of_mem h)
  rw [after_append_singleton]
  rcases List.mem_append.mp h with h | h
  · exact ((List.pairwise_append.mp hp).2.2 r h last (List.mem_singleton_self _)).le
  · rw [List.mem_singleton.mp h]

/-- A page leaves out no row up to its last one. -/
theorem mem_page (hk : (rows.map key).Nodup) (h : r ∈ rows) (hc : cursor < key r)
    (hle : key r ≤ after key cursor (page key limit cursor rows)) :
    r ∈ page key limit cursor rows := by
  have hr : r ∈ rest key cursor rows := mem_rest.mpr ⟨h, hc⟩
  rw [← List.take_append_drop limit (rest key cursor rows), List.mem_append] at hr
  refine hr.resolve_right fun hdrop => ?_
  -- all rows of the page come before this one
  have hsorted : (rest key cursor rows).Pairwise (key · < key ·) := rest_pairwise hk
  rw [← List.take_append_drop limit (rest key cursor rows), List.pairwise_append] at hsorted
  rcases List.eq_nil_or_concat' (page key limit cursor rows) with hnil | ⟨pre, last, hlast⟩
  · rw [hnil, after_nil] at hle
    exact absurd hc hle.not_gt
  · rw [hlast, after_append_singleton] at hle
    have hmem : last ∈ page key limit cursor rows := by
      rw [hlast]
      exact List.mem_append_right _ (List.mem_singleton_self _)
    exact absurd (hsorted.2.2 last hmem r hdrop) hle.not_gt

theorem cursor_le_after (hk : (rows.map key).Nodup) :
    cursor ≤ after key cursor (page key limit cursor rows) := by
  rcases List.eq_nil_or_concat' (page key limit cursor rows) with hnil | ⟨pre, last, hlast⟩
  · rw [hnil, after_nil]
  · have hmem : last ∈ page key limit cursor rows := by
      rw [hlast]
      exact List.mem_append_right _ (List.mem_singleton_self _)
    exact (of_mem_page hmem).2.le.trans (le_after (page_pairwise hk) hmem)

end Keyset

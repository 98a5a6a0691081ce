import NoteVerse.Lib.Computable

/-!
# Tables with a primary key

A table is a list of rows, each with a key, and no key twice. Rows are found,
changed and deleted by key. `total` sums a weight over the rows; with a weight
that is zero outside of a condition it is the sum over the rows that meet the
condition, as an aggregate query computes it. The lemmas say what each
operation does to a total.
-/

namespace Table

variable {α κ : Type*} [DecidableEq κ] (key : α → κ)

def find (k : κ) (rows : List α) : Option α := rows.find? (key · = k)

def update (k : κ) (f : α → α) (rows : List α) : List α :=
  rows.map fun r => if key r = k then f r else r

def delete (k : κ) (rows : List α) : List α := rows.filter (key · ≠ k)

/-- The sum of a weight over the rows. -/
def total (weight : α → Int) (rows : List α) : Int := (rows.map weight).sum

variable {key} {k : κ} {rows : List α} {f : α → α} {weight : α → Int} {r : α}

theorem find_mem (h : find key k rows = some r) : r ∈ rows := List.mem_of_find?_eq_some h

theorem find_key (h : find key k rows = some r) : key r = k := by
  have hk := List.find?_some h
  exact of_decide_eq_true hk

theorem find_eq_none_iff : find key k rows = none ↔ k ∉ rows.map key := by
  simp [find]

/-- A row of a table with distinct keys is the one found under its key. -/
theorem find_of_mem (hk : (rows.map key).Nodup) (h : r ∈ rows) :
    find key (key r) rows = some r := by
  cases hf : find key (key r) rows with
  | none => exact absurd (List.mem_map_of_mem h) (find_eq_none_iff.mp hf)
  | some r' => rw [List.inj_on_of_nodup_map hk (find_mem hf) h (find_key hf)]

/-- The rows before and after the one under a key. -/
theorem find_split (hk : (rows.map key).Nodup) (h : find key k rows = some r) :
    ∃ pre post, rows = pre ++ r :: post ∧ (∀ r' ∈ pre, key r' ≠ k) ∧ ∀ r' ∈ post, key r' ≠ k := by
  obtain ⟨pre, post, rfl⟩ := List.append_of_mem (find_mem h)
  obtain rfl := find_key h
  rw [List.map_append, List.map_cons, List.nodup_middle, List.nodup_cons, List.mem_append] at hk
  refine ⟨pre, post, rfl, fun r' hr' e => ?_, fun r' hr' e => ?_⟩
  · exact hk.1 (.inl (e ▸ List.mem_map_of_mem hr'))
  · exact hk.1 (.inr (e ▸ List.mem_map_of_mem hr'))

/-! ## Changing and deleting a row -/

theorem update_eq_self (h : ∀ r ∈ rows, key r ≠ k) : update key k f rows = rows := by
  induction rows with
  | nil => rfl
  | cons r rows ih =>
    rw [List.forall_mem_cons] at h
    rw [update, List.map_cons, if_neg h.1]
    exact congrArg _ (ih h.2)

theorem update_split {pre post : List α} (hr : key r = k) (hpre : ∀ r' ∈ pre, key r' ≠ k)
    (hpost : ∀ r' ∈ post, key r' ≠ k) :
    update key k f (pre ++ r :: post) = pre ++ f r :: post := by
  have h₁ := update_eq_self (f := f) hpre
  have h₂ := update_eq_self (f := f) hpost
  simp only [update] at h₁ h₂ ⊢
  rw [List.map_append, List.map_cons, if_pos hr, h₁, h₂]

theorem update_eq_self_iff : update key k f rows = rows ↔ ∀ r ∈ rows, key r = k → f r = r := by
  induction rows with
  | nil => simp [update]
  | cons r rows ih =>
    rw [update] at ih ⊢
    rw [List.map_cons, List.cons_eq_cons, ih, List.forall_mem_cons]
    refine and_congr_left fun _ => ?_
    split_ifs with hr
    · simp [hr]
    · simp [hr]

theorem map_key_update (hf : ∀ r, key r = k → key (f r) = k) :
    (update key k f rows).map key = rows.map key := by
  rw [update, List.map_map]
  refine List.map_congr_left fun r _ => ?_
  simp only [Function.comp_apply]
  split_ifs with hr
  · rw [hf r hr, hr]
  · rfl

/-- A column that a change keeps. -/
theorem map_update {β : Type*} {g : α → β} (hf : ∀ r, g (f r) = g r) :
    (update key k f rows).map g = rows.map g := by
  rw [update, List.map_map]
  refine List.map_congr_left fun r _ => ?_
  simp only [Function.comp_apply]
  split_ifs
  · exact hf r
  · rfl

theorem mem_update_of_ne (h : r ∈ rows) (hne : key r ≠ k) : r ∈ update key k f rows :=
  List.mem_map.mpr ⟨r, h, if_neg hne⟩

theorem mem_update_self (h : r ∈ rows) : f r ∈ update key (key r) f rows :=
  List.mem_map.mpr ⟨r, h, if_pos rfl⟩

theorem mem_update (h : r ∈ update key k f rows) :
    (r ∈ rows ∧ key r ≠ k) ∨ ∃ r₀ ∈ rows, key r₀ = k ∧ r = f r₀ := by
  obtain ⟨r₀, h₀, rfl⟩ := List.mem_map.mp h
  by_cases hk : key r₀ = k
  · exact .inr ⟨r₀, h₀, hk, if_pos hk⟩
  · simp only [if_neg hk]
    exact .inl ⟨h₀, hk⟩

/-- The row found after a change that keeps the keys. -/
theorem find_update (hf : ∀ r, key r = k → key (f r) = k) (k' : κ) :
    find key k' (update key k f rows) =
      if k' = k then (find key k rows).map f else find key k' rows := by
  induction rows with
  | nil => split_ifs <;> rfl
  | cons r rows ih =>
    simp only [find, update, List.map_cons, List.find?_cons] at ih ⊢
    by_cases hr : key r = k
    · by_cases hk : k' = k
      · simp [hr, hk, hf r hr]
      · simpa [hr, hf r hr, hk, Ne.symm hk] using ih
    · by_cases hk : k' = k
      · subst hk
        simpa [hr] using ih
      · simp only [hr, if_false, hk] at ih ⊢
        rw [ih]

/-- A change of what a condition does not look at. -/
theorem filter_update {p : α → Bool} (hp : ∀ r, key r = k → p (f r) = p r) :
    (update key k f rows).filter p = update key k f (rows.filter p) := by
  rw [update, List.filter_map, update]
  congr 1
  refine List.filter_congr fun r _ => ?_
  simp only [Function.comp_apply]
  split_ifs with hr
  · exact hp r hr
  · rfl

/-- The row found among those whose keys meet a condition. -/
theorem find_filter (key : α → κ) (q : κ → Bool) (k : κ) :
    find key k (rows.filter fun r => q (key r)) = if q k then find key k rows else none := by
  rw [find, List.find?_filter, find]
  by_cases hq : q k
  · rw [if_pos hq]
    congr 1
    funext r
    by_cases hr : key r = k <;> simp [hr, hq]
  · rw [if_neg hq, List.find?_eq_none]
    intro r _ hr
    simp only [Bool.decide_and, Bool.and_eq_true, decide_eq_true_eq] at hr
    exact hq (hr.2 ▸ hr.1)

/-- The row found after one is added under a new key, or another. -/
theorem find_append_singleton (r : α) (k' : κ) :
    find key k' (rows ++ [r]) = (find key k' rows).or (if key r = k' then some r else none) := by
  rw [find, List.find?_append, find]
  congr 1
  by_cases h : key r = k' <;> simp [h]

/-! ## Totals -/

@[simp] theorem total_nil : total weight [] = 0 := rfl

@[simp] theorem total_cons (r : α) (rows : List α) :
    total weight (r :: rows) = weight r + total weight rows := by
  rw [total, total, List.map_cons, List.sum_cons]

@[simp] theorem total_append (xs ys : List α) :
    total weight (xs ++ ys) = total weight xs + total weight ys := by
  rw [total, total, total, List.map_append, List.sum_append]

theorem total_update (hk : (rows.map key).Nodup) (h : find key k rows = some r) :
    total weight (update key k f rows) = total weight rows - weight r + weight (f r) := by
  obtain ⟨pre, post, rfl, hpre, hpost⟩ := find_split hk h
  rw [update_split (find_key h) hpre hpost]
  simp only [total_append, total_cons]
  omega

theorem total_nonneg (h : ∀ r ∈ rows, 0 ≤ weight r) : 0 ≤ total weight rows := by
  induction rows with
  | nil => exact Int.le_refl 0
  | cons r rows ih =>
    rw [List.forall_mem_cons] at h
    have htail := ih h.2
    rw [total_cons]
    omega

end Table

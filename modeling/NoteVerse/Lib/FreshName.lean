import NoteVerse.Lib.Computable

/-!
# The first name that is not used

The loop `while name(k) in used: k += 1`. It ends, as no more names than
`used.length` are used, if the names of different numbers differ
(`name_first_notMem`), and every number before it has a name in use
(`mem_of_lt_first`).

Where several, each with names of its own, take the first of them that is left in
turn (`claims`), `Taken` says what is taken before which of them, without the
names that they get (`mem_take_claims_iff`).
-/

namespace FreshName

variable {α : Type*} [DecidableEq α]

/-- The number at which the loop stops, after so many steps at most. -/
def search (used : List α) (name : Nat → α) : Nat → Nat → Nat
  | 0, k => k
  | fuel + 1, k => if name k ∈ used then search used name fuel (k + 1) else k

/-- The first number from `k` on whose name is not used. -/
def first (used : List α) (name : Nat → α) (k : Nat) : Nat := search used name used.length k

variable {used : List α} {name : Nat → α}

theorem mem_of_search_mem (fuel k : Nat) (h : name (search used name fuel k) ∈ used) :
    ∀ i ≤ fuel, name (k + i) ∈ used := by
  induction fuel generalizing k with
  | zero =>
    intro i hi
    rw [Nat.le_zero.mp hi]
    exact h
  | succ fuel ih =>
    unfold search at h
    by_cases hk : name k ∈ used
    · rw [if_pos hk] at h
      intro i hi
      cases i with
      | zero => exact hk
      | succ i =>
        have hnext := ih (k + 1) h i (by omega)
        rwa [show k + (i + 1) = k + 1 + i by omega]
    · rw [if_neg hk] at h
      exact absurd h hk

theorem name_first_notMem (hname : Function.Injective name) (k : Nat) :
    name (first used name k) ∉ used := by
  intro h
  have hmem := mem_of_search_mem used.length k h
  have hnodup : ((List.range (used.length + 1)).map fun i => name (k + i)).Nodup :=
    List.nodup_range.map fun i j hij => Nat.add_left_cancel (hname hij)
  have hsubset : ((List.range (used.length + 1)).map fun i => name (k + i)) ⊆ used := by
    intro x hx
    obtain ⟨i, hi, rfl⟩ := List.mem_map.mp hx
    exact hmem i (by simpa [Nat.lt_succ_iff] using hi)
  have hlength := (hnodup.subperm hsubset).length_le
  rw [List.length_map, List.length_range] at hlength
  omega

theorem le_search (fuel k : Nat) : k ≤ search used name fuel k := by
  induction fuel generalizing k with
  | zero => exact Nat.le_refl k
  | succ fuel ih =>
    unfold search
    by_cases hk : name k ∈ used
    · rw [if_pos hk]
      exact Nat.le_of_succ_le (ih (k + 1))
    · exact (if_neg hk).symm.le

theorem mem_of_lt_search (fuel k i : Nat) (hki : k ≤ i) (hi : i < search used name fuel k) :
    name i ∈ used := by
  induction fuel generalizing k with
  | zero =>
    unfold search at hi
    omega
  | succ fuel ih =>
    unfold search at hi
    by_cases hk : name k ∈ used
    · rw [if_pos hk] at hi
      rcases Nat.eq_or_lt_of_le hki with rfl | hlt
      · exact hk
      · exact ih (k + 1) hlt hi
    · rw [if_neg hk] at hi
      omega

theorem mem_of_lt_first {k i : Nat} (hki : k ≤ i) (hi : i < first used name k) : name i ∈ used :=
  mem_of_lt_search used.length k i hki hi

/-- The loop stops at a name that is left, if those before it are used. -/
theorem first_eq (hname : Function.Injective name) {k m : Nat} (hkm : k ≤ m)
    (hm : name m ∉ used) (hused : ∀ i, k ≤ i → i < m → name i ∈ used) : first used name k = m := by
  have hge : m ≤ first used name k := by
    by_contra hlt
    exact name_first_notMem hname k (hused _ (le_search _ k) (by omega))
  have hle : first used name k ≤ m := by
    by_contra hlt
    exact hm (mem_of_lt_first hkm (by omega))
  omega

/-- A name tried apart from those that follow it, which have numbers of their own. -/
theorem name_first_zero (hname : Function.Injective name) {start : Nat} {numbered : Nat → α}
    (hnumbered : ∀ k, name (k + 1) = numbered (start + k)) (hinj : Function.Injective numbered) :
    name (first used name 0) =
      if name 0 ∉ used then name 0 else numbered (first used numbered start) := by
  by_cases hused : name 0 ∈ used
  · rw [if_neg (not_not.mpr hused)]
    have hnew : numbered (first used numbered start) ∉ used := name_first_notMem hinj start
    obtain ⟨k, hk⟩ : ∃ k, first used numbered start = start + k :=
      Nat.exists_eq_add_of_le (le_search _ start)
    have hfirst : first used name 0 = k + 1 := by
      refine first_eq hname (Nat.zero_le _) (by rwa [hnumbered, ← hk]) fun i _ hi => ?_
      cases i with
      | zero => exact hused
      | succ i =>
        rw [hnumbered]
        exact mem_of_lt_first (Nat.le_add_right start i) (by omega)
    rw [hfirst, hnumbered, hk]
  · rw [if_pos hused, first_eq hname (Nat.le_refl 0) hused fun i _ hi =>
      absurd hi (Nat.not_lt_zero i)]

/-! ## Claims in turn -/

/-- What each gets that takes the first name left of its own. -/
def claims : List α → List (Nat → α) → List α
  | _, [] => []
  | used, name :: names =>
    let next := name (first used name 0)
    next :: claims (used ++ [next]) names

/-- A name is taken before the `n`-th turn if somebody before has it among its
names and finds those before it taken. -/
inductive Taken (names : List (Nat → α)) : Nat → α → Prop
  | claim {i n k : Nat} {name : Nat → α} : i < n → names[i]? = some name →
      (∀ j < k, Taken names i (name j)) → Taken names n (name k)

@[simp] theorem length_claims (used : List α) (names : List (Nat → α)) :
    (claims used names).length = names.length := by
  induction names generalizing used with
  | nil => rfl
  | cons name names ih => exact congrArg Nat.succ (ih _)

theorem claims_getElem? (used : List α) (names : List (Nat → α)) (i : Nat) :
    (claims used names)[i]? =
      names[i]?.map fun name => name (first (used ++ (claims used names).take i) name 0) := by
  induction names generalizing used i with
  | nil => rfl
  | cons name names ih =>
    unfold claims
    cases i with
    | zero => simp
    | succ i =>
      rw [List.getElem?_cons_succ, List.getElem?_cons_succ, List.take_succ_cons, ih]
      simp [List.append_assoc]

/-- By induction on the turn: what is in use before it is what is taken. -/
theorem mem_take_claims_iff {names : List (Nat → α)}
    (hnames : ∀ name ∈ names, Function.Injective name) (n : Nat) (x : α) :
    x ∈ (claims [] names).take n ↔ Taken names n x := by
  induction n using Nat.strongRecOn generalizing x with
  | ind n ih =>
    constructor
    · intro hmem
      obtain ⟨i, hi⟩ := List.mem_iff_getElem?.mp hmem
      have hin : i < n := by
        by_contra hge
        rw [List.getElem?_take_eq_none (by omega)] at hi
        cases hi
      rw [List.getElem?_take_of_lt hin, claims_getElem?] at hi
      obtain ⟨name, hname, rfl⟩ := Option.map_eq_some_iff.mp hi
      rw [List.nil_append]
      exact .claim hin hname fun j hj => (ih i hin _).mp (mem_of_lt_first (Nat.zero_le j) hj)
    · rintro ⟨hin, hname, hbefore⟩
      rename_i i k name
      by_cases hlater : name k ∈ (claims [] names).take i
      · exact (List.take_prefix_take_left (by omega)).subset hlater
      · have hfirst : first ((claims [] names).take i) name 0 = k :=
          first_eq (hnames name (List.mem_of_getElem? hname)) (Nat.zero_le k) hlater
            fun j _ hj => (ih i hin _).mpr (hbefore j hj)
        have hget : (claims [] names)[i]? = some (name k) := by
          rw [claims_getElem?, hname, List.nil_append, Option.map_some, hfirst]
        exact List.mem_of_getElem? ((List.getElem?_take_of_lt hin).trans hget)

end FreshName

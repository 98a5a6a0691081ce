import NoteVerse.Lib.Computable

/-!
# JavaScript values

What the models of TypeScript code need of the language: exceptions (`Throws`,
with the message of the error thrown), the truth value of an optional string,
and the stable sort of `Array.prototype.sort`, with a comparator that cannot
throw (`sort`) and with one that can (`sortM`).
-/

namespace Js

/-- A computation that may throw an `Error`, which carries its message. -/
abbrev Throws (α : Type) := Except String α

/-- The truth value of an optional string: neither `undefined` nor empty. -/
def truthy : Option String → Bool
  | none => false
  | some s => s != ""

@[simp] theorem truthy_none : truthy none = false := rfl

@[simp] theorem truthy_some (s : String) : truthy (some s) = (s != "") := rfl

theorem truthy_eq_false {o : Option String} : truthy o = false ↔ ∀ s, o = some s → s = "" := by
  cases o <;> simp

variable {α β : Type}

variable {f : α → Throws β} {a : α} {xs : List α} {compare : α → α → Throws Int}

theorem bind_eq_ok {x : Throws α} {b : β} : (x >>= f) = .ok b ↔ ∃ a, x = .ok a ∧ f a = .ok b := by
  cases x <;> simp [bind, Except.bind]

@[simp] theorem pure_eq_ok {b : α} : (pure a : Throws α) = .ok b ↔ a = b := by
  simp [pure, Except.pure]

@[simp] theorem throw_ne_ok {e : String} : (throw e : Throws α) ≠ .ok a := by
  simp [throw, throwThe, MonadExceptOf.throw]

/-- `[...xs].sort(compare)`, stable: `compare a b ≤ 0` keeps `a` before `b`. -/
def sort (compare : α → α → Int) (xs : List α) : List α :=
  xs.insertionSort fun a b => compare a b ≤ 0

theorem sort_perm (compare : α → α → Int) (xs : List α) : (sort compare xs).Perm xs :=
  List.perm_insertionSort _ _

@[simp] theorem mem_sort {compare : α → α → Int} {x : α} :
    x ∈ sort compare xs ↔ x ∈ xs := (sort_perm compare xs).mem_iff

/-- Inserting `a` before the first element that it does not come after. -/
def insertM (compare : α → α → Throws Int) (a : α) : List α → Throws (List α)
  | [] => pure [a]
  | b :: bs => do
    if (← compare a b) ≤ 0 then pure (a :: b :: bs)
    else return b :: (← insertM compare a bs)

/-- `[...xs].sort(compare)` where `compare` may throw. -/
def sortM (compare : α → α → Throws Int) : List α → Throws (List α)
  | [] => pure []
  | a :: as => do insertM compare a (← sortM compare as)

theorem insertM_perm {ys : List α} (h : insertM compare a xs = .ok ys) : ys.Perm (a :: xs) := by
  induction xs generalizing ys with
  | nil => cases h; rfl
  | cons b bs ih =>
    obtain ⟨c, -, h⟩ := bind_eq_ok.mp h
    split_ifs at h
    · cases h; rfl
    · obtain ⟨zs, hz, h⟩ := bind_eq_ok.mp h
      cases h
      exact ((ih hz).cons b).trans (.swap _ _ _)

theorem sortM_perm {ys : List α} (h : sortM compare xs = .ok ys) : ys.Perm xs := by
  induction xs generalizing ys with
  | nil => cases h; rfl
  | cons a as ih =>
    obtain ⟨zs, hz, h⟩ := bind_eq_ok.mp h
    exact (insertM_perm h).trans ((ih hz).cons a)

/-- A comparator that does not throw on the elements lets `sortM` succeed. -/
theorem insertM_ok (h : ∀ b ∈ xs, ∃ c, compare a b = .ok c) :
    ∃ ys, insertM compare a xs = .ok ys := by
  induction xs with
  | nil => exact ⟨[a], rfl⟩
  | cons b bs ih =>
    obtain ⟨c, hc⟩ := h b (by simp)
    obtain ⟨zs, hz⟩ := ih fun b' hb' => h b' (List.mem_cons_of_mem _ hb')
    by_cases hle : c ≤ 0
    · exact ⟨a :: b :: bs, bind_eq_ok.mpr ⟨c, hc, by rw [if_pos hle]; rfl⟩⟩
    · exact ⟨b :: zs, bind_eq_ok.mpr ⟨c, hc, by rw [if_neg hle, hz]; rfl⟩⟩

theorem sortM_ok (h : ∀ a ∈ xs, ∀ b ∈ xs, ∃ c, compare a b = .ok c) :
    ∃ ys, sortM compare xs = .ok ys := by
  induction xs with
  | nil => exact ⟨[], rfl⟩
  | cons a as ih =>
    obtain ⟨zs, hz⟩ := ih fun b hb c hc =>
      h b (List.mem_cons_of_mem _ hb) c (List.mem_cons_of_mem _ hc)
    have hzs : ∀ b ∈ zs, ∃ c, compare a b = .ok c := fun b hb =>
      h a (by simp) b (List.mem_cons_of_mem _ ((sortM_perm hz).mem_iff.mp hb))
    obtain ⟨ys, hy⟩ := insertM_ok hzs
    exact ⟨ys, bind_eq_ok.mpr ⟨zs, hz, hy⟩⟩

/-! ## Sorting by a key -/

/-- What holds of a pair in the order of the list, where the keys agree with
that order, and in the other order where they do not, holds in the sorted
list: the sort is stable. -/
theorem pairwise_sort (key : α → Int) {Q : α → α → Prop} {xs : List α}
    (h : xs.Pairwise fun a b => (key a ≤ key b → Q a b) ∧ (key b < key a → Q b a)) :
    (sort (fun a b => key a - key b) xs).Pairwise fun a b => key a ≤ key b ∧ Q a b := by
  induction h with
  | nil => exact .nil
  | @cons a xs ha _ ih =>
    have hins : ∀ ys : List α, (∀ b ∈ ys, b ∈ xs) →
        ys.Pairwise (fun a b => key a ≤ key b ∧ Q a b) →
        (ys.orderedInsert (fun a b => key a - key b ≤ 0) a).Pairwise
          fun a b => key a ≤ key b ∧ Q a b := by
      intro ys hys hsorted
      induction hsorted with
      | nil => exact List.pairwise_singleton _ _
      | @cons b ys hb hsorted ihys =>
        rw [List.orderedInsert]
        split_ifs with hab
        · have hle : key a ≤ key b := by omega
          refine .cons (fun c hc => ?_) (.cons hb hsorted)
          have hac : key a ≤ key c := by
            rcases List.mem_cons.mp hc with rfl | hc
            · exact hle
            · exact Int.le_trans hle (hb c hc).1
          exact ⟨hac, (ha c (hys c hc)).1 hac⟩
        · refine .cons (fun c hc => ?_) (ihys fun c hc => hys c (List.mem_cons_of_mem _ hc))
          rcases (List.mem_orderedInsert _).mp hc with rfl | hc
          · have hlt : key b < key c := by omega
            exact ⟨by omega, (ha b (hys b (by simp))).2 hlt⟩
          · exact hb c hc
    exact hins _ (fun b hb => mem_sort.mp hb) ih

/-- Two elements that the keys do not put the other way keep their order. -/
theorem pair_sublist_sort (key : α → Int) {b : α} (hab : key a ≤ key b) (h : [a, b].Sublist xs) :
    [a, b].Sublist (sort (fun a b => key a - key b) xs) := by
  have htotal : Std.Total fun a b : α => key a - key b ≤ 0 := ⟨fun a b => by omega⟩
  have htrans : IsTrans α fun a b => key a - key b ≤ 0 :=
    ⟨fun a b c hab hbc => by omega⟩
  have hle : key a - key b ≤ 0 := by omega
  exact List.pair_sublist_insertionSort (r := fun a b => key a - key b ≤ 0) hle h

/-! ## Loops that may throw -/

variable {σ τ : Type}

/-- A loop that finds at each step what the step needs of the state and of the
rest of the list runs to its end. -/
theorem foldlM_ok {step : σ → β → Throws σ} {P : σ → List β → Prop}
    (hstep : ∀ s b bs, P s (b :: bs) → ∃ s', step s b = .ok s' ∧ P s' bs) {bs : List β} {s : σ}
    (h : P s bs) : ∃ s', bs.foldlM step s = .ok s' ∧ P s' [] := by
  induction bs generalizing s with
  | nil => exact ⟨s, rfl, h⟩
  | cons b bs ih =>
    obtain ⟨s₁, h₁, hP⟩ := hstep s b bs h
    obtain ⟨s', h', hP'⟩ := ih hP
    exact ⟨s', (List.foldlM_cons ..).trans (bind_eq_ok.mpr ⟨s₁, h₁, h'⟩), hP'⟩

theorem mapM_ok (h : ∀ x ∈ xs, ∃ y, f x = .ok y) : ∃ ys, xs.mapM f = .ok ys := by
  induction xs with
  | nil => exact ⟨[], rfl⟩
  | cons x xs ih =>
    obtain ⟨y, hy⟩ := h x (by simp)
    obtain ⟨ys, hys⟩ := ih fun x' hx' => h x' (List.mem_cons_of_mem _ hx')
    refine ⟨y :: ys, ?_⟩
    rw [List.mapM_cons]
    exact bind_eq_ok.mpr ⟨y, hy, bind_eq_ok.mpr ⟨ys, hys, rfl⟩⟩

theorem mem_of_mapM {ys : List β} (h : xs.mapM f = .ok ys) : ∀ y ∈ ys, ∃ x ∈ xs, f x = .ok y := by
  induction xs generalizing ys with
  | nil =>
    obtain rfl := Except.ok.inj h
    exact fun _ hmem => absurd hmem List.not_mem_nil
  | cons x xs ih =>
    rw [List.mapM_cons] at h
    obtain ⟨y, hy, h⟩ := bind_eq_ok.mp h
    obtain ⟨ys', hys, h⟩ := bind_eq_ok.mp h
    obtain rfl := pure_eq_ok.mp h
    refine List.forall_mem_cons.mpr ⟨⟨x, List.mem_cons_self, hy⟩, fun z hz => ?_⟩
    obtain ⟨w, hw, hz⟩ := ih hys z hz
    exact ⟨w, List.mem_cons_of_mem _ hw, hz⟩

/-- `xs.filter(keep)` where `keep` may throw. -/
def filterM (keep : α → Throws Bool) : List α → Throws (List α)
  | [] => pure []
  | x :: xs => do
    if ← keep x then return x :: (← filterM keep xs) else filterM keep xs

theorem filterM_eq {keep : α → Throws Bool} {p : α → Bool} (h : ∀ x ∈ xs, keep x = .ok (p x)) :
    filterM keep xs = .ok (xs.filter p) := by
  induction xs with
  | nil => rfl
  | cons x xs ih =>
    rw [filterM, h x List.mem_cons_self, ih fun z hz => h z (List.mem_cons_of_mem _ hz),
      List.filter_cons]
    cases p x
    · rfl
    · rfl

/-- `xs.find(found)` where `found` may throw. -/
def findM (found : α → Throws Bool) : List α → Throws (Option α)
  | [] => pure none
  | x :: xs => do
    if ← found x then return some x else findM found xs

/-- `xs.findIndex(found)` where `found` may throw. -/
def findIndexM (found : α → Throws Bool) : List α → Throws (Option Nat)
  | [] => pure none
  | x :: xs => do
    if ← found x then return some 0 else return (← findIndexM found xs).map (· + 1)

end Js

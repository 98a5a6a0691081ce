import NoteVerse.Lib.Computable

/-!
# Lists

Lists made of pieces that a key tells apart, lists whose elements can only grow,
lists in the order of a key, elements put in place of others, the nearest element of a list,
and maps that may fail.
-/

namespace Lists

variable {α β κ : Type} [DecidableEq κ]

variable {xs : List α} {ι γ : Type*}

/-- The part of a concatenation that one of its pieces makes. -/
theorem filter_flatMap_eq {f : α → List β} (key : α → κ) (key' : β → κ)
    (hnodup : (xs.map key).Nodup) (hkey : ∀ x ∈ xs, ∀ y ∈ f x, key' y = key x) {x : α}
    (hx : x ∈ xs) : (xs.flatMap f).filter (fun y => key' y = key x) = f x := by
  induction xs with
  | nil => exact absurd hx (by simp)
  | cons z xs ih =>
    rw [List.map_cons, List.nodup_cons] at hnodup
    have hz : ∀ y ∈ f z, key' y = key z := hkey z (by simp)
    have hxs : ∀ w ∈ xs, ∀ y ∈ f w, key' y = key w := fun w hw => hkey w (by simp [hw])
    rw [List.flatMap_cons, List.filter_append]
    rcases List.mem_cons.mp hx with rfl | hx
    · rw [List.filter_eq_self.mpr fun y hy => by simpa using hz y hy,
        List.filter_eq_nil_iff.mpr, List.append_nil]
      intro y hy
      obtain ⟨w, hw, hy⟩ := List.mem_flatMap.mp hy
      rw [hxs w hw y hy, decide_eq_true_eq]
      exact fun h => hnodup.1 (h ▸ List.mem_map_of_mem hw)
    · rw [ih hnodup.2 hxs hx, List.filter_eq_nil_iff.mpr, List.nil_append]
      intro y hy
      rw [hz y hy, decide_eq_true_eq]
      exact fun h => hnodup.1 (h ▸ List.mem_map_of_mem hx)

/-- A list, grouped by keys that all its elements have. -/
theorem perm_flatMap_filter {ys : List β} (key : α → κ) (key' : β → κ) (hnodup : (xs.map key).Nodup)
    (hkey : ∀ y ∈ ys, key' y ∈ xs.map key) :
    (xs.flatMap fun x => ys.filter fun y => key' y = key x).Perm ys := by
  induction xs generalizing ys with
  | nil =>
    rcases ys with _ | ⟨y, ys⟩
    · exact .refl _
    · exact absurd (hkey y (by simp)) (by simp)
  | cons x xs ih =>
    rw [List.map_cons, List.nodup_cons] at hnodup
    have hrest := @ih (ys.filter fun y => ¬ key' y = key x) hnodup.2 fun y hy => by
      obtain ⟨hmem, hne⟩ := List.mem_filter.mp hy
      rw [decide_eq_true_eq] at hne
      exact (List.mem_cons.mp (hkey y hmem)).resolve_left hne
    have hsame : (xs.flatMap fun z => (ys.filter fun y => ¬ key' y = key x).filter
        fun y => key' y = key z) = xs.flatMap fun z => ys.filter fun y => key' y = key z := by
      refine List.flatMap_congr fun z hz => ?_
      rw [List.filter_filter]
      refine List.filter_congr fun y _ => ?_
      have hzx : key z ≠ key x := fun h => hnodup.1 (h ▸ List.mem_map_of_mem hz)
      by_cases hy : key' y = key z
      · simp [hy, hzx]
      · simp [hy]
    rw [hsame] at hrest
    rw [List.flatMap_cons]
    refine (hrest.append_left _).trans ?_
    simpa only [decide_not] using List.filter_append_perm (fun y => decide (key' y = key x)) ys

/-- Lists without repetition whose elements tell the key they belong to. -/
theorem nodup_flatMap_key {δ : Type*} {xs : List ι} {f : ι → List γ} (key : ι → δ)
    {P : δ → γ → Prop} (hkeys : (xs.map key).Nodup) (hf : ∀ x ∈ xs, (f x).Nodup)
    (hP : ∀ x ∈ xs, ∀ y ∈ f x, P (key x) y) (hunique : ∀ k k' y, P k y → P k' y → k = k') :
    (xs.flatMap f).Nodup := by
  refine List.nodup_flatMap.mpr ⟨hf, ?_⟩
  refine List.Pairwise.imp_of_mem (fun {a b} ha hb hab => ?_) (List.pairwise_map.mp hkeys)
  exact fun y hya hyb => hab (hunique _ _ y (hP a ha y hya) (hP b hb y hyb))

/-- Values that can only have grown are the old ones if they are, in some
order. -/
theorem eq_of_perm_of_le {f g : α → β} (weight : β → ℚ)
    (hle : ∀ x ∈ xs, weight (f x) ≤ weight (g x)) (h : (xs.map g).Perm (xs.map f)) :
    ∀ x ∈ xs, weight (g x) = weight (f x) := by
  intro x hx
  refine le_antisymm (not_lt.mp fun hlt => ?_) (hle x hx)
  have hsum := List.sum_lt_sum (fun x => weight (f x)) (fun x => weight (g x)) hle ⟨x, hx, hlt⟩
  have hperm := (h.map weight).sum_eq
  rw [List.map_map, List.map_map] at hperm
  exact absurd hperm hsum.ne'

theorem filterMap_cons_toList (f : α → Option β) (x : α) (xs : List α) :
    (x :: xs).filterMap f = (f x).toList ++ xs.filterMap f := by
  cases h : f x with
  | none => rw [List.filterMap_cons_none h, Option.toList_none, List.nil_append]
  | some y => rw [List.filterMap_cons_some h, Option.toList_some, List.singleton_append]

theorem eq_of_length_le_one (h : xs.length ≤ 1) {x y : α} (hx : x ∈ xs) (hy : y ∈ xs) : x = y := by
  match xs, h with
  | [], _ => exact absurd hx List.not_mem_nil
  | [z], _ => rw [List.mem_singleton.mp hx, List.mem_singleton.mp hy]
  | _ :: _ :: _, h => simp at h

theorem exists_ne_of_not_length_le_one (hn : xs.Nodup) (h : ¬xs.length ≤ 1) :
    ∃ x ∈ xs, ∃ y ∈ xs, x ≠ y := by
  match xs, h with
  | [], h => exact absurd (Nat.zero_le 1) h
  | [_], h => exact absurd (Nat.le_refl 1) h
  | x :: y :: rest, _ =>
    refine ⟨x, List.mem_cons_self, y, List.mem_cons_of_mem _ List.mem_cons_self, ?_⟩
    rintro rfl
    exact (List.nodup_cons.mp hn).1 List.mem_cons_self

/-! ## Maps that may fail -/

section

variable {ι γ : Type*} {f : ι → Option γ} {xs : List ι} {ys : List γ}

/-- What comes from an element knows it. -/
theorem map_of_mapM {g : γ → ι} (h : xs.mapM f = some ys) (hg : ∀ x y, f x = some y → g y = x) :
    ys.map g = xs ∧ ∀ y ∈ ys, f (g y) = some y := by
  induction xs generalizing ys with
  | nil =>
    cases h
    exact ⟨rfl, fun y hy => absurd hy List.not_mem_nil⟩
  | cons x xs ih =>
    rw [List.mapM_cons] at h
    obtain ⟨y, hy, h⟩ := Option.bind_eq_some_iff.mp h
    obtain ⟨ys', hys, h⟩ := Option.bind_eq_some_iff.mp h
    cases h
    obtain ⟨hmap, hmem⟩ := ih hys
    refine ⟨by rw [List.map_cons, hg x y hy, hmap], List.forall_mem_cons.mpr ⟨?_, hmem⟩⟩
    rw [hg x y hy, hy]

theorem mapM_isSome (h : ∀ x ∈ xs, (f x).isSome) : (xs.mapM f).isSome := by
  induction xs with
  | nil => rfl
  | cons x xs ih =>
    rw [List.forall_mem_cons] at h
    obtain ⟨y, hy⟩ := Option.isSome_iff_exists.mp h.1
    obtain ⟨ys, hys⟩ := Option.isSome_iff_exists.mp (ih h.2)
    rw [List.mapM_cons, hy, hys]
    rfl

end

/-! ## Cutting at a separator -/

section

variable {ι : Type*} {sep : ι} {xs ys us vs : List ι}

/-- Where a list is cut is known if neither first part goes on with the separator. -/
theorem cut_inj (hxs : ∀ zs, ys ≠ xs ++ sep :: zs) (hys : ∀ zs, xs ≠ ys ++ sep :: zs)
    (h : xs ++ sep :: us = ys ++ sep :: vs) : xs = ys ∧ us = vs := by
  rcases List.append_eq_append_iff.mp h with ⟨zs, hzs, htail⟩ | ⟨zs, hzs, htail⟩
  · rcases zs with _ | ⟨z, zs⟩
    · rw [List.append_nil] at hzs
      exact ⟨hzs.symm, (List.cons.inj htail).2⟩
    · obtain ⟨rfl, -⟩ := List.cons.inj htail
      exact absurd hzs (hxs zs)
  · rcases zs with _ | ⟨z, zs⟩
    · rw [List.append_nil] at hzs
      exact ⟨hzs, (List.cons.inj htail).2.symm⟩
    · obtain ⟨rfl, -⟩ := List.cons.inj htail
      exact absurd hzs (hys zs)

/-- The first separator. -/
theorem cut_first_inj (hxs : sep ∉ xs) (hys : sep ∉ ys)
    (h : xs ++ sep :: us = ys ++ sep :: vs) : xs = ys ∧ us = vs :=
  cut_inj (fun _ heq => hys (heq ▸ by simp)) (fun _ heq => hxs (heq ▸ by simp)) h

/-- The last separator. -/
theorem cut_last_inj (hus : sep ∉ us) (hvs : sep ∉ vs)
    (h : xs ++ sep :: us = ys ++ sep :: vs) : xs = ys ∧ us = vs := by
  have hreverse := congrArg List.reverse h
  rw [List.reverse_append, List.reverse_append, List.reverse_cons, List.reverse_cons,
    List.append_assoc, List.append_assoc] at hreverse
  obtain ⟨htail, hhead⟩ := cut_first_inj (by simpa using hus) (by simpa using hvs) hreverse
  exact ⟨List.reverse_injective hhead, List.reverse_injective htail⟩

end

/-! ## Related lists -/

section

variable {ι γ : Type*} {R : ι → γ → Prop}

variable {xs : List ι}

theorem forall₂_mapIdx {f : Nat → ι → γ} (h : ∀ i x, R x (f i x)) :
    List.Forall₂ R xs (xs.mapIdx f) := by
  induction xs generalizing f with
  | nil => exact .nil
  | cons x xs ih =>
    rw [List.mapIdx_cons]
    exact .cons (h 0 x) (ih fun i y => h (i + 1) y)

/-- The other side of a member of the second list. -/
theorem exists_of_forall₂_mem {ys : List γ} (h : List.Forall₂ R xs ys) {y : γ} (hy : y ∈ ys) :
    ∃ x ∈ xs, R x y := by
  induction h with
  | nil => exact absurd hy List.not_mem_nil
  | @cons x y' xs ys hxy _ ih =>
    rcases List.mem_cons.mp hy with rfl | hy
    · exact ⟨x, List.mem_cons_self, hxy⟩
    · obtain ⟨x', hx', hR⟩ := ih hy
      exact ⟨x', List.mem_cons_of_mem x hx', hR⟩

/-- One function that chooses for every pair. -/
theorem forall₂_choose {δ : Type*} [Nonempty δ] {Q : ι → γ → δ → Prop} {ys : List γ}
    (hys : ys.Nodup) (h : List.Forall₂ (fun x y => ∃ z, Q x y z) xs ys) :
    ∃ f : γ → δ, List.Forall₂ (fun x y => Q x y (f y)) xs ys := by
  classical
  induction h with
  | nil => exact ⟨fun _ => Classical.arbitrary δ, .nil⟩
  | @cons x y xs ys hxy _ ih =>
    obtain ⟨hy, hys⟩ := List.nodup_cons.mp hys
    obtain ⟨z, hz⟩ := hxy
    obtain ⟨f, hf⟩ := ih hys
    refine ⟨Function.update f y z, .cons (by rwa [Function.update_self]) ?_⟩
    refine List.forall₂_iff_get.mpr ⟨hf.length_eq, fun i hx hi => ?_⟩
    have hne : ys.get ⟨i, hi⟩ ≠ y := fun heq => hy (heq ▸ List.get_mem ys ⟨i, hi⟩)
    rw [Function.update_of_ne hne]
    exact hf.get hx hi

/-- A list related to two in a row is two in a row. -/
theorem forall₂_append_left {ys : List ι} {zs : List γ} (h : List.Forall₂ R (xs ++ ys) zs) :
    ∃ us vs, zs = us ++ vs ∧ List.Forall₂ R xs us ∧ List.Forall₂ R ys vs := by
  induction xs generalizing zs with
  | nil => exact ⟨[], zs, rfl, .nil, h⟩
  | cons x xs ih =>
    obtain ⟨z, zs, hx, hrest, rfl⟩ := List.forall₂_cons_left_iff.mp h
    obtain ⟨us, vs, rfl, hus, hvs⟩ := ih hrest
    exact ⟨z :: us, vs, rfl, .cons hx hus, hvs⟩

end

/-! ## The last element -/

/-- A change of one element that `g` does not show. -/
theorem map_modify {g : ι → γ} {f : ι → ι} (h : ∀ x, g (f x) = g x) (i : Nat) (xs : List ι) :
    (xs.modify i f).map g = xs.map g := by
  induction xs generalizing i with
  | nil => simp
  | cons x xs ih =>
    rcases i with _ | i
    · simp [h]
    · simp [ih]

theorem modify_append_last (f : ι → ι) (xs : List ι) (x : ι) :
    (xs ++ [x]).modify xs.length f = xs ++ [f x] := by
  induction xs with
  | nil => rfl
  | cons y xs ih => exact congrArg (y :: ·) ih

/-! ## Elements with a key of their own -/

section

variable {key : α → κ} {xs before group after : List α} {a : α}

theorem findIdx?_key (h : (xs.map key).Nodup) {i : Nat} (hi : xs[i]? = some a) :
    xs.findIdx? (fun b => key b = key a) = some i := by
  obtain ⟨hlt, heq⟩ := List.getElem?_eq_some_iff.mp hi
  rw [List.findIdx?_eq_some_iff_getElem]
  refine ⟨hlt, by rw [heq]; exact decide_eq_true rfl, fun j hj hsame => ?_⟩
  have hlength : (xs.map key).length = xs.length := List.length_map key
  have hkey : (xs.map key).get ⟨j, by omega⟩ = (xs.map key).get ⟨i, by omega⟩ := by
    rw [List.get_eq_getElem, List.get_eq_getElem, List.getElem_map, List.getElem_map, heq]
    exact of_decide_eq_true hsame
  exact absurd (h.getElem_inj_iff.mp hkey) (by omega)

/-- The places of the elements of a segment. -/
theorem filterMap_findIdx?_segment (h : ((before ++ group ++ after).map key).Nodup) :
    (group.map key).filterMap (fun k => (before ++ group ++ after).findIdx? (fun b => key b = k)) =
      List.range' before.length group.length := by
  induction group generalizing before with
  | nil => rfl
  | cons a group ih =>
    have hsplit : before ++ (a :: group) ++ after = (before ++ [a]) ++ group ++ after := by simp
    have hplace : (before ++ (a :: group) ++ after)[before.length]? = some a := by simp
    have hrest := @ih (before ++ [a]) (by rw [← hsplit]; exact h)
    rw [← hsplit, List.length_append, List.length_singleton] at hrest
    rw [List.map_cons, List.filterMap_cons, findIdx?_key h hplace, hrest, List.length_cons,
      List.range'_succ]

end

/-! ## One element among others -/

section

variable {ι : Type*} {P Q : ι → Prop} {xs : List ι} {x y : ι} {i : ℕ}

/-- `x` is in a list whose other elements are `P`. -/
def Only (P : ι → Prop) (x : ι) (xs : List ι) : Prop :=
  ∃ before after, xs = before ++ x :: after ∧ ∀ z ∈ before ++ after, P z

theorem only_append_singleton (h : ∀ z ∈ xs, P z) (x : ι) : Only P x (xs ++ [x]) :=
  ⟨xs, [], rfl, by rwa [List.append_nil]⟩

theorem Only.mem (h : Only P x xs) : x ∈ xs := by
  obtain ⟨before, after, rfl, -⟩ := h
  exact List.mem_append_right _ List.mem_cons_self

/-- Taking an element takes `x`, or leaves it. -/
theorem Only.eraseIdx (h : Only P x xs) (hi : xs[i]? = some y) :
    (y = x ∧ ∀ z ∈ xs.eraseIdx i, P z) ∨ (P y ∧ Only P x (xs.eraseIdx i)) := by
  obtain ⟨before, after, rfl, hothers⟩ := h
  rcases Nat.lt_trichotomy i before.length with hlt | heq | hgt
  · rw [List.getElem?_append_left hlt] at hi
    rw [List.eraseIdx_append_of_lt_length hlt]
    refine .inr ⟨hothers y (List.mem_append_left _ (List.mem_of_getElem? hi)), _, after, rfl, ?_⟩
    intro z hz
    apply hothers z
    rw [List.mem_append] at hz ⊢
    exact hz.imp_left List.mem_of_mem_eraseIdx
  · subst heq
    rw [List.getElem?_append_right (Nat.le_refl _), Nat.sub_self, List.getElem?_cons_zero] at hi
    rw [List.eraseIdx_append_of_length_le (Nat.le_refl _), Nat.sub_self, List.eraseIdx_cons_zero]
    exact .inl ⟨(Option.some.inj hi).symm, hothers⟩
  · obtain ⟨k, rfl⟩ := Nat.exists_eq_add_of_lt hgt
    have hsub : before.length + k + 1 - before.length = k + 1 := by omega
    rw [List.getElem?_append_right (by omega), hsub, List.getElem?_cons_succ] at hi
    rw [List.eraseIdx_append_of_length_le (by omega), hsub, List.eraseIdx_cons_succ]
    refine .inr ⟨hothers y (List.mem_append_right _ (List.mem_of_getElem? hi)), before, _, rfl, ?_⟩
    intro z hz
    apply hothers z
    rw [List.mem_append] at hz ⊢
    exact hz.imp_right List.mem_of_mem_eraseIdx

theorem Only.length_filter_le (h : Only P x xs) {p : ι → Bool} (hp : ∀ z, P z → p z = false) :
    (xs.filter p).length ≤ 1 := by
  obtain ⟨before, after, rfl, hothers⟩ := h
  have hnone : ∀ zs : List ι, (∀ z ∈ zs, P z) → zs.filter p = [] := fun zs hzs =>
    List.filter_eq_nil_iff.mpr fun z hz => by simp [hp z (hzs z hz)]
  rw [List.filter_append, List.filter_cons,
    hnone before fun z hz => hothers z (List.mem_append_left _ hz),
    hnone after fun z hz => hothers z (List.mem_append_right _ hz)]
  split <;> simp

end

/-! ## Lists in the order of a key -/

section

variable {ι γ : Type*} [LinearOrder γ] (key : ι → γ)

/-- A relation that goes with the key on the elements of a list sorts it by the key. -/
theorem pairwise_insertionSort_key {r : ι → ι → Prop} [DecidableRel r] {xs : List ι}
    (h : ∀ x ∈ xs, ∀ y ∈ xs, (r x y → key x ≤ key y) ∧ (¬r x y → key y ≤ key x)) :
    (xs.insertionSort r).Pairwise (key · ≤ key ·) := by
  induction xs with
  | nil => exact .nil
  | cons a xs ih =>
    have hsorted := ih fun x hx y hy => h x (List.mem_cons_of_mem a hx) y (List.mem_cons_of_mem a hy)
    have ha : ∀ y ∈ xs.insertionSort r, (r a y → key a ≤ key y) ∧ (¬r a y → key y ≤ key a) :=
      fun y hy => h a List.mem_cons_self y
        (List.mem_cons_of_mem a ((List.perm_insertionSort r xs).mem_iff.mp hy))
    rw [List.insertionSort_cons]
    generalize xs.insertionSort r = ys at hsorted ha
    induction hsorted with
    | nil => exact List.pairwise_singleton _ _
    | @cons b ys hb hsorted ihys =>
      rw [List.orderedInsert]
      split_ifs with hab
      · have hle := (ha b List.mem_cons_self).1 hab
        refine .cons (fun c hc => ?_) (.cons hb hsorted)
        rcases List.mem_cons.mp hc with rfl | hc
        · exact hle
        · exact hle.trans (hb c hc)
      · have hle := (ha b List.mem_cons_self).2 hab
        refine .cons (fun c hc => ?_) (ihys fun y hy => ha y (List.mem_cons_of_mem b hy))
        rcases (List.mem_orderedInsert r).mp hc with rfl | hc
        · exact hle
        · exact hb c hc

variable {key} {xs : List ι}

theorem filter_upTo (h : xs.Pairwise (key · ≤ key ·)) (stop : γ) :
    xs.filter (key · ≤ stop) <+: xs := by
  induction h with
  | nil => exact List.prefix_rfl
  | @cons x xs hx _ ih =>
    by_cases hle : key x ≤ stop
    · rw [List.filter_cons_of_pos (by simpa using hle)]
      exact (List.prefix_cons_inj x).mpr ih
    · have hnil : xs.filter (key · ≤ stop) = [] := by
        refine List.filter_eq_nil_iff.mpr fun y hy hlate => hle ?_
        exact (hx y hy).trans (by simpa using hlate)
      rw [List.filter_cons_of_neg (by simpa using hle), hnil]
      exact List.nil_prefix

/-- In a list in the order of the key, the elements between two bounds are neighbours. -/
theorem filter_between (h : xs.Pairwise (key · ≤ key ·)) (start stop : γ) :
    xs.filter (fun x => start ≤ key x ∧ key x ≤ stop) <:+: xs := by
  induction h with
  | nil => exact List.infix_rfl
  | @cons x xs hx hxs ih =>
    by_cases hstart : start ≤ key x
    · have hall : (x :: xs).filter (fun y => start ≤ key y ∧ key y ≤ stop) =
          (x :: xs).filter (key · ≤ stop) := by
        refine List.filter_congr fun y hy => ?_
        have hle : start ≤ key y := by
          rcases List.mem_cons.mp hy with rfl | hy
          · exact hstart
          · exact hstart.trans (hx y hy)
        simp only [hle, true_and]
      rw [hall]
      exact (filter_upTo (.cons hx hxs) stop).isInfix
    · rw [List.filter_cons_of_neg (by simp [hstart])]
      exact List.infix_cons ih

/-- In a list that a key puts in order, a relation goes with the order if it goes with the key. -/
theorem pairwise_iff_of_lt {r : ι → ι → Prop} (h : xs.Pairwise (key · < key ·)) :
    xs.Pairwise r ↔ ∀ x ∈ xs, ∀ y ∈ xs, key x < key y → r x y := by
  constructor
  · intro hr x hx y hy
    have hboth : xs.Pairwise fun x y => key x < key y → r x y := by
      refine hr.imp fun {x y} hxy hlt => ?_
      exact hxy
    have hflip : xs.Pairwise fun x y => key y < key x → r y x := by
      refine h.imp fun {x y} hlt hgt => ?_
      exact absurd hgt hlt.not_gt
    exact hboth.forall_of_forall_of_flip (fun z _ hz => absurd hz (lt_irrefl _)) hflip hx hy
  · exact fun hr => h.imp_of_mem fun hx hy hlt => hr _ hx _ hy hlt

end

section

variable {ι γ δ : Type*} {out : ι → γ → δ} {f : ι → γ} {xs : List ι} {pairs : List (ι × γ)}

/-- Where the elements and their values can be told from the output, the outputs are those of the
values that the elements have exactly if each element comes with its value. -/
theorem map_perm_map_iff (hperm : (pairs.map Prod.fst).Perm xs)
    (hout : ∀ x ∈ xs, ∀ y ∈ xs, ∀ v w, out x v = out y w → x = y ∧ v = w) :
    (pairs.map fun p => out p.1 p.2).Perm (xs.map fun x => out x (f x)) ↔
      ∀ p ∈ pairs, p.2 = f p.1 := by
  constructor
  · intro h p hp
    have hmem : p.1 ∈ xs := hperm.mem_iff.mp (List.mem_map_of_mem hp)
    obtain ⟨x, hx, heq⟩ := List.mem_map.mp (h.mem_iff.mp (List.mem_map_of_mem hp))
    obtain ⟨rfl, hvalue⟩ := hout x hx p.1 hmem _ _ heq
    exact hvalue.symm
  · intro h
    have hmap : pairs.map (fun p => out p.1 p.2) =
        (pairs.map Prod.fst).map fun x => out x (f x) := by
      rw [List.map_map]
      exact List.map_congr_left fun p hp => by rw [h p hp, Function.comp_apply]
    rw [hmap]
    exact hperm.map _

end

/-! ## Replacing elements -/

section

variable {ι : Type*} {r : ι → ι → Prop} {p : ι → Prop} [DecidablePred p] {x : ι} {xs : List ι}

/-- Where what does not go with itself takes the place of some elements, all go together exactly
if it takes one place and goes with the rest. -/
theorem pairwise_replace_iff [Std.Symm r] (hxs : xs.Pairwise r) (hx : ¬r x x)
    (hp : ∃ y ∈ xs, p y) :
    (xs.map fun y => if p y then x else y).Pairwise r ↔
      (xs.filter (p ·)).length ≤ 1 ∧ ∀ y ∈ xs, ¬p y → r x y := by
  have hreplaced : (xs.filter (p ·)).map (fun y => if p y then x else y) =
      List.replicate (xs.filter (p ·)).length x := by
    refine List.eq_replicate_iff.mpr ⟨List.length_map _, fun y hy => ?_⟩
    obtain ⟨z, hz, rfl⟩ := List.mem_map.mp hy
    exact if_pos (by simpa using (List.mem_filter.mp hz).2)
  have hkept : (xs.filter fun y => !decide (p y)).map (fun y => if p y then x else y) =
      xs.filter (fun y => !decide (p y)) := by
    refine List.map_congr_left (fun y hy => ?_) |>.trans (List.map_id _)
    exact if_neg (by simpa using (List.mem_filter.mp hy).2)
  have hperm := (List.filter_append_perm (fun y => decide (p y)) xs).map
    fun y => if p y then x else y
  rw [List.map_append, hreplaced, hkept] at hperm
  obtain ⟨y, hy, hpy⟩ := hp
  have hpos : (xs.filter (p ·)).length ≠ 0 :=
    (List.length_pos_of_mem (List.mem_filter.mpr ⟨hy, decide_eq_true hpy⟩)).ne'
  rw [← hperm.pairwise_iff fun h => Std.Symm.symm _ _ h, List.pairwise_append, List.pairwise_replicate]
  simp only [List.mem_replicate, List.mem_filter, Bool.not_eq_true', decide_eq_false_iff_not]
  constructor
  · rintro ⟨hle, -, hothers⟩
    exact ⟨hle.resolve_right hx, fun z hz hpz => hothers x ⟨hpos, rfl⟩ z ⟨hz, hpz⟩⟩
  · rintro ⟨hle, hothers⟩
    exact ⟨.inl hle, hxs.filter _, fun a ⟨_, ha⟩ z ⟨hz, hpz⟩ => ha ▸ hothers z hz hpz⟩

end

theorem eq_of_map_pairwise_lt [Preorder γ] {f : ι → γ} {xs : List ι} {x y : ι}
    (hsorted : (xs.map f).Pairwise (· < ·)) (hx : x ∈ xs) (hy : y ∈ xs) (h : f x = f y) : x = y :=
  List.inj_on_of_nodup_map (hsorted.imp ne_of_lt) hx hy h

/-- The first prefix that breaks what the empty one has. -/
theorem forall_prefix_or_first (good : List ι → Prop) (hnil : good []) (xs : List ι) :
    (∀ before, before <+: xs → good before) ∨
      ∃ before x after, xs = before ++ x :: after ∧ (∀ p, p <+: before → good p) ∧
        ¬ good (before ++ [x]) := by
  induction xs using List.reverseRecOn with
  | nil => exact .inl fun before hbefore => by rwa [List.prefix_nil.mp hbefore]
  | append_singleton xs x ih =>
    obtain hall | ⟨before, y, after, rfl, hgood, hbad⟩ := ih
    · by_cases hx : good (xs ++ [x])
      · refine .inl fun before hbefore => ?_
        obtain rfl | hbefore := List.prefix_concat_iff.mp hbefore
        · exact hx
        · exact hall before hbefore
      · exact .inr ⟨xs, x, [], rfl, hall, hx⟩
    · exact .inr ⟨before, y, after ++ [x], by rw [List.append_assoc, List.cons_append], hgood,
        hbad⟩

/-- The last element that satisfies a predicate. -/
theorem exists_last {p : ι → Bool} {xs : List ι} (h : ∃ x ∈ xs, p x) :
    ∃ before last after, xs = before ++ last :: after ∧ p last ∧ ∀ x ∈ after, p x = false := by
  induction xs using List.reverseRecOn with
  | nil => exact absurd h (by simp)
  | append_singleton xs x ih =>
    cases hx : p x with
    | true => exact ⟨xs, x, [], rfl, hx, fun _ hy => absurd hy List.not_mem_nil⟩
    | false =>
      obtain ⟨y, hy, hp⟩ := h
      have hy' : y ∈ xs := (List.mem_append.mp hy).resolve_right fun hy => by
        rw [List.mem_singleton.mp hy, hx] at hp
        exact Bool.false_ne_true hp
      obtain ⟨before, last, after, rfl, hlast, hafter⟩ := ih ⟨y, hy', hp⟩
      refine ⟨before, last, after ++ [x], by rw [List.append_assoc, List.cons_append], hlast, ?_⟩
      exact fun z hz => (List.mem_append.mp hz).elim (hafter z) fun hz =>
        List.mem_singleton.mp hz ▸ hx

/-! ## The nearest element -/

section

variable {ι γ : Type*} [LinearOrder γ] {distance : ι → γ} {x y : ι} {xs : List ι}

/-- No element is nearer than `x`, and what comes after it is farther. -/
def LastNearest (distance : ι → γ) (xs : List ι) (x : ι) : Prop :=
  ∃ before after, xs = before ++ x :: after ∧ (∀ z ∈ before, distance x ≤ distance z) ∧
    ∀ z ∈ after, distance x < distance z

theorem LastNearest.mem (h : LastNearest distance xs x) : x ∈ xs := by
  obtain ⟨before, after, rfl, -, -⟩ := h
  exact List.mem_append_right _ List.mem_cons_self

theorem LastNearest.eq (hx : LastNearest distance xs x) (hy : LastNearest distance xs y) :
    x = y := by
  obtain ⟨before, after, rfl, hbefore, hafter⟩ := hx
  obtain ⟨before', after', heq, hbefore', hafter'⟩ := hy
  rcases List.append_eq_append_iff.mp heq with ⟨between, rfl, hsplit⟩ | ⟨between, rfl, hsplit⟩
  · cases between with
    | nil => exact (List.cons.inj hsplit).1
    | cons z between =>
      obtain ⟨rfl, rfl⟩ := List.cons.inj hsplit
      have hle := hbefore' x (List.mem_append_right _ List.mem_cons_self)
      exact absurd (hafter y (List.mem_append_right _ List.mem_cons_self)) (not_lt.mpr hle)
  · cases between with
    | nil => exact (List.cons.inj hsplit).1.symm
    | cons z between =>
      obtain ⟨rfl, rfl⟩ := List.cons.inj hsplit
      have hle := hbefore y (List.mem_append_right _ List.mem_cons_self)
      exact absurd (hafter' x (List.mem_append_right _ List.mem_cons_self)) (not_lt.mpr hle)

theorem LastNearest.le (h : LastNearest distance xs x) (hy : y ∈ xs) :
    distance x ≤ distance y := by
  obtain ⟨before, after, rfl, hbefore, hafter⟩ := h
  rcases List.mem_append.mp hy with hy | hy
  · exact hbefore y hy
  · rcases List.mem_cons.mp hy with rfl | hy
    · exact le_rfl
    · exact (hafter y hy).le

/-- What is nearest to a later point is not before what is nearest to an earlier one. -/
theorem LastNearest.mono {value : ι → ℚ} {a b : ℚ}
    (hx : LastNearest (fun z => |a - value z|) xs x)
    (hy : LastNearest (fun z => |b - value z|) xs y) (hab : a ≤ b) : value x ≤ value y := by
  by_contra hlt
  have hlt := not_le.mp hlt
  -- Otherwise `a` and `b` are both in the middle between the two.
  have ha : |a - value x| ≤ |a - value y| := hx.le hy.mem
  have hb : |b - value y| ≤ |b - value x| := hy.le hx.mem
  have hmiddle : value x + value y ≤ 2 * a := by
    rcases abs_cases (a - value x) with h | h <;> rcases abs_cases (a - value y) with h' | h' <;>
      linarith
  have hmiddle' : 2 * b ≤ value x + value y := by
    rcases abs_cases (b - value x) with h | h <;> rcases abs_cases (b - value y) with h' | h' <;>
      linarith
  have heq : a = b := by linarith
  subst heq
  exact absurd hlt (by rw [hx.eq hy]; exact lt_irrefl _)

/-- The loop that takes each element that is not farther than the nearest so far. -/
def nearestLoop (distance : ι → γ) : ι × γ → List ι → ι × γ :=
  List.foldl fun nearest z => if distance z ≤ nearest.2 then (z, distance z) else nearest

theorem lastNearest_nearestLoop (distance : ι → γ) (first : ι) (rest : List ι) :
    LastNearest distance (first :: rest) (nearestLoop distance (first, distance first) rest).1 := by
  -- What was looked at before `first` is not nearer.
  have hloop : ∀ (seen : List ι) (first : ι), (∀ z ∈ seen, distance first ≤ distance z) →
      ∀ skipped : List ι, (∀ z ∈ skipped, distance first < distance z) →
      LastNearest distance (seen ++ first :: (skipped ++ rest))
        (nearestLoop distance (first, distance first) rest).1 := by
    induction rest with
    | nil =>
      intro seen first hseen skipped hskipped
      rw [List.append_nil]
      exact ⟨seen, skipped, rfl, hseen, hskipped⟩
    | cons z rest ih =>
      intro seen first hseen skipped hskipped
      rw [nearestLoop, List.foldl_cons]
      split_ifs with hle
      · have hbefore : ∀ w ∈ seen ++ first :: skipped, distance z ≤ distance w := by
          intro w hw
          rcases List.mem_append.mp hw with hw | hw
          · exact le_trans hle (hseen w hw)
          · rcases List.mem_cons.mp hw with rfl | hw
            · exact hle
            · exact le_trans hle (hskipped w hw).le
        have h := ih (seen ++ first :: skipped) z hbefore [] fun _ hmem =>
          absurd hmem List.not_mem_nil
        rwa [List.append_assoc, List.cons_append] at h
      · have h := ih seen first hseen (skipped ++ [z]) fun w hw => by
          rcases List.mem_append.mp hw with hw | hw
          · exact hskipped w hw
          · exact List.mem_singleton.mp hw ▸ not_le.mp hle
        rwa [List.append_assoc, List.singleton_append] at h
  exact hloop [] first (fun _ hmem => absurd hmem List.not_mem_nil) []
    fun _ hmem => absurd hmem List.not_mem_nil

end

end Lists

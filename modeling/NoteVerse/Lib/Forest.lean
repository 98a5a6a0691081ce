import NoteVerse.Lib.Lists

/-!
# Forests given by the parents of their nodes

`node a` is `none` if there is no node `a`, `some none` if `a` is a root and
`some (some p)` if its parent is `p`. Nothing makes such a map a forest: `p` may
be no node, and parents may run in a circle. `Level` counts the nodes from a
root down to a node, so that a map is a forest of at most `k` levels if each
node has a level of at most `k` (`Bounded`). Then parents are nodes
(`Bounded.parent`) and do not run in a circle (`Bounded.not_transGen`).

`attach_iff`, `Bounded.detach` and `Bounded.remove_iff` say when a forest stays
one after a node is put below another, made a root, or removed with others.
`fold` is a recursion over the children of a node with a limit on its depth,
which is never reached if the limit exceeds all distances (`fold_isSome`).
-/

namespace Forest

variable {α : Type*}

def ChildOf (node : α → Option (Option α)) (a p : α) : Prop := node a = some (some p)

inductive Level (node : α → Option (Option α)) : α → Nat → Prop
  | root {a : α} : node a = some none → Level node a 1
  | child {a p : α} {n : Nat} : ChildOf node a p → Level node p n → Level node a (n + 1)

/-- From the first node, so many parents up is the second one. -/
inductive Below (node : α → Option (Option α)) : α → α → Nat → Prop
  | refl (a : α) : Below node a a 0
  | child {a p b : α} {d : Nat} : ChildOf node a p → Below node p b d → Below node a b (d + 1)

def Bounded (node : α → Option (Option α)) (k : Nat) : Prop :=
  ∀ a, (node a).isSome → ∃ n ≤ k, Level node a n

variable {node node' : α → Option (Option α)} {a b p x : α} {d k m n : Nat}

theorem ChildOf.isSome (h : ChildOf node a p) : (node a).isSome := Option.isSome_of_eq_some h

theorem ChildOf.unique (h : ChildOf node a p) (hb : ChildOf node a b) : p = b :=
  Option.some_inj.mp (Option.some_inj.mp (h.symm.trans hb))

/-! ## Levels -/

theorem Level.isSome (h : Level node a n) : (node a).isSome := by
  cases h with
  | root h => exact Option.isSome_of_eq_some h
  | child h _ => exact h.isSome

theorem Level.pos (h : Level node a n) : 0 < n := by
  cases h <;> omega

theorem Level.parent (h : Level node a n) (hp : ChildOf node a p) :
    ∃ m, n = m + 1 ∧ Level node p m := by
  cases h with
  | root h => exact absurd (h.symm.trans hp) (by simp)
  | child hp' h =>
    rw [hp.unique hp']
    exact ⟨_, rfl, h⟩

theorem Level.unique (h : Level node a n) (h' : Level node a m) : n = m := by
  induction h generalizing m with
  | root hroot =>
    cases h' with
    | root => rfl
    | child hp _ => exact absurd (hroot.symm.trans hp) (by simp)
  | child hp _ ih =>
    obtain ⟨l, rfl, hl⟩ := h'.parent hp
    rw [ih hl]

theorem Below.level (h : Below node a b d) (hb : Level node b m) : Level node a (m + d) := by
  induction h with
  | refl => exact hb
  | child hp _ ih => exact .child hp (ih hb)

theorem Level.above (h : Level node a n) (hb : Below node a b d) :
    ∃ m, Level node b m ∧ n = m + d := by
  induction hb generalizing n with
  | refl => exact ⟨n, h, rfl⟩
  | child hp _ ih =>
    obtain ⟨l, rfl, hl⟩ := h.parent hp
    obtain ⟨m, hm, rfl⟩ := ih hl
    exact ⟨m, hm, rfl⟩

theorem Level.not_below_self (h : Level node a n) : ¬Below node a a (d + 1) := by
  intro hb
  obtain ⟨m, hm, hn⟩ := h.above hb
  have := h.unique hm
  omega

/-- The nodes from a node up to its root. -/
theorem Level.path (h : Level node a n) : ∃ path : List α, path.length = n ∧ path.Nodup ∧
    ∀ b ∈ path, ∃ m ≤ n, Level node b m := by
  induction h with
  | @root a hroot =>
    exact ⟨[a], rfl, List.nodup_singleton a, fun b hb => by
      rw [List.mem_singleton.mp hb]
      exact ⟨1, Nat.le_refl 1, .root hroot⟩⟩
  | @child a p n hp h ih =>
    obtain ⟨path, hlength, hnodup, hpath⟩ := ih
    refine ⟨a :: path, by simp [hlength], List.nodup_cons.mpr ⟨fun ha => ?_, hnodup⟩, ?_⟩
    · obtain ⟨m, hm, ham⟩ := hpath a ha
      have := ham.unique (.child hp h)
      omega
    · intro b hb
      rcases List.mem_cons.mp hb with rfl | hb
      · exact ⟨n + 1, Nat.le_refl _, .child hp h⟩
      · obtain ⟨m, hm, hbm⟩ := hpath b hb
        exact ⟨m, by omega, hbm⟩

theorem Level.le_length (h : Level node a n) {nodes : List α}
    (hnodes : ∀ b, (node b).isSome → b ∈ nodes) : n ≤ nodes.length := by
  obtain ⟨path, rfl, hnodup, hpath⟩ := h.path
  refine (List.subperm_of_subset hnodup fun b hb => ?_).length_le
  obtain ⟨m, -, hm⟩ := hpath b hb
  exact hnodes b hm.isSome

/-! ## What lies below a node -/

theorem Below.trans (h : Below node a b d) (hb : Below node b x m) : Below node a x (m + d) := by
  induction h with
  | refl => exact hb
  | child hp _ ih => exact .child hp (ih hb)

theorem ChildOf.below (h : ChildOf node a p) : Below node a p 1 := .child h (.refl p)

/-- The way up ends with a step from a child. -/
theorem Below.last (h : Below node a b (d + 1)) : ∃ c, ChildOf node c b ∧ Below node a c d := by
  induction d generalizing a with
  | zero =>
    cases h with
    | child hp h =>
      cases h
      exact ⟨a, hp, .refl a⟩
  | succ d ih =>
    cases h with
    | child hp h =>
      obtain ⟨c, hc, h⟩ := ih h
      exact ⟨c, hc, .child hp h⟩

theorem exists_below_of_transGen (h : Relation.TransGen (ChildOf node) a b) :
    ∃ d, Below node a b (d + 1) := by
  induction h with
  | single h => exact ⟨0, h.below⟩
  | tail _ h ih =>
    obtain ⟨d, hd⟩ := ih
    exact ⟨1 + d, hd.trans h.below⟩

/-! ## Forests -/

theorem Bounded.parent (h : Bounded node k) (hp : ChildOf node a p) : (node p).isSome := by
  obtain ⟨n, -, hn⟩ := h a hp.isSome
  obtain ⟨m, -, hm⟩ := hn.parent hp
  exact hm.isSome

theorem Bounded.not_below_self (h : Bounded node k) : ¬Below node a a (d + 1) := by
  intro hb
  cases hb with
  | child hp hb =>
    obtain ⟨n, -, hn⟩ := h a hp.isSome
    exact hn.not_below_self (.child hp hb)

theorem Bounded.not_transGen (h : Bounded node k) : ¬Relation.TransGen (ChildOf node) a a := by
  intro ht
  obtain ⟨d, hd⟩ := exists_below_of_transGen ht
  exact h.not_below_self hd

/-- Nothing is below what is no node. -/
theorem Bounded.below_none (h : Bounded node k) (hx : node x = none) (hb : Below node a x d) :
    a = x ∧ d = 0 := by
  cases hb with
  | refl => exact ⟨rfl, rfl⟩
  | child hp hb =>
    obtain ⟨n, -, hn⟩ := h a hp.isSome
    obtain ⟨m, hm, -⟩ := hn.above (.child hp hb)
    exact absurd hx (Option.isSome_iff_ne_none.mp hm.isSome)

theorem Bounded.below_lt (h : Bounded node k) (hk : 0 < k) (hb : Below node a b d) : d < k := by
  cases hb with
  | refl => exact hk
  | child hp hb =>
    obtain ⟨n, hn, han⟩ := h a hp.isSome
    obtain ⟨m, hm, rfl⟩ := han.above (.child hp hb)
    have := hm.pos
    omega

/-! ## Another parent for a node -/

section

variable (hsame : ∀ a, a ≠ x → node' a = node a)
include hsame

theorem Level.of_not_below (h : Level node a n) (hx : ∀ d, ¬Below node a x d) :
    Level node' a n := by
  induction h with
  | @root a hroot =>
    have hne : a ≠ x := fun e => hx 0 (e ▸ .refl a)
    exact .root ((hsame a hne).trans hroot)
  | @child a p n hp _ ih =>
    have hne : a ≠ x := fun e => hx 0 (e ▸ .refl a)
    exact .child ((hsame a hne).trans hp) (ih fun d hd => hx (d + 1) (.child hp hd))

theorem Below.of_same (hx : ∀ d, ¬Below node x x (d + 1)) (h : Below node a x d) :
    Below node' a x d := by
  generalize hb : x = b at h
  induction h with
  | refl => exact .refl _
  | @child a p b d hp h ih =>
    subst hb
    have hne : a ≠ x := by
      rintro rfl
      exact hx d (.child hp h)
    exact .child ((hsame a hne).trans hp) (ih rfl)

theorem Bounded.attach_iff (h : Bounded node k) (hx : node' x = some (some p)) :
    Bounded node' k ↔ ∃ l, Level node p l ∧ (∀ d, ¬Below node p x d) ∧
      ∀ a d, Below node a x d → l + 1 + d ≤ k := by
  have hself : ∀ d, ¬Below node x x (d + 1) := fun d => h.not_below_self
  constructor
  · intro h'
    obtain ⟨n, -, hn⟩ := h' x (Option.isSome_of_eq_some hx)
    obtain ⟨l, rfl, hl⟩ := hn.parent hx
    have hnot : ∀ d, ¬Below node' p x d := by
      intro d hd
      have := hl.unique (hd.level hn)
      omega
    refine ⟨l, hl.of_not_below (fun a ha => (hsame a ha).symm) hnot,
      fun d hd => hnot d (hd.of_same hsame hself), fun a d hd => ?_⟩
    have hlevel := (hd.of_same hsame hself).level hn
    obtain ⟨m, hm, hm'⟩ := h' a hlevel.isSome
    rw [hlevel.unique hm']
    exact hm
  · rintro ⟨l, hl, hnot, hbound⟩ a ha
    have hlevel : Level node' x (l + 1) := .child hx (hl.of_not_below hsame hnot)
    by_cases hbelow : ∃ d, Below node a x d
    · obtain ⟨d, hd⟩ := hbelow
      exact ⟨l + 1 + d, hbound a d hd, (hd.of_same hsame hself).level hlevel⟩
    · have hne : a ≠ x := fun e => hbelow ⟨0, e ▸ .refl a⟩
      rw [hsame a hne] at ha
      obtain ⟨n, hn, han⟩ := h a ha
      exact ⟨n, hn, han.of_not_below hsame fun d hd => hbelow ⟨d, hd⟩⟩

theorem Bounded.detach (h : Bounded node k) (hk : 0 < k) (hx : node' x = some none) :
    Bounded node' k := by
  intro a ha
  by_cases hbelow : ∃ d, Below node a x d
  · obtain ⟨d, hd⟩ := hbelow
    have hlevel := (hd.of_same hsame fun d => h.not_below_self).level (.root hx)
    refine ⟨1 + d, ?_, hlevel⟩
    cases hd with
    | refl => omega
    | child hp hd =>
      obtain ⟨n, hn, han⟩ := h a hp.isSome
      obtain ⟨m, hm, rfl⟩ := han.above (.child hp hd)
      have := hm.pos
      omega
  · have hne : a ≠ x := fun e => hbelow ⟨0, e ▸ .refl a⟩
    rw [hsame a hne] at ha
    obtain ⟨n, hn, han⟩ := h a ha
    exact ⟨n, hn, han.of_not_below hsame fun d hd => hbelow ⟨d, hd⟩⟩

end

/-! ## Removing nodes -/

theorem Bounded.remove_iff (h : Bounded node k) (removed : α → Prop)
    (hremoved : ∀ a, removed a → node' a = none)
    (hkept : ∀ a, ¬removed a → node' a = node a) :
    Bounded node' k ↔ ∀ a p, ChildOf node a p → removed p → removed a := by
  constructor
  · intro h' a p hp hrp
    by_contra hra
    have hp' : ChildOf node' a p := (hkept a hra).trans hp
    exact Option.isSome_iff_ne_none.mp (h'.parent hp') (hremoved p hrp)
  · intro hclosed a ha
    have hra : ¬removed a := fun hra => Option.isSome_iff_ne_none.mp ha (hremoved a hra)
    obtain ⟨n, hn, han⟩ := h a (hkept a hra ▸ ha)
    refine ⟨n, hn, ?_⟩
    clear ha hn
    induction han with
    | root hroot => exact .root ((hkept _ hra).trans hroot)
    | child hp _ ih => exact .child ((hkept _ hra).trans hp) (ih fun hrp => hra (hclosed _ _ hp hrp))

/-! ## Recursion over the children -/

section

variable {β : Type*} {children : α → List α} {combine : α → List (α × β) → β}

/-- A value for a node from those for its children, by calls nested at most so
deep. -/
def fold (children : α → List α) (combine : α → List (α × β) → β) : Nat → α → Option β
  | 0, _ => none
  | limit + 1, a =>
    ((children a).mapM fun c => (fold children combine limit c).map (c, ·)).map (combine a)

theorem fold_spec {P : α → β → Prop}
    (hP : ∀ a results, results.map Prod.fst = children a → (∀ r ∈ results, P r.1 r.2) →
      P a (combine a results))
    {limit : Nat} {v : β} (h : fold children combine limit a = some v) : P a v := by
  induction limit generalizing a v with
  | zero => cases h
  | succ limit ih =>
    obtain ⟨results, hresults, rfl⟩ := Option.map_eq_some_iff.mp h
    obtain ⟨hchildren, hmem⟩ := Lists.map_of_mapM (g := Prod.fst) hresults fun c r hr => by
      obtain ⟨w, -, rfl⟩ := Option.map_eq_some_iff.mp hr
      rfl
    refine hP a results hchildren fun r hr => ?_
    obtain ⟨w, hw, hrw⟩ := Option.map_eq_some_iff.mp (hmem r hr)
    rw [← hrw]
    exact ih hw

theorem fold_isSome (hchildren : ∀ a, ∀ c ∈ children a, ChildOf node c a) {limit : Nat}
    (h : ∀ b d, Below node b a d → d < limit) : (fold children combine limit a).isSome := by
  induction limit generalizing a with
  | zero => exact absurd (h a 0 (.refl a)) (Nat.not_lt_zero 0)
  | succ limit ih =>
    rw [fold, Option.isSome_map]
    refine Lists.mapM_isSome fun c hc => ?_
    rw [Option.isSome_map]
    refine ih fun b d hb => ?_
    have := h b (1 + d) (hb.trans (hchildren a c hc).below)
    omega

end

end Forest

import NoteVerse.Lib.Computable

/-!
# Runs of a transition system

A system is a set of initial states and a relation `step s a s'` (in state
`s`, the action `a` may lead to `s'`). `Reachable` closes the initial states
under steps, and `Reachable.invariant` is the induction that every safety
proof uses: what holds at first and is kept by each step holds in every
reachable state. `guarded` restricts a system to the steps whose action meets
a condition on the state before it. Where a function computes the state after
an action, `run` computes the state after a list of them; where it also answers,
`answers` are its answers, and `forall₂_answers` compares two such machines whose
actions have times.
-/

namespace Transition

variable {σ α : Type*}

/-- The states that runs from `init` reach. -/
inductive Reachable (init : σ → Prop) (step : σ → α → σ → Prop) : σ → Prop
  | start {s : σ} : init s → Reachable init step s
  | step {s s' : σ} {a : α} : Reachable init step s → step s a s' → Reachable init step s'

/-- The steps of `step` whose action meets `ok` in the state before it. -/
def guarded (ok : σ → α → Prop) (step : σ → α → σ → Prop) (s : σ) (a : α) (s' : σ) : Prop :=
  ok s a ∧ step s a s'

variable {init : σ → Prop} {step : σ → α → σ → Prop}

theorem Reachable.invariant {p : σ → Prop} (h0 : ∀ s, init s → p s)
    (hs : ∀ s a s', p s → step s a s' → p s') {s : σ} (h : Reachable init step s) : p s := by
  induction h with
  | start hi => exact h0 _ hi
  | step _ hst ih => exact hs _ _ _ ih hst

/-- An invariant that may use that the state before the step is reachable. -/
theorem Reachable.invariant_of_reachable {p : σ → Prop} (h0 : ∀ s, init s → p s)
    (hs : ∀ s a s', Reachable init step s → p s → step s a s' → p s') {s : σ}
    (h : Reachable init step s) : p s := by
  induction h with
  | start hi => exact h0 _ hi
  | step hr hst ih => exact hs _ _ _ hr ih hst

/-- A run of fewer steps is a run. -/
theorem Reachable.mono {step' : σ → α → σ → Prop} (hs : ∀ s a s', step s a s' → step' s a s')
    {s : σ} (h : Reachable init step s) : Reachable init step' s :=
  h.invariant (fun _ hi => .start hi) fun _ _ _ ih hst => .step ih (hs _ _ _ hst)

/-- The state after a list of actions, if each of them is possible in turn. -/
def run (next : σ → α → Option σ) : σ → List α → Option σ
  | s, [] => some s
  | s, a :: as => (next s a).bind (run next · as)

theorem run_append {next : σ → α → Option σ} (s : σ) (as bs : List α) :
    run next s (as ++ bs) = (run next s as).bind (run next · bs) := by
  induction as generalizing s with
  | nil => rfl
  | cons a as ih =>
    simp only [List.cons_append, run]
    cases next s a with
    | none => rfl
    | some s' => exact ih s'

theorem reachable_of_run_from {next : σ → α → Option σ} {as : List α} {s s' : σ}
    (h : Reachable init (fun s a s' => next s a = some s') s) (hrun : run next s as = some s') :
    Reachable init (fun s a s' => next s a = some s') s' := by
  induction as generalizing s with
  | nil =>
    cases hrun
    exact h
  | cons a as ih =>
    obtain ⟨s₁, hnext, hrun⟩ := Option.bind_eq_some_iff.mp hrun
    exact ih (.step h hnext) hrun

theorem reachable_run {next : σ → α → Option σ} {as : List α} {s s' : σ}
    (hrun : run next s as = some s') :
    Reachable (· = s) (fun s a s' => next s a = some s') s' :=
  reachable_of_run_from (.start rfl) hrun

theorem guarded_step {ok : σ → α → Prop} {s s' : σ} {a : α} (h : guarded ok step s a s') :
    step s a s' := h.2

/-! ## Machines that answer -/

section

variable {τ β γ ι : Type*}

/-- The answers to a list of actions. -/
def answers (f : σ → α → σ × β) : σ → List α → List β
  | _, [] => []
  | s, a :: as => (f s a).2 :: answers f (f s a).1 as

/-- The state after a list of actions. -/
def after (f : σ → α → σ × β) (s : σ) (as : List α) : σ := as.foldl (fun s a => (f s a).1) s

@[simp] theorem after_cons (f : σ → α → σ × β) (s : σ) (a : α) (as : List α) :
    after f s (a :: as) = after f (f s a).1 as := rfl

theorem after_append (f : σ → α → σ × β) (s : σ) (as bs : List α) :
    after f s (as ++ bs) = after f (after f s as) bs := List.foldl_append

variable [Preorder ι]

/-- Machines that a relation at the time of the last action keeps together give
answers that belong together, if no action comes before the one before it. -/
theorem forall₂_answers {f : σ → α → σ × β} {g : τ → α → τ × γ} (time : α → ι)
    {R : ι → σ → τ → Prop} {Q : β → γ → Prop}
    (step : ∀ i s t a, i ≤ time a → R i s t → R (time a) (f s a).1 (g t a).1 ∧ Q (f s a).2 (g t a).2)
    {i : ι} {s : σ} {t : τ} {as : List α} (h : R i s t) (hfirst : ∀ a ∈ as, i ≤ time a)
    (hsorted : as.Pairwise (time · ≤ time ·)) :
    List.Forall₂ Q (answers f s as) (answers g t as) := by
  induction as generalizing i s t with
  | nil => exact .nil
  | cons a as ih =>
    obtain ⟨hnext, hanswer⟩ := step i s t a (hfirst a List.mem_cons_self) h
    obtain ⟨hle, hsorted⟩ := List.pairwise_cons.mp hsorted
    exact .cons hanswer (ih hnext hle hsorted)

/-- What holds at the time of the last action is kept by a run. -/
theorem after_invariant {f : σ → α → σ × β} (time : α → ι) {P : ι → σ → Prop}
    (mono : ∀ i j s, i ≤ j → P i s → P j s)
    (step : ∀ s a, P (time a) s → P (time a) (f s a).1)
    {i j : ι} {s : σ} {as : List α} (h : P i s) (hfirst : ∀ a ∈ as, i ≤ time a)
    (hsorted : as.Pairwise (time · ≤ time ·)) (hij : i ≤ j) (hlast : ∀ a ∈ as, time a ≤ j) :
    P j (after f s as) := by
  induction as generalizing i s with
  | nil => exact mono i j s hij h
  | cons a as ih =>
    have hstep := step s a (mono i _ s (hfirst a List.mem_cons_self) h)
    obtain ⟨hle, hsorted⟩ := List.pairwise_cons.mp hsorted
    exact ih hstep hle hsorted (hlast a List.mem_cons_self)
      fun b hb => hlast b (List.mem_cons_of_mem a hb)

end

end Transition

import NoteVerse.Lib.Computable

/-!
# Sessions of a database

A session computes with a database state and may raise an exception. What it
wrote before it raised stays written: `Session` keeps the state of a
computation that fails, so that a rollback is a step of its own and "an
operation that raises changes nothing" is a statement, not a definition.
-/

/-- A computation over a state `σ` that may raise an `ε`. -/
structure Session (σ ε α : Type) where
  run : σ → Except ε α × σ

namespace Session

variable {σ ε α β : Type}

instance : Monad (Session σ ε) where
  pure a := ⟨fun s => (.ok a, s)⟩
  bind x f := ⟨fun s =>
    match x.run s with
    | (.ok a, s') => (f a).run s'
    | (.error e, s') => (.error e, s')⟩

theorem ext_run {x y : Session σ ε α} (h : ∀ s, x.run s = y.run s) : x = y :=
  congrArg mk (funext h)

instance : LawfulMonad (Session σ ε) := .mk' _
  (fun x => ext_run fun s => by
    simp only [Functor.map]
    rcases x.run s with ⟨_ | _, _⟩ <;> rfl)
  (fun _ _ => rfl)
  (fun x f g => ext_run fun s => by
    simp only [bind]
    rcases x.run s with ⟨_ | _, _⟩ <;> rfl)

def get : Session σ ε σ := ⟨fun s => (.ok s, s)⟩

def set (s : σ) : Session σ ε Unit := ⟨fun _ => (.ok (), s)⟩

def modify (f : σ → σ) : Session σ ε Unit := ⟨fun s => (.ok (), f s)⟩

def raise (e : ε) : Session σ ε α := ⟨fun s => (.error e, s)⟩

/-- A computation that does not touch the state. -/
def lift (x : Except ε α) : Session σ ε α := ⟨fun s => (x, s)⟩

@[simp] theorem run_pure (a : α) (s : σ) : (pure a : Session σ ε α).run s = (.ok a, s) := rfl

@[simp] theorem run_get (s : σ) : (get : Session σ ε σ).run s = (.ok s, s) := rfl

@[simp] theorem run_set (s s' : σ) : (set s' : Session σ ε Unit).run s = (.ok (), s') := rfl

@[simp] theorem run_modify (f : σ → σ) (s : σ) :
    (modify f : Session σ ε Unit).run s = (.ok (), f s) := rfl

@[simp] theorem run_raise (e : ε) (s : σ) : (raise e : Session σ ε α).run s = (.error e, s) := rfl

@[simp] theorem run_lift (x : Except ε α) (s : σ) : (lift x : Session σ ε α).run s = (x, s) := rfl

theorem run_bind (x : Session σ ε α) (f : α → Session σ ε β) (s : σ) :
    (x >>= f).run s = match x.run s with
      | (.ok a, s') => (f a).run s'
      | (.error e, s') => (.error e, s') := rfl

@[simp] theorem run_get_bind (f : σ → Session σ ε β) (s : σ) : (get >>= f).run s = (f s).run s :=
  rfl

@[simp] theorem run_set_bind (s' : σ) (f : Unit → Session σ ε β) (s : σ) :
    (set s' >>= f).run s = (f ()).run s' := rfl

@[simp] theorem run_modify_bind (g : σ → σ) (f : Unit → Session σ ε β) (s : σ) :
    (modify g >>= f).run s = (f ()).run (g s) := rfl

@[simp] theorem run_raise_bind (e : ε) (f : α → Session σ ε β) (s : σ) :
    (raise e >>= f).run s = (.error e, s) := rfl

@[simp] theorem run_lift_ok_bind (a : α) (f : α → Session σ ε β) (s : σ) :
    (lift (.ok a) >>= f).run s = (f a).run s := rfl

@[simp] theorem run_lift_error_bind (e : ε) (f : α → Session σ ε β) (s : σ) :
    (lift (.error e) >>= f).run s = (.error e, s) := rfl

variable {x : Session σ ε α} {f : α → Session σ ε β} {s s' : σ}

theorem run_bind_of_ok {a : α} (h : x.run s = (.ok a, s')) : (x >>= f).run s = (f a).run s' := by
  rw [run_bind, h]

theorem run_bind_of_error {e : ε} (h : x.run s = (.error e, s')) :
    (x >>= f).run s = (.error e, s') := by
  rw [run_bind, h]

/-- A computation in two parts raises in one of them or runs both. -/
theorem run_bind_cases {r : Except ε β} (h : (x >>= f).run s = (r, s')) :
    (∃ a s₁, x.run s = (.ok a, s₁) ∧ (f a).run s₁ = (r, s')) ∨
      ∃ e, x.run s = (.error e, s') ∧ r = .error e := by
  rw [run_bind] at h
  rcases hx : x.run s with ⟨e | a, s₁⟩
  · rw [hx] at h
    cases h
    exact .inr ⟨_, rfl, rfl⟩
  · rw [hx] at h
    exact .inl ⟨a, s₁, rfl, h⟩

end Session

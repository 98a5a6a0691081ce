import NoteVerse.Lib.Computable

/-!
# Python values

What the models of Python code need of the language.
-/

namespace Python

/-- `new or old` for an optional string: an empty one counts as missing. -/
def orElse (new old : Option String) : Option String :=
  match new with
  | none => old
  | some s => if s = "" then old else some s

/-- `s[:n]`. -/
def sliceTo (n : Nat) (s : String) : String := String.ofList (s.toList.take n)

variable {ε α β : Type} {f : α → Except ε β}

theorem map_eq_ok {f : α → β} {x : Except ε α} {b : β} :
    x.map f = .ok b ↔ ∃ a, x = .ok a ∧ f a = b := by
  cases x <;> simp [Except.map]

theorem bind_eq_ok {x : Except ε α} {b : β} : x.bind f = .ok b ↔ ∃ a, x = .ok a ∧ f a = .ok b := by
  cases x <;> simp [Except.bind]

@[simp] theorem ok_bind (a : α) (f : α → Except ε β) : (Except.ok a >>= f) = f a := rfl

/-- A comprehension none of whose elements raises. -/
theorem mapM_ok {g : α → β} {xs : List α} (h : ∀ x ∈ xs, f x = .ok (g x)) :
    xs.mapM f = .ok (xs.map g) := by
  induction xs with
  | nil => rfl
  | cons x xs ih =>
    rw [List.forall_mem_cons] at h
    rw [List.mapM_cons, h.1, ih h.2]
    rfl

/-- The elements of a comprehension that does not raise. -/
theorem forall₂_of_mapM_ok {xs : List α} {ys : List β} (h : xs.mapM f = .ok ys) :
    List.Forall₂ (fun x y => f x = .ok y) xs ys := by
  induction xs generalizing ys with
  | nil =>
    cases h
    exact .nil
  | cons x xs ih =>
    rw [List.mapM_cons] at h
    obtain ⟨y, hy, h⟩ := bind_eq_ok.mp h
    obtain ⟨zs, hzs, h⟩ := bind_eq_ok.mp h
    cases h
    exact .cons hy (ih hzs)

/-- A comprehension whose elements have a view. -/
theorem exists_mapM_ok {ε α β γ : Type} {f : α → Except ε β} {view : β → γ} {g : α → γ}
    {xs : List α} (h : ∀ x ∈ xs, ∃ y, f x = .ok y ∧ view y = g x) :
    ∃ ys, xs.mapM f = .ok ys ∧ ys.map view = xs.map g := by
  induction xs with
  | nil => exact ⟨[], rfl, rfl⟩
  | cons x xs ih =>
    rw [List.forall_mem_cons] at h
    obtain ⟨y, hy, hview⟩ := h.1
    obtain ⟨ys, hys, hmap⟩ := ih h.2
    refine ⟨y :: ys, ?_, ?_⟩
    · rw [List.mapM_cons, hy, hys]
      rfl
    · rw [List.map_cons, List.map_cons, hview, hmap]

/-- `str.isspace` of one character. -/
def isSpace (c : Char) : Bool :=
  (0x9 ≤ c.toNat ∧ c.toNat ≤ 0xd) ∨ (0x1c ≤ c.toNat ∧ c.toNat ≤ 0x20) ∨
    (0x2000 ≤ c.toNat ∧ c.toNat ≤ 0x200a) ∨
    c.toNat ∈ [0x85, 0xa0, 0x1680, 0x2028, 0x2029, 0x202f, 0x205f, 0x3000]

/-- `s.strip()`. -/
def strip (s : String) : String :=
  String.ofList ((s.toList.dropWhile isSpace).reverse.dropWhile isSpace).reverse

/-- `s.rsplit(c, 1)[-1]`: what follows the last `c`, or all of `s`. -/
def afterLast (c : Char) (s : String) : String :=
  String.ofList (s.toList.reverse.takeWhile (· ≠ c)).reverse

/-- The number that decimal digits write, with single underscores between them. -/
def digits? (cs : List Char) : Option Nat :=
  if (∀ c ∈ cs, c.isDigit ∨ c = '_') ∧
      ('_' :: (cs ++ ['_'])).IsChain (fun a b => a.isDigit ∨ b.isDigit) then
    some (Nat.ofDigitChars 10 (cs.filter Char.isDigit) 0)
  else none

/-- `int(s)` of a string of ASCII characters, if it does not raise. -/
def int? (s : String) : Option Int :=
  match (strip s).toList with
  | '-' :: cs => (digits? cs).map fun n : Nat => -(n : Int)
  | '+' :: cs => (digits? cs).map fun n : Nat => (n : Int)
  | cs => (digits? cs).map fun n : Nat => (n : Int)

/-- The number that digits with a point write. -/
def decimal? (cs : List Char) : Option ℚ :=
  let whole := cs.takeWhile (· ≠ '.')
  match cs.dropWhile (· ≠ '.') with
  | [] => (digits? whole).map fun n : Nat => (n : ℚ)
  | _ :: fraction =>
    if whole = [] ∧ fraction = [] then none
    else do
      let w ← if whole = [] then some 0 else digits? whole
      let f ← if fraction = [] then some 0 else digits? fraction
      return w + f / 10 ^ (fraction.filter Char.isDigit).length

/-- The number that digits with a point and an exponent write. -/
def unsignedFloat? (cs : List Char) : Option ℚ := do
  let mantissa ← decimal? (cs.takeWhile fun c => c ≠ 'e' ∧ c ≠ 'E')
  match cs.dropWhile fun c => c ≠ 'e' ∧ c ≠ 'E' with
  | [] => return mantissa
  | _ :: '-' :: ds => (digits? ds).map fun n : Nat => mantissa / 10 ^ n
  | _ :: '+' :: ds => (digits? ds).map fun n : Nat => mantissa * 10 ^ n
  | _ :: ds => (digits? ds).map fun n : Nat => mantissa * 10 ^ n

/-- `float(s)` of a string of ASCII characters that writes a number, if it does not
raise. The names of infinity and of NaN are left out. -/
def float? (s : String) : Option ℚ :=
  match (strip s).toList with
  | '-' :: cs => (unsignedFloat? cs).map (-·)
  | '+' :: cs => unsignedFloat? cs
  | cs => unsignedFloat? cs

example : [float? " 12 ", float? "-.5", float? "1_0.25", float? "2.5e-1", float? "1e2",
    float? ".", float? "1_", float? "e1", float? "eight"] =
    [some 12, some (-1 / 2), some (41 / 4), some (1 / 4), some 100, none, none, none, none] := by
  decide +kernel

/-- A hexadecimal digit. -/
def isHexDigit (c : Char) : Bool :=
  c.isDigit ∨ ('a' ≤ c ∧ c ≤ 'f') ∨ ('A' ≤ c ∧ c ≤ 'F')

/-- `int(s, 16)` of a string of ASCII characters does not raise. -/
def isHexInt (s : String) : Bool :=
  let unsigned :=
    match (strip s).toList with
    | '-' :: cs => cs
    | '+' :: cs => cs
    | cs => cs
  let digits :=
    match unsigned with
    | '0' :: 'x' :: '_' :: cs => cs
    | '0' :: 'X' :: '_' :: cs => cs
    | '0' :: 'x' :: cs => cs
    | '0' :: 'X' :: cs => cs
    | cs => cs
  (∀ c ∈ digits, isHexDigit c ∨ c = '_') ∧
    ('_' :: (digits ++ ['_'])).IsChain (fun a b => isHexDigit a ∨ isHexDigit b)

theorem isSpace_of_isDigit {c : Char} (h : c.isDigit) : isSpace c = false := by
  simp only [Char.isDigit, Bool.and_eq_true, decide_eq_true_eq, ge_iff_le] at h
  have h48 : 48 ≤ c.toNat := h.1
  have h57 : c.toNat ≤ 57 := h.2
  simp only [isSpace, decide_eq_false_iff_not, List.mem_cons, List.not_mem_nil, or_false]
  omega

theorem strip_of_isDigit {s : String} (h : ∀ c ∈ s.toList, c.isDigit) : strip s = s := by
  have hdrop : ∀ cs : List Char, (∀ c ∈ cs, c.isDigit) → cs.dropWhile isSpace = cs := by
    intro cs hcs
    cases cs with
    | nil => rfl
    | cons c cs =>
      have hc : isSpace c = false := isSpace_of_isDigit (hcs c List.mem_cons_self)
      rw [List.dropWhile_cons_of_neg (by rw [hc]; decide)]
  rw [strip, hdrop _ h, hdrop _ (by simpa using h), List.reverse_reverse, String.ofList_toList]

theorem digits?_of_isDigit {cs : List Char} (h : ∀ c ∈ cs, c.isDigit) (hne : cs ≠ []) :
    digits? cs = some (Nat.ofDigitChars 10 cs 0) := by
  have hchain : ∀ (cs : List Char) (a : Char), (∀ c ∈ cs, c.isDigit) → cs ≠ [] ∨ a.isDigit →
      (a :: (cs ++ ['_'])).IsChain (fun a b => a.isDigit ∨ b.isDigit) := by
    intro cs
    induction cs with
    | nil => exact fun a _ ha => by simpa using ha
    | cons c cs ih =>
      intro a hcs _
      have hc : c.isDigit := hcs c List.mem_cons_self
      rw [List.cons_append, List.isChain_cons_cons]
      exact ⟨.inr hc, ih c (fun d hd => hcs d (List.mem_cons_of_mem _ hd)) (.inr hc)⟩
  rw [digits?, if_pos ⟨fun c hc => .inl (h c hc), hchain cs '_' h (.inl hne)⟩,
    List.filter_eq_self.mpr h]

/-- What `str` writes of a natural number, `int` reads. -/
theorem int?_repr (n : Nat) : int? (Nat.repr n) = some (n : Int) := by
  have hlist : (Nat.repr n).toList = Nat.toDigits 10 n := by
    rw [Nat.repr_eq_ofList_toDigits, String.toList_ofList]
  have hdigit : ∀ c ∈ (Nat.repr n).toList, c.isDigit := by
    intro c hc
    rw [hlist] at hc
    exact Nat.isDigit_of_mem_toDigits (by decide) (by decide) hc
  have hne : (Nat.repr n).toList ≠ [] := by
    rw [hlist]
    exact Nat.toDigits_ne_nil
  rw [int?, strip_of_isDigit hdigit]
  split
  · rename_i cs hcs
    have hminus := hdigit '-' (by rw [hcs]; exact List.mem_cons_self)
    exact absurd hminus (by decide)
  · rename_i cs hcs
    have hplus := hdigit '+' (by rw [hcs]; exact List.mem_cons_self)
    exact absurd hplus (by decide)
  · rw [digits?_of_isDigit hdigit hne, hlist, Nat.ofDigitChars_ten_toDigits]
    rfl

end Python

import NoteVerse.Lib.Lists

/-!
# How floats are written

`str(x)` of a float that has at most six decimals, as a sequence of characters:
positional from `0.0001` to `1e16`, else with an exponent.

* `floatStr_inj`: different floats are written differently;
* `floatStr_isToken`: a hyphen that follows the text of a float is not taken for a
  part of it.
-/

namespace Python

/-! ## Notation -/

def stripZeros (digits : List Char) : List Char := digits.rdropWhile (· = '0')

def padZeros (width : Nat) (digits : List Char) : List Char :=
  List.replicate (width - digits.length) '0' ++ digits

/-- The decimals of a number of millionths below one, at least one of them. -/
def decimals (micros : Nat) : List Char :=
  match stripZeros (padZeros 6 (Nat.toDigits 10 micros)) with
  | [] => ['0']
  | digits => digits

def positional (micros : Nat) : List Char :=
  Nat.toDigits 10 (micros / 10 ^ 6) ++ '.' :: decimals (micros % 10 ^ 6)

/-- The digits after the first one of a number with an exponent. -/
def mantissaTail (digits : List Char) : List Char :=
  match stripZeros digits with
  | [] => []
  | digits => '.' :: digits

/-- The exponent, with a sign and at least two digits. -/
def exponentText (exponent : Int) : List Char :=
  (if exponent < 0 then '-' else '+') :: padZeros 2 (Nat.toDigits 10 exponent.natAbs)

def scientific (micros : Nat) : List Char :=
  match Nat.toDigits 10 micros with
  | [] => []
  | first :: rest => first :: mantissaTail rest ++ 'e' :: exponentText (rest.length - 6)

/-- A number of millionths. -/
def microsText (micros : Nat) : List Char :=
  if micros = 0 ∨ 100 ≤ micros ∧ micros < 10 ^ 22 then positional micros else scientific micros

/-- The millionths of a number. -/
def microsOf (x : ℚ) : Int := ⌊x * 10 ^ 6⌋

/-- `str(x)` -/
def floatStr (x : ℚ) : String :=
  String.ofList ((if microsOf x < 0 then ['-'] else []) ++ microsText (microsOf x).natAbs)

example : floatStr (-5 / 4) = "-1.25" := by decide +kernel

example : floatStr (12 / 1000000) = "1.2e-05" := by decide +kernel

example : [floatStr 0, floatStr 3, floatStr (1 / 10000), floatStr (10 ^ 16), floatStr (81 / 20),
    floatStr (1 / 1000000)] = ["0.0", "3.0", "0.0001", "1e+16", "4.05", "1e-06"] := by decide +kernel

/-! ## Different floats are written differently -/

theorem toDigits_injective {m n : Nat} (h : Nat.toDigits 10 m = Nat.toDigits 10 n) : m = n := by
  have hvalue := congrArg (Nat.ofDigitChars 10 · 0) h
  simpa using hvalue

/-- What was stripped were zeros. -/
theorem stripZeros_append (digits : List Char) :
    ∃ n, stripZeros digits ++ List.replicate n '0' = digits := by
  refine ⟨(digits.rtakeWhile (· = '0')).length, ?_⟩
  have hzeros : List.replicate (digits.rtakeWhile (· = '0')).length '0' =
      digits.rtakeWhile (· = '0') := by
    refine (List.eq_replicate_iff.mpr ⟨rfl, fun c hc => ?_⟩).symm
    have hzero := List.mem_rtakeWhile_imp hc
    rwa [decide_eq_true_eq] at hzero
  rw [hzeros]
  exact List.rdropWhile_append_rtakeWhile

theorem stripZeros_inj {as bs : List Char} (hlength : as.length = bs.length)
    (h : stripZeros as = stripZeros bs) : as = bs := by
  obtain ⟨m, hm⟩ := stripZeros_append as
  obtain ⟨n, hn⟩ := stripZeros_append bs
  have hmn : m = n := by
    have hlengths := congrArg List.length hm
    have hlengths' := congrArg List.length hn
    rw [List.length_append, List.length_replicate] at hlengths hlengths'
    rw [h] at hlengths
    omega
  rw [← hm, ← hn, h, hmn]

theorem stripZeros_ne_zero (digits : List Char) : stripZeros digits ≠ ['0'] := by
  intro h
  have hlast := List.rdropWhile_last_not (· = '0') digits (by
    show stripZeros digits ≠ []
    rw [h]
    exact List.cons_ne_nil _ _)
  apply hlast
  simp only [show digits.rdropWhile (· = '0') = ['0'] from h, List.getLast_singleton, decide_true]

theorem ofDigitChars_padZeros (width : Nat) (n : Nat) :
    Nat.ofDigitChars 10 (padZeros width (Nat.toDigits 10 n)) 0 = n := by
  unfold padZeros
  rw [Nat.ofDigitChars_append, Nat.ofDigitChars_replicate_zero, Nat.mul_zero,
    Nat.ofDigitChars_ten_toDigits]

theorem padZeros_inj {width m n : Nat}
    (h : padZeros width (Nat.toDigits 10 m) = padZeros width (Nat.toDigits 10 n)) : m = n := by
  rw [← ofDigitChars_padZeros width m, h, ofDigitChars_padZeros]

theorem length_padZeros {width n : Nat} (hwidth : 0 < width) (h : n < 10 ^ width) :
    (padZeros width (Nat.toDigits 10 n)).length = width := by
  have hle : (Nat.toDigits 10 n).length ≤ width :=
    (Nat.length_toDigits_le_iff (by decide) hwidth).mpr h
  unfold padZeros
  rw [List.length_append, List.length_replicate]
  omega

theorem decimals_inj {m n : Nat} (hm : m < 10 ^ 6) (hn : n < 10 ^ 6)
    (h : decimals m = decimals n) : m = n := by
  have hstrip : stripZeros (padZeros 6 (Nat.toDigits 10 m)) =
      stripZeros (padZeros 6 (Nat.toDigits 10 n)) := by
    unfold decimals at h
    split at h
    · rename_i hnone
      split at h
      · rename_i hnone'
        rw [hnone, hnone']
      · exact absurd h.symm (stripZeros_ne_zero _)
    · split at h
      · exact absurd h (stripZeros_ne_zero _)
      · exact h
  refine padZeros_inj (stripZeros_inj ?_ hstrip)
  rw [length_padZeros (by decide) hm, length_padZeros (by decide) hn]

theorem notMem_toDigits {c : Char} (hc : c.isDigit = false) (n : Nat) :
    c ∉ Nat.toDigits 10 n := by
  intro h
  rw [Nat.isDigit_of_mem_toDigits (by decide) (by decide) h] at hc
  exact Bool.noConfusion hc

theorem positional_inj {m n : Nat} (h : positional m = positional n) : m = n := by
  obtain ⟨hwhole, hdecimals⟩ := Lists.cut_first_inj (notMem_toDigits (by decide) _)
    (notMem_toDigits (by decide) _) h
  have hmod := decimals_inj (Nat.mod_lt m (by decide)) (Nat.mod_lt n (by decide)) hdecimals
  have hdiv := toDigits_injective hwhole
  omega

theorem mantissaTail_inj {as bs : List Char} (hlength : as.length = bs.length)
    (h : mantissaTail as = mantissaTail bs) : as = bs := by
  refine stripZeros_inj hlength ?_
  have heq : ∀ digits, mantissaTail digits =
      if stripZeros digits = [] then [] else '.' :: stripZeros digits := by
    intro digits
    unfold mantissaTail
    cases stripZeros digits <;> rfl
  rw [heq, heq] at h
  split_ifs at h with has hbs hbs
  · rw [has, hbs]
  · exact (List.cons.inj h).2

theorem exponentText_inj {a b : Int} (h : exponentText a = exponentText b) : a = b := by
  unfold exponentText at h
  obtain ⟨hsign, habs⟩ := List.cons.inj h
  have hnat := padZeros_inj habs
  split_ifs at hsign
  · omega
  · exact absurd hsign (by decide)
  · exact absurd hsign (by decide)
  · omega

/-- A digit or the point. -/
def IsPlain (c : Char) : Prop := c.isDigit = true ∨ c = '.'

theorem IsPlain.ne {c : Char} (h : IsPlain c) {d : Char} (hd : d.isDigit = false ∧ d ≠ '.') :
    c ≠ d := by
  rintro rfl
  rcases h with h | h
  · rw [hd.1] at h
    exact Bool.noConfusion h
  · exact hd.2 h

theorem isPlain_toDigits (n : Nat) : ∀ c ∈ Nat.toDigits 10 n, IsPlain c :=
  fun _ hc => .inl (Nat.isDigit_of_mem_toDigits (by decide) (by decide) hc)

theorem isPlain_padZeros (width n : Nat) : ∀ c ∈ padZeros width (Nat.toDigits 10 n), IsPlain c := by
  intro c hc
  rcases List.mem_append.mp hc with hc | hc
  · rw [(List.mem_replicate.mp hc).2]
    exact .inl (by decide)
  · exact isPlain_toDigits n c hc

theorem mem_of_mem_stripZeros {c : Char} {digits : List Char} (h : c ∈ stripZeros digits) :
    c ∈ digits :=
  (List.rdropWhile_prefix (· = '0') digits).subset h

theorem isPlain_positional (n : Nat) : ∀ c ∈ positional n, IsPlain c := by
  have hdecimals : ∀ c ∈ decimals (n % 10 ^ 6), IsPlain c := by
    intro c hc
    unfold decimals at hc
    split at hc
    · rw [List.mem_singleton.mp hc]
      exact .inl (by decide)
    · exact isPlain_padZeros 6 _ c (mem_of_mem_stripZeros hc)
  intro c hc
  rcases List.mem_append.mp hc with hc | hc
  · exact isPlain_toDigits _ c hc
  · rcases List.mem_cons.mp hc with rfl | hc
    · exact .inr rfl
    · exact hdecimals c hc

theorem isPlain_mantissaTail {digits : List Char} (h : ∀ c ∈ digits, IsPlain c) :
    ∀ c ∈ mantissaTail digits, IsPlain c := by
  intro c hc
  unfold mantissaTail at hc
  split at hc
  · exact absurd hc List.not_mem_nil
  · rcases List.mem_cons.mp hc with rfl | hc
    · exact .inr rfl
    · exact h c (mem_of_mem_stripZeros hc)

/-- A number with an exponent: plain characters, an `e`, and the exponent. -/
theorem scientific_eq (n : Nat) : ∃ first rest, Nat.toDigits 10 n = first :: rest ∧
    scientific n = (first :: mantissaTail rest) ++ 'e' :: exponentText (rest.length - 6) ∧
    ∀ c ∈ first :: mantissaTail rest, IsPlain c := by
  have hplain := isPlain_toDigits n
  unfold scientific
  cases hdigits : Nat.toDigits 10 n with
  | nil => exact absurd hdigits Nat.toDigits_ne_nil
  | cons first rest =>
    rw [hdigits, List.forall_mem_cons] at hplain
    exact ⟨first, rest, rfl, rfl,
      List.forall_mem_cons.mpr ⟨hplain.1, isPlain_mantissaTail hplain.2⟩⟩

theorem scientific_inj {m n : Nat} (h : scientific m = scientific n) : m = n := by
  obtain ⟨first, rest, hm, htext, hplain⟩ := scientific_eq m
  obtain ⟨first', rest', hn, htext', hplain'⟩ := scientific_eq n
  rw [htext, htext'] at h
  obtain ⟨hmantissa, hexponent⟩ := Lists.cut_first_inj
    (fun he => (hplain _ he).ne (by decide) rfl) (fun he => (hplain' _ he).ne (by decide) rfl) h
  obtain ⟨hfirst, htail⟩ := List.cons.inj hmantissa
  have hlength := exponentText_inj hexponent
  have hrest := mantissaTail_inj (by omega) htail
  exact toDigits_injective (by rw [hm, hn, hfirst, hrest])

/-- Only a number with an exponent has an `e`. -/
theorem positional_ne_scientific (m n : Nat) : positional m ≠ scientific n := by
  intro h
  obtain ⟨first, rest, -, htext, -⟩ := scientific_eq n
  have hmem : 'e' ∈ positional m := by
    rw [h, htext]
    simp
  exact (isPlain_positional m _ hmem).ne (by decide) rfl

theorem microsText_inj {m n : Nat} (h : microsText m = microsText n) : m = n := by
  unfold microsText at h
  split_ifs at h
  · exact positional_inj h
  · exact absurd h (positional_ne_scientific m n)
  · exact absurd h.symm (positional_ne_scientific n m)
  · exact scientific_inj h

/-! ## Where the text of a float ends -/

/-- A sign stands first or follows an `e`, which is not last. -/
structure IsToken (cs : List Char) : Prop where
  ne_nil : cs ≠ []
  chain : ('e' :: cs).IsChain fun a b => b = '-' ∨ b = '+' → a = 'e'
  last : ∀ h, cs.getLast h ≠ 'e'

/-- A hyphen after a token is not a part of it. -/
theorem IsToken.ne_append {xs ys : List Char} (hxs : IsToken xs) (hys : IsToken ys)
    (zs : List Char) : ys ≠ xs ++ '-' :: zs := by
  rintro rfl
  have hchain := hys.chain
  rw [← List.cons_append, List.isChain_append] at hchain
  have hlast : xs.getLast hxs.ne_nil ∈ ('e' :: xs).getLast? := by
    rw [List.getLast?_cons_of_ne_nil hxs.ne_nil, List.getLast?_eq_some_getLast hxs.ne_nil]
    rfl
  exact hxs.last hxs.ne_nil (hchain.2.2 _ hlast '-' rfl (.inl rfl))

theorem IsToken.cut_inj {xs ys us vs : List Char} (hxs : IsToken xs) (hys : IsToken ys)
    (h : xs ++ '-' :: us = ys ++ '-' :: vs) : xs = ys ∧ us = vs :=
  Lists.cut_inj (hxs.ne_append hys) (hys.ne_append hxs) h

/-- Plain characters change nothing. -/
theorem isChain_plain_append {cs ds : List Char} (hcs : ∀ c ∈ cs, IsPlain c)
    (hds : ∀ prev, (prev :: ds).IsChain fun a b => b = '-' ∨ b = '+' → a = 'e') (prev : Char) :
    (prev :: (cs ++ ds)).IsChain fun a b => b = '-' ∨ b = '+' → a = 'e' := by
  induction cs generalizing prev with
  | nil => exact hds prev
  | cons c cs ih =>
    rw [List.forall_mem_cons] at hcs
    rw [List.cons_append, List.isChain_cons_cons]
    refine ⟨fun hsign => ?_, ih hcs.2 c⟩
    rcases hsign with rfl | rfl
    · exact absurd rfl (hcs.1.ne (by decide))
    · exact absurd rfl (hcs.1.ne (by decide))

theorem isChain_plain {cs : List Char} (hcs : ∀ c ∈ cs, IsPlain c) (prev : Char) :
    (prev :: cs).IsChain fun a b => b = '-' ∨ b = '+' → a = 'e' := by
  have hchain := isChain_plain_append hcs (fun prev => List.isChain_singleton prev) prev
  rwa [List.append_nil] at hchain

theorem isPlain_of_mem_exponentText {a : Int} :
    ∃ sign digits, exponentText a = sign :: digits ∧ digits ≠ [] ∧ (∀ c ∈ digits, IsPlain c) ∧
      (sign = '-' ∨ sign = '+') := by
  refine ⟨_, _, rfl, ?_, isPlain_padZeros 2 _, ?_⟩
  · exact List.append_ne_nil_of_right_ne_nil _ Nat.toDigits_ne_nil
  · split_ifs
    · exact .inl rfl
    · exact .inr rfl

/-- The text of a number of millionths, after whatever stands before it. -/
theorem microsText_chain (n : Nat) : microsText n ≠ [] ∧
    (∀ prev, (prev :: microsText n).IsChain fun a b => b = '-' ∨ b = '+' → a = 'e') ∧
    (∀ h, IsPlain ((microsText n).getLast h)) ∧
    ∀ c ∈ microsText n, IsPlain c ∨ c = 'e' ∨ c = '-' ∨ c = '+' := by
  unfold microsText
  split_ifs
  · have hplain := isPlain_positional n
    refine ⟨List.append_ne_nil_of_left_ne_nil Nat.toDigits_ne_nil _, isChain_plain hplain,
      fun h => hplain _ (List.getLast_mem h), fun c hc => .inl (hplain c hc)⟩
  · obtain ⟨first, rest, -, htext, hplain⟩ := scientific_eq n
    obtain ⟨sign, digits, hexponent, hne, hdigits, hsign⟩ :=
      isPlain_of_mem_exponentText (a := (rest.length : Int) - 6)
    rw [hexponent] at htext
    rw [htext]
    refine ⟨List.append_ne_nil_of_left_ne_nil (List.cons_ne_nil _ _) _,
      isChain_plain_append hplain fun prev => ?_, fun h => ?_, fun c hc => ?_⟩
    · rw [List.isChain_cons_cons, List.isChain_cons_cons]
      refine ⟨fun h => ?_, fun _ => rfl, isChain_plain hdigits sign⟩
      rcases h with h | h <;> exact absurd h (by decide)
    · have hlast : ((first :: mantissaTail rest) ++ 'e' :: sign :: digits).getLast h =
          digits.getLast hne := by
        rw [List.getLast_append_of_right_ne_nil _ _ (List.cons_ne_nil _ _),
          List.getLast_cons (List.cons_ne_nil _ _), List.getLast_cons hne]
      rw [hlast]
      exact hdigits _ (List.getLast_mem hne)
    · rcases List.mem_append.mp hc with hc | hc
      · exact .inl (hplain c hc)
      · rcases List.mem_cons.mp hc with rfl | hc
        · exact .inr (.inl rfl)
        · rcases List.mem_cons.mp hc with rfl | hc
          · exact .inr (.inr hsign)
          · exact .inl (hdigits c hc)

theorem floatStr_isToken (x : ℚ) : IsToken (floatStr x).toList ∧
    (∀ h, IsPlain ((floatStr x).toList.getLast h)) ∧ ∀ cs, (floatStr x).toList ≠ '+' :: cs := by
  obtain ⟨hne, hchain, hlast, -⟩ := microsText_chain (microsOf x).natAbs
  unfold floatStr
  rw [String.toList_ofList]
  split_ifs
  · have hlast' : ∀ h, IsPlain ((['-'] ++ microsText (microsOf x).natAbs).getLast h) := by
      intro h
      rw [List.getLast_append_of_right_ne_nil _ _ hne]
      exact hlast hne
    refine ⟨⟨List.cons_ne_nil _ _, ?_, fun h => (hlast' h).ne (by decide)⟩, hlast',
      fun cs h => absurd (List.cons.inj h).1 (by decide)⟩
    rw [List.singleton_append, List.isChain_cons_cons]
    exact ⟨fun _ => rfl, hchain '-'⟩
  · refine ⟨⟨hne, hchain 'e', fun h => (hlast h).ne (by decide)⟩, hlast, fun cs h => ?_⟩
    have hfirst := hchain 'x'
    rw [List.nil_append] at h
    rw [h, List.isChain_cons_cons] at hfirst
    exact absurd (hfirst.1 (.inr rfl)) (by decide)

/-- The characters of the text of a float. -/
theorem mem_floatStr {x : ℚ} {c : Char} (h : c ∈ (floatStr x).toList) :
    IsPlain c ∨ c = 'e' ∨ c = '-' ∨ c = '+' := by
  obtain ⟨-, -, -, halphabet⟩ := microsText_chain (microsOf x).natAbs
  unfold floatStr at h
  rw [String.toList_ofList] at h
  rcases List.mem_append.mp h with h | h
  · split_ifs at h
    · exact .inr (.inr (.inl (List.mem_singleton.mp h)))
    · exact absurd h List.not_mem_nil
  · exact halphabet c h

/-- No number begins with a hyphen but a negative one. -/
theorem microsText_ne_hyphen (n : Nat) (cs : List Char) : microsText n ≠ '-' :: cs := by
  intro h
  have hchain := (microsText_chain n).2.1 'x'
  rw [h, List.isChain_cons_cons] at hchain
  exact absurd (hchain.1 (.inl rfl)) (by decide)

theorem microsOf_eq_of_floatStr_eq {x y : ℚ} (h : floatStr x = floatStr y) :
    microsOf x = microsOf y := by
  unfold floatStr at h
  have htext := String.ofList_injective h
  split_ifs at htext with hx hy hy
  · have hnat := microsText_inj (List.cons.inj htext).2
    omega
  · exact absurd htext.symm (microsText_ne_hyphen _ _)
  · exact absurd htext (microsText_ne_hyphen _ _)
  · have hnat := microsText_inj htext
    omega

theorem microsOf_of_eq {x : ℚ} {n : ℤ} (h : x * 10 ^ 6 = n) : microsOf x = n := by
  unfold microsOf
  rw [h, Int.floor_intCast]

/-- Different floats with six decimals are written differently. -/
theorem floatStr_inj {x y : ℚ} (hx : ∃ n : ℤ, x * 10 ^ 6 = n) (hy : ∃ n : ℤ, y * 10 ^ 6 = n)
    (h : floatStr x = floatStr y) : x = y := by
  obtain ⟨m, hm⟩ := hx
  obtain ⟨n, hn⟩ := hy
  have hmicros := microsOf_eq_of_floatStr_eq h
  rw [microsOf_of_eq hm, microsOf_of_eq hn] at hmicros
  rw [hmicros, ← hn] at hm
  exact mul_right_cancel₀ (by norm_num) hm

end Python

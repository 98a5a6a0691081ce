import NoteVerse.Lib.Js

/-!
# Numbers and strings of JavaScript

`Number.parseInt(text, 10)`, `String.prototype.trim`, the order in which `sort`
puts strings, and the decimal notation `String(n)` of an integer, with what a
reader of that notation gets back (`parseInt_numberToString`). Integers are exact here; a `number` is exact up
to 2^53.
-/

namespace Js

/-- The white space and line terminators that `trim` and `parseInt` skip. -/
def isWhiteSpace (c : Char) : Bool :=
  c.toNat ∈ [0x9, 0xA, 0xB, 0xC, 0xD, 0x20, 0xA0, 0x1680, 0x2000, 0x2001, 0x2002, 0x2003, 0x2004,
    0x2005, 0x2006, 0x2007, 0x2008, 0x2009, 0x200A, 0x2028, 0x2029, 0x202F, 0x205F, 0x3000, 0xFEFF]

/-- `text.trim()`. -/
def trim (text : String) : String :=
  .ofList ((text.toList.dropWhile isWhiteSpace).rdropWhile isWhiteSpace)

/-- The number that the digits at the start of `cs` write. -/
def parseDigits (cs : List Char) : Option Nat :=
  match cs.takeWhile Char.isDigit with
  | [] => none
  | digits => some (Nat.ofDigitChars 10 digits 0)

/-- `Number.parseInt(text, 10)`, with `NaN` as `none`. -/
def parseInt (text : String) : Option Int :=
  match text.toList.dropWhile isWhiteSpace with
  | '-' :: cs => (parseDigits cs).map fun n : Nat => -(n : Int)
  | '+' :: cs => (parseDigits cs).map fun n : Nat => (n : Int)
  | cs => (parseDigits cs).map fun n : Nat => (n : Int)

/-- `String(n)` of an integer. -/
def numberToString (n : Int) : String := n.repr

/-- The UTF-16 code units of a character. -/
def charUnits (c : Char) : List Nat :=
  if c.toNat < 0x10000 then [c.toNat]
  else [0xD800 + (c.toNat - 0x10000) / 0x400, 0xDC00 + (c.toNat - 0x10000) % 0x400]

/-- The UTF-16 code units of a string. -/
def codeUnits (text : String) : List Nat := text.toList.flatMap charUnits

/-- `values.sort()`, in the order of the code units. -/
def sortStrings (values : List String) : List String :=
  values.insertionSort fun a b => codeUnits a ≤ codeUnits b

/-! ## Decimal notation -/

theorem isWhiteSpace_of_isDigit {c : Char} (h : c.isDigit) : isWhiteSpace c = false := by
  simp only [Char.isDigit, Bool.and_eq_true, decide_eq_true_eq, ge_iff_le] at h
  have h48 : 48 ≤ c.toNat := h.1
  have h57 : c.toNat ≤ 57 := h.2
  simp only [isWhiteSpace, decide_eq_false_iff_not, List.mem_cons, List.not_mem_nil, or_false]
  omega

theorem toList_natRepr (n : Nat) : (Nat.repr n).toList = Nat.toDigits 10 n := by
  simp [Nat.repr_eq_ofList_toDigits]

theorem isDigit_of_mem_natRepr {n : Nat} {c : Char} (h : c ∈ (Nat.repr n).toList) : c.isDigit := by
  rw [toList_natRepr] at h
  exact Nat.isDigit_of_mem_toDigits (by decide) (by decide) h

theorem natRepr_toList_ne_nil (n : Nat) : (Nat.repr n).toList ≠ [] := by
  rw [toList_natRepr]
  exact Nat.toDigits_ne_nil

theorem takeWhile_isDigit_natRepr (n : Nat) :
    (Nat.repr n).toList.takeWhile Char.isDigit = (Nat.repr n).toList :=
  List.takeWhile_eq_self_iff.mpr fun _ h => isDigit_of_mem_natRepr h

@[simp] theorem parseDigits_natRepr (n : Nat) : parseDigits (Nat.repr n).toList = some n := by
  have hne := natRepr_toList_ne_nil n
  rw [parseDigits, takeWhile_isDigit_natRepr]
  split
  · contradiction
  · rw [toList_natRepr, Nat.ofDigitChars_ten_toDigits]

theorem dropWhile_natRepr (n : Nat) :
    (Nat.repr n).toList.dropWhile isWhiteSpace = (Nat.repr n).toList := by
  have hdigit := fun c => isDigit_of_mem_natRepr (n := n) (c := c)
  rcases hcs : (Nat.repr n).toList with - | ⟨c, cs⟩
  · rfl
  · have hc : c.isDigit := hdigit c (by simp [hcs])
    rw [List.dropWhile_cons_of_neg (by simp [isWhiteSpace_of_isDigit hc])]

theorem parseInt_natRepr (n : Nat) : parseInt (Nat.repr n) = some (n : Int) := by
  have hdigit := fun c => isDigit_of_mem_natRepr (n := n) (c := c)
  have hdigits := parseDigits_natRepr n
  rw [parseInt, dropWhile_natRepr]
  rcases hcs : (Nat.repr n).toList with - | ⟨c, cs⟩
  · exact absurd hcs (natRepr_toList_ne_nil n)
  · have hc : c.isDigit := hdigit c (by simp [hcs])
    rw [hcs] at hdigits
    split
    · rename_i h; obtain ⟨rfl, -⟩ := List.cons.inj h; exact absurd hc (by decide)
    · rename_i h; obtain ⟨rfl, -⟩ := List.cons.inj h; exact absurd hc (by decide)
    · rw [hdigits]; rfl

/-- A decimal integer reads back as itself. -/
@[simp] theorem parseInt_numberToString (n : Int) : parseInt (numberToString n) = some n := by
  rcases n with n | n
  · exact parseInt_natRepr n
  · have h : numberToString (.negSucc n) = "-" ++ Nat.repr (n + 1) := rfl
    have hws : isWhiteSpace '-' = false := by decide
    have hlist : ("-" ++ Nat.repr (n + 1)).toList = '-' :: (Nat.repr (n + 1)).toList := by simp
    rw [h, parseInt, hlist, List.dropWhile_cons_of_neg (by simp [hws])]
    show (parseDigits (Nat.repr (n + 1)).toList).map (fun n : Nat => -(n : Int)) = _
    rw [parseDigits_natRepr]
    rfl

theorem numberToString_injective : Function.Injective numberToString := fun a b h => by
  have := congrArg parseInt h
  simpa using this

theorem numberToString_ne_empty (n : Int) : numberToString n ≠ "" := fun h => by
  have := parseInt_numberToString n
  rw [h] at this
  simp [parseInt, parseDigits] at this

/-- A nonnegative integer is written with digits only. -/
theorem numberToString_ofNat (n : Nat) : numberToString n = Nat.repr n := rfl

end Js

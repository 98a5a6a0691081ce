import NoteVerse.Lib.Js

/-!
# Typed arrays of JavaScript

An element, `subarray` and `set` of a typed array, as lists: an index of `subarray` counts
from the end if it is negative and stops at the ends of the array, and `set`
throws where what it writes does not fit.
-/

namespace Js

variable {α : Type}

/-- An index of an array of length `length`, as `subarray` takes it. -/
def relativeIndex (length : ℕ) (index : ℤ) : ℕ :=
  if index < 0 then (length + index).toNat else min index.toNat length

/-- `xs.subarray(start, stop)`. -/
def subarray (xs : List α) (start stop : ℤ) : List α :=
  (xs.take (relativeIndex xs.length stop)).drop (relativeIndex xs.length start)

/-- `target.set(source, offset)`. -/
def set (target source : List α) (offset : ℤ) : Throws (List α) :=
  if offset < 0 ∨ target.length < offset + source.length then .error "offset is out of bounds"
  else .ok (target.take offset.toNat ++ source ++ target.drop (offset.toNat + source.length))

/-- `xs[index]`, which is undefined outside the array. -/
def item (xs : List α) (index : ℤ) : Option α :=
  if index < 0 then none else xs[index.toNat]?

@[simp] theorem item_natCast (xs : List α) (i : ℕ) : item xs i = xs[i]? := by
  rw [item, if_neg (by omega), Int.toNat_natCast]

theorem relativeIndex_natCast {length i : ℕ} (h : i ≤ length) : relativeIndex length i = i := by
  have hneg : ¬ (i : ℤ) < 0 := by omega
  rw [relativeIndex, if_neg hneg, Int.toNat_natCast, min_eq_left h]

theorem subarray_natCast {xs : List α} {start stop : ℕ} (hle : start ≤ stop)
    (hstop : stop ≤ xs.length) :
    subarray xs start stop = (xs.drop start).take (stop - start) := by
  rw [subarray, relativeIndex_natCast hstop, relativeIndex_natCast (hle.trans hstop),
    List.drop_take]

/-- What is left of an array that loses its start. -/
theorem subarray_drop (xs : List α) {start : ℕ} (h : start ≤ xs.length) :
    subarray xs start xs.length = xs.drop start := by
  rw [subarray_natCast h le_rfl]
  apply List.take_of_length_le
  rw [List.length_drop]

/-- Nothing is left of an array from its end on. -/
theorem subarray_eq_nil {xs : List α} {start : ℕ} (stop : ℤ) (h : xs.length ≤ start) :
    subarray xs start stop = [] := by
  have hneg : ¬ (start : ℤ) < 0 := by omega
  rw [subarray, relativeIndex, relativeIndex, if_neg hneg, Int.toNat_natCast, min_eq_right h]
  exact List.drop_eq_nil_of_le (List.length_take_le' _ _)

/-- What is written to the end of an array. -/
theorem set_suffix {target source : List α} {offset : ℕ}
    (h : offset + source.length = target.length) :
    set target source offset = .ok (target.take offset ++ source) := by
  have hfits : ¬ ((offset : ℤ) < 0 ∨ (target.length : ℤ) < offset + source.length) := by omega
  rw [set, if_neg hfits, Int.toNat_natCast, h, List.drop_length, List.append_nil]

end Js

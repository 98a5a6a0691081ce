import NoteVerse.Lib.Computable

/-!
# Rounding to decimal digits

`round` of Python, which takes the even one of two integers that are as near, and
`Math.round` of JavaScript, which takes the larger one.
-/

namespace Rounding

/-- `round(x)`. -/
def roundHalfEven (x : ℚ) : ℤ :=
  if x - ⌊x⌋ < 1 / 2 then ⌊x⌋
  else if 1 / 2 < x - ⌊x⌋ then ⌊x⌋ + 1
  else if Even ⌊x⌋ then ⌊x⌋
  else ⌊x⌋ + 1

/-- `Math.round(x)`. -/
def roundHalfUp (x : ℚ) : ℤ := ⌊x + 1 / 2⌋

/-- `round(x, digits)`. -/
def round (digits : Nat) (x : ℚ) : ℚ := roundHalfEven (x * 10 ^ digits) / 10 ^ digits

/-- `Math.round(x * 10 ** digits) / 10 ** digits`. -/
def roundJs (digits : Nat) (x : ℚ) : ℚ := roundHalfUp (x * 10 ^ digits) / 10 ^ digits

variable {x y : ℚ} {digits : Nat}

theorem floor_le_roundHalfEven (x : ℚ) : ⌊x⌋ ≤ roundHalfEven x := by
  unfold roundHalfEven
  split_ifs <;> omega

theorem roundHalfEven_le_floor_add_one (x : ℚ) : roundHalfEven x ≤ ⌊x⌋ + 1 := by
  unfold roundHalfEven
  split_ifs <;> omega

@[simp] theorem roundHalfEven_intCast (n : ℤ) : roundHalfEven n = n := by
  unfold roundHalfEven
  rw [Int.floor_intCast, sub_self, if_pos (by norm_num)]

theorem roundHalfEven_mono (h : x ≤ y) : roundHalfEven x ≤ roundHalfEven y := by
  rcases (Int.floor_mono h).lt_or_eq with hlt | heq
  · have hx := roundHalfEven_le_floor_add_one x
    have hy := floor_le_roundHalfEven y
    omega
  · unfold roundHalfEven
    rw [heq]
    split_ifs with hx hy hy' heven hx' hy hy' heven hx'' hy hy' hy hy' <;>
      first
        | omega
        | (exfalso; linarith)

theorem round_mono (h : x ≤ y) : round digits x ≤ round digits y := by
  have hpow : (0 : ℚ) < 10 ^ digits := by positivity
  have hscaled : roundHalfEven (x * 10 ^ digits) ≤ roundHalfEven (y * 10 ^ digits) :=
    roundHalfEven_mono (mul_le_mul_of_nonneg_right h hpow.le)
  exact div_le_div_of_nonneg_right (Int.cast_le.mpr hscaled) hpow.le

theorem round_of_scaled {n : ℤ} (h : x * 10 ^ digits = n) : round digits x = x := by
  have hpow : (10 ^ digits : ℚ) ≠ 0 := by positivity
  unfold round
  rw [h, roundHalfEven_intCast, ← h, mul_div_cancel_right₀ x hpow]

/-- What is rounded has no more digits. -/
theorem round_scaled (digits : Nat) (x : ℚ) : ∃ n : ℤ, round digits x * 10 ^ digits = n :=
  ⟨_, div_mul_cancel₀ _ (by positivity)⟩

@[simp] theorem round_zero : round digits 0 = 0 :=
  round_of_scaled (n := 0) (by simp)

@[simp] theorem round_one : round digits 1 = 1 :=
  round_of_scaled (n := 10 ^ digits) (by simp)

end Rounding

import NoteVerse.Lib.Computable

/-!
# Sampling a signal at a step

A signal is read at the multiples of a step that have a sample after them
(`count` of them). What more samples add comes after what was read before
(`resample_append`), so a signal may be read as it comes in.
-/

namespace Sampling

/-- The line through the samples before and after a position. -/
def lerp (signal : List ℚ) (position : ℚ) : ℚ :=
  signal.getD ⌊position⌋₊ 0 +
    (signal.getD (⌊position⌋₊ + 1) 0 - signal.getD ⌊position⌋₊ 0) * (position - ⌊position⌋₊)

/-- How many multiples of the step have a sample after them, of `n` samples. -/
def count (step : ℚ) (n : ℕ) : ℕ := ⌈((n : ℚ) - 1) / step⌉₊

/-- The signal at every multiple of the step that has a sample after it. -/
def resample (step : ℚ) (signal : List ℚ) : List ℚ :=
  (List.range (count step signal.length)).map fun k : ℕ => lerp signal (k * step)

variable {step : ℚ}

theorem lt_count_iff (hstep : 0 < step) {n k : ℕ} : k < count step n ↔ k * step + 1 < n := by
  rw [count, Nat.lt_ceil, lt_div_iff₀ hstep, lt_sub_iff_add_lt]

theorem count_mono (hstep : 0 < step) {m n : ℕ} (h : m ≤ n) : count step m ≤ count step n := by
  refine Nat.ceil_mono (div_le_div_of_nonneg_right ?_ hstep.le)
  have : (m : ℚ) ≤ n := by exact_mod_cast h
  linarith

/-- The first multiple of the step that has no sample after it. -/
def next (step : ℚ) (n : ℕ) : ℚ := count step n * step

theorem le_next (hstep : 0 < step) (n : ℕ) : (n : ℚ) ≤ next step n + 1 :=
  not_lt.mp fun h => lt_irrefl _ ((lt_count_iff hstep).mpr h)

theorem next_le (hstep : 0 < step) {n k : ℕ} (h : (n : ℚ) ≤ k * step + 1) :
    next step n ≤ k * step := by
  have hle : count step n ≤ k := not_lt.mp fun hlt => not_lt.mpr h ((lt_count_iff hstep).mp hlt)
  exact mul_le_mul_of_nonneg_right (by exact_mod_cast hle) hstep.le

theorem next_nonneg (hstep : 0 < step) (n : ℕ) : 0 ≤ next step n := by
  unfold next
  positivity

theorem next_mono (hstep : 0 < step) {m n : ℕ} (h : m ≤ n) : next step m ≤ next step n := by
  refine mul_le_mul_of_nonneg_right ?_ hstep.le
  exact_mod_cast count_mono hstep h

theorem next_zero (hstep : 0 < step) : next step 0 = 0 := by
  refine le_antisymm ?_ (next_nonneg hstep 0)
  have hle : next step 0 ≤ (0 : ℕ) * step :=
    next_le hstep (by rw [Nat.cast_zero, zero_mul, zero_add]; exact zero_le_one)
  rwa [Nat.cast_zero, zero_mul] at hle

theorem resample_nil (hstep : 0 < step) : resample step [] = [] := by
  have hcount : count step 0 = 0 := by
    have hnext := next_zero hstep
    rw [next] at hnext
    exact_mod_cast (mul_eq_zero.mp hnext).resolve_right hstep.ne'
  rw [resample, List.length_nil, hcount]
  rfl

/-- The count of what is read after `k` positions. -/
theorem count_add (hstep : 0 < step) {k n : ℕ} {x : ℚ} (hx : x = n - k * step)
    (hk : k ≤ count step n) : k + ⌈(x - 1) / step⌉₊ = count step n := by
  have hdiv : (x - 1) / step = ((n : ℚ) - 1) / step - k := by
    rw [hx, eq_sub_iff_add_eq, div_add' _ _ _ hstep.ne', div_left_inj' hstep.ne']
    ring
  rw [hdiv, count]
  refine eq_of_forall_lt_iff fun j => ?_
  rw [Nat.lt_ceil]
  rcases lt_or_ge j k with hlt | hle
  · have h : k ≤ ⌈((n : ℚ) - 1) / step⌉₊ := hk
    exact iff_of_true (by omega) (Nat.lt_ceil.mp (by omega))
  · obtain ⟨i, rfl⟩ := Nat.exists_eq_add_of_le hle
    rw [Nat.add_lt_add_iff_left, Nat.lt_ceil, lt_sub_iff_add_lt, add_comm]
    push_cast
    rfl

/-- A position that has a sample after it is not changed by more samples. -/
theorem lerp_append {signal more : List ℚ} {position : ℚ} (h0 : 0 ≤ position)
    (h : position + 1 < signal.length) : lerp (signal ++ more) position = lerp signal position := by
  have hfloor : ⌊position⌋₊ + 1 < signal.length := by
    have := Nat.floor_le h0
    have : ((⌊position⌋₊ : ℚ) + 1) < signal.length := by linarith
    exact_mod_cast this
  simp only [lerp, List.getD_eq_getElem?_getD, List.getElem?_append_left hfloor,
    List.getElem?_append_left (Nat.lt_of_succ_lt hfloor)]

/-- What more samples add. -/
theorem resample_append (hstep : 0 < step) (signal more : List ℚ) :
    resample step (signal ++ more) = resample step signal ++
      (List.range' (count step signal.length)
        (count step (signal ++ more).length - count step signal.length)).map
          fun k : ℕ => lerp (signal ++ more) (k * step) := by
  have hle : count step signal.length ≤ count step (signal ++ more).length :=
    count_mono hstep (by rw [List.length_append]; omega)
  have hsplit : List.range (count step (signal ++ more).length) =
      List.range (count step signal.length) ++ List.range' (count step signal.length)
        (count step (signal ++ more).length - count step signal.length) := by
    obtain ⟨added, hadded⟩ := Nat.exists_eq_add_of_le hle
    rw [hadded, Nat.add_sub_cancel_left, List.range_eq_range', List.range_eq_range',
      ← List.range'_append_1, zero_add]
  rw [resample, resample, hsplit, List.map_append]
  congr 1
  refine List.map_congr_left fun k hk => lerp_append (by positivity) ?_
  exact (lt_count_iff hstep).mp (List.mem_range.mp hk)

/-- Samples that do not reach past the next position add nothing. -/
theorem resample_append_of_le (hstep : 0 < step) {signal more : List ℚ}
    (h : ((signal ++ more).length : ℚ) ≤ next step signal.length + 1) :
    resample step (signal ++ more) = resample step signal := by
  have hle : count step (signal ++ more).length ≤ count step signal.length :=
    not_lt.mp fun hlt => not_lt.mpr h ((lt_count_iff hstep).mp hlt)
  rw [resample_append hstep, Nat.sub_eq_zero_of_le hle]
  exact List.append_nil _

/-- The next position is what more samples add first, if they add anything. -/
theorem head_of_resample_append (hstep : 0 < step) {signal more : List ℚ} {x : ℚ}
    {rest : List ℚ} (h : resample step (signal ++ more) = resample step signal ++ x :: rest) :
    x = lerp (signal ++ more) (next step signal.length) := by
  rw [resample_append hstep] at h
  have hadded := List.append_cancel_left h
  cases hcount : count step (signal ++ more).length - count step signal.length with
  | zero =>
    rw [hcount] at hadded
    exact absurd hadded (by simp)
  | succ n =>
    rw [hcount, List.range'_succ, List.map_cons] at hadded
    exact (List.cons.inj hadded).1.symm

/-! ## A single sample -/

/-- The signal of `n` samples of which only one is not zero. -/
def pulse (n place : ℕ) : List ℚ := (List.range n).map fun i => if i = place then 1 else 0

@[simp] theorem length_pulse (n place : ℕ) : (pulse n place).length = n := by
  rw [pulse, List.length_map, List.length_range]

theorem getD_pulse {n place : ℕ} (h : place < n) (i : ℕ) :
    (pulse n place).getD i 0 = if i = place then 1 else 0 := by
  unfold pulse
  rw [List.getD_eq_getElem?_getD, List.getElem?_map]
  by_cases hi : i < n
  · rw [List.getElem?_range hi]
    rfl
  · rw [List.getElem?_eq_none (by rw [List.length_range]; omega), if_neg (by omega)]
    rfl

end Sampling

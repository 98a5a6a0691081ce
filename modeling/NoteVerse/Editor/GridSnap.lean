import NoteVerse.Editor.RhythmicInput

/-!
# Snapping to the grid

`snapOffsetToGrid` of `lib/editor-domain/rhythmic-input.ts`. The positions that
`enumerateGridPositions` returns are the multiples of the step up to the end of the measure,
and that end (`enumerateGridPositions_grid`). An offset goes to the nearest of them, and of
two equally near ones to the later (`snapOffsetToGrid_ok`); so the order of two offsets stays
(`Lists.LastNearest.mono`).
-/

namespace NoteVerse.Editor

open Js

/-! ## The source -/

def clampRational (value min max : Rational) : Throws Rational := do
  if (← compareRational value min) < 0 then return min
  if 0 < (← compareRational value max) then return max
  return value

def absoluteRationalDistance (left right : Rational) : Throws Rational := do
  if 0 ≤ (← compareRational left right) then subtractRational left right
  else subtractRational right left

/-- One turn of the loop of `snapOffsetToGrid`: the later of two equally near positions stays. -/
def snapStep (clampedOffset : Rational) (nearest : GridPosition × Rational)
    (position : GridPosition) : Throws (GridPosition × Rational) := do
  let distance ← absoluteRationalDistance clampedOffset position.position.offset
  if (← compareRational distance nearest.2) ≤ 0 then return (position, distance)
  return nearest

def snapOffsetToGrid (measureId : MeasureId) (offset measureDuration : Rational)
    (grid : RhythmicGridResolution) : Throws GridPosition := do
  assertPositiveRational measureDuration "Measure duration"
  let clampedOffset ← clampRational offset ⟨0, 1⟩ measureDuration
  let positions ← enumerateGridPositions measureId measureDuration grid
  match positions with
  | [] => throw "Cannot read properties of undefined (reading 'position')"
  | nearest :: rest =>
    let nearestDistance ← absoluteRationalDistance clampedOffset nearest.position.offset
    let snapped ← rest.foldlM (snapStep clampedOffset) (nearest, nearestDistance)
    return snapped.1

/-! ## The grid -/

def GridPosition.value (position : GridPosition) : ℚ := position.position.offset.toRat

/-- A multiple of the step in the measure, or the end of the measure. -/
def AtGridPoint (step measureDuration x : ℚ) : Prop :=
  (∃ k : ℤ, x = k * step ∧ 0 ≤ x ∧ x ≤ measureDuration) ∨ x = measureDuration

variable {measureId : MeasureId} {measureDuration step offset : Rational}
  {positions : List GridPosition} {grid : RhythmicGridResolution}

/-- What one turn of the loop does: it stops after the end of the measure. -/
theorem gridLoop_cases (hm : measureDuration.Valid) (hs : step.Valid) (ho : offset.Valid)
    {fuel index : Nat}
    (h : gridLoop measureId measureDuration step (fuel + 1) offset index = .ok positions) :
    (measureDuration.toRat < offset.toRat ∧ positions = []) ∨
    (offset.toRat ≤ measureDuration.toRat ∧ ∃ next rest, next.Valid ∧
      next.toRat = offset.toRat + step.toRat ∧
      gridLoop measureId measureDuration step fuel next (index + 1) = .ok rest ∧
      positions = ⟨⟨measureId, offset⟩, index⟩ :: rest) := by
  rw [gridLoop, compareRational_ok ho hm] at h
  obtain ⟨_, hcompare, h⟩ := bind_eq_ok.mp h
  obtain rfl := Except.ok.inj hcompare
  by_cases hlt : measureDuration.toRat < offset.toRat
  · rw [if_pos ((compareRational_pos_iff ho hm).mpr hlt)] at h
    exact .inl ⟨hlt, (Except.ok.inj h).symm⟩
  · rw [if_neg fun hpos => hlt ((compareRational_pos_iff ho hm).mp hpos)] at h
    obtain ⟨next, hnext, h⟩ := bind_eq_ok.mp h
    obtain ⟨rest, hrest, h⟩ := bind_eq_ok.mp h
    obtain ⟨_, hsum, hvalid⟩ := addRational_ok ho hs
    obtain rfl := Except.ok.inj (hnext.symm.trans hsum)
    exact .inr ⟨not_lt.mp hlt, next, rest, hvalid, toRat_addRational ho hs hnext, hrest,
      (pure_eq_ok.mp h).symm⟩

/-- The loop steps through the measure from the offset on. -/
theorem gridLoop_values (hm : measureDuration.Valid) (hs : step.Positive) {fuel : Nat}
    (ho : offset.Valid) {index : Nat}
    (h : gridLoop measureId measureDuration step fuel offset index = .ok positions) :
    (positions.map GridPosition.value).Pairwise (· < ·) ∧
      ∀ x, x ∈ positions.map GridPosition.value ↔
        ∃ k : ℕ, x = offset.toRat + k * step.toRat ∧ x ≤ measureDuration.toRat := by
  have hpos := hs.toRat_pos
  induction fuel generalizing offset index positions with
  | zero => exact absurd h throw_ne_ok
  | succ fuel ih =>
    obtain ⟨hlt, rfl⟩ | ⟨hle, next, rest, hvalid, hvalue, hrest, rfl⟩ :=
      gridLoop_cases hm hs.1 ho h
    · refine ⟨List.Pairwise.nil, fun x => ?_⟩
      rw [List.map_nil]
      constructor
      · exact fun hmem => absurd hmem List.not_mem_nil
      · rintro ⟨k, rfl, hk⟩
        have : 0 ≤ (k : ℚ) * step.toRat := by positivity
        linarith
    · obtain ⟨hsorted, hmem⟩ := ih hvalid hrest
      rw [List.map_cons]
      refine ⟨List.pairwise_cons.mpr ⟨fun x hx => ?_, hsorted⟩, fun x => ?_⟩
      · -- The positions after the first begin one step later.
        obtain ⟨k, rfl, -⟩ := (hmem x).mp hx
        have : 0 ≤ (k : ℚ) * step.toRat := by positivity
        show offset.toRat < _
        linarith
      · rw [List.mem_cons, hmem x]
        constructor
        · rintro (rfl | ⟨k, rfl, hk⟩)
          · exact ⟨0, by rw [Nat.cast_zero, zero_mul, add_zero]; rfl, hle⟩
          · exact ⟨k + 1, by rw [hvalue]; push_cast; ring, hk⟩
        · rintro ⟨k, rfl, hk⟩
          cases k with
          | zero =>
            left
            rw [Nat.cast_zero, zero_mul, add_zero]
            rfl
          | succ k => exact .inr ⟨k, by rw [hvalue]; push_cast; ring, hk⟩

/-- The positions of the loop, with the end of the measure after them where they miss it. -/
theorem enumerateGridPositions_cases (hm : measureDuration.Positive)
    (h : enumerateGridPositions measureId measureDuration grid = .ok positions) :
    ∃ regular last, gridLoop measureId measureDuration grid.step
        (gridFuel measureDuration grid.step) ⟨0, 1⟩ 0 = .ok (regular ++ [last]) ∧
      (last.value < measureDuration.toRat ∧ positions =
          regular ++ [last] ++ [⟨⟨measureId, measureDuration⟩, (regular ++ [last]).length⟩] ∨
        last.value = measureDuration.toRat ∧ positions = regular ++ [last]) := by
  have hzero : (⟨0, 1⟩ : Rational).Valid := by decide
  obtain ⟨_, hall, hin⟩ := enumerateGridPositions_ok measureId hm grid
  obtain rfl := Except.ok.inj (h.symm.trans hall)
  obtain ⟨_, -, h⟩ := bind_eq_ok.mp h
  obtain ⟨looped, hloop, h⟩ := bind_eq_ok.mp h
  have hfirst : (0 : ℚ) ∈ looped.map GridPosition.value :=
    ((gridLoop_values hm.1 grid.positive hzero hloop).2 0).mpr
      ⟨0, by rw [toRat_zero, Nat.cast_zero, zero_mul, add_zero], hm.toRat_pos.le⟩
  have hne : looped ≠ [] := by
    rintro rfl
    exact absurd hfirst List.not_mem_nil
  obtain ⟨regular, last, rfl⟩ := List.eq_nil_or_concat looped |>.resolve_left hne
  rw [List.concat_eq_append] at hloop h
  rw [List.getLast?_append, List.getLast?_singleton, Option.some_or] at h
  obtain ⟨compared, hcompare, h⟩ := bind_eq_ok.mp h
  have hlast := (compareRational_eq_ok hcompare).1
  rw [compareRational_ok hlast hm.1] at hcompare
  obtain rfl := Except.ok.inj hcompare
  refine ⟨regular, last, hloop, ?_⟩
  split_ifs at h with hlt
  · left
    refine ⟨?_, (pure_eq_ok.mp h).symm⟩
    rw [GridPosition.value, ← compareRational_pos_iff hm.1 hlast]
    omega
  · right
    obtain rfl := (pure_eq_ok.mp h).symm
    refine ⟨le_antisymm (hin last (List.mem_append_right _ List.mem_cons_self)).le ?_, rfl⟩
    rw [GridPosition.value, ← compareRational_nonpos_iff hm.1 hlast]
    omega

/-- The positions are the grid, in strictly increasing order. -/
theorem enumerateGridPositions_grid (hm : measureDuration.Positive)
    (h : enumerateGridPositions measureId measureDuration grid = .ok positions) :
    (positions.map GridPosition.value).Pairwise (· < ·) ∧
      ∀ x, x ∈ positions.map GridPosition.value ↔
        AtGridPoint grid.step.toRat measureDuration.toRat x := by
  have hpos := grid.positive.toRat_pos
  obtain ⟨regular, last, hloop, hcase⟩ := enumerateGridPositions_cases hm h
  obtain ⟨hsorted, hmem⟩ := gridLoop_values hm.1 grid.positive (by decide) hloop
  have hregular : ∀ x, x ∈ (regular ++ [last]).map GridPosition.value ↔
      ∃ k : ℤ, x = k * grid.step.toRat ∧ 0 ≤ x ∧ x ≤ measureDuration.toRat := by
    intro x
    rw [hmem x, toRat_zero]
    constructor
    · rintro ⟨k, rfl, hle⟩
      exact ⟨k, by rw [zero_add, Int.cast_natCast], by positivity, hle⟩
    · rintro ⟨k, rfl, hnonneg, hle⟩
      have hk : 0 ≤ k := by exact_mod_cast nonneg_of_mul_nonneg_left hnonneg hpos
      obtain ⟨n, rfl⟩ := Int.eq_ofNat_of_zero_le hk
      exact ⟨n, by rw [zero_add, Int.cast_natCast], hle⟩
  obtain ⟨hlt, rfl⟩ | ⟨heq, rfl⟩ := hcase
  · rw [List.map_append] at hsorted ⊢
    constructor
    · -- What is in the loop is not after its last position.
      refine List.pairwise_append.mpr ⟨?_, List.pairwise_singleton _ _, fun x hx y hy => ?_⟩
      · rwa [List.map_append]
      · rw [List.map_singleton, List.mem_singleton] at hy
        rw [hy]
        rw [List.map_append] at hx
        rcases List.mem_append.mp hx with hx | hx
        · exact ((List.pairwise_append.mp hsorted).2.2 x hx _ List.mem_cons_self).trans hlt
        · exact List.mem_singleton.mp hx ▸ hlt
    · intro x
      rw [List.mem_append, hregular x, List.map_singleton, List.mem_singleton]
      rfl
  · refine ⟨hsorted, fun x => ?_⟩
    rw [hregular x]
    refine ⟨.inl, fun hx => hx.elim id fun hx => (hregular x).mp ?_⟩
    rw [hx, ← heq]
    exact List.mem_map.mpr ⟨last, List.mem_append_right _ List.mem_cons_self, rfl⟩

/-! ## The nearest position -/

theorem clampRational_ok {value max : Rational} (hv : value.Valid) (hmax : max.Positive) :
    ∃ clamped, clampRational value ⟨0, 1⟩ max = .ok clamped ∧ clamped.Valid ∧
      clamped.toRat = Max.max 0 (Min.min value.toRat max.toRat) := by
  have hzero : (⟨0, 1⟩ : Rational).Valid := by decide
  have hpos := hmax.toRat_pos
  unfold clampRational
  rw [compareRational_ok hv hzero, compareRational_ok hv hmax.1]
  by_cases hneg : value.toRat < 0
  · refine ⟨⟨0, 1⟩, if_pos ?_, hzero, ?_⟩
    · rw [← toRat_zero, ← compareRational_pos_iff hzero hv] at hneg
      omega
    · rw [toRat_zero, max_eq_left ((min_le_left _ _).trans hneg.le)]
  · have hle : ¬value.numerator * (1 : Int) - 0 * value.denominator < 0 := by
      rw [← toRat_zero, ← compareRational_pos_iff hzero hv] at hneg
      dsimp only at hneg
      omega
    by_cases hlt : max.toRat < value.toRat
    · refine ⟨max, (if_neg hle).trans (if_pos ?_), hmax.1, ?_⟩
      · exact (compareRational_pos_iff hv hmax.1).mpr hlt
      · rw [min_eq_right hlt.le, max_eq_right hpos.le]
    · refine ⟨value, (if_neg hle).trans (if_neg ?_), hv, ?_⟩
      · exact fun h => hlt ((compareRational_pos_iff hv hmax.1).mp h)
      · rw [min_eq_left (not_lt.mp hlt), max_eq_right (not_lt.mp hneg)]

theorem subtractRational_valid {left right : Rational} (hl : left.Valid) (hr : right.Valid) :
    ∃ difference, subtractRational left right = .ok difference ∧ difference.Valid := by
  obtain ⟨difference, hdiff, hvalid, -⟩ := normalizeRational_ok (r :=
    ⟨left.numerator * right.denominator - right.numerator * left.denominator,
      left.denominator * right.denominator⟩) (Int.mul_pos hl hr)
  exact ⟨difference, bind_eq_ok.mpr ⟨(), assertValidRational_ok hl, bind_eq_ok.mpr
    ⟨(), assertValidRational_ok hr, hdiff⟩⟩, hvalid⟩

theorem absoluteRationalDistance_ok {left right : Rational} (hl : left.Valid)
    (hr : right.Valid) : ∃ distance, absoluteRationalDistance left right = .ok distance ∧
      distance.Valid ∧ distance.toRat = |left.toRat - right.toRat| := by
  unfold absoluteRationalDistance
  rw [compareRational_ok hl hr]
  by_cases hle : right.toRat ≤ left.toRat
  · obtain ⟨distance, hdistance, hvalid⟩ := subtractRational_valid hl hr
    refine ⟨distance, (if_pos ?_).trans hdistance, hvalid, ?_⟩
    · rw [← compareRational_nonpos_iff hr hl] at hle
      omega
    · rw [toRat_subtractRational hl hr hdistance, abs_of_nonneg (sub_nonneg.mpr hle)]
  · obtain ⟨distance, hdistance, hvalid⟩ := subtractRational_valid hr hl
    refine ⟨distance, (if_neg ?_).trans hdistance, hvalid, ?_⟩
    · rw [← compareRational_nonpos_iff hr hl] at hle
      omega
    · rw [toRat_subtractRational hr hl hdistance, abs_sub_comm,
        abs_of_pos (sub_pos.mpr (not_le.mp hle))]

/-- The distance that is compared. -/
def distanceTo (offset : ℚ) (position : GridPosition) : ℚ := |offset - position.value|

theorem snapStep_foldlM {clampedOffset : Rational} (hc : clampedOffset.Valid)
    {positions : List GridPosition} (hvalid : ∀ p ∈ positions, p.position.offset.Valid)
    {nearest : GridPosition × Rational} (hn : nearest.2.Valid)
    (hdistance : nearest.2.toRat = distanceTo clampedOffset.toRat nearest.1) :
    ∃ snapped, positions.foldlM (snapStep clampedOffset) nearest = .ok snapped ∧
      snapped.1 = (Lists.nearestLoop (distanceTo clampedOffset.toRat)
        (nearest.1, distanceTo clampedOffset.toRat nearest.1) positions).1 := by
  induction positions generalizing nearest with
  | nil => exact ⟨nearest, rfl, rfl⟩
  | cons position positions ih =>
    have hrest := fun p hp => hvalid p (List.mem_cons_of_mem _ hp)
    obtain ⟨distance, hok, hd, hvalue⟩ :=
      absoluteRationalDistance_ok hc (hvalid position List.mem_cons_self)
    have hiff : distance.numerator * nearest.2.denominator -
        nearest.2.numerator * distance.denominator ≤ 0 ↔
        distanceTo clampedOffset.toRat position ≤ distanceTo clampedOffset.toRat nearest.1 := by
      rw [compareRational_nonpos_iff hd hn, hvalue, hdistance]
      rfl
    rw [Lists.nearestLoop, List.foldl_cons, List.foldlM_cons, snapStep, hok]
    by_cases hle : distanceTo clampedOffset.toRat position ≤
        distanceTo clampedOffset.toRat nearest.1
    · rw [if_pos hle]
      obtain ⟨snapped, hsnapped, heq⟩ := @ih hrest (position, distance) hd hvalue
      refine ⟨snapped, bind_eq_ok.mpr ⟨(position, distance), ?_, hsnapped⟩, heq⟩
      refine bind_eq_ok.mpr ⟨distance, rfl, bind_eq_ok.mpr ⟨_, compareRational_ok hd hn, ?_⟩⟩
      exact if_pos (hiff.mpr hle)
    · rw [if_neg hle]
      obtain ⟨snapped, hsnapped, heq⟩ := ih hrest hn hdistance
      refine ⟨snapped, bind_eq_ok.mpr ⟨nearest, ?_, hsnapped⟩, heq⟩
      refine bind_eq_ok.mpr ⟨distance, rfl, bind_eq_ok.mpr ⟨_, compareRational_ok hd hn, ?_⟩⟩
      exact if_neg fun h => hle (hiff.mp h)

/-- The offset in the measure that is nearest to the offset. -/
def clamped (measureDuration offset : ℚ) : ℚ := max 0 (min offset measureDuration)

theorem clamped_mono {measureDuration a b : ℚ} (h : a ≤ b) :
    clamped measureDuration a ≤ clamped measureDuration b :=
  max_le_max le_rfl (min_le_min h le_rfl)

theorem clamped_of_mem {measureDuration x : ℚ} (h0 : 0 ≤ x) (h : x ≤ measureDuration) :
    clamped measureDuration x = x := by
  rw [clamped, min_eq_left h, max_eq_right h0]

/-- An offset goes to the nearest position, and of two equally near ones to the later. -/
theorem snapOffsetToGrid_ok (ho : offset.Valid) (hm : measureDuration.Positive)
    (h : enumerateGridPositions measureId measureDuration grid = .ok positions) :
    ∃ position, snapOffsetToGrid measureId offset measureDuration grid = .ok position ∧
      Lists.LastNearest (distanceTo (clamped measureDuration.toRat offset.toRat)) positions
        position := by
  obtain ⟨_, hall, hin⟩ := enumerateGridPositions_ok measureId hm grid
  obtain rfl := Except.ok.inj (h.symm.trans hall)
  obtain ⟨regular, last, -, hcase⟩ := enumerateGridPositions_cases hm h
  obtain ⟨clampedOffset, hclamp, hc, hvalue⟩ := clampRational_ok ho hm
  change _ = clamped _ _ at hvalue
  rw [← hvalue]
  cases positions with
  | nil => rcases hcase with ⟨-, hnil⟩ | ⟨-, hnil⟩ <;> exact absurd hnil (by simp)
  | cons first rest =>
    obtain ⟨hfirst, hrest⟩ := List.forall_mem_cons.mp hin
    obtain ⟨distance, hdistance, hd, hdvalue⟩ := absoluteRationalDistance_ok hc hfirst.valid
    obtain ⟨snapped, hsnapped, heq⟩ := @snapStep_foldlM _ hc rest
      (fun p hp => (hrest p hp).valid) (first, distance) hd hdvalue
    refine ⟨snapped.1, bind_eq_ok.mpr ⟨(), assertPositiveRational_eq_ok.mpr hm,
      bind_eq_ok.mpr ⟨clampedOffset, hclamp, bind_eq_ok.mpr ⟨_, h, ?_⟩⟩⟩, ?_⟩
    · exact bind_eq_ok.mpr ⟨distance, hdistance, bind_eq_ok.mpr ⟨snapped, hsnapped, rfl⟩⟩
    · rw [heq]
      exact Lists.lastNearest_nearestLoop _ first rest

/-- Every grid of a measure is listed in order, and offsets go to it in order. -/
theorem snapOffsetToGrid_grid (measureId : MeasureId) {measureDuration : Rational}
    (hm : measureDuration.Positive) (grid : RhythmicGridResolution) :
    ∃ positions, enumerateGridPositions measureId measureDuration grid = .ok positions ∧
      (positions.map GridPosition.value).Pairwise (· < ·) ∧
      (∀ x, x ∈ positions.map GridPosition.value ↔
        AtGridPoint grid.step.toRat measureDuration.toRat x) ∧
      ∃ snap : {offset : Rational // offset.Valid} → GridPosition,
        (∀ offset, snapOffsetToGrid measureId offset.1 measureDuration grid =
            .ok (snap offset) ∧ snap offset ∈ positions ∧
          ∀ other ∈ positions,
            |clamped measureDuration.toRat offset.1.toRat - (snap offset).value| ≤
              |clamped measureDuration.toRat offset.1.toRat - other.value|) ∧
        (∀ a b, a.1.toRat ≤ b.1.toRat → (snap a).value ≤ (snap b).value) ∧
        ∀ a, ∀ position ∈ positions, a.1.toRat = position.value → snap a = position := by
  obtain ⟨positions, hpositions, hin⟩ := enumerateGridPositions_ok measureId hm grid
  obtain ⟨hsorted, hmem⟩ := enumerateGridPositions_grid hm hpositions
  choose snap hsnap hnearest using fun offset : {offset : Rational // offset.Valid} =>
    snapOffsetToGrid_ok offset.2 hm hpositions
  refine ⟨positions, hpositions, hsorted, hmem, snap, fun offset => ⟨hsnap offset,
    (hnearest offset).mem, fun _ => (hnearest offset).le⟩, fun a b hab => ?_,
    fun a position hposition ha => ?_⟩
  · exact (hnearest a).mono (hnearest b) (clamped_mono hab)
  · have hinside := hin position hposition
    have hclamped : clamped measureDuration.toRat a.1.toRat = position.value := by
      rw [ha]
      exact clamped_of_mem hinside.nonneg hinside.le
    have hle := (hnearest a).le hposition
    rw [hclamped, distanceTo, distanceTo, sub_self, abs_zero, abs_nonpos_iff] at hle
    have hvalue : (snap a).value = position.value := by linarith
    exact Lists.eq_of_map_pairwise_lt hsorted (hnearest a).mem hposition hvalue

/-- Thirds in a measure of three quarters. -/
def thirds : RhythmicGridResolution := ⟨⟨1, 3⟩, by decide⟩

theorem snapOffsetToGrid_grid_thirds : (⟨3, 4⟩ : Rational).Positive ∧
    ∃ positions, enumerateGridPositions "m1" ⟨3, 4⟩ thirds = .ok positions ∧
      ∀ x, x ∈ positions.map GridPosition.value ↔
        AtGridPoint thirds.step.toRat (⟨3, 4⟩ : Rational).toRat x := by
  obtain ⟨positions, hpositions, -, hmem, -⟩ :=
    @snapOffsetToGrid_grid "m1" ⟨3, 4⟩ (by decide) thirds
  exact ⟨by decide, positions, hpositions, hmem⟩

-- Halfway between two positions, an offset goes to the later.
example : (snapOffsetToGrid "m1" ⟨1, 6⟩ ⟨3, 4⟩ thirds).toOption.map GridPosition.index =
    some 1 := by decide

end NoteVerse.Editor

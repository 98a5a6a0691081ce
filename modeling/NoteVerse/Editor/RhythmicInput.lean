import NoteVerse.Editor.DerivedGaps
import NoteVerse.Lib.JsMap
import NoteVerse.Lib.JsNumber
import NoteVerse.Lib.Lists

/-!
# Rhythmic input

`lib/editor-domain/rhythmic-input.ts` and `rhythmic-layout-map.ts`: the caret and the
anchors of an insertion, the positions of a grid, and where these are on the screen. A grid
and an input duration carry the proof of what their constructors assert. Coordinates are
rational numbers, which are all finite.

`enumerateGridPositions` is a loop until the end of the measure; `enumerateGridPositions_ok`
says that it ends, and that its positions are in the measure.
-/

namespace NoteVerse.Editor

open Js

/-! ## Assertions -/

/-- What `assertPositiveRational` checks. -/
def Rational.Positive (r : Rational) : Prop := r.Valid ∧ 0 < r.numerator

instance (r : Rational) : Decidable r.Positive := inferInstanceAs (Decidable (_ ∧ _))

def assertPositiveRational (value : Rational) (label : String) : Throws Unit := do
  if (← compareRational value ⟨0, 1⟩) ≤ 0 then throw (label ++ " must be positive.")

def assertNonNegativeRational (value : Rational) (label : String) : Throws Unit := do
  if (← compareRational value ⟨0, 1⟩) < 0 then throw (label ++ " must be non-negative.")

theorem assertValidRational_eq_ok {r : Rational} (h : assertValidRational r = .ok ()) :
    r.Valid := by
  unfold assertValidRational at h
  split_ifs at h with hneg
  show 0 < r.denominator
  omega

theorem compareRational_eq_ok {left right : Rational} {compared : Int}
    (h : compareRational left right = .ok compared) : left.Valid ∧ right.Valid ∧
      compared = left.numerator * right.denominator - right.numerator * left.denominator := by
  obtain ⟨⟨⟩, hl, h⟩ := bind_eq_ok.mp h
  obtain ⟨⟨⟩, hr, h⟩ := bind_eq_ok.mp h
  exact ⟨assertValidRational_eq_ok hl, assertValidRational_eq_ok hr, (Except.ok.inj h).symm⟩

theorem compareRational_zero {r : Rational} (hr : r.Valid) :
    compareRational r ⟨0, 1⟩ = .ok r.numerator := by
  rw [compareRational_ok hr (by decide)]
  congr 1
  dsimp only
  omega

theorem assertPositiveRational_eq_ok {value : Rational} {label : String} :
    assertPositiveRational value label = .ok () ↔ value.Positive := by
  constructor
  · intro h
    obtain ⟨compared, hcompare, h⟩ := bind_eq_ok.mp h
    have hvalid := (compareRational_eq_ok hcompare).1
    rw [compareRational_zero hvalid] at hcompare
    obtain rfl := Except.ok.inj hcompare
    split_ifs at h with hpos
    exact ⟨hvalid, not_le.mp hpos⟩
  · rintro ⟨hvalid, hpos⟩
    refine bind_eq_ok.mpr ⟨_, compareRational_zero hvalid, ?_⟩
    rw [if_neg (not_le.mpr hpos)]
    rfl

theorem toRat_zero : (⟨0, 1⟩ : Rational).toRat = 0 := by
  simp [Rational.toRat]

theorem Rational.Positive.toRat_pos {r : Rational} (h : r.Positive) : 0 < r.toRat := by
  have hn : (0 : ℚ) < r.numerator := by exact_mod_cast h.2
  exact div_pos hn (toRat_denominator_pos h.1)

/-! ## Carets, grids and anchors -/

structure ActiveVoice where
  voiceId : VoiceId
  staffId : StaffId
  deriving DecidableEq, Repr

structure Caret where
  voiceId : VoiceId
  staffId : StaffId
  position : MusicalPosition
  deriving DecidableEq, Repr

structure RhythmicGridResolution where
  step : Rational
  positive : step.Positive

structure InputDuration where
  rhythm : RhythmicValue
  positive : rhythm.timelineDuration.Positive

inductive EventEdge
  | before | after
  deriving DecidableEq, Repr

inductive InsertionAnchor
  | caret (caret : Caret)
  | timelineGap (voiceId : VoiceId) (staffId : StaffId) (position gapStart : MusicalPosition)
      (gapDuration : Rational)
  | eventEdge (voiceId : VoiceId) (staffId : StaffId) (position : MusicalPosition)
      (eventId : EventId) (edge : EventEdge)
  deriving DecidableEq, Repr

structure GridPosition where
  position : MusicalPosition
  index : Nat
  deriving DecidableEq, Repr

def createCaret (activeVoice : ActiveVoice) (measureId : MeasureId) (offset : Rational) :
    Throws Caret := do
  assertNonNegativeRational offset "Caret offset"
  return ⟨activeVoice.voiceId, activeVoice.staffId, ⟨measureId, offset⟩⟩

def createRhythmicGridResolution (step : Rational) : Throws RhythmicGridResolution :=
  match h : assertPositiveRational step "Rhythmic grid step" with
  | .error message => .error message
  | .ok () => .ok ⟨step, assertPositiveRational_eq_ok.mp h⟩

def createInputDuration (rhythm : RhythmicValue) : Throws InputDuration :=
  match h : assertPositiveRational rhythm.timelineDuration "Input duration" with
  | .error message => .error message
  | .ok () => .ok ⟨rhythm, assertPositiveRational_eq_ok.mp h⟩

def assertPositionWithinGap (position gapStart : MusicalPosition) (gapDuration : Rational) :
    Throws Unit := do
  if position.measureId ≠ gapStart.measureId then
    throw "Insertion position must be in the same measure as the timeline gap."
  let gapEnd ← addRational gapStart.offset gapDuration
  if (← compareRational position.offset gapStart.offset) < 0 ∨
      0 < (← compareRational position.offset gapEnd) then
    throw "Insertion position must be inside the timeline gap."

def createTimelineGapInsertionAnchor (activeVoice : ActiveVoice)
    (position gapStart : MusicalPosition) (gapDuration : Rational) : Throws InsertionAnchor := do
  assertPositionWithinGap position gapStart gapDuration
  return .timelineGap activeVoice.voiceId activeVoice.staffId position gapStart gapDuration

/-! ## The positions of a grid -/

/-- The loop of `enumerateGridPositions`; it throws where it runs out of fuel. -/
def gridLoop (measureId : MeasureId) (measureDuration step : Rational) :
    Nat → Rational → Nat → Throws (List GridPosition)
  | 0, _, _ => throw "out of fuel"
  | fuel + 1, offset, index => do
    if 0 < (← compareRational offset measureDuration) then return []
    let next ← addRational offset step
    return ⟨⟨measureId, offset⟩, index⟩ ::
      (← gridLoop measureId measureDuration step fuel next (index + 1))

/-- As many turns as there are steps in the measure, one at its start and one after its end. -/
def gridFuel (measureDuration step : Rational) : Nat :=
  (measureDuration.numerator * step.denominator /
    (measureDuration.denominator * step.numerator)).toNat + 2

def enumerateGridPositions (measureId : MeasureId) (measureDuration : Rational)
    (grid : RhythmicGridResolution) : Throws (List GridPosition) := do
  assertPositiveRational measureDuration "Measure duration"
  let positions ← gridLoop measureId measureDuration grid.step
    (gridFuel measureDuration grid.step) ⟨0, 1⟩ 0
  match positions.getLast? with
  | none => return positions
  | some lastPosition =>
    if (← compareRational lastPosition.position.offset measureDuration) < 0 then
      return positions ++ [⟨⟨measureId, measureDuration⟩, positions.length⟩]
    else return positions

/-- The position is one of the measure. -/
structure GridPosition.In (position : GridPosition) (measureId : MeasureId)
    (measureDuration : Rational) : Prop where
  measure : position.position.measureId = measureId
  valid : position.position.offset.Valid
  nonneg : 0 ≤ position.position.offset.toRat
  le : position.position.offset.toRat ≤ measureDuration.toRat

/-- The loop ends where it has fuel for the steps up to the end of the measure. -/
theorem gridLoop_ok (measureId : MeasureId) {measureDuration step : Rational}
    (hm : measureDuration.Valid) (hs : step.Positive) {fuel : Nat} {offset : Rational}
    (ho : offset.Valid) (hnonneg : 0 ≤ offset.toRat)
    (hfuel : measureDuration.toRat < offset.toRat + fuel * step.toRat) (index : Nat) :
    ∃ positions, gridLoop measureId measureDuration step (fuel + 1) offset index =
        .ok positions ∧ ∀ position ∈ positions, position.In measureId measureDuration := by
  induction fuel generalizing offset index with
  | zero =>
    rw [Nat.cast_zero, zero_mul, add_zero] at hfuel
    refine ⟨[], ?_, fun _ hmem => absurd hmem List.not_mem_nil⟩
    rw [gridLoop, compareRational_ok ho hm]
    exact if_pos ((compareRational_pos_iff ho hm).mpr hfuel)
  | succ fuel ih =>
    by_cases hlt : measureDuration.toRat < offset.toRat
    · refine ⟨[], ?_, fun _ hmem => absurd hmem List.not_mem_nil⟩
      rw [gridLoop, compareRational_ok ho hm]
      exact if_pos ((compareRational_pos_iff ho hm).mpr hlt)
    · obtain ⟨next, hnext, hvalid⟩ := addRational_ok ho hs.1
      have hvalue := toRat_addRational ho hs.1 hnext
      have hpos := hs.toRat_pos
      have hleft : measureDuration.toRat < next.toRat + fuel * step.toRat := by
        rw [hvalue]
        push_cast at hfuel
        linarith
      obtain ⟨positions, hpositions, hin⟩ := ih hvalid
        (by rw [hvalue]; exact add_nonneg hnonneg hpos.le) hleft (index + 1)
      refine ⟨⟨⟨measureId, offset⟩, index⟩ :: positions, ?_,
        List.forall_mem_cons.mpr ⟨?_, hin⟩⟩
      · rw [gridLoop, compareRational_ok ho hm]
        refine (if_neg fun h => hlt ((compareRational_pos_iff ho hm).mp h)).trans ?_
        rw [hnext]
        exact bind_eq_ok.mpr ⟨next, rfl, bind_eq_ok.mpr ⟨positions, hpositions, rfl⟩⟩
      · exact ⟨rfl, ho, hnonneg, not_lt.mp hlt⟩

theorem lt_gridFuel {measureDuration step : Rational} (hm : measureDuration.Valid)
    (hs : step.Positive) :
    measureDuration.toRat < ((gridFuel measureDuration step - 1 : Nat) : ℚ) * step.toRat := by
  have hd : 0 < measureDuration.denominator * step.numerator := Int.mul_pos hm hs.2
  have hlt := Int.lt_ediv_add_one_mul_self
    (measureDuration.numerator * step.denominator) hd
  have hle : measureDuration.numerator * step.denominator /
      (measureDuration.denominator * step.numerator) + 1 ≤
        ((gridFuel measureDuration step - 1 : Nat) : Int) := by
    unfold gridFuel
    omega
  have hbound : measureDuration.numerator * step.denominator <
      ((gridFuel measureDuration step - 1 : Nat) : Int) *
        (measureDuration.denominator * step.numerator) :=
    hlt.trans_le (Int.mul_le_mul_of_nonneg_right hle hd.le)
  have hmpos := toRat_denominator_pos hm
  have hspos := toRat_denominator_pos hs.1
  unfold Rational.toRat
  rw [← mul_div_assoc, div_lt_div_iff₀ hmpos hspos]
  have hcast : ((measureDuration.numerator * step.denominator : Int) : ℚ) <
      (((gridFuel measureDuration step - 1 : Nat) : Int) *
        (measureDuration.denominator * step.numerator) : Int) := by exact_mod_cast hbound
  push_cast at hcast
  calc (measureDuration.numerator : ℚ) * step.denominator
      < (gridFuel measureDuration step - 1 : Nat) *
          (measureDuration.denominator * step.numerator) := hcast
    _ = _ := by ring

/-- The loop of `enumerateGridPositions` ends, and its positions are in the measure. -/
theorem enumerateGridPositions_ok (measureId : MeasureId) {measureDuration : Rational}
    (hm : measureDuration.Positive) (grid : RhythmicGridResolution) :
    ∃ positions, enumerateGridPositions measureId measureDuration grid = .ok positions ∧
      ∀ position ∈ positions, position.In measureId measureDuration := by
  have hzero : (⟨0, 1⟩ : Rational).Valid := by decide
  have hfuel : gridFuel measureDuration grid.step = gridFuel measureDuration grid.step - 1 + 1 := by
    unfold gridFuel
    omega
  obtain ⟨positions, hpositions, hin⟩ := gridLoop_ok measureId hm.1 grid.positive hzero
    toRat_zero.ge (by rw [toRat_zero, zero_add]; exact lt_gridFuel hm.1 grid.positive) 0
  rw [← hfuel] at hpositions
  unfold enumerateGridPositions
  rw [assertPositiveRational_eq_ok.mpr hm, hpositions]
  cases hlast : positions.getLast? with
  | none => exact ⟨positions, bind_eq_ok.mpr ⟨(), rfl, bind_eq_ok.mpr ⟨positions, rfl, by
      rw [hlast]
      rfl⟩⟩, hin⟩
  | some last =>
    have hmem := List.mem_of_getLast? hlast
    have hcompare := compareRational_ok (hin last hmem).valid hm.1
    by_cases hlt : last.position.offset.numerator * measureDuration.denominator -
        measureDuration.numerator * last.position.offset.denominator < 0
    · refine ⟨positions ++ [⟨⟨measureId, measureDuration⟩, positions.length⟩],
        bind_eq_ok.mpr ⟨(), rfl, bind_eq_ok.mpr ⟨positions, rfl, ?_⟩⟩, fun position hp => ?_⟩
      · rw [hlast]
        exact bind_eq_ok.mpr ⟨_, hcompare, by rw [if_pos hlt]; rfl⟩
      · rcases List.mem_append.mp hp with hp | hp
        · exact hin position hp
        · rw [List.mem_singleton.mp hp]
          exact ⟨rfl, hm.1, hm.toRat_pos.le, le_rfl⟩
    · refine ⟨positions, bind_eq_ok.mpr ⟨(), rfl, bind_eq_ok.mpr ⟨positions, rfl, ?_⟩⟩, hin⟩
      rw [hlast]
      exact bind_eq_ok.mpr ⟨_, hcompare, by rw [if_neg hlt]; rfl⟩

/-! ## Where the positions are on the screen -/

structure RenderedRhythmicAnchor where
  position : MusicalPosition
  x : ℚ
  deriving DecidableEq, Repr

structure RhythmicLayoutPoint where
  gridPosition : GridPosition
  x : ℚ
  deriving DecidableEq, Repr

structure RhythmicLayoutMap where
  measureId : MeasureId
  staffId : StaffId
  voiceId : VoiceId
  measureDuration : Rational
  grid : RhythmicGridResolution
  xLeft : ℚ
  xRight : ℚ
  points : List RhythmicLayoutPoint

def rationalKey (value : Rational) : Throws String := do
  let normalized ← addRational value ⟨0, 1⟩
  return numberToString normalized.numerator ++ "/" ++ numberToString normalized.denominator

def setAnchor (anchorsByOffset : JsMap String RenderedRhythmicAnchor)
    (anchor : RenderedRhythmicAnchor) : Throws (JsMap String RenderedRhythmicAnchor) := do
  return anchorsByOffset.set (← rationalKey anchor.position.offset) anchor

def validateAnchor (anchor : RenderedRhythmicAnchor) (measureId : MeasureId)
    (measureDuration : Rational) : Throws Unit := do
  if anchor.position.measureId ≠ measureId then
    throw "Rhythmic layout anchors must belong to the layout measure."
  if (← compareRational anchor.position.offset ⟨0, 1⟩) < 0 ∨
      0 < (← compareRational anchor.position.offset measureDuration) then
    throw "Rhythmic layout anchors must be inside the measure."

def normalizeAnchors (measureId : MeasureId) (measureDuration : Rational) (xLeft xRight : ℚ)
    (anchors : List RenderedRhythmicAnchor) : Throws (List RenderedRhythmicAnchor) := do
  let anchorsByOffset ← setAnchor JsMap.empty ⟨⟨measureId, ⟨0, 1⟩⟩, xLeft⟩
  let anchorsByOffset ← setAnchor anchorsByOffset ⟨⟨measureId, measureDuration⟩, xRight⟩
  let anchorsByOffset ← anchors.foldlM (fun anchorsByOffset anchor => do
    validateAnchor anchor measureId measureDuration
    setAnchor anchorsByOffset anchor) anchorsByOffset
  sortM (fun left right => compareRational left.position.offset right.position.offset)
    anchorsByOffset.values

/-- The anchor at the offset, or the line between those before and after it. -/
def interpolateXForOffset (offset : Rational) (anchors : List RenderedRhythmicAnchor) :
    Throws ℚ := do
  let exactAnchor ← findM (fun anchor => do
    return (← compareRational anchor.position.offset offset) = 0) anchors
  match exactAnchor with
  | some exactAnchor => return exactAnchor.x
  | none =>
    let rightIndex ← findIndexM (fun anchor => do
      return 0 < (← compareRational anchor.position.offset offset)) anchors
    match rightIndex with
    | none | some 0 => throw "Cannot read properties of undefined (reading 'position')"
    | some (leftIndex + 1) =>
      match anchors[leftIndex]?, anchors[leftIndex + 1]? with
      | some left, some right =>
        let segmentDuration ← subtractRational right.position.offset left.position.offset
        let offsetWithinSegment ← subtractRational offset left.position.offset
        let ratio := offsetWithinSegment.toRat / segmentDuration.toRat
        return left.x + (right.x - left.x) * ratio
      | _, _ => throw "Cannot read properties of undefined (reading 'position')"

def createRhythmicLayoutMap (measureId : MeasureId) (staffId : StaffId) (voiceId : VoiceId)
    (measureDuration : Rational) (grid : RhythmicGridResolution) (xLeft xRight : ℚ)
    (anchors : List RenderedRhythmicAnchor) : Throws RhythmicLayoutMap := do
  assertPositiveRational measureDuration "Measure duration"
  if xRight ≤ xLeft then throw "Layout right x must be greater than left x."
  let anchors ← normalizeAnchors measureId measureDuration xLeft xRight anchors
  let positions ← enumerateGridPositions measureId measureDuration grid
  let points ← positions.mapM fun gridPosition => do
    return ⟨gridPosition, ← interpolateXForOffset gridPosition.position.offset anchors⟩
  return ⟨measureId, staffId, voiceId, measureDuration, grid, xLeft, xRight, points⟩

/-- The points of a layout map are positions of the grid, in the measure. -/
theorem createRhythmicLayoutMap_points {measureId : MeasureId} {staffId : StaffId}
    {voiceId : VoiceId} {measureDuration : Rational} {grid : RhythmicGridResolution}
    {xLeft xRight : ℚ} {anchors : List RenderedRhythmicAnchor} {layoutMap : RhythmicLayoutMap}
    (h : createRhythmicLayoutMap measureId staffId voiceId measureDuration grid xLeft xRight
      anchors = .ok layoutMap) :
    ∀ point ∈ layoutMap.points, point.gridPosition.In measureId measureDuration := by
  obtain ⟨⟨⟩, hpositive, h⟩ := bind_eq_ok.mp h
  have hm := assertPositiveRational_eq_ok.mp hpositive
  dsimp only at h
  split_ifs at h with hle
  · obtain ⟨_, hthrow, -⟩ := bind_eq_ok.mp h
    exact absurd hthrow throw_ne_ok
  · obtain ⟨_, -, h⟩ := bind_eq_ok.mp h
    obtain ⟨positions, hpositions, h⟩ := bind_eq_ok.mp h
    obtain ⟨points, hpoints, h⟩ := bind_eq_ok.mp h
    obtain rfl := pure_eq_ok.mp h
    obtain ⟨_, hsame, hin⟩ := enumerateGridPositions_ok measureId hm grid
    obtain rfl := Except.ok.inj (hsame.symm.trans hpositions)
    intro point hpoint
    obtain ⟨position, hposition, hx⟩ := mem_of_mapM hpoints point hpoint
    obtain ⟨x, -, hx⟩ := bind_eq_ok.mp hx
    obtain rfl := pure_eq_ok.mp hx
    exact hin position hposition

end NoteVerse.Editor

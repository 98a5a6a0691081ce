import NoteVerse.Editor.ImportedEvents

/-!
# The timeline gaps of imported measures

The importer makes only valid rationals, and on valid rationals
`deriveTimelineGaps` does not throw. The value of an offset or duration is the
number of ticks over the divisions (`toRat_durationTicksToQuarterRational`).
-/

namespace NoteVerse.Editor

open Js Xml Xml.Node

/-! ## Rational numbers -/

theorem ediv_gcd_pos {n d : Int} (hd : 0 < d) : 0 < d / (Int.gcd n d : Int) :=
  Int.ediv_pos_of_pos_of_dvd hd (Int.natCast_nonneg _) (Int.gcd_dvd_right _ _)

theorem gcd_pos {n d : Int} (hd : 0 < d) : 0 < Int.gcd n d :=
  Int.gcd_pos_of_ne_zero_right n (by omega)

theorem normalizeRational_ok {r : Rational} (hr : r.Valid) :
    ∃ r', normalizeRational r = .ok r' ∧ r'.Valid ∧ (0 < r.numerator → 0 < r'.numerator) := by
  have hd : 0 < r.denominator := hr
  have hassert : assertValidRational r = .ok () := by
    rw [assertValidRational, if_neg (by omega)]
    rfl
  by_cases hn : r.numerator = 0
  · exact ⟨⟨0, 1⟩, bind_eq_ok.mpr ⟨(), hassert, by rw [if_pos hn]; rfl⟩, by decide,
      fun h => absurd hn (by omega)⟩
  · refine ⟨⟨r.numerator / Int.gcd r.numerator r.denominator,
      r.denominator / Int.gcd r.numerator r.denominator⟩,
      bind_eq_ok.mpr ⟨(), hassert, by rw [if_neg hn]; rfl⟩, ediv_gcd_pos hd, fun h => ?_⟩
    exact Int.ediv_pos_of_pos_of_dvd h (Int.natCast_nonneg _) (Int.gcd_dvd_left _ _)

theorem assertValidRational_ok {r : Rational} (hr : r.Valid) :
    assertValidRational r = .ok () := by
  have hd : 0 < r.denominator := hr
  rw [assertValidRational, if_neg (by omega)]
  rfl

theorem compareRational_ok {left right : Rational} (hl : left.Valid) (hr : right.Valid) :
    compareRational left right =
      .ok (left.numerator * right.denominator - right.numerator * left.denominator) :=
  bind_eq_ok.mpr ⟨(), assertValidRational_ok hl, bind_eq_ok.mpr ⟨(), assertValidRational_ok hr,
    rfl⟩⟩

theorem addRational_ok {left right : Rational} (hl : left.Valid) (hr : right.Valid) :
    ∃ sum, addRational left right = .ok sum ∧ sum.Valid := by
  obtain ⟨sum, hsum, hvalid, -⟩ := normalizeRational_ok (r :=
    ⟨left.numerator * right.denominator + right.numerator * left.denominator,
      left.denominator * right.denominator⟩) (Int.mul_pos hl hr)
  exact ⟨sum, bind_eq_ok.mpr ⟨(), assertValidRational_ok hl, bind_eq_ok.mpr
    ⟨(), assertValidRational_ok hr, hsum⟩⟩, hvalid⟩

theorem subtractRational_ok {left right : Rational} (hl : left.Valid) (hr : right.Valid)
    (hlt : 0 < left.numerator * right.denominator - right.numerator * left.denominator) :
    ∃ difference, subtractRational left right = .ok difference ∧ difference.Valid ∧
      0 < difference.numerator := by
  obtain ⟨difference, hdiff, hvalid, hpos⟩ := normalizeRational_ok (r :=
    ⟨left.numerator * right.denominator - right.numerator * left.denominator,
      left.denominator * right.denominator⟩) (Int.mul_pos hl hr)
  exact ⟨difference, bind_eq_ok.mpr ⟨(), assertValidRational_ok hl, bind_eq_ok.mpr
    ⟨(), assertValidRational_ok hr, hdiff⟩⟩, hvalid, hpos hlt⟩

/-! ## Gaps -/

theorem gapUpTo_ok (context : TimelineContext) {cursor limit : Rational} (hc : cursor.Valid)
    (hl : limit.Valid) : ∃ gaps, gapUpTo context cursor limit = .ok gaps := by
  by_cases hlt : 0 < limit.numerator * cursor.denominator - cursor.numerator * limit.denominator
  · obtain ⟨duration, hd, hvalid, hpos⟩ := subtractRational_ok hl hc hlt
    have hzero : (⟨0, 1⟩ : Rational).Valid := by decide
    have hgap : ∀ start, createTimelineGap ⟨context.voiceId, context.staffId, start, duration⟩ =
        .ok ⟨context.voiceId, context.staffId, start, duration⟩ := fun start =>
      bind_eq_ok.mpr ⟨_, compareRational_ok hvalid hzero, by
        rw [if_neg (by simp only [Int.mul_one, Int.zero_mul]; omega)]; rfl⟩
    exact ⟨_, bind_eq_ok.mpr ⟨_, compareRational_ok hl hc, by
      rw [if_pos hlt]
      exact bind_eq_ok.mpr ⟨_, hd, bind_eq_ok.mpr ⟨_, hgap _, rfl⟩⟩⟩⟩
  · exact ⟨[], bind_eq_ok.mpr ⟨_, compareRational_ok hl hc, by rw [if_neg hlt]; rfl⟩⟩

/-- An event whose offset and duration `assertValidRational` accepts. -/
def VoiceEvent.Valid (event : VoiceEvent) : Prop :=
  event.position.offset.Valid ∧ event.rhythm.timelineDuration.Valid

theorem deriveGapsLoop_ok (context : TimelineContext) {measureDuration : Rational}
    (hm : measureDuration.Valid) {cursor : Rational} (hc : cursor.Valid) {events : List VoiceEvent}
    (he : ∀ event ∈ events, event.Valid) :
    ∃ gaps, deriveGapsLoop context measureDuration cursor events = .ok gaps := by
  induction events generalizing cursor with
  | nil => exact gapUpTo_ok context hc hm
  | cons event events ih =>
    have hevent := he event (by simp)
    obtain ⟨gap, hgap⟩ := gapUpTo_ok context hc hevent.1
    obtain ⟨eventEnd, hend, hendValid⟩ := addRational_ok hevent.1 hevent.2
    have hnext : (if 0 < eventEnd.numerator * cursor.denominator -
        cursor.numerator * eventEnd.denominator then eventEnd else cursor).Valid := by
      split_ifs
      · exact hendValid
      · exact hc
    obtain ⟨rest, hrest⟩ := ih hnext fun e h => he e (List.mem_cons_of_mem _ h)
    refine ⟨gap ++ rest, bind_eq_ok.mpr ⟨gap, hgap, ?_⟩⟩
    refine bind_eq_ok.mpr ⟨⟨event.position.measureId, eventEnd⟩,
      bind_eq_ok.mpr ⟨eventEnd, hend, rfl⟩, ?_⟩
    exact bind_eq_ok.mpr ⟨_, compareRational_ok hendValid hc, bind_eq_ok.mpr ⟨rest, hrest, rfl⟩⟩

theorem deriveTimelineGaps_ok {events : List VoiceEvent} (he : ∀ event ∈ events, event.Valid)
    (context : TimelineContext) {measureDuration : Rational} (hm : measureDuration.Valid) :
    ∃ gaps, deriveTimelineGaps events context measureDuration = .ok gaps := by
  have hcompare : ∀ a ∈ events.filter fun event => event.position.measureId = context.measureId ∧
        event.staffId = context.staffId ∧ event.voiceId = context.voiceId,
      ∀ b ∈ events.filter fun event => event.position.measureId = context.measureId ∧
        event.staffId = context.staffId ∧ event.voiceId = context.voiceId,
      ∃ c, compareRational a.position.offset b.position.offset = .ok c := fun a ha b hb =>
    ⟨_, compareRational_ok (he a (List.mem_filter.mp ha).1).1 (he b (List.mem_filter.mp hb).1).1⟩
  obtain ⟨sorted, hsorted⟩ := sortM_ok hcompare
  have hvalid : ∀ event ∈ sorted, event.Valid := fun event h =>
    he event (List.mem_filter.mp ((sortM_perm hsorted).mem_iff.mp h)).1
  have hzero : (⟨0, 1⟩ : Rational).Valid := by decide
  obtain ⟨gaps, hgaps⟩ := deriveGapsLoop_ok context hm hzero hvalid
  exact ⟨gaps, bind_eq_ok.mpr ⟨sorted, hsorted, hgaps⟩⟩

namespace MusicXmlImporter

/-! ## Rationals that the importer makes -/

theorem getPositiveInt_pos {value : Option String} {fallback : Int} (h : 0 < fallback) :
    0 < getPositiveInt value fallback := by
  rw [getPositiveInt]
  split
  · split_ifs with hpos
    · exact hpos
    · exact h
  · exact h

theorem getMeasureDivisions_pos (measureElement : Node) :
    0 < getMeasureDivisions measureElement := getPositiveInt_pos (by decide)

theorem greatestCommonDivisor_eq {left right : Int} (h : 0 < right) :
    greatestCommonDivisor left right = Int.gcd left right := by
  rw [greatestCommonDivisor, if_neg (gcd_pos h).ne']

theorem normalizeRational_valid {value : Rational} (hv : value.Valid) (fallback : Int) :
    (normalizeRational value fallback).Valid := by
  have hd : 0 < value.denominator := hv
  simp only [normalizeRational, if_pos hd]
  split_ifs
  · decide
  · show 0 < value.denominator / _
    rw [greatestCommonDivisor_eq hd]
    exact ediv_gcd_pos hd

theorem toRat_normalizeRational {value : Rational} (hv : value.Valid) (fallback : Int) :
    (normalizeRational value fallback).toRat = value.toRat := by
  have hd : 0 < value.denominator := hv
  simp only [normalizeRational, if_pos hd]
  split_ifs with hn
  · simp [Rational.toRat, hn]
  · rw [greatestCommonDivisor_eq hd]
    have hg := gcd_pos (n := (value.numerator.natAbs : Int)) hd
    have hgne : ((Int.gcd value.numerator.natAbs value.denominator : Int) : ℚ) ≠ 0 := by
      exact_mod_cast hg.ne'
    have hleft : (Int.gcd value.numerator.natAbs value.denominator : Int) ∣ value.numerator :=
      Int.dvd_natAbs.mp (Int.gcd_dvd_left _ _)
    have hright : (Int.gcd value.numerator.natAbs value.denominator : Int) ∣ value.denominator :=
      Int.gcd_dvd_right _ _
    rw [Rational.toRat, Rational.toRat, Int.cast_div hleft hgne, Int.cast_div hright hgne,
      div_div_div_cancel_right₀ hgne]

theorem durationTicksToQuarterRational_valid (durationTicks : Int) {divisions : Int}
    (h : 0 < divisions) : (durationTicksToQuarterRational durationTicks divisions).Valid :=
  have hv : (⟨durationTicks, divisions⟩ : Rational).Valid := h
  normalizeRational_valid hv 1

theorem toRat_durationTicksToQuarterRational (durationTicks : Int) {divisions : Int}
    (h : 0 < divisions) :
    (durationTicksToQuarterRational durationTicks divisions).toRat = durationTicks / divisions :=
  have hv : (⟨durationTicks, divisions⟩ : Rational).Valid := h
  toRat_normalizeRational hv 1

theorem getMeasureDuration_valid (measureElement : Node) (divisions : Int) :
    (getMeasureDuration measureElement divisions).Valid := by
  rw [getMeasureDuration]
  refine normalizeRational_valid ?_ divisions
  exact getPositiveInt_pos (by decide)

/-- A frame whose offset and duration `assertValidRational` accepts. -/
def ValidFrame (frame : EventFrame) : Prop :=
  frame.position.offset.Valid ∧ frame.rhythm.timelineDuration.Valid

theorem readNode_valid {context : MeasureContext} (h : 0 < context.divisions) (cursorTicks : Int)
    (node : Node) : ∀ frame ∈ (readNode context cursorTicks node).2, ValidFrame frame := by
  have hread : ∀ kind, ValidFrame (readFrame context cursorTicks kind node) := fun kind =>
    ⟨durationTicksToQuarterRational_valid _ h, durationTicksToQuarterRational_valid _ h⟩
  intro frame hf
  rw [readNode] at hf
  split_ifs at hf
  · exact absurd hf (by simp)
  · exact absurd hf (by simp)
  · exact absurd hf (by simp)
  · exact List.mem_singleton.mp hf ▸ hread _
  · exact absurd hf (by simp)
  · exact List.mem_singleton.mp hf ▸ hread _
  · exact absurd hf (by simp)

theorem readNodes_valid {context : MeasureContext} (h : 0 < context.divisions) (cursorTicks : Int)
    (nodes : List Node) : ∀ frame ∈ (readNodes context cursorTicks nodes).2, ValidFrame frame := by
  induction nodes generalizing cursorTicks with
  | nil => simp [readNodes]
  | cons node nodes ih =>
    intro frame hf
    rcases List.mem_append.mp hf with hf | hf
    · exact readNode_valid h cursorTicks node frame hf
    · exact ih _ frame hf

end MusicXmlImporter

end NoteVerse.Editor

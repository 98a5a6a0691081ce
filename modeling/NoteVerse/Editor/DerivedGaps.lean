import NoteVerse.Editor.ImportedGaps
import NoteVerse.Lib.Sweep

/-!
# What the timeline gaps are

`deriveTimelineGaps` is a sweep over the events in the order of their offsets
(`deriveTimelineGaps_eq`). It does not look for the end of the measure before the last
event, and an event of no length ends a gap.
-/

namespace NoteVerse.Editor

open Js

/-! ## Values -/

theorem toRat_normalizeRational {n d : Int} {r : Rational} (hd : 0 < d)
    (h : normalizeRational ⟨n, d⟩ = .ok r) : r.toRat = n / d := by
  obtain ⟨_, -, h⟩ := bind_eq_ok.mp h
  split_ifs at h with hn
  · obtain rfl := Except.ok.inj h
    rw [Rational.toRat, show n = 0 from hn]
    simp
  · obtain rfl := Except.ok.inj h
    have hgne : ((Int.gcd n d : Int) : ℚ) ≠ 0 := by
      exact_mod_cast (gcd_pos hd).ne'
    rw [Rational.toRat, Int.cast_div (Int.gcd_dvd_left _ _) hgne,
      Int.cast_div (Int.gcd_dvd_right _ _) hgne, div_div_div_cancel_right₀ hgne]

theorem toRat_denominator_pos {r : Rational} (hr : r.Valid) : (0 : ℚ) < r.denominator := by
  have hd : 0 < r.denominator := hr
  exact_mod_cast hd

variable {left right : Rational} {events : List VoiceEvent}

theorem compareRational_pos_iff (hl : left.Valid) (hr : right.Valid) :
    0 < left.numerator * right.denominator - right.numerator * left.denominator ↔
      right.toRat < left.toRat := by
  unfold Rational.toRat
  rw [div_lt_div_iff₀ (toRat_denominator_pos hr) (toRat_denominator_pos hl), sub_pos]
  exact_mod_cast Iff.rfl

theorem compareRational_nonpos_iff (hl : left.Valid) (hr : right.Valid) :
    left.numerator * right.denominator - right.numerator * left.denominator ≤ 0 ↔
      left.toRat ≤ right.toRat := by
  rw [← not_lt, compareRational_pos_iff hl hr, not_lt]

theorem toRat_addRational {sum : Rational} (hl : left.Valid) (hr : right.Valid)
    (h : addRational left right = .ok sum) : sum.toRat = left.toRat + right.toRat := by
  have hlne := (toRat_denominator_pos hl).ne'
  have hrne := (toRat_denominator_pos hr).ne'
  obtain ⟨_, -, h⟩ := bind_eq_ok.mp h
  obtain ⟨_, -, h⟩ := bind_eq_ok.mp h
  rw [toRat_normalizeRational (Int.mul_pos hl hr) h]
  unfold Rational.toRat
  push_cast
  field_simp

theorem toRat_subtractRational {difference : Rational} (hl : left.Valid) (hr : right.Valid)
    (h : subtractRational left right = .ok difference) :
    difference.toRat = left.toRat - right.toRat := by
  have hlne := (toRat_denominator_pos hl).ne'
  have hrne := (toRat_denominator_pos hr).ne'
  obtain ⟨_, -, h⟩ := bind_eq_ok.mp h
  obtain ⟨_, -, h⟩ := bind_eq_ok.mp h
  rw [toRat_normalizeRational (Int.mul_pos hl hr) h]
  unfold Rational.toRat
  push_cast
  field_simp

/-! ## The sweep -/

/-- The time that an event takes, half open. -/
def VoiceEvent.interval (event : VoiceEvent) : ℚ × ℚ :=
  (event.position.offset.toRat,
    event.position.offset.toRat + event.rhythm.timelineDuration.toRat)

/-- The time that a gap takes, half open. -/
def TimelineGap.interval (gap : TimelineGap) : ℚ × ℚ :=
  (gap.start.offset.toRat, gap.start.offset.toRat + gap.duration.toRat)

/-- The gap is one of the staff, the voice and the measure. -/
def TimelineGap.In (gap : TimelineGap) (context : TimelineContext) : Prop :=
  gap.voiceId = context.voiceId ∧ gap.staffId = context.staffId ∧
    gap.start.measureId = context.measureId

theorem gapUpTo_eq (context : TimelineContext) {cursor limit : Rational} (hc : cursor.Valid)
    (hl : limit.Valid) {gaps : List TimelineGap} (h : gapUpTo context cursor limit = .ok gaps) :
    gaps.map TimelineGap.interval =
        (if cursor.toRat < limit.toRat then [(cursor.toRat, limit.toRat)] else []) ∧
      ∀ gap ∈ gaps, gap.In context := by
  obtain ⟨compared, hcompare, h⟩ := bind_eq_ok.mp h
  rw [compareRational_ok hl hc] at hcompare
  obtain rfl := Except.ok.inj hcompare
  by_cases hlt : cursor.toRat < limit.toRat
  · rw [if_pos ((compareRational_pos_iff hl hc).mpr hlt)] at h
    obtain ⟨duration, hduration, h⟩ := bind_eq_ok.mp h
    obtain ⟨gap, hgap, h⟩ := bind_eq_ok.mp h
    obtain ⟨_, -, hgap⟩ := bind_eq_ok.mp hgap
    split_ifs at hgap
    obtain rfl := Except.ok.inj hgap
    obtain rfl := Except.ok.inj h
    refine ⟨?_, fun gap hmem => ?_⟩
    · rw [if_pos hlt, List.map_singleton, TimelineGap.interval,
        toRat_subtractRational hl hc hduration, add_sub_cancel]
    · rw [List.mem_singleton.mp hmem]
      exact ⟨rfl, rfl, rfl⟩
  · rw [if_neg fun hpos => hlt ((compareRational_pos_iff hl hc).mp hpos)] at h
    obtain rfl := Except.ok.inj h
    exact ⟨(if_neg hlt).symm, fun _ hmem => absurd hmem List.not_mem_nil⟩

/-- The loop is the sweep. -/
theorem deriveGapsLoop_eq (context : TimelineContext) {measureDuration : Rational}
    (hm : measureDuration.Valid) {cursor : Rational} (hc : cursor.Valid)
    (he : ∀ event ∈ events, event.Valid) {gaps : List TimelineGap}
    (h : deriveGapsLoop context measureDuration cursor events = .ok gaps) :
    gaps.map TimelineGap.interval =
        Sweep.gaps measureDuration.toRat cursor.toRat (events.map VoiceEvent.interval) ∧
      ∀ gap ∈ gaps, gap.In context := by
  induction events generalizing cursor gaps with
  | nil => exact gapUpTo_eq context hc hm h
  | cons event events ih =>
    obtain ⟨hoffset, hduration⟩ := he event List.mem_cons_self
    obtain ⟨first, hfirst, h⟩ := bind_eq_ok.mp h
    obtain ⟨position, hposition, h⟩ := bind_eq_ok.mp h
    obtain ⟨eventEnd, hend, hposition⟩ := bind_eq_ok.mp hposition
    obtain rfl := Except.ok.inj hposition
    obtain ⟨compared, hcompare, h⟩ := bind_eq_ok.mp h
    obtain ⟨rest, hrest, h⟩ := bind_eq_ok.mp h
    obtain rfl := Except.ok.inj h
    obtain ⟨sum, hsum, hendValid⟩ := addRational_ok hoffset hduration
    obtain rfl := Except.ok.inj (hsum.symm.trans hend)
    rw [compareRational_ok hendValid hc] at hcompare
    obtain rfl := Except.ok.inj hcompare
    have hvalue := toRat_addRational hoffset hduration hend
    have hnext : ∀ next : Rational, next = (if 0 < sum.numerator * cursor.denominator -
        cursor.numerator * sum.denominator then sum else cursor) →
        next.Valid ∧ next.toRat = max cursor.toRat event.interval.2 := by
      rintro next rfl
      rw [show event.interval.2 = sum.toRat from hvalue.symm]
      by_cases hlt : cursor.toRat < sum.toRat
      · rw [if_pos ((compareRational_pos_iff hendValid hc).mpr hlt), max_eq_right hlt.le]
        exact ⟨hendValid, rfl⟩
      · rw [if_neg fun hpos => hlt ((compareRational_pos_iff hendValid hc).mp hpos),
          max_eq_left (not_lt.mp hlt)]
        exact ⟨hc, rfl⟩
    obtain ⟨hnextValid, hnextValue⟩ := hnext _ rfl
    obtain ⟨hfirstEq, hfirstIn⟩ := gapUpTo_eq context hc hoffset hfirst
    obtain ⟨hrestEq, hrestIn⟩ := ih hnextValid
      (fun other hother => he other (List.mem_cons_of_mem _ hother)) hrest
    refine ⟨?_, fun gap hgap => ?_⟩
    · rw [List.map_append, hfirstEq, hrestEq, hnextValue, List.map_cons, Sweep.gaps]
      rfl
    · exact (List.mem_append.mp hgap).elim (hfirstIn gap) (hrestIn gap)

/-! ## The order of the events -/

/-- The events of the measure, the staff and the voice. -/
def matchingEvents (events : List VoiceEvent) (context : TimelineContext) : List VoiceEvent :=
  events.filter fun event => event.position.measureId = context.measureId ∧
    event.staffId = context.staffId ∧ event.voiceId = context.voiceId

/-- Events in the order of their offsets; those at one offset stay as they are. -/
def inOrder (events : List VoiceEvent) : List VoiceEvent :=
  events.insertionSort fun left right => left.interval.1 ≤ right.interval.1

theorem insertM_compareRational {event : VoiceEvent} (h : event.Valid)
    (he : ∀ event ∈ events, event.Valid) :
    insertM (fun left right => compareRational left.position.offset right.position.offset) event
        events =
      .ok (events.orderedInsert (fun left right => left.interval.1 ≤ right.interval.1) event) := by
  induction events with
  | nil => rfl
  | cons other events ih =>
    have hother := he other List.mem_cons_self
    rw [insertM, compareRational_ok h.1 hother.1, List.orderedInsert]
    by_cases hle : event.interval.1 ≤ other.interval.1
    · rw [if_pos hle]
      exact if_pos ((compareRational_nonpos_iff h.1 hother.1).mpr hle)
    · rw [if_neg hle]
      refine (if_neg fun hneg => hle ((compareRational_nonpos_iff h.1 hother.1).mp hneg)).trans ?_
      rw [ih fun event hmem => he event (List.mem_cons_of_mem _ hmem)]
      rfl

theorem sortM_compareRational (he : ∀ event ∈ events, event.Valid) :
    sortM (fun left right => compareRational left.position.offset right.position.offset) events =
      .ok (inOrder events) := by
  induction events with
  | nil => rfl
  | cons event events ih =>
    have hrest : ∀ event ∈ events, event.Valid := fun other hmem =>
      he other (List.mem_cons_of_mem _ hmem)
    rw [sortM, ih hrest]
    exact insertM_compareRational (he event List.mem_cons_self) fun other hmem =>
      hrest other (List.mem_insertionSort _ |>.mp hmem)

/-- `deriveTimelineGaps` is the sweep over the matching events in order. -/
theorem deriveTimelineGaps_eq {context : TimelineContext} {measureDuration : Rational}
    (hm : measureDuration.Valid) (he : ∀ event ∈ matchingEvents events context, event.Valid) :
    ∃ gaps, deriveTimelineGaps events context measureDuration = .ok gaps ∧
      gaps.map TimelineGap.interval = Sweep.gaps measureDuration.toRat 0
        ((inOrder (matchingEvents events context)).map VoiceEvent.interval) ∧
      ∀ gap ∈ gaps, gap.In context := by
  have hzero : (⟨0, 1⟩ : Rational).Valid := by decide
  have hsorted : ∀ event ∈ inOrder (matchingEvents events context), event.Valid :=
    fun event hmem => he event (List.mem_insertionSort _ |>.mp hmem)
  obtain ⟨gaps, hgaps⟩ := deriveGapsLoop_ok context hm hzero hsorted
  obtain ⟨heq, hin⟩ := deriveGapsLoop_eq context hm hzero hsorted hgaps
  refine ⟨gaps, bind_eq_ok.mpr ⟨_, sortM_compareRational he, hgaps⟩, ?_, hin⟩
  rw [heq, show (⟨0, 1⟩ : Rational).toRat = 0 by simp [Rational.toRat]]

/-! ## The gaps are components -/

/-- The gaps of `deriveTimelineGaps` are the components of the time in the measure that
no event takes exactly if each event that starts after the start of the measure and that
no event before it reaches starts in the measure, has no negative length, and does not
split a gap. -/
theorem deriveTimelineGaps_components_iff (events : List VoiceEvent) (context : TimelineContext)
    (measureDuration : Rational) (hm : measureDuration.Valid)
    (he : ∀ event ∈ matchingEvents events context, event.Valid) :
    ∃ gaps, deriveTimelineGaps events context measureDuration = .ok gaps ∧
      (∀ gap ∈ gaps, gap.In context) ∧
      (Sweep.Components 0 measureDuration.toRat
          ((matchingEvents events context).map VoiceEvent.interval)
          (gaps.map TimelineGap.interval) ↔
        Sweep.Regular measureDuration.toRat 0
          ((inOrder (matchingEvents events context)).map VoiceEvent.interval)) := by
  obtain ⟨gaps, hgaps, heq, hin⟩ := deriveTimelineGaps_eq hm he
  refine ⟨gaps, hgaps, hin, ?_⟩
  have hperm : ((inOrder (matchingEvents events context)).map VoiceEvent.interval).Perm
      ((matchingEvents events context).map VoiceEvent.interval) :=
    (List.perm_insertionSort _ _).map _
  have hsorted : ((inOrder (matchingEvents events context)).map VoiceEvent.interval).Pairwise
      (·.1 ≤ ·.1) :=
    List.pairwise_map.mpr (List.pairwise_insertionSort _ _)
  rw [heq, ← Sweep.components_congr hperm]
  exact Sweep.components_iff hsorted

/-- A quarter note that starts after the bar line of a measure of four quarters. -/
def eventAfterBarLine : VoiceEvent := .explicitRest {
  id := "event"
  voiceId := "voice"
  staffId := "staff"
  position := ⟨"measure", ⟨5, 1⟩⟩
  rhythm := ⟨⟨1, 1⟩, ⟨.quarter, 0⟩, none⟩
  source := none }

/-- The gap before an event that starts after the bar line goes past the bar line. -/
theorem gaps_pass_barLine :
    deriveTimelineGaps [eventAfterBarLine] ⟨"measure", "staff", "voice"⟩ ⟨4, 1⟩ =
        .ok [⟨"voice", "staff", ⟨"measure", ⟨0, 1⟩⟩, ⟨5, 1⟩⟩] ∧
      ¬Sweep.Components 0 (Rational.toRat ⟨4, 1⟩) [eventAfterBarLine.interval]
        [TimelineGap.interval ⟨"voice", "staff", ⟨"measure", ⟨0, 1⟩⟩, ⟨5, 1⟩⟩] := by
  refine ⟨by decide, fun h => ?_⟩
  obtain ⟨-, hend⟩ := h.contained _ (List.mem_singleton_self _)
  exact absurd hend (by decide +kernel)

theorem deriveTimelineGaps_components_iff_barLine :
    ∃ gaps, deriveTimelineGaps [eventAfterBarLine] ⟨"measure", "staff", "voice"⟩ ⟨6, 1⟩ =
        .ok gaps ∧ (∀ gap ∈ gaps, gap.In ⟨"measure", "staff", "voice"⟩) := by
  obtain ⟨gaps, hgaps, hin, -⟩ := deriveTimelineGaps_components_iff [eventAfterBarLine]
    ⟨"measure", "staff", "voice"⟩ ⟨6, 1⟩ (by decide) fun event hmem => by
      rw [List.mem_singleton.mp (List.mem_filter.mp hmem).1]
      exact ⟨by decide, by decide⟩
  exact ⟨gaps, hgaps, hin⟩

end NoteVerse.Editor

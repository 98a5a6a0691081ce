import NoteVerse.Lib.Python
import NoteVerse.Practice.BrowserEvaluator
import NoteVerse.Practice.ServerEvaluator

/-!
# Server and browser judge alike

The outcomes of both evaluators have the verdicts that `verdicts` gives for what was
heard, which is a multiset: so they agree, and the order of the observations does not
matter.

* `verdict_lists`: the verdict from the lists that an evaluator makes;
* `outcomeForEvent_verdict`: one event, on either side;
* `get_assignments`: the observations of one event, on either side.
-/

namespace NoteVerse.Practice

open Js

/-! ## What was heard -/

namespace Heard

section

variable {α : Type} (time : α → ℚ)

/-- The gesture is found from the earliest one. -/
theorem within_first_iff {xs : List α} {first : α} {rest : List α} (window : ℚ)
    (h : xs.insertionSort (time · ≤ time ·) = first :: rest) (x : α) :
    time x - time first ≤ window ↔ ∀ y ∈ xs, time x - time y ≤ window := by
  have hperm : (first :: rest).Perm xs := h ▸ List.perm_insertionSort _ xs
  have htotal : Std.Total (fun x y : α => time x ≤ time y) := ⟨fun x y => le_total _ _⟩
  have htrans : IsTrans α (fun x y : α => time x ≤ time y) := ⟨fun x y z => le_trans⟩
  have hsorted : (first :: rest).Pairwise (time · ≤ time ·) :=
    h ▸ List.pairwise_insertionSort (time · ≤ time ·) xs
  have hfirst : ∀ y ∈ xs, time first ≤ time y := by
    intro y hy
    rcases List.mem_cons.mp (hperm.mem_iff.mpr hy) with rfl | hy
    · exact le_rfl
    · exact List.rel_of_pairwise_cons hsorted hy
  refine ⟨fun hx y hy => ?_, fun hx => hx first (hperm.mem_iff.mp List.mem_cons_self)⟩
  have hle := hfirst y hy
  linarith

end

variable {window : ℚ}

theorem coe_pitchesOf (notes : List Heard) :
    pitchesOf notes = (notes.flatMap (·.pitches) : List String) :=
  Multiset.coe_bind _ _

/-- What the split of the sorted notes gives, in whatever order. -/
theorem split_eq {α : Type} (heard : α → Heard) {xs : List α} {first : α} {rest : List α}
    (h : xs.insertionSort (fun x y => (heard x).timeMs ≤ (heard y).timeMs) = first :: rest)
    {early others : List α}
    (hsplit : (first :: rest).partition
      (fun x => (heard x).timeMs - (heard first).timeMs ≤ window) = (early, others)) :
    (early.flatMap fun x => (heard x).pitches : List String) = gesture window (xs.map heard) ∧
      (others.flatMap fun x => (heard x).pitches : List String) = late window (xs.map heard) := by
  have hperm : (first :: rest).Perm xs := h ▸ List.perm_insertionSort _ xs
  have hiff : ∀ x, (heard x).timeMs - (heard first).timeMs ≤ window ↔
      InGesture window (xs.map heard) (heard x) := by
    intro x
    rw [within_first_iff (fun x => (heard x).timeMs) window h x]
    show _ ↔ ∀ note ∈ xs.map heard, (heard x).timeMs - note.timeMs ≤ window
    rw [List.forall_mem_map]
  have hpitches : ∀ (p : α → Bool) (q : Heard → Prop) [DecidablePred q],
      (∀ x, p x = true ↔ q (heard x)) →
      (((first :: rest).filter p).flatMap fun x => (heard x).pitches : List String) =
        pitchesOf ((xs.map heard : Multiset Heard).filter q) := by
    intro p q _ hpq
    have hfilter : (xs.map heard).filter (fun note => q note) = (xs.filter p).map heard := by
      rw [List.filter_map]
      congr 1
      refine List.filter_congr fun x _ => ?_
      rw [Function.comp_apply, Bool.eq_iff_iff, decide_eq_true_eq, hpq]
    rw [Multiset.filter_coe, hfilter, coe_pitchesOf, List.flatMap_map]
    exact Quotient.sound ((hperm.filter p).flatMap_right _)
  rw [List.partition_eq_filter_filter] at hsplit
  cases hsplit
  refine ⟨hpitches _ (InGesture window _) fun x => ?_, hpitches _ (¬InGesture window _ ·) fun x => ?_⟩
  · rw [decide_eq_true_eq, hiff x]
  · rw [Function.comp_apply, Bool.not_eq_true', decide_eq_false_iff_not, hiff x]

end Heard

/-! ## The loops over pitches -/

namespace ServerEvaluator

variable {expected matched : List String}

theorem count_unexpectedFrom (seen pitches : List String) (pitch : String) :
    (unexpectedFrom expected seen pitches).count pitch =
      pitches.count pitch - if pitch ∈ expected ∧ pitch ∉ seen then 1 else 0 := by
  induction pitches generalizing seen with
  | nil => simp [unexpectedFrom]
  | cons head pitches ih =>
    unfold unexpectedFrom
    split
    · rename_i hexpected
      rw [List.count_cons, List.count_cons, ih]
      by_cases heq : head = pitch
      · simp [← heq, hexpected]
      · simp [heq]
    · rename_i hexpected
      split
      · rename_i hseen
        rw [List.count_cons, List.count_cons, ih]
        by_cases heq : head = pitch
        · simp [← heq, hseen]
        · simp [heq]
      · rename_i hseen
        rw [List.count_cons, ih]
        by_cases heq : head = pitch
        · simp [← heq, not_not.mp hexpected, hseen]
        · simp [heq, Ne.symm heq]

/-- One of each expected pitch is taken away. -/
theorem coe_unexpectedFrom (pitches : List String) :
    (unexpectedFrom expected [] pitches : Multiset String) =
      (pitches : Multiset String) - expected.toFinset.val := by
  ext pitch
  rw [Multiset.coe_count, count_unexpectedFrom, Multiset.count_sub, Multiset.coe_count,
    List.toFinset_val, Multiset.coe_count, List.count_dedup]
  simp

theorem classify_append (event : ExpectedPerformanceEvent) (pitches matched : List String)
    (pitch : String) : classifyNonGesturePitches event (pitches ++ [pitch]) matched =
      let classification := classifyNonGesturePitches event pitches matched
      if pitch ∉ event.expectedGroup.expectedPitches then
        { classification with unexpectedPitches := classification.unexpectedPitches ++ [pitch] }
      else if pitch ∈ matched then
        { classification with unexpectedPitches := classification.unexpectedPitches ++ [pitch] }
      else if pitch ∉ classification.unconfirmedExpectedPitches then
        { classification with
          unconfirmedExpectedPitches := classification.unconfirmedExpectedPitches ++ [pitch] }
      else classification := by
  unfold classifyNonGesturePitches
  rw [List.foldl_append]
  rfl

theorem classify_eq (event : ExpectedPerformanceEvent) (pitches matched : List String) :
    (classifyNonGesturePitches event pitches matched).unexpectedPitches =
        pitches.filter (fun pitch =>
          pitch ∉ event.expectedGroup.expectedPitches ∨ pitch ∈ matched) ∧
      ∀ pitch, pitch ∈ (classifyNonGesturePitches event pitches matched).unconfirmedExpectedPitches ↔
        pitch ∈ pitches ∧ pitch ∈ event.expectedGroup.expectedPitches ∧ pitch ∉ matched := by
  induction pitches using List.reverseRecOn with
  | nil => simp [classifyNonGesturePitches]
  | append_singleton pitches last ih =>
    rw [classify_append, List.filter_append]
    generalize classifyNonGesturePitches event pitches matched = classification at ih ⊢
    obtain ⟨hunexpected, hunconfirmed⟩ := ih
    dsimp only
    split_ifs with hexpected hmatched hknown
    · rw [List.filter_cons_of_pos (by simp [hmatched]), List.filter_nil]
      exact ⟨congrArg (· ++ [last]) hunexpected, fun pitch => by
        rw [hunconfirmed, List.mem_append, List.mem_singleton]
        grind⟩
    · rw [List.filter_cons_of_neg (by simp [hexpected, hmatched]), List.filter_nil,
        List.append_nil]
      exact ⟨hunexpected, fun pitch => by
        rw [hunconfirmed, List.mem_append, List.mem_singleton]
        rw [hunconfirmed] at hknown
        grind⟩
    · rw [List.filter_cons_of_neg (by simp [hexpected, hmatched]), List.filter_nil,
        List.append_nil]
      exact ⟨hunexpected, fun pitch => by
        rw [List.mem_append, hunconfirmed, List.mem_append, List.mem_singleton]
        grind⟩
    · rw [List.filter_cons_of_pos (by simp [hexpected]), List.filter_nil]
      exact ⟨congrArg (· ++ [last]) hunexpected, fun pitch => by
        rw [hunconfirmed, List.mem_append, List.mem_singleton]
        grind⟩

end ServerEvaluator

namespace BrowserEvaluator

theorem unexpectedFrom_eq (expected seen pitches : List String) :
    unexpectedFrom expected seen pitches = ServerEvaluator.unexpectedFrom expected seen pitches := by
  induction pitches generalizing seen with
  | nil => rfl
  | cons pitch pitches ih =>
    unfold unexpectedFrom ServerEvaluator.unexpectedFrom
    rw [ih, ih]

theorem classify_eq (event : ExpectedPerformanceEvent) (pitches matched : List String) :
    classifyNonGesturePitches event.expectedGroup pitches matched =
      ((ServerEvaluator.classifyNonGesturePitches event pitches matched).unconfirmedExpectedPitches,
        (ServerEvaluator.classifyNonGesturePitches event pitches matched).unexpectedPitches) := by
  induction pitches using List.reverseRecOn with
  | nil => rfl
  | append_singleton pitches last ih =>
    unfold classifyNonGesturePitches ServerEvaluator.classifyNonGesturePitches at ih ⊢
    rw [List.foldl_append, List.foldl_append, ih]
    simp only [List.foldl_cons, List.foldl_nil]
    by_cases hexpected : last ∉ event.expectedGroup.expectedPitches
    · rw [if_pos (.inl hexpected), if_pos hexpected]
    · rw [if_neg hexpected]
      by_cases hmatched : last ∈ matched
      · rw [if_pos (.inr hmatched), if_pos hmatched]
      · rw [if_neg (not_or.mpr ⟨hexpected, hmatched⟩), if_neg hmatched]
        split_ifs <;> rfl

end BrowserEvaluator

/-! ## One event -/

variable {window : ℚ} {events : List ExpectedPerformanceEvent}

/-- The verdict, from the pitches of the gesture and of the later notes as lists. -/
theorem EvaluatedGroup.verdict_lists {group : EvaluatedGroup} {heard : Multiset Heard}
    {early others unconfirmed : List String} (hne : heard ≠ 0)
    (hearly : (early : Multiset String) = Heard.gesture window heard)
    (hothers : (others : Multiset String) = Heard.late window heard)
    (hunconfirmed : ∀ pitch, pitch ∈ unconfirmed ↔
      pitch ∈ others ∧ pitch ∈ group.expectedPitches ∧ pitch ∉ early)
    {strikes : List PerformanceExpectedStrikeOutcome} {unexpected : List String}
    (hstrikes : strikes = group.strikeTargets.map fun strike => strike.outcome <|
      if strike.pitch ∈ early then .matched
      else if strike.pitch ∈ unconfirmed then .unconfirmed
      else .missing)
    (hunexpected : unexpected = ServerEvaluator.unexpectedFrom group.expectedPitches [] early ++
      others.filter fun pitch => pitch ∉ group.expectedPitches ∨ pitch ∈ early) :
    group.verdict window heard = ⟨group.groupId,
      if strikes.all (·.result = .matched) ∧ unexpected = [] then .match
      else if strikes.any (·.result = .matched) ∧ unexpected = [] then .partialMatch
      else .mismatch, strikes, unexpected⟩ := by
  have hgesture : ∀ pitch, pitch ∈ Heard.gesture window heard ↔ pitch ∈ early := by
    intro pitch
    rw [← hearly, Multiset.mem_coe]
  have hresult : group.strikeTargets.map (fun strike =>
      strike.outcome (Heard.strikeResult window heard strike.pitch)) = strikes := by
    rw [hstrikes]
    refine List.map_congr_left fun strike hstrike => ?_
    have hexpected : strike.pitch ∈ group.expectedPitches := List.mem_map_of_mem hstrike
    unfold Heard.strikeResult
    rw [← hothers]
    simp only [hgesture, hunconfirmed, Multiset.mem_coe]
    grind
  have hcoe : Heard.unexpected group.expectedPitches window heard = unexpected := by
    rw [hunexpected, ← Multiset.coe_add, ServerEvaluator.coe_unexpectedFrom, hearly]
    unfold Heard.unexpected
    rw [← hothers, Multiset.filter_coe]
    simp only [hgesture]
  unfold EvaluatedGroup.verdict
  rw [if_neg hne]
  dsimp only
  rw [hresult, hcoe]
  congr 1
  unfold Heard.resultOf
  simp only [List.all_eq_true, List.any_eq_true, decide_eq_true_eq, Multiset.coe_eq_zero]

theorem Heard.insertionSort_eq_nil {α : Type} {r : α → α → Prop} [DecidableRel r] {xs : List α}
    (h : xs.insertionSort r = []) : xs = [] :=
  (List.Perm.nil_eq (h ▸ List.perm_insertionSort r xs)).symm

namespace BrowserEvaluator

/-- What an observation heard. -/
def heard (observation : PerformanceEvaluationObservation) : Heard :=
  ⟨observation.performanceTimeMs, observation.pitches⟩

theorem split_eq {observations early others : List PerformanceEvaluationObservation} {window : ℚ}
    (h : splitChordGestureObservations observations window = (early, others)) :
    (early.flatMap (·.pitches) : List String) = Heard.gesture window (observations.map heard) ∧
      (others.flatMap (·.pitches) : List String) = Heard.late window (observations.map heard) := by
  unfold splitChordGestureObservations at h
  split at h
  · rename_i hsort
    cases Heard.insertionSort_eq_nil hsort
    cases h
    exact ⟨rfl, rfl⟩
  · rename_i hsort
    exact Heard.split_eq heard hsort h

theorem outcomeForEvent_verdict (event : ExpectedPerformanceEvent)
    (observations : List PerformanceEvaluationObservation) (window : ℚ) :
    (outcomeForEvent event observations window).verdict =
      event.expectedGroup.verdict window (observations.map heard) := by
  unfold outcomeForEvent
  by_cases hnone : observations = []
  · subst hnone
    rfl
  · rw [if_neg hnone]
    rcases hsplit : splitChordGestureObservations observations window with ⟨early, others⟩
    obtain ⟨hearly, hothers⟩ := split_eq hsplit
    obtain ⟨hlate, hunconfirmed⟩ := ServerEvaluator.classify_eq event (others.flatMap (·.pitches))
      (early.flatMap (·.pitches))
    have hne : (observations.map heard : Multiset Heard) ≠ 0 := by
      rwa [Ne, Multiset.coe_eq_zero, List.map_eq_nil_iff]
    dsimp only
    rw [classify_eq]
    simp only [unexpectedPitchesFor, unexpectedFrom_eq, List.length_eq_zero_iff]
    refine (EvaluatedGroup.verdict_lists hne hearly hothers hunconfirmed rfl ?_).symm
    rw [← hlate]

end BrowserEvaluator

namespace ServerEvaluator

/-- What an observation heard. -/
def heard (observation : PerformanceObservation) : Heard :=
  ⟨observation.performanceTimeMs, observation.observedPitches⟩

theorem split_eq {observations early others : List PerformanceObservation} {window : ℚ}
    (h : splitChordGestureObservations observations window = (early, others)) :
    (observedPitches early : Multiset String) = Heard.gesture window (observations.map heard) ∧
      (observedPitches others : Multiset String) = Heard.late window (observations.map heard) := by
  unfold splitChordGestureObservations at h
  split at h
  · rename_i hsort
    cases Heard.insertionSort_eq_nil hsort
    cases h
    exact ⟨rfl, rfl⟩
  · rename_i hsort
    exact Heard.split_eq heard hsort h

theorem strikeOutcome_ok {strike : ExpectedStrike}
    (h : strike.strikeId ≠ "" ∧ strike.pitch ≠ "" ∧ strike.renderNoteIds ≠ [])
    (result : PerformanceExpectedStrikeResult) :
    strikeOutcome strike result = .ok (strike.outcome result) := by
  unfold strikeOutcome checkStrikeOutcome
  rw [if_neg (by exact h.1), if_neg (by exact h.2.1), if_neg (by exact h.2.2)]
  rfl

theorem average_mem {values : List ℚ} (h : ∀ value ∈ values, 0 ≤ value ∧ value ≤ 1) :
    0 ≤ average values ∧ average values ≤ 1 := by
  unfold average
  split_ifs with hnone
  · exact ⟨le_rfl, zero_le_one⟩
  · have hlength : (0 : ℚ) < values.length := by
      exact_mod_cast List.length_pos_iff.mpr hnone
    have hsum : values.sum ≤ values.length := by
      have hle := List.sum_le_card_nsmul values 1 fun value hvalue => (h value hvalue).2
      rwa [nsmul_eq_mul, mul_one] at hle
    exact ⟨div_nonneg (List.sum_nonneg fun value hvalue => (h value hvalue).1) hlength.le,
      (div_le_one hlength).mpr hsum⟩

/-- The confidence of an outcome is one. -/
theorem confidence_mem (observations : List PerformanceObservation) :
    0 ≤ Rounding.round 3 (average (observations.map (·.confidence))) ∧
      Rounding.round 3 (average (observations.map (·.confidence))) ≤ 1 := by
  have haverage : 0 ≤ average (observations.map (·.confidence)) ∧
      average (observations.map (·.confidence)) ≤ 1 := by
    refine average_mem fun value hvalue => ?_
    obtain ⟨observation, -, rfl⟩ := List.mem_map.mp hvalue
    exact ⟨observation.confidence_nonneg, observation.confidence_le_one⟩
  refine ⟨?_, ?_⟩
  · calc (0 : ℚ) = Rounding.round 3 0 := Rounding.round_zero.symm
      _ ≤ _ := Rounding.round_mono haverage.1
  · calc Rounding.round 3 (average (observations.map (·.confidence))) ≤ Rounding.round 3 1 :=
        Rounding.round_mono haverage.2
      _ = 1 := Rounding.round_one

theorem checkEventOutcome_ok
    {outcome : PerformanceExpectedEventOutcome PerformanceObservationSource}
    (hid : outcome.expectedGroupId ≠ "") (htime : 0 ≤ outcome.performanceTimeMs)
    (hconfidence : 0 ≤ outcome.confidence ∧ outcome.confidence ≤ 1) :
    checkEventOutcome outcome = .ok () := by
  unfold checkEventOutcome
  rw [if_neg hid, if_neg (not_lt.mpr htime), if_neg (not_not.mpr hconfidence)]

theorem outcomeForEvent_verdict {event : ExpectedPerformanceEvent} (hok : event.Ok)
    (observations : List PerformanceObservation) (window : ℚ) :
    ∃ outcome, outcomeForEvent event observations window = .ok outcome ∧
      outcome.verdict = event.expectedGroup.verdict window (observations.map heard) := by
  unfold outcomeForEvent
  by_cases hnone : observations = []
  · subst hnone
    rw [if_pos rfl, Python.mapM_ok fun strike hstrike =>
      strikeOutcome_ok (hok.strikes strike hstrike) _]
    simp only [Python.ok_bind]
    rw [checkEventOutcome_ok (by exact hok.groupId) (by exact hok.time)
      (by exact ⟨le_rfl, zero_le_one⟩)]
    exact ⟨_, rfl, rfl⟩
  · rw [if_neg hnone]
    rcases hsplit : splitChordGestureObservations observations window with ⟨early, others⟩
    obtain ⟨hearly, hothers⟩ := split_eq hsplit
    obtain ⟨hlate, hunconfirmed⟩ := classify_eq event (observedPitches others)
      (observedPitches early)
    have hne : (observations.map heard : Multiset Heard) ≠ 0 := by
      rwa [Ne, Multiset.coe_eq_zero, List.map_eq_nil_iff]
    have hstrikes := Python.mapM_ok fun strike hstrike =>
      strikeOutcome_ok (hok.strikes strike hstrike) <|
        if strike.pitch ∈ observedPitches early then .matched
        else if strike.pitch ∈ (classifyNonGesturePitches event (observedPitches others)
          (observedPitches early)).unconfirmedExpectedPitches then .unconfirmed
        else .missing
    dsimp only [expectedStrikeOutcomes, unexpectedPitches]
    rw [hstrikes]
    simp only [Python.ok_bind]
    rw [checkEventOutcome_ok (by exact hok.groupId) (by exact hok.time)
      (by exact confidence_mem early)]
    refine ⟨_, rfl, ?_⟩
    refine (EvaluatedGroup.verdict_lists hne hearly hothers hunconfirmed rfl ?_).symm
    rw [← hlate]

end ServerEvaluator

/-! ## Whose notes they are -/

section

variable {events : List ExpectedPerformanceEvent} {window timeMs : ℚ}

theorem nearestEvent_spec {nearest : ExpectedPerformanceEvent}
    (h : nearestEvent events window timeMs = some nearest) :
    nearest ∈ events ∧ (∀ event ∈ events,
      |nearest.performanceTimeMs - timeMs| ≤ |event.performanceTimeMs - timeMs|) := by
  unfold nearestEvent at h
  have hmin := (Option.filter_eq_some_iff.mp h).1
  refine ⟨List.argmin_mem hmin, fun event hevent => ?_⟩
  have hle := List.le_of_mem_argmin hevent hmin
  exact hle

theorem exists_nearestEvent
    (h : ∃ event ∈ events, |event.performanceTimeMs - timeMs| ≤ window) :
    ∃ nearest, nearestEvent events window timeMs = some nearest := by
  obtain ⟨event, hevent, hwindow⟩ := h
  cases hmin : events.argmin fun event => |event.performanceTimeMs - timeMs| with
  | none => exact absurd (List.argmin_eq_none.mp hmin) (List.ne_nil_of_mem hevent)
  | some nearest =>
    refine ⟨nearest, Option.filter_eq_some_iff.mpr ⟨hmin, decide_eq_true ?_⟩⟩
    exact (List.le_of_mem_argmin hevent hmin).trans hwindow

/-- The group that an observation of a time is pushed to. -/
def ownerId (events : List ExpectedPerformanceEvent) (window : ℚ) (isHeard : Bool) (timeMs : ℚ) :
    Option String :=
  if isHeard then (nearestEvent events window timeMs).map (·.expectedGroup.groupId) else none

/-- Ids tell events apart. -/
theorem ownerId_eq_some_iff (hids : (events.map (·.expectedGroup.groupId)).Nodup) {isHeard : Bool}
    {event : ExpectedPerformanceEvent} (hevent : event ∈ events) :
    ownerId events window isHeard timeMs = some event.expectedGroup.groupId ↔
      isHeard = true ∧ nearestEvent events window timeMs = some event := by
  unfold ownerId
  split_ifs with hheard
  · rw [Option.map_eq_some_iff]
    constructor
    · rintro ⟨nearest, hnearest, hid⟩
      rw [List.inj_on_of_nodup_map hids (nearestEvent_spec hnearest).1 hevent hid] at hnearest
      exact ⟨hheard, hnearest⟩
    · exact fun h => ⟨event, h.2, rfl⟩
  · simp [hheard]

end

/-- `min` and `reduce` take the first of equals. -/
theorem argmin_cons_eq {α : Type} (f : α → ℚ) (first : α) (rest : List α) :
    (first :: rest).argmin f =
      some (rest.foldl (fun best x => if f x < f best then x else best) first) := by
  show rest.foldl _ (some first) = _
  induction rest generalizing first with
  | nil => rfl
  | cons x rest ih =>
    rw [List.foldl_cons, List.foldl_cons]
    show rest.foldl _ (if f x < f first then some x else some first) = _
    split_ifs
    · exact ih x
    · exact ih first

namespace ServerEvaluator

variable {events : List ExpectedPerformanceEvent} {window : ℚ}

theorem nearest_eq (observation : PerformanceObservation) :
    nearestEventWithinAssignmentWindow events observation window =
      nearestEvent events window observation.performanceTimeMs := by
  unfold nearestEventWithinAssignmentWindow nearestEvent
  cases events.argmin fun event => |event.performanceTimeMs - observation.performanceTimeMs| with
  | none => rfl
  | some nearest =>
    dsimp only
    rw [Option.filter_some]
    by_cases hfar : window < |nearest.performanceTimeMs - observation.performanceTimeMs|
    · rw [if_pos hfar, decide_eq_false (not_le.mpr hfar)]
      rfl
    · rw [if_neg hfar, decide_eq_true (not_lt.mp hfar)]
      rfl

/-- The group that an observation goes to. -/
def owner (events : List ExpectedPerformanceEvent) (window : ℚ)
    (observation : PerformanceObservation) : Option String :=
  ownerId events window observation.isHeard observation.performanceTimeMs

theorem assign_eq {observations : List PerformanceObservation}
    {m : JsMap String (List PerformanceObservation)}
    (hm : ∀ event ∈ events, (m.get event.expectedGroup.groupId).isSome)
    (hmidi : ∀ observation ∈ observations, observation.source = .midi) :
    assign events window m observations =
      .ok (m.pushAll (owner events window) observations) := by
  induction observations generalizing m with
  | nil => rfl
  | cons observation observations ih =>
    rw [List.forall_mem_cons] at hmidi
    unfold assign
    rw [if_neg (not_not.mpr hmidi.1), nearest_eq, JsMap.pushAll_cons]
    by_cases hheard : observation.isHeard
    · have howner : owner events window observation =
          (nearestEvent events window observation.performanceTimeMs).map
            (·.expectedGroup.groupId) := if_pos hheard
      rw [howner, if_neg (by
        unfold PerformanceObservation.isHeard at hheard
        grind)]
      cases hnearest : nearestEvent events window observation.performanceTimeMs with
      | none => exact ih hm hmidi.2
      | some nearest =>
        obtain ⟨assigned, hassigned⟩ :=
          Option.isSome_iff_exists.mp (hm nearest (nearestEvent_spec hnearest).1)
        have hpush : m.push nearest.expectedGroup.groupId observation =
            m.set nearest.expectedGroup.groupId (assigned ++ [observation]) := by
          unfold JsMap.push
          rw [hassigned]
        dsimp only [Option.map_some, Option.elim_some]
        rw [hassigned, hpush]
        refine ih (fun event hevent => ?_) hmidi.2
        rw [← hpush, JsMap.get_push]
        split_ifs
        · rw [Option.isSome_map]
          exact hm event hevent
        · exact hm event hevent
    · have howner : owner events window observation = none := if_neg hheard
      rw [howner, if_pos (by
        unfold PerformanceObservation.isHeard at hheard
        grind)]
      exact ih hm hmidi.2

/-- The observations of an event are those it is the nearest one of. -/
theorem get_assignments {observations : List PerformanceObservation}
    (hids : (events.map (·.expectedGroup.groupId)).Nodup)
    (hmidi : ∀ observation ∈ observations, observation.source = .midi) :
    ∃ assigned, assignments events window observations = .ok assigned ∧
      ∀ event ∈ events, assigned.get event.expectedGroup.groupId =
        some (observations.filter fun observation => observation.isHeard ∧
          nearestEvent events window observation.performanceTimeMs = some event) := by
  have hget := JsMap.get_foldl_set (fun event : ExpectedPerformanceEvent =>
    event.expectedGroup.groupId) events (JsMap.empty : JsMap String (List PerformanceObservation))
  refine ⟨_, assign_eq (fun event hevent => ?_) hmidi, fun event hevent => ?_⟩
  · rw [hget, if_pos (List.mem_map_of_mem hevent)]
    rfl
  · rw [JsMap.get_pushAll, hget, if_pos (List.mem_map_of_mem hevent)]
    show some ([] ++ _) = _
    rw [List.nil_append]
    refine congrArg some (List.filter_congr fun observation _ => ?_)
    exact decide_eq_decide.mpr (ownerId_eq_some_iff hids hevent)

end ServerEvaluator

namespace BrowserEvaluator

variable {events : List ExpectedPerformanceEvent} {window : ℚ}

theorem nearest_eq (observation : PerformanceEvaluationObservation) :
    nearestEventWithinWindow events observation window =
      nearestEvent events window observation.performanceTimeMs := by
  unfold nearestEventWithinWindow nearestEvent
  cases events with
  | nil => rfl
  | cons first rest =>
    rw [argmin_cons_eq, Option.filter_some]
    simp only [decide_eq_true_eq]
    rfl

/-- The group that an observation goes to. -/
def owner (events : List ExpectedPerformanceEvent) (window : ℚ)
    (observation : PerformanceEvaluationObservation) : Option String :=
  ownerId events window (observation.pitches ≠ []) observation.performanceTimeMs

theorem assignments_eq (observations : List PerformanceEvaluationObservation) :
    assignments events window observations =
      (events.foldl (fun assignments event => assignments.set event.expectedGroup.groupId [])
        JsMap.empty).pushAll (owner events window) observations := by
  unfold assignments JsMap.pushAll
  congr 1
  funext m observation
  rw [nearest_eq]
  unfold owner ownerId
  by_cases hnone : observation.pitches = []
  · simp [hnone]
  · rw [if_neg (by simpa using hnone), if_pos (by simpa using hnone)]
    cases nearestEvent events window observation.performanceTimeMs with
    | none => rfl
    | some nearest => rfl

/-- The observations of an event are those it is the nearest one of. -/
theorem get_assignments (observations : List PerformanceEvaluationObservation)
    (hids : (events.map (·.expectedGroup.groupId)).Nodup) {event : ExpectedPerformanceEvent}
    (hevent : event ∈ events) :
    (assignments events window observations).get event.expectedGroup.groupId =
      some (observations.filter fun observation => observation.pitches ≠ [] ∧
        nearestEvent events window observation.performanceTimeMs = some event) := by
  rw [assignments_eq, JsMap.get_pushAll, JsMap.get_foldl_set, if_pos (List.mem_map_of_mem hevent)]
  show some ([] ++ _) = _
  rw [List.nil_append]
  refine congrArg some (List.filter_congr fun observation _ => ?_)
  exact decide_eq_decide.mpr ((ownerId_eq_some_iff hids hevent).trans (by rw [decide_eq_true_eq]))

end BrowserEvaluator

/-! ## All events -/

/-- The notes of an event, from the observations that a filter keeps for it. -/
theorem assignedTo_coe {α : Type} (heard : α → Heard) (isHeard : α → Bool)
    (events : List ExpectedPerformanceEvent) (window : ℚ) (observations : List α)
    (event : ExpectedPerformanceEvent) :
    assignedTo events window ((observations.filter isHeard).map heard : List Heard) event =
      ((observations.filter fun x => isHeard x ∧
        nearestEvent events window (heard x).timeMs = some event).map heard : List Heard) := by
  unfold assignedTo
  rw [Multiset.filter_coe, List.filter_map, List.filter_filter]
  refine congrArg (fun xs : List α => (xs.map heard : Multiset Heard)) ?_
  refine List.filter_congr fun x _ => ?_
  rw [Bool.decide_and, Bool.decide_eq_true, Bool.and_comm]
  rfl

theorem BrowserEvaluator.evaluate_verdicts (hids : (events.map (·.expectedGroup.groupId)).Nodup)
    (assignmentWindow gestureWindow : ℚ) (observations : List PerformanceEvaluationObservation) :
    (evaluate events assignmentWindow gestureWindow observations).map (·.verdict) =
      verdicts events assignmentWindow gestureWindow
        ((observations.filter (·.pitches ≠ [])).map heard : List Heard) := by
  unfold evaluate verdicts
  rw [List.map_map]
  refine List.map_congr_left fun event hevent => ?_
  rw [assignedTo_coe, Function.comp_apply, outcomeForEvent_verdict, get_assignments _ hids hevent]
  simp only [Option.getD_some, decide_eq_true_eq]
  rfl

theorem ServerEvaluator.evaluateMidi_verdicts (hids : (events.map (·.expectedGroup.groupId)).Nodup)
    (hok : ∀ event ∈ events, event.Ok) (assignmentWindow gestureWindow : ℚ)
    {observations : List PerformanceObservation}
    (hmidi : ∀ observation ∈ observations, observation.source = .midi) :
    ∃ outcomes, evaluateMidi events assignmentWindow gestureWindow observations = .ok outcomes ∧
      outcomes.map (·.verdict) = verdicts events assignmentWindow gestureWindow
        ((observations.filter (·.isHeard)).map heard : List Heard) := by
  unfold evaluateMidi verdicts
  by_cases hnone : events = []
  · subst hnone
    exact ⟨[], rfl, rfl⟩
  · obtain ⟨assigned, hassigned, hget⟩ := @get_assignments events assignmentWindow _ hids hmidi
    rw [if_neg hnone, hassigned]
    refine Python.exists_mapM_ok fun event hevent => ?_
    rw [hget event hevent, assignedTo_coe]
    exact outcomeForEvent_verdict (hok event hevent) _ _

/-! ## When a group is played -/

/-- The notes are the expected pitches, each once, close together. -/
def Heard.Plays (expected : List String) (window : ℚ) (notes : List Heard) : Prop :=
  notes ≠ [] ∧ (∀ note ∈ notes, ∀ other ∈ notes, note.timeMs - other.timeMs ≤ window) ∧
    ∀ pitch, (notes.flatMap (·.pitches)).count pitch = if pitch ∈ expected then 1 else 0

namespace Heard

variable {window : ℚ} {notes : List Heard}

theorem inGesture_of_late_eq_zero (hpitches : ∀ note ∈ notes, note.pitches ≠ [])
    (hempty : late window notes = 0) : ∀ note ∈ notes, InGesture window notes note := by
  intro note hnote
  by_contra hlate
  obtain ⟨pitch, hpitch⟩ := List.exists_mem_of_ne_nil _ (hpitches note hnote)
  have hmem : pitch ∈ late window (notes : Multiset Heard) := by
    unfold late pitchesOf
    exact Multiset.mem_bind.mpr ⟨note, Multiset.mem_filter.mpr ⟨hnote, hlate⟩, hpitch⟩
  rw [hempty] at hmem
  exact Multiset.notMem_zero pitch hmem

theorem gesture_of_forall (h : ∀ note ∈ notes, InGesture window notes note) :
    gesture window notes = (notes.flatMap (·.pitches) : List String) := by
  unfold gesture
  rw [Multiset.filter_eq_self.mpr h, coe_pitchesOf]

theorem late_of_forall (h : ∀ note ∈ notes, InGesture window notes note) :
    late window notes = 0 := by
  unfold late
  rw [Multiset.filter_eq_nil.mpr fun note hnote => not_not.mpr (h note hnote)]
  rfl

theorem resultOf_eq_match_iff {allMatched anyMatched clean : Prop} [Decidable allMatched]
    [Decidable anyMatched] [Decidable clean] :
    resultOf allMatched anyMatched clean = .match ↔ allMatched ∧ clean := by
  unfold resultOf
  split_ifs with hall hany
  · exact ⟨fun _ => hall, fun _ => rfl⟩
  · exact ⟨fun h => (nomatch h), fun h => absurd h hall⟩
  · exact ⟨fun h => (nomatch h), fun h => absurd h hall⟩

/-- Nothing is unexpected if the gesture has no pitch twice and no other pitch, and
there are no late notes but of expected pitches that it lacks. -/
theorem unexpected_eq_zero_iff {expected : List String} {heard : Multiset Heard} :
    unexpected expected window heard = 0 ↔
      (∀ pitch, (gesture window heard).count pitch ≤ if pitch ∈ expected then 1 else 0) ∧
        ∀ pitch ∈ late window heard, pitch ∈ expected ∧ pitch ∉ gesture window heard := by
  unfold unexpected
  rw [add_eq_zero, Multiset.filter_eq_nil, tsub_eq_zero_iff_le, Multiset.le_iff_count]
  refine and_congr (forall_congr' fun pitch => ?_) (forall₂_congr fun pitch _ => ?_)
  · rw [List.toFinset_val, Multiset.coe_count, List.count_dedup]
  · rw [not_or, not_not]

end Heard

theorem EvaluatedGroup.verdict_match_iff (group : EvaluatedGroup) {notes : List Heard}
    (hpitches : ∀ note ∈ notes, note.pitches ≠ []) :
    (group.verdict window notes).result = .match ↔
      Heard.Plays group.expectedPitches window notes := by
  unfold EvaluatedGroup.verdict Heard.Plays
  by_cases hnone : notes = []
  · subst hnone
    simp
  · rw [if_neg (by rwa [Multiset.coe_eq_zero])]
    have hall : (∀ strike ∈ group.strikeTargets.map (fun strike =>
        strike.outcome (Heard.strikeResult window notes strike.pitch)), strike.result = .matched) ↔
        ∀ pitch ∈ group.expectedPitches, pitch ∈ Heard.gesture window (notes : Multiset Heard) := by
      unfold EvaluatedGroup.expectedPitches
      rw [List.forall_mem_map, List.forall_mem_map]
      refine forall₂_congr fun strike _ => ?_
      show Heard.strikeResult window notes strike.pitch = .matched ↔ _
      unfold Heard.strikeResult
      split_ifs with hgesture hlate
      · exact ⟨fun _ => hgesture, fun _ => rfl⟩
      · exact ⟨fun h => (nomatch h), fun h => absurd h hgesture⟩
      · exact ⟨fun h => (nomatch h), fun h => absurd h hgesture⟩
    rw [Heard.resultOf_eq_match_iff, hall, Heard.unexpected_eq_zero_iff]
    constructor
    · rintro ⟨hmatched, hcount, hlate⟩
      have hempty : Heard.late window (notes : Multiset Heard) = 0 :=
        Multiset.eq_zero_of_forall_notMem fun pitch hpitch =>
          (hlate pitch hpitch).2 (hmatched pitch (hlate pitch hpitch).1)
      have hgesture := Heard.inGesture_of_late_eq_zero hpitches hempty
      rw [Heard.gesture_of_forall hgesture] at hmatched hcount
      refine ⟨hnone, hgesture, fun pitch => ?_⟩
      have hle := hcount pitch
      rw [Multiset.coe_count] at hle
      split_ifs at hle ⊢ with hexpected
      · have hpos := List.count_pos_iff.mpr (Multiset.mem_coe.mp (hmatched pitch hexpected))
        omega
      · omega
    · rintro ⟨-, hgesture, hcount⟩
      rw [Heard.gesture_of_forall hgesture, Heard.late_of_forall hgesture]
      refine ⟨fun pitch hexpected => ?_, fun pitch => ?_, fun pitch hpitch =>
        absurd hpitch (Multiset.notMem_zero pitch)⟩
      · refine Multiset.mem_coe.mpr (List.count_pos_iff.mp ?_)
        rw [hcount, if_pos hexpected]
        exact Nat.one_pos
      · rw [Multiset.coe_count, hcount]

/-! ## Agreement -/

theorem ServerEvaluator.isHeard_pitches {observation : PerformanceObservation}
    (h : observation.isHeard) : observation.observedPitches ≠ [] := by
  unfold PerformanceObservation.isHeard at h
  rw [Bool.and_eq_true, decide_eq_true_eq] at h
  exact h.2

/-- The same multiset of notes gets the same verdicts. -/
theorem ServerEvaluator.heard_perm {xs ys : List PerformanceObservation} (h : xs.Perm ys) :
    ((xs.filter (·.isHeard)).map heard : Multiset Heard) =
      ((ys.filter (·.isHeard)).map heard : List Heard) :=
  Quotient.sound ((h.filter _).map _)

theorem BrowserEvaluator.heard_perm {xs ys : List PerformanceEvaluationObservation}
    (h : xs.Perm ys) : ((xs.filter (·.pitches ≠ [])).map heard : Multiset Heard) =
      ((ys.filter (·.pitches ≠ [])).map heard : List Heard) :=
  Quotient.sound ((h.filter _).map _)

/-- The notes of a group are the same for both. -/
theorem assigned_agree (hids : (events.map (·.expectedGroup.groupId)).Nodup)
    {observations : List PerformanceObservation} {evidence : List PerformanceEvaluationObservation}
    (hsame : evidence.map BrowserEvaluator.heard =
      (observations.filter (·.isHeard)).map ServerEvaluator.heard)
    {event : ExpectedPerformanceEvent} (hevent : event ∈ events) :
    ((BrowserEvaluator.assignments events window evidence).get
        event.expectedGroup.groupId).map (·.map BrowserEvaluator.heard) =
      some ((observations.filter fun observation => observation.isHeard ∧
        nearestEvent events window observation.performanceTimeMs = some event).map
          ServerEvaluator.heard) := by
  rw [BrowserEvaluator.get_assignments _ hids hevent, Option.map_some]
  refine congrArg some ?_
  have hfilter := congrArg (List.filter fun note : Heard => note.pitches ≠ [] ∧
    nearestEvent events window note.timeMs = some event) hsame
  rw [List.filter_map, List.filter_map, List.filter_filter] at hfilter
  refine hfilter.trans (congrArg _ (List.filter_congr fun observation _ => ?_))
  by_cases hheard : observation.isHeard
  · have hpitches := ServerEvaluator.isHeard_pitches hheard
    rw [hheard, Bool.and_true]
    exact decide_eq_decide.mpr ⟨fun h => ⟨rfl, h.2⟩, fun h => ⟨hpitches, h.2⟩⟩
  · simp [hheard]

/-- Server and browser give each group the same verdict, in whatever order the notes
come; each note near a group is of one group, a nearest one; and a group is matched if
its notes are what it expects, played together. -/
theorem evaluators_agree (events : List ExpectedPerformanceEvent)
    (hids : (events.map (·.expectedGroup.groupId)).Nodup) (hok : ∀ event ∈ events, event.Ok)
    (assignmentWindow gestureWindow : ℚ) (observations : List PerformanceObservation)
    (hmidi : ∀ observation ∈ observations, observation.source = .midi)
    (evidence : List PerformanceEvaluationObservation)
    (hsame : evidence.map BrowserEvaluator.heard =
      (observations.filter (·.isHeard)).map ServerEvaluator.heard) :
    ∃ outcomes assigned,
      ServerEvaluator.evaluateMidi events assignmentWindow gestureWindow observations =
        .ok outcomes ∧
      ServerEvaluator.assignments events assignmentWindow observations = .ok assigned ∧
      outcomes.map (·.expectedGroupId) = events.map (·.expectedGroup.groupId) ∧
      (BrowserEvaluator.evaluate events assignmentWindow gestureWindow evidence).map (·.verdict) =
        outcomes.map (·.verdict) ∧
      (∀ reordered, reordered.Perm observations → ∃ outcomes',
        ServerEvaluator.evaluateMidi events assignmentWindow gestureWindow reordered =
          .ok outcomes' ∧ outcomes'.map (·.verdict) = outcomes.map (·.verdict)) ∧
      (∀ reordered, reordered.Perm evidence →
        (BrowserEvaluator.evaluate events assignmentWindow gestureWindow reordered).map (·.verdict) =
          outcomes.map (·.verdict)) ∧
      (∀ event ∈ events,
        ((BrowserEvaluator.assignments events assignmentWindow evidence).get
            event.expectedGroup.groupId).map (·.map BrowserEvaluator.heard) =
          (assigned.get event.expectedGroup.groupId).map (·.map ServerEvaluator.heard)) ∧
      (∀ observation ∈ observations, observation.isHeard →
        (∃ event ∈ events,
          |event.performanceTimeMs - observation.performanceTimeMs| ≤ assignmentWindow) →
        ∃ nearest ∈ events,
          (∀ event ∈ events, |nearest.performanceTimeMs - observation.performanceTimeMs| ≤
            |event.performanceTimeMs - observation.performanceTimeMs|) ∧
          ∀ event ∈ events,
            ((assigned.get event.expectedGroup.groupId).getD []).count observation =
              if event = nearest then observations.count observation else 0) ∧
      ∀ event ∈ events, ∀ outcome ∈ outcomes,
        outcome.expectedGroupId = event.expectedGroup.groupId →
        (outcome.result = .match ↔ Heard.Plays event.expectedGroup.expectedPitches gestureWindow
          (((assigned.get event.expectedGroup.groupId).getD []).map ServerEvaluator.heard)) := by
  obtain ⟨outcomes, houtcomes, hverdicts⟩ :=
    ServerEvaluator.evaluateMidi_verdicts hids hok assignmentWindow gestureWindow hmidi
  obtain ⟨assigned, hassigned, hget⟩ :=
    @ServerEvaluator.get_assignments events assignmentWindow observations hids hmidi
  have hevidence : evidence.filter (·.pitches ≠ []) = evidence := by
    refine List.filter_eq_self.mpr fun note hnote => decide_eq_true ?_
    have hmem : BrowserEvaluator.heard note ∈ evidence.map BrowserEvaluator.heard :=
      List.mem_map_of_mem hnote
    rw [hsame] at hmem
    obtain ⟨observation, hobservation, heq⟩ := List.mem_map.mp hmem
    have hpitches := ServerEvaluator.isHeard_pitches (List.mem_filter.mp hobservation).2
    exact fun hnone => hpitches ((congrArg Heard.pitches heq).trans hnone)
  have hbrowser : ∀ reordered, reordered.Perm evidence →
      (BrowserEvaluator.evaluate events assignmentWindow gestureWindow reordered).map (·.verdict) =
        outcomes.map (·.verdict) := by
    intro reordered hperm
    rw [BrowserEvaluator.evaluate_verdicts hids, BrowserEvaluator.heard_perm hperm, hevidence,
      hsame, hverdicts]
  have hgroupIds : ∀ group : EvaluatedGroup, ∀ window heard,
      (group.verdict window heard).groupId = group.groupId := by
    intro group window heard
    unfold EvaluatedGroup.verdict
    split_ifs <;> rfl
  refine ⟨outcomes, assigned, houtcomes, hassigned, ?_, hbrowser evidence (.refl _),
    fun reordered hperm => ?_, hbrowser, fun event hevent => ?_,
    fun observation hobservation hheard hnear => ?_, fun event hevent outcome houtcome hid => ?_⟩
  · have hids' := congrArg (List.map Verdict.groupId) hverdicts
    unfold verdicts at hids'
    rw [List.map_map, List.map_map] at hids'
    exact hids'.trans (List.map_congr_left fun event _ => hgroupIds _ _ _)
  · obtain ⟨outcomes', houtcomes', hverdicts'⟩ := ServerEvaluator.evaluateMidi_verdicts hids hok
      assignmentWindow gestureWindow fun observation h => hmidi observation (hperm.mem_iff.mp h)
    refine ⟨outcomes', houtcomes', ?_⟩
    rw [hverdicts', hverdicts, ServerEvaluator.heard_perm hperm]
  · rw [hget event hevent]
    exact assigned_agree hids hsame hevent
  · obtain ⟨nearest, hnearest⟩ := exists_nearestEvent hnear
    obtain ⟨hmem, hle⟩ := nearestEvent_spec hnearest
    refine ⟨nearest, hmem, hle, fun event hevent => ?_⟩
    rw [hget event hevent, Option.getD_some]
    split_ifs with heq
    · rw [List.count_filter (by simp [hheard, hnearest, heq])]
    · refine List.count_eq_zero.mpr fun h => heq ?_
      have howner := (of_decide_eq_true (List.mem_filter.mp h).2).2
      exact Option.some.inj (howner.symm.trans hnearest)
  · have hmem : outcome.verdict ∈ verdicts events assignmentWindow gestureWindow
        ((observations.filter (·.isHeard)).map ServerEvaluator.heard : List Heard) :=
      hverdicts ▸ List.mem_map_of_mem houtcome
    obtain ⟨event', hevent', hverdict⟩ := List.mem_map.mp hmem
    have hsame' : event' = event := by
      refine List.inj_on_of_nodup_map hids hevent' hevent ?_
      exact ((hgroupIds _ _ _).symm.trans (congrArg Verdict.groupId hverdict)).trans hid
    subst hsame'
    rw [assignedTo_coe] at hverdict
    rw [hget event' hevent, Option.getD_some]
    have hresult := congrArg Verdict.result hverdict
    show outcome.verdict.result = .match ↔ _
    rw [← hresult]
    refine EvaluatedGroup.verdict_match_iff _ fun note hnote => ?_
    obtain ⟨observation, hobservation, rfl⟩ := List.mem_map.mp hnote
    exact ServerEvaluator.isHeard_pitches
      (of_decide_eq_true (List.mem_filter.mp hobservation).2).1

/-- A third, and a note after it. -/
def thirdAndNote : List ExpectedPerformanceEvent :=
  [⟨⟨"third", [⟨"third:C4", "C4", ["n1"]⟩, ⟨"third:E4", "E4", ["n2"]⟩], ["n1", "n2"], ["1"]⟩, 0⟩,
    ⟨⟨"note", [⟨"note:G4", "G4", ["n3"]⟩], ["n3"], ["1"]⟩, 400⟩]

/-- A pitch that was played at a time. -/
def playedNote (timeMs : ℚ) (pitch : String) : PerformanceObservation :=
  ⟨.midi, timeMs, true, true, 1, [pitch], fullConfidence_nonneg, fullConfidence_le_one⟩

theorem evaluators_agree_thirdAndNote : ∃ outcomes,
    ServerEvaluator.evaluateMidi thirdAndNote 250 120
      [playedNote 30 "E4", playedNote 10 "C4", playedNote 390 "G4"] = .ok outcomes ∧
    (BrowserEvaluator.evaluate thirdAndNote 250 120
      [⟨["E4"], 1, .midi, 30⟩, ⟨["C4"], 1, .midi, 10⟩, ⟨["G4"], 1, .midi, 390⟩]).map (·.verdict) =
        outcomes.map (·.verdict) := by
  have hok : ∀ event ∈ thirdAndNote, event.Ok := by
    intro event hevent
    unfold thirdAndNote at hevent
    simp only [List.mem_cons, List.not_mem_nil, or_false] at hevent
    rcases hevent with rfl | rfl
    · exact ⟨by decide, le_rfl, by simp⟩
    · exact ⟨by decide, by norm_num, by simp⟩
  have hmidi : ∀ observation ∈ [playedNote 30 "E4", playedNote 10 "C4", playedNote 390 "G4"],
      observation.source = .midi := by
    simp [playedNote]
  obtain ⟨outcomes, -, houtcomes, -, -, hverdicts, -⟩ :=
    evaluators_agree thirdAndNote (by decide) hok 250 120 _ hmidi
      [⟨["E4"], 1, .midi, 30⟩, ⟨["C4"], 1, .midi, 10⟩, ⟨["G4"], 1, .midi, 390⟩] rfl
  exact ⟨outcomes, houtcomes, hverdicts⟩

end NoteVerse.Practice

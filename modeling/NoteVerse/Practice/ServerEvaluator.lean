import NoteVerse.Lib.JsMap
import NoteVerse.Lib.Rounding
import NoteVerse.Practice.Evidence

/-!
# The evaluator of the server

`PerformanceExpectedEventEvaluator` of `performance/evaluator.py`, once it has its
events, and the observations and the checks of the outcomes of
`performance/evidence.py`. Times and confidences are rational.
-/

namespace NoteVerse.Practice

open Js

inductive PerformanceObservationSource
  | microphone | midi
  deriving DecidableEq, Repr

/-- What is read of a `PerformanceObservation`, which refuses other confidences. -/
structure PerformanceObservation where
  source : PerformanceObservationSource
  performanceTimeMs : ℚ
  active : Bool
  analyzable : Bool
  confidence : ℚ
  observedPitches : List String
  confidence_nonneg : 0 ≤ confidence
  confidence_le_one : confidence ≤ 1
  deriving DecidableEq

theorem fullConfidence_nonneg : (0 : ℚ) ≤ 1 := zero_le_one

theorem fullConfidence_le_one : (1 : ℚ) ≤ 1 := le_rfl

/-- The checks of the outcomes accept those of the event. -/
structure ExpectedPerformanceEvent.Ok (event : ExpectedPerformanceEvent) : Prop where
  groupId : event.expectedGroup.groupId ≠ ""
  time : 0 ≤ event.performanceTimeMs
  strikes : ∀ strike ∈ event.expectedGroup.strikeTargets,
    strike.strikeId ≠ "" ∧ strike.pitch ≠ "" ∧ strike.renderNoteIds ≠ []

/-- What the evaluator takes into account. -/
def PerformanceObservation.isHeard (observation : PerformanceObservation) : Bool :=
  observation.active && observation.analyzable && observation.observedPitches ≠ []

namespace ServerEvaluator

/-! ## The outcome's own checks -/

def checkStrikeOutcome (outcome : PerformanceExpectedStrikeOutcome) : Except String Unit :=
  if outcome.strikeId = "" then
    .error "Performance expected-strike outcome requires a strike id."
  else if outcome.pitch = "" then
    .error "Performance expected-strike outcome requires a pitch."
  else if outcome.renderNoteIds = [] then
    .error "Performance expected-strike outcome requires render note ids."
  else .ok ()

def checkEventOutcome (outcome : PerformanceExpectedEventOutcome PerformanceObservationSource) :
    Except String Unit :=
  if outcome.expectedGroupId = "" then
    .error "Performance expected-event outcome requires an expected group id."
  else if outcome.performanceTimeMs < 0 then
    .error "Performance expected-event outcome time must be non-negative."
  else if ¬(0 ≤ outcome.confidence ∧ outcome.confidence ≤ 1) then
    .error "Performance expected-event outcome confidence must be between 0 and 1."
  else .ok ()

/-- `PerformanceExpectedStrikeOutcome(...)` -/
def strikeOutcome (strike : ExpectedStrike) (result : PerformanceExpectedStrikeResult) :
    Except String PerformanceExpectedStrikeOutcome := do
  checkStrikeOutcome (strike.outcome result)
  return strike.outcome result

/-! ## One event -/

/-- `_observed_pitches` -/
def observedPitches (observations : List PerformanceObservation) : List String :=
  observations.flatMap (·.observedPitches)

/-- `_split_chord_gesture_observations` -/
def splitChordGestureObservations (observations : List PerformanceObservation)
    (chordSimultaneityWindowMs : ℚ) :
    List PerformanceObservation × List PerformanceObservation :=
  match observations.insertionSort (·.performanceTimeMs ≤ ·.performanceTimeMs) with
  | [] => ([], [])
  | first :: rest =>
    (first :: rest).partition fun observation =>
      observation.performanceTimeMs - first.performanceTimeMs ≤ chordSimultaneityWindowMs

/-- `_expected_strike_outcomes` -/
def expectedStrikeOutcomes (event : ExpectedPerformanceEvent)
    (observedPitches unconfirmedExpectedPitches : List String) :
    Except String (List PerformanceExpectedStrikeOutcome) :=
  event.expectedGroup.strikeTargets.mapM fun strike =>
    strikeOutcome strike <|
      if strike.pitch ∈ observedPitches then .matched
      else if strike.pitch ∈ unconfirmedExpectedPitches then .unconfirmed
      else .missing

/-- The loop of `_unexpected_pitches`, with the expected pitches it has seen. -/
def unexpectedFrom (expected : List String) : List String → List String → List String
  | _, [] => []
  | seen, pitch :: pitches =>
    if pitch ∉ expected then pitch :: unexpectedFrom expected seen pitches
    else if pitch ∈ seen then pitch :: unexpectedFrom expected seen pitches
    else unexpectedFrom expected (pitch :: seen) pitches

/-- `_unexpected_pitches` -/
def unexpectedPitches (event : ExpectedPerformanceEvent) (observedPitches : List String) :
    List String :=
  unexpectedFrom event.expectedGroup.expectedPitches [] observedPitches

structure NonGesturePitchClassification where
  unconfirmedExpectedPitches : List String
  unexpectedPitches : List String
  deriving DecidableEq, Repr

/-- `_classify_non_gesture_pitches` -/
def classifyNonGesturePitches (event : ExpectedPerformanceEvent)
    (observedPitches matchedGesturePitches : List String) : NonGesturePitchClassification :=
  observedPitches.foldl (fun classification pitch =>
    if pitch ∉ event.expectedGroup.expectedPitches then
      { classification with unexpectedPitches := classification.unexpectedPitches ++ [pitch] }
    else if pitch ∈ matchedGesturePitches then
      { classification with unexpectedPitches := classification.unexpectedPitches ++ [pitch] }
    else if pitch ∉ classification.unconfirmedExpectedPitches then
      { classification with
        unconfirmedExpectedPitches := classification.unconfirmedExpectedPitches ++ [pitch] }
    else classification) ⟨[], []⟩

/-- `_average` -/
def average (values : List ℚ) : ℚ :=
  if values = [] then 0 else values.sum / values.length

/-- `_outcome_for_event` -/
def outcomeForEvent (event : ExpectedPerformanceEvent)
    (observations : List PerformanceObservation) (chordSimultaneityWindowMs : ℚ) :
    Except String (PerformanceExpectedEventOutcome PerformanceObservationSource) :=
  if observations = [] then do
    let strikes ← event.expectedGroup.strikeTargets.mapM (strikeOutcome · .unconfirmed)
    let outcome := {
      expectedGroupId := event.expectedGroup.groupId
      performanceTimeMs := event.performanceTimeMs
      result := .notObserved
      confidence := 0
      source := .midi
      expectedStrikeOutcomes := strikes
      unexpectedPitches := []
      renderNoteIds := event.expectedGroup.renderNoteIds
      measureNumbers := event.expectedGroup.measureNumbers
      timingOffsetMs := none }
    checkEventOutcome outcome
    return outcome
  else do
    let (gesture, nonGestureObservations) :=
      splitChordGestureObservations observations chordSimultaneityWindowMs
    let observed := observedPitches gesture
    let nonGesture :=
      classifyNonGesturePitches event (observedPitches nonGestureObservations) observed
    let strikes ← expectedStrikeOutcomes event observed nonGesture.unconfirmedExpectedPitches
    let unexpected := unexpectedPitches event observed ++ nonGesture.unexpectedPitches
    let outcome := {
      expectedGroupId := event.expectedGroup.groupId
      performanceTimeMs := event.performanceTimeMs
      result :=
        if strikes.all (·.result = .matched) ∧ unexpected = [] then .match
        else if strikes.any (·.result = .matched) ∧ unexpected = [] then .partialMatch
        else .mismatch
      confidence := Rounding.round 3 (average (gesture.map (·.confidence)))
      source := .midi
      expectedStrikeOutcomes := strikes
      unexpectedPitches := unexpected
      renderNoteIds := event.expectedGroup.renderNoteIds
      measureNumbers := event.expectedGroup.measureNumbers
      timingOffsetMs := some <| Rounding.round 3 <| average <|
        gesture.map (·.performanceTimeMs - event.performanceTimeMs) }
    checkEventOutcome outcome
    return outcome

/-! ## All events -/

/-- `_nearest_event_within_assignment_window`; `min` takes the first of equals, and is not
asked for the nearest of no events. -/
def nearestEventWithinAssignmentWindow (events : List ExpectedPerformanceEvent)
    (observation : PerformanceObservation) (assignmentWindowMs : ℚ) :
    Option ExpectedPerformanceEvent :=
  match events.argmin fun event => |event.performanceTimeMs - observation.performanceTimeMs| with
  | none => none
  | some nearest =>
    if |nearest.performanceTimeMs - observation.performanceTimeMs| > assignmentWindowMs then none
    else some nearest

/-- The loop of `evaluate_midi` that fills its `assignments`. -/
def assign (events : List ExpectedPerformanceEvent) (assignmentWindowMs : ℚ)
    (assignments : JsMap String (List PerformanceObservation)) :
    List PerformanceObservation → Except String (JsMap String (List PerformanceObservation))
  | [] => .ok assignments
  | observation :: observations =>
    if observation.source ≠ .midi then
      .error "MIDI Performance evaluation requires MIDI observations."
    else if !observation.active ∨ !observation.analyzable ∨ observation.observedPitches = [] then
      assign events assignmentWindowMs assignments observations
    else
      match nearestEventWithinAssignmentWindow events observation assignmentWindowMs with
      | none => assign events assignmentWindowMs assignments observations
      | some nearest =>
        match assignments.get nearest.expectedGroup.groupId with
        | none => .error "KeyError"
        | some assigned =>
          assign events assignmentWindowMs
            (assignments.set nearest.expectedGroup.groupId (assigned ++ [observation])) observations

/-- The `assignments` of `evaluate_midi`: the observations of each group. -/
def assignments (events : List ExpectedPerformanceEvent) (assignmentWindowMs : ℚ)
    (observations : List PerformanceObservation) :
    Except String (JsMap String (List PerformanceObservation)) :=
  assign events assignmentWindowMs
    (events.foldl (fun assignments event => assignments.set event.expectedGroup.groupId [])
      JsMap.empty) observations

/-- `evaluate_midi` -/
def evaluateMidi (events : List ExpectedPerformanceEvent)
    (assignmentWindowMs chordSimultaneityWindowMs : ℚ)
    (observations : List PerformanceObservation) :
    Except String (List (PerformanceExpectedEventOutcome PerformanceObservationSource)) :=
  if events = [] then .ok []
  else do
    let assignments ← assignments events assignmentWindowMs observations
    events.mapM fun event =>
      match assignments.get event.expectedGroup.groupId with
      | none => .error "KeyError"
      | some assigned => outcomeForEvent event assigned chordSimultaneityWindowMs

end ServerEvaluator

end NoteVerse.Practice

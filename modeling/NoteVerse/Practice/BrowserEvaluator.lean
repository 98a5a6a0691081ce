import NoteVerse.Lib.JsMap
import NoteVerse.Lib.Rounding
import NoteVerse.Practice.Evidence

/-!
# The evaluator of the browser

`LocalPerformanceEvaluator` of `local-core/performance-evaluator.ts`, once it has
its events. Times and confidences are rational.
-/

namespace NoteVerse.Practice

open Js

inductive EvidenceSource
  | acoustic | midi | fake
  deriving DecidableEq, Repr

/-- What is read of a `PerformanceEvaluationObservation`. -/
structure PerformanceEvaluationObservation where
  pitches : List String
  confidence : ℚ
  source : EvidenceSource
  performanceTimeMs : ℚ
  deriving DecidableEq, Repr

namespace BrowserEvaluator

/-! ## One event -/

def splitChordGestureObservations (observations : List PerformanceEvaluationObservation)
    (chordSimultaneityWindowMs : ℚ) :
    List PerformanceEvaluationObservation × List PerformanceEvaluationObservation :=
  match observations.insertionSort (·.performanceTimeMs ≤ ·.performanceTimeMs) with
  | [] => ([], [])
  | first :: rest =>
    (first :: rest).partition fun observation =>
      observation.performanceTimeMs - first.performanceTimeMs ≤ chordSimultaneityWindowMs

def expectedStrikeOutcomesFor (group : EvaluatedGroup)
    (observedPitches unconfirmedExpectedPitches : List String) :
    List PerformanceExpectedStrikeOutcome :=
  group.strikeTargets.map fun strike =>
    strike.outcome <|
      if strike.pitch ∈ observedPitches then .matched
      else if strike.pitch ∈ unconfirmedExpectedPitches then .unconfirmed
      else .missing

/-- The loop of `unexpectedPitchesFor`, with `seenExpected`. -/
def unexpectedFrom (expected : List String) : List String → List String → List String
  | _, [] => []
  | seenExpected, pitch :: pitches =>
    if pitch ∉ expected then pitch :: unexpectedFrom expected seenExpected pitches
    else if pitch ∈ seenExpected then pitch :: unexpectedFrom expected seenExpected pitches
    else unexpectedFrom expected (pitch :: seenExpected) pitches

def unexpectedPitchesFor (group : EvaluatedGroup) (observedPitches : List String) : List String :=
  unexpectedFrom group.expectedPitches [] observedPitches

/-- The unconfirmed and the unexpected pitches. -/
def classifyNonGesturePitches (group : EvaluatedGroup)
    (observedPitches matchedGesturePitches : List String) : List String × List String :=
  observedPitches.foldl (fun (unconfirmed, unexpected) pitch =>
    if pitch ∉ group.expectedPitches ∨ pitch ∈ matchedGesturePitches then
      (unconfirmed, unexpected ++ [pitch])
    else if pitch ∉ unconfirmed then (unconfirmed ++ [pitch], unexpected)
    else (unconfirmed, unexpected)) ([], [])

def average (values : List ℚ) : ℚ :=
  if values = [] then 0 else values.foldl (· + ·) 0 / values.length

def outcomeForEvent (event : ExpectedPerformanceEvent)
    (observations : List PerformanceEvaluationObservation) (chordSimultaneityWindowMs : ℚ) :
    PerformanceExpectedEventOutcome EvidenceSource :=
  if observations = [] then {
    expectedGroupId := event.expectedGroup.groupId
    performanceTimeMs := event.performanceTimeMs
    result := .notObserved
    confidence := 0
    source := .fake
    expectedStrikeOutcomes := event.expectedGroup.strikeTargets.map (·.outcome .unconfirmed)
    unexpectedPitches := []
    renderNoteIds := event.expectedGroup.renderNoteIds
    measureNumbers := event.expectedGroup.measureNumbers
    timingOffsetMs := none }
  else
    let (gesture, nonGesture) :=
      splitChordGestureObservations observations chordSimultaneityWindowMs
    let observedPitches := gesture.flatMap (·.pitches)
    let (unconfirmed, unexpectedLate) :=
      classifyNonGesturePitches event.expectedGroup (nonGesture.flatMap (·.pitches)) observedPitches
    let strikes := expectedStrikeOutcomesFor event.expectedGroup observedPitches unconfirmed
    let unexpected := unexpectedPitchesFor event.expectedGroup observedPitches ++ unexpectedLate
    { expectedGroupId := event.expectedGroup.groupId
      performanceTimeMs := event.performanceTimeMs
      result :=
        if strikes.all (·.result = .matched) ∧ unexpected.length = 0 then .match
        else if strikes.any (·.result = .matched) ∧ unexpected.length = 0 then .partialMatch
        else .mismatch
      confidence := Rounding.roundJs 3 (average (gesture.map (·.confidence)))
      source := (gesture.head?.map (·.source)).getD .fake
      expectedStrikeOutcomes := strikes
      unexpectedPitches := unexpected
      renderNoteIds := event.expectedGroup.renderNoteIds
      measureNumbers := event.expectedGroup.measureNumbers
      timingOffsetMs := some <| Rounding.roundJs 3 <| average <|
        gesture.map (·.performanceTimeMs - event.performanceTimeMs) }

/-! ## All events -/

/-- How far an event is from an observation. -/
def distance (event : ExpectedPerformanceEvent) (observation : PerformanceEvaluationObservation) :
    ℚ :=
  |event.performanceTimeMs - observation.performanceTimeMs|

def nearestEventWithinWindow (events : List ExpectedPerformanceEvent)
    (observation : PerformanceEvaluationObservation) (assignmentWindowMs : ℚ) :
    Option ExpectedPerformanceEvent :=
  match events with
  | [] => none
  | first :: rest =>
    let nearest := rest.foldl (fun best event =>
      if distance event observation < distance best observation then event else best) first
    if distance nearest observation ≤ assignmentWindowMs then some nearest else none

/-- The `assignments` of `evaluate`: the observations of each group. -/
def assignments (events : List ExpectedPerformanceEvent) (assignmentWindowMs : ℚ)
    (observations : List PerformanceEvaluationObservation) :
    JsMap String (List PerformanceEvaluationObservation) :=
  observations.foldl (fun assignments observation =>
    if observation.pitches.length = 0 then assignments
    else
      match nearestEventWithinWindow events observation assignmentWindowMs with
      | none => assignments
      | some nearest => assignments.push nearest.expectedGroup.groupId observation)
    (events.foldl (fun assignments event => assignments.set event.expectedGroup.groupId [])
      JsMap.empty)

def evaluate (events : List ExpectedPerformanceEvent)
    (assignmentWindowMs chordSimultaneityWindowMs : ℚ)
    (observations : List PerformanceEvaluationObservation) :
    List (PerformanceExpectedEventOutcome EvidenceSource) :=
  let assignments := assignments events assignmentWindowMs observations
  events.map fun event =>
    outcomeForEvent event ((assignments.get event.expectedGroup.groupId).getD [])
      chordSimultaneityWindowMs

end BrowserEvaluator

end NoteVerse.Practice

import NoteVerse.Lib.Computable

/-!
# Performance evidence

What the evaluators of the server and of the browser read of the expected groups,
and what they answer, from `performance/evidence.py` and `local-core/evidence.ts`.

A `Verdict` is the part of an answer that says which notes were played. `verdict`
says what it should be: it is told what was heard, in no order.
-/

namespace NoteVerse.Practice

/-- What is read of an `ExpectedPracticeStrikeTarget`. -/
structure ExpectedStrike where
  strikeId : String
  pitch : String
  renderNoteIds : List String
  deriving DecidableEq, Repr

/-- What is read of an `ExpectedPracticeGroup`. -/
structure EvaluatedGroup where
  groupId : String
  strikeTargets : List ExpectedStrike
  renderNoteIds : List String
  measureNumbers : List String
  deriving DecidableEq, Repr

structure ExpectedPerformanceEvent where
  expectedGroup : EvaluatedGroup
  performanceTimeMs : ℚ
  deriving DecidableEq, Repr

inductive PerformanceExpectedStrikeResult
  | matched | missing | unconfirmed
  deriving DecidableEq, Repr

inductive PerformanceExpectedEventResult
  | «match» | partialMatch | mismatch | uncertain | notObserved
  deriving DecidableEq, Repr

structure PerformanceExpectedStrikeOutcome where
  strikeId : String
  pitch : String
  renderNoteIds : List String
  result : PerformanceExpectedStrikeResult
  deriving DecidableEq, Repr

/-- Server and browser name the sources of observations differently. -/
structure PerformanceExpectedEventOutcome (Source : Type) where
  expectedGroupId : String
  performanceTimeMs : ℚ
  result : PerformanceExpectedEventResult
  confidence : ℚ
  source : Source
  expectedStrikeOutcomes : List PerformanceExpectedStrikeOutcome
  unexpectedPitches : List String
  renderNoteIds : List String
  measureNumbers : List String
  timingOffsetMs : Option ℚ
  deriving DecidableEq, Repr

def ExpectedStrike.outcome (strike : ExpectedStrike) (result : PerformanceExpectedStrikeResult) :
    PerformanceExpectedStrikeOutcome :=
  ⟨strike.strikeId, strike.pitch, strike.renderNoteIds, result⟩

/-- The pitches of the strike targets. -/
def EvaluatedGroup.expectedPitches (group : EvaluatedGroup) : List String :=
  group.strikeTargets.map (·.pitch)

/-! ## What was played -/

structure Verdict where
  groupId : String
  result : PerformanceExpectedEventResult
  strikes : List PerformanceExpectedStrikeOutcome
  unexpected : Multiset String
  deriving DecidableEq

def PerformanceExpectedEventOutcome.verdict {Source : Type}
    (outcome : PerformanceExpectedEventOutcome Source) : Verdict :=
  ⟨outcome.expectedGroupId, outcome.result, outcome.expectedStrikeOutcomes,
    outcome.unexpectedPitches⟩

/-- When pitches were heard, and which. -/
structure Heard where
  timeMs : ℚ
  pitches : List String
  deriving DecidableEq, Repr

namespace Heard

def pitchesOf (heard : Multiset Heard) : Multiset String := heard.bind fun note => note.pitches

/-- At most `window` later than any other. -/
def InGesture (window : ℚ) (heard : Multiset Heard) (note : Heard) : Prop :=
  ∀ other ∈ heard, note.timeMs - other.timeMs ≤ window

instance (window : ℚ) (heard : Multiset Heard) : DecidablePred (InGesture window heard) :=
  fun _ => Multiset.decidableForallMultiset

/-- The pitches of the notes within the window of the earliest one. -/
def gesture (window : ℚ) (heard : Multiset Heard) : Multiset String :=
  pitchesOf (heard.filter (InGesture window heard))

/-- The pitches of the later notes. -/
def late (window : ℚ) (heard : Multiset Heard) : Multiset String :=
  pitchesOf (heard.filter fun note => ¬InGesture window heard note)

def strikeResult (window : ℚ) (heard : Multiset Heard) (pitch : String) :
    PerformanceExpectedStrikeResult :=
  if pitch ∈ gesture window heard then .matched
  else if pitch ∈ late window heard then .unconfirmed
  else .missing

/-- What the gesture has more than once or that is not expected, and of the late notes
what is not expected or was in the gesture. -/
def unexpected (expected : List String) (window : ℚ) (heard : Multiset Heard) : Multiset String :=
  (gesture window heard - expected.toFinset.val) +
    (late window heard).filter fun pitch => pitch ∉ expected ∨ pitch ∈ gesture window heard

/-- The result for expected pitches of which some were matched. -/
def resultOf (allMatched anyMatched clean : Prop) [Decidable allMatched] [Decidable anyMatched]
    [Decidable clean] : PerformanceExpectedEventResult :=
  if allMatched ∧ clean then .match else if anyMatched ∧ clean then .partialMatch else .mismatch

end Heard

/-- The verdict on a group for what was heard of it. -/
def EvaluatedGroup.verdict (group : EvaluatedGroup) (window : ℚ) (heard : Multiset Heard) :
    Verdict :=
  if heard = 0 then
    ⟨group.groupId, .notObserved, group.strikeTargets.map (·.outcome .unconfirmed), 0⟩
  else
    let strikes := group.strikeTargets.map fun strike =>
      strike.outcome (Heard.strikeResult window heard strike.pitch)
    let unexpected := Heard.unexpected group.expectedPitches window heard
    ⟨group.groupId,
      Heard.resultOf (∀ strike ∈ strikes, strike.result = .matched)
        (∃ strike ∈ strikes, strike.result = .matched) (unexpected = 0),
      strikes, unexpected⟩

/-! ## Whose notes they are -/

/-- The nearest event, the first of equals, if it is within the window. -/
def nearestEvent (events : List ExpectedPerformanceEvent) (window timeMs : ℚ) :
    Option ExpectedPerformanceEvent :=
  (events.argmin fun event => |event.performanceTimeMs - timeMs|).filter fun nearest =>
    |nearest.performanceTimeMs - timeMs| ≤ window

/-- The notes of an event. -/
def assignedTo (events : List ExpectedPerformanceEvent) (window : ℚ) (heard : Multiset Heard)
    (event : ExpectedPerformanceEvent) : Multiset Heard :=
  heard.filter fun note => nearestEvent events window note.timeMs = some event

/-- The verdicts on all events, for what was heard. -/
def verdicts (events : List ExpectedPerformanceEvent) (assignmentWindow gestureWindow : ℚ)
    (heard : Multiset Heard) : List Verdict :=
  events.map fun event =>
    event.expectedGroup.verdict gestureWindow (assignedTo events assignmentWindow heard event)

end NoteVerse.Practice

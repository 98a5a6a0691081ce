import NoteVerse.Lib.Js

/-!
# The editor's score document

`lib/editor-domain/model.ts` and `notation-model.ts`: a score is parts,
staves, voices and measures, the events of the voices, and the relationships
(beams, ties, slurs) and notation controls between them. A tie is stored
twice: as a `TieRelationship`, and in `tieIn` and `tieOut` of its two note
atoms.

Identifiers are branded strings in the source and strings here; numbers that
the source keeps integral are integers.
-/

namespace NoteVerse.Editor

open Js

abbrev PartId := String
abbrev StaffId := String
abbrev VoiceId := String
abbrev MeasureId := String
abbrev EventId := String
abbrev NoteAtomId := String
abbrev NotationId := String
abbrev TieId := String
abbrev BeamId := String

/-! ## Rational numbers -/

structure Rational where
  numerator : Int
  denominator : Int
  deriving DecidableEq, Repr

namespace Rational

/-- The value, for a rational that `assertValidRational` accepts. -/
def toRat (r : Rational) : ℚ := r.numerator / r.denominator

def zero : Rational := ⟨0, 1⟩

/-- What `assertValidRational` checks. -/
def Valid (r : Rational) : Prop := 0 < r.denominator

instance (r : Rational) : Decidable r.Valid := inferInstanceAs (Decidable (_ < _))

end Rational

def assertValidRational (value : Rational) : Throws Unit :=
  if value.denominator ≤ 0 then
    throw "Rational values must use integer numerators and positive integer denominators."
  else pure ()

def normalizeRational (value : Rational) : Throws Rational := do
  assertValidRational value
  if value.numerator = 0 then return ⟨0, 1⟩
  let divisor := Int.gcd value.numerator value.denominator
  return ⟨value.numerator / divisor, value.denominator / divisor⟩

def compareRational (left right : Rational) : Throws Int := do
  assertValidRational left
  assertValidRational right
  return left.numerator * right.denominator - right.numerator * left.denominator

def addRational (left right : Rational) : Throws Rational := do
  assertValidRational left
  assertValidRational right
  normalizeRational ⟨left.numerator * right.denominator + right.numerator * left.denominator,
    left.denominator * right.denominator⟩

def subtractRational (left right : Rational) : Throws Rational := do
  assertValidRational left
  assertValidRational right
  normalizeRational ⟨left.numerator * right.denominator - right.numerator * left.denominator,
    left.denominator * right.denominator⟩

/-! ## Events -/

structure MusicalPosition where
  measureId : MeasureId
  offset : Rational
  deriving DecidableEq, Repr

inductive DurationBase
  | whole | half | quarter | eighth | sixteenth | thirtySecond | sixtyFourth
  deriving DecidableEq, Repr

/-- The name of a duration, as the source and MusicXML spell it. -/
def DurationBase.name : DurationBase → String
  | .whole => "whole"
  | .half => "half"
  | .quarter => "quarter"
  | .eighth => "eighth"
  | .sixteenth => "16th"
  | .thirtySecond => "32nd"
  | .sixtyFourth => "64th"

structure RhythmNotation where
  base : DurationBase
  dots : Nat
  deriving DecidableEq, Repr

/-- `timelineDuration` is in quarter notes. -/
structure RhythmicValue where
  timelineDuration : Rational
  rhythmNotation : RhythmNotation
  tupletId : Option String
  deriving DecidableEq, Repr

inductive PitchStep
  | C | D | E | F | G | A | B
  deriving DecidableEq, Repr

def PitchStep.name : PitchStep → String
  | .C => "C" | .D => "D" | .E => "E" | .F => "F" | .G => "G" | .A => "A" | .B => "B"

structure Pitch where
  step : PitchStep
  octave : Int
  alter : Option Int
  deriving DecidableEq, Repr

inductive Accidental
  | flatFlat | flat | natural | sharp | doubleSharp
  deriving DecidableEq, Repr

def Accidental.name : Accidental → String
  | .flatFlat => "flat-flat"
  | .flat => "flat"
  | .natural => "natural"
  | .sharp => "sharp"
  | .doubleSharp => "double-sharp"

structure NoteAtomSource where
  musicXmlElementId : Option String
  deriving DecidableEq, Repr

structure NoteAtom where
  id : NoteAtomId
  pitch : Pitch
  accidental : Option Accidental
  fingering : Option String
  tieIn : Option TieId
  tieOut : Option TieId
  source : Option NoteAtomSource
  deriving DecidableEq, Repr

/-- The source types `notes` as non-empty, and casts where it filters them. -/
structure PitchedEvent where
  id : EventId
  voiceId : VoiceId
  staffId : StaffId
  position : MusicalPosition
  rhythm : RhythmicValue
  notes : List NoteAtom
  source : Option (List String)
  deriving DecidableEq, Repr

structure ExplicitRestEvent where
  id : EventId
  voiceId : VoiceId
  staffId : StaffId
  position : MusicalPosition
  rhythm : RhythmicValue
  source : Option NoteAtomSource
  deriving DecidableEq, Repr

inductive VoiceEvent
  | pitched (event : PitchedEvent)
  | explicitRest (event : ExplicitRestEvent)
  deriving DecidableEq, Repr

namespace VoiceEvent

def id : VoiceEvent → EventId
  | pitched e => e.id
  | explicitRest e => e.id

def voiceId : VoiceEvent → VoiceId
  | pitched e => e.voiceId
  | explicitRest e => e.voiceId

def staffId : VoiceEvent → StaffId
  | pitched e => e.staffId
  | explicitRest e => e.staffId

def position : VoiceEvent → MusicalPosition
  | pitched e => e.position
  | explicitRest e => e.position

def rhythm : VoiceEvent → RhythmicValue
  | pitched e => e.rhythm
  | explicitRest e => e.rhythm

/-- The note atoms of an event: none for a rest. -/
def notes : VoiceEvent → List NoteAtom
  | pitched e => e.notes
  | explicitRest _ => []

@[simp] theorem notes_pitched (e : PitchedEvent) : (pitched e).notes = e.notes := rfl
@[simp] theorem notes_explicitRest (e : ExplicitRestEvent) : (explicitRest e).notes = [] := rfl
@[simp] theorem id_pitched (e : PitchedEvent) : (pitched e).id = e.id := rfl
@[simp] theorem id_explicitRest (e : ExplicitRestEvent) : (explicitRest e).id = e.id := rfl

end VoiceEvent

structure BeamRelationship where
  id : BeamId
  eventIds : List EventId
  deriving DecidableEq, Repr

structure TieRelationship where
  id : TieId
  startNoteAtomId : NoteAtomId
  stopNoteAtomId : NoteAtomId
  deriving DecidableEq, Repr

structure SlurRelationship where
  id : NotationId
  startNoteAtomId : NoteAtomId
  stopNoteAtomId : NoteAtomId
  deriving DecidableEq, Repr

/-! ## Notation controls -/

inductive StemDirectionOverride
  | up | down | none | double
  deriving DecidableEq, Repr

def StemDirectionOverride.name : StemDirectionOverride → String
  | .up => "up" | .down => "down" | .none => "none" | .double => "double"

inductive NotationPlacementOverride
  | above | below
  deriving DecidableEq, Repr

def NotationPlacementOverride.name : NotationPlacementOverride → String
  | .above => "above" | .below => "below"

inductive NotationControl
  | eventNotation (eventId : EventId) (stemDirection : Option StemDirectionOverride)
  | tieNotation (tieId : TieId) (placement : Option NotationPlacementOverride)
  | slurNotation (notationId : NotationId) (placement : Option NotationPlacementOverride)
  | beamNotation (notationId : NotationId) (eventIds : List EventId)
      (direction : Option StemDirectionOverride)
  deriving DecidableEq, Repr

namespace NotationControl

/-- `control.kind === 'eventNotation' && control.eventId === eventId`. -/
def isEventNotation (eventId : EventId) : NotationControl → Bool
  | eventNotation e _ => e == eventId
  | _ => false

/-- `control.kind === 'tieNotation' && control.tieId === tieId`. -/
def isTieNotation (tieId : TieId) : NotationControl → Bool
  | tieNotation t _ => t == tieId
  | _ => false

/-- `control.kind === 'slurNotation' && control.notationId === notationId`. -/
def isSlurNotation (notationId : NotationId) : NotationControl → Bool
  | slurNotation n _ => n == notationId
  | _ => false

end NotationControl

/-- The stem direction of the first control of an event. -/
def getEventStemDirectionOverride (controls : List NotationControl) (eventId : EventId) :
    Option StemDirectionOverride :=
  match controls.find? (·.isEventNotation eventId) with
  | some (.eventNotation _ stemDirection) => stemDirection
  | _ => none

/-! ## The document -/

inductive StemPolicy
  | automatic | up | down
  deriving DecidableEq, Repr

structure Voice where
  id : VoiceId
  partId : PartId
  homeStaffId : StaffId
  stemPolicy : StemPolicy
  deriving DecidableEq, Repr

structure Measure where
  id : MeasureId
  number : Int
  deriving DecidableEq, Repr

structure Staff where
  id : StaffId
  partId : PartId
  index : Int
  deriving DecidableEq, Repr

structure Part where
  id : PartId
  name : String
  deriving DecidableEq, Repr

structure ScoreDocument where
  id : String
  parts : List Part
  staves : List Staff
  voices : List Voice
  measures : List Measure
  events : List VoiceEvent
  beamRelationships : List BeamRelationship
  tieRelationships : List TieRelationship
  slurRelationships : List SlurRelationship
  notationControls : List NotationControl
  deriving DecidableEq, Repr

namespace ScoreDocument

/-- The note atoms of the document, event by event. -/
def noteAtoms (document : ScoreDocument) : List NoteAtom := document.events.flatMap VoiceEvent.notes

end ScoreDocument

/-! ## Construction -/

/-- `createPitchedEvent`, from an event whose `notes` may be empty. -/
def createPitchedEvent (input : PitchedEvent) : Throws VoiceEvent :=
  if input.notes = [] then throw "PitchedEvent requires at least one NoteAtom."
  else pure (.pitched input)

def createExplicitRestEvent (input : ExplicitRestEvent) : VoiceEvent := .explicitRest input

def createBeamRelationship (id : BeamId) (eventIds : List EventId) : Throws BeamRelationship :=
  if eventIds.length < 2 then throw "BeamRelationship requires at least two events."
  else pure ⟨id, eventIds⟩

def createTieRelationship (id : TieId) (startNoteAtomId stopNoteAtomId : NoteAtomId) :
    Throws TieRelationship :=
  if startNoteAtomId = stopNoteAtomId then throw "TieRelationship requires two distinct note atoms."
  else pure ⟨id, startNoteAtomId, stopNoteAtomId⟩

def createSlurRelationship (id : NotationId) (startNoteAtomId stopNoteAtomId : NoteAtomId) :
    Throws SlurRelationship :=
  if startNoteAtomId = stopNoteAtomId then throw "SlurRelationship requires two distinct note atoms."
  else pure ⟨id, startNoteAtomId, stopNoteAtomId⟩

/-! ## Timeline gaps -/

structure TimelineGap where
  voiceId : VoiceId
  staffId : StaffId
  start : MusicalPosition
  duration : Rational
  deriving DecidableEq, Repr

def createTimelineGap (gap : TimelineGap) : Throws TimelineGap := do
  if (← compareRational gap.duration ⟨0, 1⟩) ≤ 0 then throw "TimelineGap duration must be positive."
  else pure gap

def getEventEndPosition (event : VoiceEvent) : Throws MusicalPosition := do
  return ⟨event.position.measureId,
    ← addRational event.position.offset event.rhythm.timelineDuration⟩

/-- What `deriveTimelineGaps` and `deleteVoiceEvent` select events by. -/
structure TimelineContext where
  measureId : MeasureId
  staffId : StaffId
  voiceId : VoiceId
  deriving DecidableEq, Repr

/-- The gap from `cursor` to `limit`, if there is time between them. -/
def gapUpTo (context : TimelineContext) (cursor limit : Rational) : Throws (List TimelineGap) := do
  if 0 < (← compareRational limit cursor) then
    return [← createTimelineGap ⟨context.voiceId, context.staffId, ⟨context.measureId, cursor⟩,
      ← subtractRational limit cursor⟩]
  else pure []

/-- The loop of `deriveTimelineGaps` over the sorted events. -/
def deriveGapsLoop (context : TimelineContext) (measureDuration : Rational) :
    Rational → List VoiceEvent → Throws (List TimelineGap)
  | cursor, [] => gapUpTo context cursor measureDuration
  | cursor, event :: events => do
    let gap ← gapUpTo context cursor event.position.offset
    let eventEnd := (← getEventEndPosition event).offset
    let cursor := if 0 < (← compareRational eventEnd cursor) then eventEnd else cursor
    return gap ++ (← deriveGapsLoop context measureDuration cursor events)

def deriveTimelineGaps (events : List VoiceEvent) (context : TimelineContext)
    (measureDuration : Rational) : Throws (List TimelineGap) := do
  let matchingEvents ← sortM
    (fun left right => compareRational left.position.offset right.position.offset)
    (events.filter fun event => event.position.measureId = context.measureId ∧
      event.staffId = context.staffId ∧ event.voiceId = context.voiceId)
  deriveGapsLoop context measureDuration ⟨0, 1⟩ matchingEvents

structure DerivedRest where
  voiceId : VoiceId
  staffId : StaffId
  position : MusicalPosition
  rhythm : RhythmicValue
  sourceGap : TimelineGap
  deriving DecidableEq, Repr

end NoteVerse.Editor

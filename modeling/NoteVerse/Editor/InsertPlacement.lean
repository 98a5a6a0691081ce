import NoteVerse.Editor.Commands
import NoteVerse.Editor.RhythmicInput
import NoteVerse.Lib.Rounding

/-!
# Add mode

`lib/editor/rhythmic-insert-placement.ts` finds the place at which add mode inserts:
the point of the grid that is nearest to the pointer, of those from which the input duration
does not go past the end of the measure, and the timeline gap there, if there is one.
`add-mode-command.ts` and `add-mode-domain-insert.ts` of `hooks/editor/entity-editor` insert
the event; what comes before and after, the import of the MusicXML and its export, is not
here.

The bounds of the measure on the screen and the anchors of the events drawn in it are read
from the page: they are parameters.
-/

namespace NoteVerse.Editor

open Js

namespace InsertPlacement

structure RhythmicInsertTarget where
  staveIndex : Int
  xmlVoice : Int
  deriving DecidableEq, Repr

/-- The parameters of `resolveRhythmicInsertPlacement`. -/
structure Params where
  domainDocument : Option ScoreDocument
  timelineGaps : List TimelineGap
  xLeft : ℚ
  xRight : ℚ
  renderedRhythmicAnchors : MeasureId → List RenderedRhythmicAnchor
  measureIndex : Nat
  target : RhythmicInsertTarget
  clientX : ℚ
  divisions : Int
  inputDuration : Option InputDuration
  timeSignature : Option String
  grid : Option RhythmicGridResolution

structure AddLocation where
  measureIndex : Nat
  staveIndex : Int
  xmlVoice : Int
  tick : Int
  deriving DecidableEq, Repr

structure RhythmicInsertPlacement where
  location : AddLocation
  left : ℚ
  gridLines : List ℚ
  caret : Caret
  insertionAnchor : InsertionAnchor
  position : MusicalPosition
  deriving DecidableEq, Repr

/-! ## The meter -/

/-- `Number.parseInt(text || '4', 10)`, or 4 where that is no positive number. -/
def parseTimeSignaturePart (text : Option String) : Int :=
  match parseInt (if truthy text then text.getD "4" else "4") with
  | some parsed => if 0 < parsed then parsed else 4
  | none => 4

def parseTimeSignature (timeSignature : Option String) : Int × Int :=
  let text := if truthy timeSignature then timeSignature.getD "4/4" else "4/4"
  let parts := (text.toList.splitOn '/').map String.ofList
  (parseTimeSignaturePart parts[0]?, parseTimeSignaturePart parts[1]?)

def normalizeRational (value : Rational) : Throws Rational := do
  if value.denominator ≤ 0 then throw "Rational denominator must be positive."
  else if value.numerator = 0 then return ⟨0, 1⟩
  else
    let divisor := Int.gcd value.numerator value.denominator
    return ⟨value.numerator / divisor, value.denominator / divisor⟩

def getMeasureDuration (timeSignature : Option String) : Throws Rational :=
  let (beats, beatType) := parseTimeSignature timeSignature
  normalizeRational ⟨beats * 4, beatType⟩

def getBeatDuration (timeSignature : Option String) : Throws Rational :=
  let (_, beatType) := parseTimeSignature timeSignature
  normalizeRational ⟨4, beatType⟩

def rationalToTicks (value : Rational) (divisions : Int) : Int :=
  Rounding.roundHalfUp (value.toRat * divisions)

/-! ## The place -/

/-- The measure, staff and voice that the target names. -/
def resolveTarget (params : Params) : Option TimelineContext := do
  let document ← params.domainDocument
  let staff ← document.staves.find? fun candidate =>
    candidate.index = params.target.staveIndex
  let voice ← document.voices.find? fun candidate =>
    candidate.partId = staff.partId ∧
      (":voice-" ++ numberToString params.target.xmlVoice).toList <:+ candidate.id.toList
  let measure ← document.measures[params.measureIndex]?
  return ⟨measure.id, staff.id, voice.id⟩

def getInsertableLayoutPoints (points : List RhythmicLayoutPoint) (measureDuration : Rational)
    (inputDuration : Option InputDuration) : Throws (List RhythmicLayoutPoint) :=
  match inputDuration with
  | none => pure points
  | some inputDuration => filterM (fun point => do
      let stop ← addRational point.gridPosition.position.offset
        inputDuration.rhythm.timelineDuration
      return (← compareRational stop measureDuration) ≤ 0) points

/-- `params.grid ?? createRhythmicGridResolution(getBeatDuration(params.timeSignature))` -/
def placementGrid (params : Params) : Throws RhythmicGridResolution :=
  match params.grid with
  | some grid => pure grid
  | none => do createRhythmicGridResolution (← getBeatDuration params.timeSignature)

/-- The points of the grid at which the event can be inserted. -/
def candidatePoints (params : Params) (context : TimelineContext) :
    Throws (List RhythmicLayoutPoint) := do
  let measureDuration ← getMeasureDuration params.timeSignature
  let grid ← placementGrid params
  let layoutMap ← createRhythmicLayoutMap context.measureId context.staffId context.voiceId
    measureDuration grid params.xLeft params.xRight
    (params.renderedRhythmicAnchors context.measureId)
  getInsertableLayoutPoints layoutMap.points measureDuration params.inputDuration

/-- How far a point is from the pointer, inside the measure. -/
def distanceToPointer (xLeft xRight clientX : ℚ) (point : RhythmicLayoutPoint) : ℚ :=
  |min xRight (max xLeft clientX) - point.x|

/-- The nearest of `first` and `rest`; of equals the last. -/
def resolveNearestInsertableLayoutPoint (first : RhythmicLayoutPoint)
    (rest : List RhythmicLayoutPoint) (xLeft xRight clientX : ℚ) : RhythmicLayoutPoint :=
  let distance := distanceToPointer xLeft xRight clientX
  (Lists.nearestLoop distance (first, distance first) rest).1

/-- The first gap of the voice with the position in it or at one of its ends. -/
def findContainingTimelineGap (gaps : List TimelineGap) (voiceId : VoiceId) (staffId : StaffId)
    (position : MusicalPosition) : Throws (Option TimelineGap) :=
  findM (fun gap => do
    if gap.voiceId ≠ voiceId ∨ gap.staffId ≠ staffId ∨
        gap.start.measureId ≠ position.measureId then return false
    else if (← compareRational position.offset gap.start.offset) < 0 then return false
    else
      let stop ← addRational gap.start.offset gap.duration
      return (← compareRational position.offset stop) ≤ 0) gaps

/-- The gap at the caret is the anchor, or the caret itself where there is none. -/
def createInsertionAnchor (activeVoice : ActiveVoice) (caret : Caret) :
    Option TimelineGap → Throws InsertionAnchor
  | some gap => createTimelineGapInsertionAnchor activeVoice caret.position gap.start gap.duration
  | none => pure (.caret caret)

def resolveRhythmicInsertPlacement (params : Params) :
    Throws (Option RhythmicInsertPlacement) :=
  match resolveTarget params with
  | none => return none
  | some context => do
    match ← candidatePoints params context with
    | [] => return none
    | first :: rest =>
      let layoutPoint := resolveNearestInsertableLayoutPoint first rest params.xLeft
        params.xRight params.clientX
      let position := layoutPoint.gridPosition.position
      let activeVoice := ⟨context.voiceId, context.staffId⟩
      let caret ← createCaret activeVoice context.measureId position.offset
      let containingGap ← findContainingTimelineGap params.timelineGaps context.voiceId
        context.staffId caret.position
      let insertionAnchor ← createInsertionAnchor activeVoice caret containingGap
      return some {
        location := ⟨params.measureIndex, params.target.staveIndex, params.target.xmlVoice,
          rationalToTicks position.offset params.divisions⟩
        left := layoutPoint.x
        gridLines := (first :: rest).map (·.x)
        caret
        insertionAnchor
        position }

end InsertPlacement

/-! ## The insertion -/

inductive AddModeInsertCommand
  | insertExplicitRest (inputDuration : InputDuration)
  | insertPitchedEvent (inputDuration : InputDuration) (pitch : Pitch)

def AddModeInsertCommand.inputDuration : AddModeInsertCommand → InputDuration
  | insertExplicitRest inputDuration => inputDuration
  | insertPitchedEvent inputDuration _ => inputDuration

structure AddModeInsertTarget where
  staffId : StaffId
  voiceId : VoiceId
  position : MusicalPosition
  deriving DecidableEq, Repr

def getInsertionAnchorTarget : InsertionAnchor → AddModeInsertTarget
  | .caret caret => ⟨caret.staffId, caret.voiceId, caret.position⟩
  | .timelineGap voiceId staffId position _ _ => ⟨staffId, voiceId, position⟩
  | .eventEdge voiceId staffId position _ _ => ⟨staffId, voiceId, position⟩

def createAddModeNoteAtomId (eventId : EventId) : NoteAtomId := eventId ++ "-note-1"

/-- The digits at the end of the text. -/
def getTrailingNumber (value : String) (fallback : Int) : Int :=
  let digits := (value.toList.reverse.takeWhile Char.isDigit).reverse
  (parseInt (String.ofList digits)).getD fallback

def ensureAddModeTarget (document : ScoreDocument) (target : AddModeInsertTarget) :
    ScoreDocument :=
  match document.parts.head?, document.measures.find? (·.id = target.position.measureId) with
  | some part, some _ =>
    let staff := (document.staves.find? (·.id = target.staffId)).getD
      ⟨target.staffId, part.id, getTrailingNumber target.staffId 1 - 1⟩
    let staves := if document.staves.any (·.id = staff.id) then document.staves
      else sort (fun left right => left.index - right.index) (document.staves ++ [staff])
    let voice := (document.voices.find? (·.id = target.voiceId)).getD
      ⟨target.voiceId, part.id, staff.id, .automatic⟩
    let voices := if document.voices.any (·.id = voice.id) then document.voices
      else document.voices ++ [voice]
    { document with staves, voices }
  | _, _ => document

/-- `value.replace(/[^\dA-Za-z]+/g, '-')`; `inside` is whether the character before was one of
those replaced. -/
def hyphenate (inside : Bool) : List Char → List Char
  | [] => []
  | c :: cs =>
    if c.isAlphanum then c :: hyphenate false cs
    else if inside then hyphenate true cs
    else '-' :: hyphenate true cs

def slugId (value : String) : String :=
  let hyphenated := hyphenate false value.toList
  let start := if hyphenated.head? = some '-' then hyphenated.tail else hyphenated
  String.ofList (if start.getLast? = some '-' then start.dropLast else start)

def rationalSlug (value : Rational) : String :=
  if value.denominator = 1 then numberToString value.numerator
  else numberToString value.numerator ++ "_" ++ numberToString value.denominator

def createAddModeEventId (target : AddModeInsertTarget) (command : AddModeInsertCommand) :
    EventId :=
  String.intercalate "-" [
    match command with
    | .insertPitchedEvent _ _ => "add-note"
    | .insertExplicitRest _ => "add-rest",
    slugId target.position.measureId,
    slugId target.staffId,
    slugId target.voiceId,
    "o" ++ rationalSlug target.position.offset]

section

variable [Collation]

def applyAddModeInsertCommandToDomain (document : ScoreDocument) (eventId : EventId)
    (voiceId : VoiceId) (staffId : StaffId) (position : MusicalPosition) :
    AddModeInsertCommand → CommandResult
  | .insertExplicitRest inputDuration =>
    insertExplicitRest document ⟨eventId, voiceId, staffId, position, inputDuration.rhythm, none⟩
  | .insertPitchedEvent inputDuration pitch =>
    insertPitchedEvent document ⟨eventId, voiceId, staffId, position, inputDuration.rhythm,
      [⟨createAddModeNoteAtomId eventId, pitch, none, none, none, none, none⟩], none⟩

/-- `applyAddModeDomainInsert`, from the imported document to the one that is exported. -/
def applyAddModeDomainInsert (imported : ScoreDocument) (insertionAnchor : InsertionAnchor)
    (command : AddModeInsertCommand) : CommandResult :=
  let target := getInsertionAnchorTarget insertionAnchor
  let targetDocument := ensureAddModeTarget imported target
  match targetDocument.staves.find? (·.id = target.staffId),
      targetDocument.voices.find? (·.id = target.voiceId) with
  | some staff, some voice =>
    applyAddModeInsertCommandToDomain targetDocument (createAddModeEventId target command)
      voice.id staff.id target.position command
  | _, _ => .failure "Add-mode domain insert target could not be resolved."

end

end NoteVerse.Editor

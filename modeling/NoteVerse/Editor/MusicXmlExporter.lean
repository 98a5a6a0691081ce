import NoteVerse.Editor.Model
import NoteVerse.Lib.JsNumber
import NoteVerse.Lib.Xml

/-!
# Writing MusicXML

`lib/editor-domain/musicxml-exporter.ts`. The exporter builds a tree of parts,
measures and notes, and then writes the ties, slurs and beams into the notes
it finds by their ids. A note that the source changes in place is replaced in
the tree here.
-/

namespace NoteVerse.Editor

open Js Xml Xml.Node

structure TimeSignature where
  beats : Int
  beatType : Int
  deriving DecidableEq, Repr

structure MusicXmlExportOptions where
  divisions : Option Int
  timeSignature : Option TimeSignature
  deriving DecidableEq, Repr

/-- `Math.round` of the exact product, for a denominator that
`assertValidRational` accepts. -/
def rationalToTicks (value : Rational) (divisions : Int) : Int :=
  (2 * (value.numerator * divisions) + value.denominator) / (2 * value.denominator)

/-! ## Numbers of voices and staves -/

/-- The group of `/voice-(\d+)$/`. -/
def voiceIdDigits (id : VoiceId) : Option String :=
  let digits := id.toList.rtakeWhile Char.isDigit
  if digits ≠ [] ∧ "voice-".toList.isSuffixOf (id.toList.rdropWhile Char.isDigit) then
    some (.ofList digits)
  else none

def getVoiceNumber (document : ScoreDocument) (voice : Voice) : Int :=
  match (voiceIdDigits voice.id).bind parseInt with
  | some voiceNumber => voiceNumber
  | none =>
    match (document.voices.filter (·.partId = voice.partId)).findIdx? (·.id = voice.id) with
    | some index => index + 1
    | none => 0

def getStaffNumber (document : ScoreDocument) (staffId : StaffId) : Int :=
  match document.staves.find? (·.id = staffId) with
  | some staff => staff.index + 1
  | none => 1

/-! ## Notes, rests and cursor movements -/

def createForwardElement (durationTicks voiceNumber staffNumber : Int) : Node :=
  createElement "forward" [] [leaf "duration" (numberToString durationTicks),
    leaf "voice" (numberToString voiceNumber), leaf "staff" (numberToString staffNumber)]

def createBackupElement (durationTicks : Int) : Node :=
  createElement "backup" [] [leaf "duration" (numberToString durationTicks)]

/-- What `appendSharedNoteChildren` appends. -/
def sharedNoteChildren (rhythm : RhythmicValue) (voiceNumber staffNumber divisions : Int) :
    List Node :=
  [leaf "duration" (numberToString (rationalToTicks rhythm.timelineDuration divisions)),
    leaf "voice" (numberToString voiceNumber), leaf "type" rhythm.rhythmNotation.base.name] ++
  .replicate rhythm.rhythmNotation.dots (createElement "dot" [] []) ++
  [leaf "staff" (numberToString staffNumber)]

def createPitchElement (pitch : Pitch) : Node :=
  createElement "pitch" [] <|
    [leaf "step" pitch.step.name] ++
    (match pitch.alter with
      | some alter => if alter = 0 then [] else [leaf "alter" (numberToString alter)]
      | none => []) ++
    [leaf "octave" (numberToString pitch.octave)]

/-- The `notations` of a note with a fingering. -/
def fingeringNotations (fingering : Option String) : List Node :=
  match fingering with
  | some fingering =>
    if fingering = "" then []
    else [createElement "notations" [] [createElement "technical" [] [leaf "fingering" fingering]]]
  | none => []

def createPitchedNoteElement (note : NoteAtom) (stemDirection : Option StemDirectionOverride)
    (rhythm : RhythmicValue) (voiceNumber staffNumber divisions : Int) (isChordMember : Bool) :
    Node :=
  createElement "note" [("id", note.id)] <|
    (if isChordMember then [createElement "chord" [] []] else []) ++
    [createPitchElement note.pitch] ++
    sharedNoteChildren rhythm voiceNumber staffNumber divisions ++
    stemDirection.toList.map (fun direction => leaf "stem" direction.name) ++
    note.accidental.toList.map (fun accidental => leaf "accidental" accidental.name) ++
    fingeringNotations note.fingering

/-- The id of the element of a rest: that of its source, else of the event. -/
def restElementId (event : ExplicitRestEvent) : String :=
  match event.source.bind (·.musicXmlElementId) with
  | some id => if id = "" then event.id else id
  | none => event.id

def createRestElement (event : ExplicitRestEvent) (voiceNumber staffNumber divisions : Int) : Node :=
  createElement "note" [("id", restElementId event)] <|
    createElement "rest" [] [] :: sharedNoteChildren event.rhythm voiceNumber staffNumber divisions

def createVoiceEventElements (document : ScoreDocument) (event : VoiceEvent) (voice : Voice)
    (divisions : Int) : List Node :=
  let voiceNumber := getVoiceNumber document voice
  let staffNumber := getStaffNumber document event.staffId
  match event with
  | .explicitRest rest => [createRestElement rest voiceNumber staffNumber divisions]
  | .pitched pitched => pitched.notes.mapIdx fun index note =>
    createPitchedNoteElement note
      (if index = 0 then getEventStemDirectionOverride document.notationControls pitched.id
        else none)
      pitched.rhythm voiceNumber staffNumber divisions (decide (0 < index))

/-! ## Measures -/

/-- The loop over the sorted events of a voice: the elements, and the cursor
after them. -/
def createVoiceElements (document : ScoreDocument) (voice : Voice) (divisions : Int) :
    Int → List VoiceEvent → List Node × Int
  | cursor, [] => ([], cursor)
  | cursor, event :: events =>
    let startTicks := rationalToTicks event.position.offset divisions
    let forward :=
      if cursor < startTicks then
        [createForwardElement (startTicks - cursor) (getVoiceNumber document voice)
          (getStaffNumber document event.staffId)]
      else []
    let endTicks := startTicks + rationalToTicks event.rhythm.timelineDuration divisions
    let rest := createVoiceElements document voice divisions (max (max cursor startTicks) endTicks)
      events
    (forward ++ createVoiceEventElements document event voice divisions ++ rest.1, rest.2)

/-- The events of a voice in a measure, as the measure lists them. -/
def getVoiceEvents (document : ScoreDocument) (measure : Measure) (divisions : Int) (voice : Voice) :
    List VoiceEvent :=
  sort (fun left right => rationalToTicks left.position.offset divisions -
      rationalToTicks right.position.offset divisions)
    (document.events.filter fun event =>
      event.voiceId = voice.id ∧ event.position.measureId = measure.id)

/-- The voices of a part, as its measures list them. -/
def getPartVoices (document : ScoreDocument) (part : Part) : List Voice :=
  sort (fun left right => getVoiceNumber document left - getVoiceNumber document right)
    (document.voices.filter (·.partId = part.id))

/-- The loop over the voices of a part. -/
def createVoicesElements (document : ScoreDocument) (measure : Measure) (divisions : Int) :
    Nat → Int → List Voice → List Node
  | _, _, [] => []
  | voiceIndex, previousVoiceCursor, voice :: voices =>
    let elements := createVoiceElements document voice divisions 0
      (getVoiceEvents document measure divisions voice)
    (if 0 < voiceIndex ∧ 0 < previousVoiceCursor then [createBackupElement previousVoiceCursor]
      else []) ++
    elements.1 ++ createVoicesElements document measure divisions (voiceIndex + 1) elements.2 voices

def createAttributesElement (document : ScoreDocument) (part : Part) (divisions : Int)
    (timeSignature : TimeSignature) : Node :=
  let staves := document.staves.filter (·.partId = part.id)
  createElement "attributes" [] <|
    [leaf "divisions" (numberToString divisions),
      createElement "time" [] [leaf "beats" (numberToString timeSignature.beats),
        leaf "beat-type" (numberToString timeSignature.beatType)]] ++
    (if 1 < staves.length then [leaf "staves" (numberToString staves.length)] else [])

def createMeasureElement (document : ScoreDocument) (part : Part) (divisions : Int)
    (timeSignature : TimeSignature) (measureIndex : Nat) (measure : Measure) : Node :=
  createElement "measure" [("number", numberToString measure.number)] <|
    (if measureIndex = 0 then [createAttributesElement document part divisions timeSignature]
      else []) ++
    createVoicesElements document measure divisions 0 0 (getPartVoices document part)

def createPartElement (document : ScoreDocument) (divisions : Int) (timeSignature : TimeSignature)
    (part : Part) : Node :=
  createElement "part" [("id", part.id)]
    (document.measures.mapIdx (createMeasureElement document part divisions timeSignature))

def createScorePartElement (part : Part) : Node :=
  createElement "score-part" [("id", part.id)] [leaf "part-name" part.name]

/-- The tree before the relationships are written into it. -/
def createScoreElement (document : ScoreDocument) (divisions : Int) (timeSignature : TimeSignature) :
    Node :=
  createElement "score-partwise" [("version", "4.0")] <|
    createElement "part-list" [] (document.parts.map createScorePartElement) ::
    document.parts.map (createPartElement document divisions timeSignature)

/-! ## Relationships -/

inductive RelationshipEnd
  | start | stop
  deriving DecidableEq, Repr

def RelationshipEnd.name : RelationshipEnd → String
  | .start => "start" | .stop => "stop"

def isNoteWithId (id : String) (node : Node) : Bool :=
  node.hasTag "note" && node.getAttribute "id" == some id

def findNoteForNoteAtom (xmlDoc : Node) (noteAtomId : NoteAtomId) : Option Node :=
  (xmlDoc.documentQuerySelectorAll ["note"]).find? (·.getAttribute "id" = some noteAtomId)

/-- The document after the note with the given id was changed. -/
def updateNote (noteAtomId : NoteAtomId) (f : Node → Node) (xmlDoc : Node) : Node :=
  (xmlDoc.updateFirst (isNoteWithId noteAtomId) f).getD xmlDoc

def hasType (type : RelationshipEnd) (node : Node) : Bool :=
  node.getAttribute "type" == some type.name

def addTieElement (type : RelationshipEnd) (note : Node) : Node :=
  if (note.childrenNamed "tie").any (hasType type) then note
  else note.mapChildren <|
    insertBefore (hasTag "voice") (createElement "tie" [("type", type.name)] [])

def orientationName : NotationPlacementOverride → String
  | .above => "over" | .below => "under"

/-- `setAttribute('orientation', …)` on the first `tied` of the type. -/
def setOrientation (type : RelationshipEnd) (orientation : String) : List Node → List Node
  | [] => []
  | n :: nodes =>
    if n.hasTag "tied" && hasType type n then
      setAttribute "orientation" orientation n :: nodes
    else n :: setOrientation type orientation nodes

def addTiedNotation (type : RelationshipEnd) (placement : Option NotationPlacementOverride)
    (note : Node) : Node :=
  note.mapChildren <| updateNodeNamed "notations" <| mapChildren fun nodes =>
    let nodes :=
      if nodes.any fun n => n.hasTag "tied" && hasType type n then nodes
      else nodes ++ [createElement "tied" [("type", type.name)] []]
    match type, placement with
    | .start, some placement => setOrientation type (orientationName placement) nodes
    | _, _ => nodes

/-- The attribute `placement` that the start of a slur gets. -/
def placementAttributes : RelationshipEnd → Option NotationPlacementOverride →
    List (String × String)
  | .start, some placement => [("placement", placement.name)]
  | _, _ => []

def createSlurElement (type : RelationshipEnd) (number : Int)
    (placement : Option NotationPlacementOverride) : Node :=
  createElement "slur" ([("type", type.name), ("number", numberToString number)] ++
    placementAttributes type placement) []

def addSlurNotation (type : RelationshipEnd) (number : Int)
    (placement : Option NotationPlacementOverride) (note : Node) : Node :=
  note.mapChildren <| updateNodeNamed "notations" <| mapChildren fun nodes =>
    nodes ++ [createSlurElement type number placement]

def getTiePlacement (document : ScoreDocument) (tieId : TieId) : Option NotationPlacementOverride :=
  match document.notationControls.find? (·.isTieNotation tieId) with
  | some (.tieNotation _ placement) => placement
  | _ => none

def getSlurPlacement (document : ScoreDocument) (notationId : NotationId) :
    Option NotationPlacementOverride :=
  match document.notationControls.find? (·.isSlurNotation notationId) with
  | some (.slurNotation _ placement) => placement
  | _ => none

/-- One pass of the loop of `writeTieRelationships`. -/
def writeTieRelationship (document : ScoreDocument) (xmlDoc : Node)
    (relationship : TieRelationship) : Node :=
  if (findNoteForNoteAtom xmlDoc relationship.startNoteAtomId).isNone ∨
      (findNoteForNoteAtom xmlDoc relationship.stopNoteAtomId).isNone then xmlDoc
  else xmlDoc
    |> updateNote relationship.startNoteAtomId (addTieElement .start)
    |> updateNote relationship.stopNoteAtomId (addTieElement .stop)
    |> updateNote relationship.startNoteAtomId
      (addTiedNotation .start (getTiePlacement document relationship.id))
    |> updateNote relationship.stopNoteAtomId (addTiedNotation .stop none)

def writeTieRelationships (document : ScoreDocument) (xmlDoc : Node) : Node :=
  document.tieRelationships.foldl (writeTieRelationship document) xmlDoc

/-- One pass of the loop of `writeSlurRelationships`. -/
def writeSlurRelationship (document : ScoreDocument) (xmlDoc : Node)
    (relationship : SlurRelationship × Nat) : Node :=
  if (findNoteForNoteAtom xmlDoc relationship.1.startNoteAtomId).isNone ∨
      (findNoteForNoteAtom xmlDoc relationship.1.stopNoteAtomId).isNone then xmlDoc
  else xmlDoc
    |> updateNote relationship.1.startNoteAtomId (addSlurNotation .start (relationship.2 + 1)
      (getSlurPlacement document relationship.1.id))
    |> updateNote relationship.1.stopNoteAtomId (addSlurNotation .stop (relationship.2 + 1) none)

def writeSlurRelationships (document : ScoreDocument) (xmlDoc : Node) : Node :=
  document.slurRelationships.zipIdx.foldl (writeSlurRelationship document) xmlDoc

/-- The id of the note that `findRootNoteForEvent` finds. -/
def findRootNoteForEvent (xmlDoc : Node) (document : ScoreDocument) (eventId : EventId) :
    Option NoteAtomId :=
  match document.events.find? (·.id = eventId) with
  | some (.pitched event) =>
    match event.notes.head? with
    | some root =>
      if root.id ≠ "" ∧ (findNoteForNoteAtom xmlDoc root.id).isSome then some root.id else none
    | none => none
  | _ => none

def isLevelOneBeam (node : Node) : Bool :=
  node.hasTag "beam" && parseInt ((node.getAttribute "number").getD "1") == some 1

def setLevelOneBeam (text : String) (note : Node) : Node :=
  note.mapChildren fun nodes =>
    insertAfter (hasTag "staff")
      (createElement "beam" [("number", "1")] (textNodes text)) (nodes.filter (!isLevelOneBeam ·))

/-- The text of the beam at a position among `length` notes. -/
def beamText (length index : Nat) : String :=
  if index = 0 then "begin" else if index + 1 = length then "end" else "continue"

/-- One pass of the loop of `writeBeamRelationships`. -/
def writeBeamRelationship (document : ScoreDocument) (xmlDoc : Node)
    (relationship : BeamRelationship) : Node :=
  let roots := relationship.eventIds.filterMap (findRootNoteForEvent xmlDoc document)
  if roots.length < 2 then xmlDoc
  else roots.zipIdx.foldl
    (fun xmlDoc root => updateNote root.1 (setLevelOneBeam (beamText roots.length root.2)) xmlDoc)
    xmlDoc

def writeBeamRelationships (document : ScoreDocument) (xmlDoc : Node) : Node :=
  document.beamRelationships.foldl (writeBeamRelationship document) xmlDoc

/-- The tree of the text that the source's `serializeXml` makes. -/
def serializeXml (xmlDoc : Node) : Node := xmlDoc.breakLines

def exportEditorDomainToMusicXml (document : ScoreDocument) (options : MusicXmlExportOptions) :
    Node :=
  let divisions := options.divisions.getD 4
  let timeSignature := options.timeSignature.getD ⟨4, 4⟩
  createScoreElement document divisions timeSignature
    |> writeTieRelationships document
    |> writeSlurRelationships document
    |> writeBeamRelationships document
    |> serializeXml

end NoteVerse.Editor

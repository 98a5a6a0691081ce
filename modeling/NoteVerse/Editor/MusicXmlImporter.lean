import NoteVerse.Editor.Model
import NoteVerse.Lib.JsMap
import NoteVerse.Lib.JsNumber
import NoteVerse.Lib.Xml

/-!
# Reading MusicXML

`lib/editor-domain/musicxml-importer.ts`. The importer walks the parts and
measures of a document with one cursor a measure. Where the source keeps a
reference to an event or a note atom in order to change it later, the state
here keeps its place among the events.
-/

namespace NoteVerse.Editor.MusicXmlImporter

open Js Xml Xml.Node

/-- The place of a note atom: its event, and the atom among the event's. -/
structure NoteRef where
  event : Nat
  note : Nat
  deriving DecidableEq, Repr

/-- An entry of `tieStartByKey` or `slurStartByKey`. -/
structure OpenStart where
  atomId : NoteAtomId
  atom : NoteRef
  placement : Option NotationPlacementOverride
  deriving DecidableEq, Repr

structure ImportState where
  parts : List Part
  staves : JsMap StaffId Staff
  voices : JsMap VoiceId Voice
  measures : JsMap MeasureId Measure
  events : List VoiceEvent
  gaps : List TimelineGap
  beamRelationships : List BeamRelationship
  tieRelationships : List TieRelationship
  slurRelationships : List SlurRelationship
  notationControls : List NotationControl
  beamRunByVoiceId : JsMap VoiceId (List EventId)
  beamCounter : Nat
  tieStartByKey : JsMap String OpenStart
  tieCounter : Nat
  slurStartByKey : JsMap String OpenStart
  slurCounter : Nat

def ImportState.initial : ImportState :=
  ⟨[], .empty, .empty, .empty, [], [], [], [], [], [], .empty, 0, .empty, 0, .empty, 0⟩

structure MusicXmlImportResult where
  document : ScoreDocument
  gaps : List TimelineGap

/-! ## Numbers -/

def getPositiveInt (value : Option String) (fallback : Int) : Int :=
  match parseInt (value.getD "") with
  | some parsed => if 0 < parsed then parsed else fallback
  | none => fallback

def getOptionalInt (value : Option String) : Option Int := parseInt (value.getD "")

def greatestCommonDivisor (left right : Int) : Int :=
  if Int.gcd left right = 0 then 1 else Int.gcd left right

def normalizeRational (value : Rational) (fallbackDenominator : Int) : Rational :=
  let denominator := if 0 < value.denominator then value.denominator else fallbackDenominator
  if value.numerator = 0 then ⟨0, 1⟩
  else
    let divisor := greatestCommonDivisor value.numerator.natAbs denominator
    ⟨value.numerator / divisor, denominator / divisor⟩

def durationTicksToQuarterRational (durationTicks divisions : Int) : Rational :=
  normalizeRational ⟨durationTicks, divisions⟩ 1

def getDurationTicks (element : Node) : Int := getPositiveInt (element.pathText ["duration"]) 0

def getMeasureDivisions (measureElement : Node) : Int :=
  getPositiveInt (measureElement.pathText ["attributes", "divisions"]) 1

def getMeasureDuration (measureElement : Node) (divisions : Int) : Rational :=
  let beats := getPositiveInt (measureElement.pathText ["attributes", "time", "beats"]) 4
  let beatType := getPositiveInt (measureElement.pathText ["attributes", "time", "beat-type"]) 4
  normalizeRational ⟨beats * 4, beatType⟩ divisions

/-! ## Values of a note -/

def toDurationBase (value : Option String) : DurationBase :=
  match value with
  | some "whole" => .whole
  | some "half" => .half
  | some "quarter" => .quarter
  | some "eighth" => .eighth
  | some "16th" => .sixteenth
  | some "32nd" => .thirtySecond
  | some "64th" => .sixtyFourth
  | _ => .quarter

def toRhythmicValue (note : Node) (durationTicks divisions : Int) : RhythmicValue where
  timelineDuration := durationTicksToQuarterRational durationTicks divisions
  rhythmNotation :=
    ⟨toDurationBase ((note.pathText ["type"]).map trim), (note.childrenNamed "dot").length⟩
  tupletId := none

def toPitchStep (value : Option String) : Option PitchStep :=
  match value with
  | some "C" => some .C
  | some "D" => some .D
  | some "E" => some .E
  | some "F" => some .F
  | some "G" => some .G
  | some "A" => some .A
  | some "B" => some .B
  | _ => none

def toPitch (note : Node) : Option Pitch :=
  (toPitchStep ((note.pathText ["pitch", "step"]).map trim)).map fun step =>
    ⟨step, getPositiveInt (note.pathText ["pitch", "octave"]) 4,
      getOptionalInt (note.pathText ["pitch", "alter"])⟩

def toAccidental (value : Option String) : Option Accidental :=
  match value with
  | some "flat-flat" => some .flatFlat
  | some "flat" => some .flat
  | some "natural" => some .natural
  | some "sharp" => some .sharp
  | some "double-sharp" => some .doubleSharp
  | _ => none

def toStemDirectionOverride (value : Option String) : Option StemDirectionOverride :=
  match value with
  | some "up" => some .up
  | some "down" => some .down
  | some "none" => some .none
  | some "double" => some .double
  | _ => none

/-- `FINGERING_TEXT_MAP[text] ?? text`. -/
def mapFingeringText : String → String
  | "\u2460" => "1"
  | "\u2461" => "2"
  | "\u2462" => "3"
  | "\u2463" => "4"
  | "\u2464" => "5"
  | value => value

def normalizeFingeringText (value : Option String) : Option String :=
  match value.map trim with
  | none => none
  | some normalized =>
    if normalized = "" then none
    else if mapFingeringText normalized ∈ ["1", "2", "3", "4", "5"] then
      some (mapFingeringText normalized)
    else none

/-- `note.getAttribute('id') || undefined`. -/
def getSourceId (note : Node) : Option String := (note.getAttribute "id").filter (· ≠ "")

def toNoteAtom (note : Node) (fallbackId : String) : Option NoteAtom :=
  (toPitch note).map fun pitch =>
    { id := (getSourceId note).getD fallbackId
      pitch
      accidental := toAccidental ((note.pathText ["accidental"]).map trim)
      fingering := normalizeFingeringText (note.pathText ["notations", "technical", "fingering"])
      tieIn := none
      tieOut := none
      source := some ⟨getSourceId note⟩ }

def toTiePlacement (orientation : Option String) : Option NotationPlacementOverride :=
  match orientation with
  | some "over" => some .above
  | some "under" => some .below
  | _ => none

def toSlurPlacement (placement : Option String) : Option NotationPlacementOverride :=
  match placement with
  | some "above" => some .above
  | some "below" => some .below
  | _ => none

def hasTypeNamed (type : String) (node : Node) : Bool := node.getAttribute "type" == some type

/-! ## Staves and voices -/

def toStaffId (partId : PartId) (staffNumber : Int) : StaffId :=
  partId ++ ":staff-" ++ numberToString staffNumber

def toVoiceId (partId : PartId) (voiceNumber : Int) : VoiceId :=
  partId ++ ":voice-" ++ numberToString voiceNumber

def toMeasureId (partId : PartId) (measureNumber : Int) : MeasureId :=
  partId ++ ":measure-" ++ numberToString measureNumber

/-- `${partId}-m${measureIndex + 1}-${kind}`, with `kind` the letter or name
and the number that end the id. -/
def toMeasureItemId (partId : PartId) (measureIndex : Nat) (kind : String) (number : Nat) :
    String :=
  partId ++ "-m" ++ numberToString (measureIndex + 1) ++ kind ++ numberToString number

def ensureStaff (state : ImportState) (partId : PartId) (staffNumber : Int) : ImportState :=
  let staffId := toStaffId partId staffNumber
  if state.staves.has staffId then state
  else { state with staves := state.staves.set staffId ⟨staffId, partId, staffNumber - 1⟩ }

def ensureVoice (state : ImportState) (partId : PartId) (staffId : StaffId) (voiceNumber : Int) :
    ImportState :=
  let voiceId := toVoiceId partId voiceNumber
  if state.voices.has voiceId then state
  else { state with voices := state.voices.set voiceId ⟨voiceId, partId, staffId, .automatic⟩ }

/-! ## Relationships -/

/-- `f` on the note atom at a place. -/
def modifyNote (ref : NoteRef) (f : NoteAtom → NoteAtom) (events : List VoiceEvent) :
    List VoiceEvent :=
  events.modify ref.event fun
    | .pitched event => .pitched { event with notes := event.notes.modify ref.note f }
    | .explicitRest event => .explicitRest event

def getTieKey (atom : NoteAtom) (staffNumber : Int) (voiceId : VoiceId) : String :=
  ":".intercalate [voiceId, numberToString staffNumber, atom.pitch.step.name,
    numberToString (atom.pitch.alter.getD 0), numberToString atom.pitch.octave]

def hasTie (type : String) (note : Node) : Bool := (note.childrenNamed "tie").any (hasTypeNamed type)

/-- The branch of `addTieRelationshipEvent` for a note that stops a tie. -/
def stopTie (state : ImportState) (atom : NoteAtom) (ref : NoteRef) (tieKey : String)
    (partId : PartId) (measureIndex : Nat) : Throws ImportState :=
  match state.tieStartByKey.get tieKey with
  | none => pure state
  | some start => do
    let tieCounter := state.tieCounter + 1
    let tieId := toMeasureItemId partId measureIndex "-tie-" tieCounter
    let relationship ← createTieRelationship tieId start.atomId atom.id
    return { state with
      events := state.events
        |> modifyNote start.atom (fun atom => { atom with tieOut := some tieId })
        |> modifyNote ref (fun atom => { atom with tieIn := some tieId })
      tieCounter
      tieRelationships := state.tieRelationships ++ [relationship]
      notationControls := state.notationControls ++
        (start.placement.toList.map fun placement => .tieNotation tieId (some placement))
      tieStartByKey := state.tieStartByKey.delete tieKey }

/-- The branch of `addTieRelationshipEvent` for a note that starts a tie. -/
def startTie (state : ImportState) (atom : NoteAtom) (ref : NoteRef) (tieKey : String)
    (note : Node) : ImportState :=
  let tied := (note.path ["notations", "tied"]).find? (hasTypeNamed "start")
  { state with
    tieStartByKey := state.tieStartByKey.set tieKey
      ⟨atom.id, ref, toTiePlacement (tied.bind (·.getAttribute "orientation"))⟩ }

def addTieRelationshipEvent (state : ImportState) (atom : NoteAtom) (ref : NoteRef)
    (staffNumber : Int) (voiceId : VoiceId) (note : Node) (partId : PartId) (measureIndex : Nat) :
    Throws ImportState :=
  let tieKey := getTieKey atom staffNumber voiceId
  (if hasTie "stop" note then stopTie state atom ref tieKey partId measureIndex
    else pure state) >>= fun state =>
  pure (if hasTie "start" note then startTie state atom ref tieKey note else state)

/-- `Number.parseInt(slur.getAttribute('number') ?? '1', 10) || 1`. -/
def getSlurNumber (slur : Node) : Int :=
  match parseInt ((slur.getAttribute "number").getD "1") with
  | some number => if number = 0 then 1 else number
  | none => 1

def getSlurKey (staffNumber : Int) (slur : Node) : String :=
  numberToString staffNumber ++ ":" ++ numberToString (getSlurNumber slur)

/-- The loop of `addSlurRelationshipEvent`. -/
def addSlur (atom : NoteAtom) (ref : NoteRef) (staffNumber : Int) (partId : PartId)
    (measureIndex : Nat) (state : ImportState) (slur : Node) : Throws ImportState := do
  let type := slur.getAttribute "type"
  let slurKey := getSlurKey staffNumber slur
  if type = some "stop" then
    match state.slurStartByKey.get slurKey with
    | none => return state
    | some start =>
      let slurCounter := state.slurCounter + 1
      let slurId := toMeasureItemId partId measureIndex "-slur-" slurCounter
      let relationship ← createSlurRelationship slurId start.atomId atom.id
      return { state with
        slurCounter
        slurRelationships := state.slurRelationships ++ [relationship]
        notationControls := state.notationControls ++
          (start.placement.toList.map fun placement => .slurNotation slurId (some placement))
        slurStartByKey := state.slurStartByKey.delete slurKey }
  else if type = some "start" then
    return { state with
      slurStartByKey := state.slurStartByKey.set slurKey
        ⟨atom.id, ref, toSlurPlacement (slur.getAttribute "placement")⟩ }
  else return state

def addSlurRelationshipEvent (state : ImportState) (atom : NoteAtom) (ref : NoteRef)
    (staffNumber : Int) (note : Node) (partId : PartId) (measureIndex : Nat) :
    Throws ImportState :=
  (note.path ["notations", "slur"]).foldlM (addSlur atom ref staffNumber partId measureIndex) state

def getLevelOneBeamElement (note : Node) : Option Node :=
  (note.childrenNamed "beam").find? fun beam =>
    parseInt ((beam.getAttribute "number").getD "1") = some 1

def addBeamRelationshipEvent (state : ImportState) (eventId : EventId) (voiceId : VoiceId)
    (note : Node) (partId : PartId) (measureIndex : Nat) : Throws ImportState :=
  match (getLevelOneBeamElement note).map fun beam => trim beam.textContent with
  | some "begin" =>
    return { state with beamRunByVoiceId := state.beamRunByVoiceId.set voiceId [eventId] }
  | some "continue" =>
    match state.beamRunByVoiceId.get voiceId with
    | none => return state
    | some run =>
      return { state with
        beamRunByVoiceId := state.beamRunByVoiceId.set voiceId (run ++ [eventId]) }
  | some "end" =>
    match state.beamRunByVoiceId.get voiceId with
    | none => return state
    | some run => do
      let run := run ++ [eventId]
      let state := { state with beamRunByVoiceId := state.beamRunByVoiceId.delete voiceId }
      if run.length < 2 then return state
      let beamCounter := state.beamCounter + 1
      let relationship ←
        createBeamRelationship (toMeasureItemId partId measureIndex "-beam-" beamCounter) run
      return { state with
        beamCounter, beamRelationships := state.beamRelationships ++ [relationship] }
  | _ => return state

def addStemNotationControl (state : ImportState) (eventId : EventId) (note : Node) : ImportState :=
  match toStemDirectionOverride ((note.pathText ["stem"]).map trim) with
  | none => state
  | some stemDirection =>
    { state with
      notationControls := state.notationControls ++ [.eventNotation eventId (some stemDirection)] }

/-! ## Measures -/

/-- What does not change while a measure is read. -/
structure MeasureContext where
  partId : PartId
  measureIndex : Nat
  measureId : MeasureId
  divisions : Int
  deriving DecidableEq, Repr

/-- `lastEventByVoice` keeps the places of events. -/
structure MeasureState where
  state : ImportState
  cursorTicks : Int
  lastEventByVoice : JsMap VoiceId Nat

/-- `previous.notes.push(atom)`, and the id of the atom's element in
`previous.source`. -/
def pushNote (atom : NoteAtom) : VoiceEvent → VoiceEvent
  | .pitched event => .pitched { event with
      notes := event.notes ++ [atom]
      source :=
        match atom.source.bind (·.musicXmlElementId) with
        | some id => some (event.source.getD [] ++ [id])
        | none => event.source }
  | .explicitRest event => .explicitRest event

/-- A note with a `chord` element. -/
def importChordMember (context : MeasureContext) (m : MeasureState) (note : Node)
    (atom : Option NoteAtom) (staffNumber : Int) (voiceId : VoiceId) : Throws MeasureState :=
  match m.lastEventByVoice.get voiceId, atom with
  | some previous, some atom => do
    let ref := ⟨previous, ((m.state.events[previous]?.map VoiceEvent.notes).getD []).length⟩
    let state := { m.state with events := m.state.events.modify previous (pushNote atom) }
    let state ← addTieRelationshipEvent state atom ref staffNumber voiceId note context.partId
      context.measureIndex
    let state ← addSlurRelationshipEvent state atom ref staffNumber note context.partId
      context.measureIndex
    return { m with state }
  | _, _ => return m

/-- A note with a `rest` element. -/
def importRest (m : MeasureState) (rest : ExplicitRestEvent) (durationTicks : Int) : MeasureState :=
  { m with
    state := { m.state with events := m.state.events ++ [createExplicitRestEvent rest] }
    cursorTicks := m.cursorTicks + durationTicks }

/-- The first note of an event. -/
def importRootNote (context : MeasureContext) (m : MeasureState) (note : Node)
    (input : PitchedEvent) (atom : NoteAtom) (staffNumber durationTicks : Int) :
    Throws MeasureState := do
  let event ← createPitchedEvent input
  let ref := ⟨m.state.events.length, 0⟩
  let state := { m.state with events := m.state.events ++ [event] }
  let state := addStemNotationControl state event.id note
  let state ← addTieRelationshipEvent state atom ref staffNumber input.voiceId note context.partId
    context.measureIndex
  let state ← addSlurRelationshipEvent state atom ref staffNumber note context.partId
    context.measureIndex
  let state ← addBeamRelationshipEvent state event.id input.voiceId note context.partId
    context.measureIndex
  return {
    state
    cursorTicks := m.cursorTicks + durationTicks
    lastEventByVoice := m.lastEventByVoice.set input.voiceId ref.event }

def importNote (context : MeasureContext) (m : MeasureState) (note : Node) (nodeIndex : Nat) :
    Throws MeasureState :=
  let staffNumber := getPositiveInt (note.pathText ["staff"]) 1
  let voiceNumber := getPositiveInt (note.pathText ["voice"]) 1
  let staffId := toStaffId context.partId staffNumber
  let voiceId := toVoiceId context.partId voiceNumber
  let state := ensureVoice (ensureStaff m.state context.partId staffNumber) context.partId staffId
    voiceNumber
  let m := { m with state }
  let durationTicks := getDurationTicks note
  let rhythm := toRhythmicValue note durationTicks context.divisions
  let position :=
    ⟨context.measureId, durationTicksToQuarterRational m.cursorTicks context.divisions⟩
  let eventId := toMeasureItemId context.partId context.measureIndex "-e" (nodeIndex + 1)
  let atom := toNoteAtom note
    (toMeasureItemId context.partId context.measureIndex "-n" (nodeIndex + 1))
  if note.childrenNamed "chord" ≠ [] then
    importChordMember context m note atom staffNumber voiceId
  else
    let m := { m with lastEventByVoice := m.lastEventByVoice.delete voiceId }
    if note.childrenNamed "rest" ≠ [] then
      return importRest m ⟨eventId, voiceId, staffId, position, rhythm, some ⟨getSourceId note⟩⟩
        durationTicks
    else
      match atom with
      | none => return { m with cursorTicks := m.cursorTicks + durationTicks }
      | some atom =>
        importRootNote context m note
          ⟨eventId, voiceId, staffId, position, rhythm, [atom],
            some (atom.source.bind (·.musicXmlElementId)).toList⟩
          atom staffNumber durationTicks

/-- One pass of the loop over the child nodes of a measure. -/
def importNode (context : MeasureContext) (m : MeasureState) (node : Node × Nat) :
    Throws MeasureState :=
  if node.1.hasTag "forward" then
    return { m with cursorTicks := m.cursorTicks + getDurationTicks node.1 }
  else if node.1.hasTag "backup" then
    return { m with cursorTicks := max 0 (m.cursorTicks - getDurationTicks node.1) }
  else if node.1.hasTag "note" then importNote context m node.1 node.2
  else return m

/-- `Number.parseInt(measureElement.getAttribute('number') || …, 10)`, or the
place of the measure where that is not finite. -/
def getMeasureNumber (measureElement : Node) (measureIndex : Nat) : Int :=
  match ((measureElement.getAttribute "number").filter (· ≠ "")).map parseInt with
  | some (some measureNumber) => measureNumber
  | _ => measureIndex + 1

def getMeasureContext (partId : PartId) (measureElement : Node × Nat) : MeasureContext where
  partId
  measureIndex := measureElement.2
  measureId := toMeasureId partId (getMeasureNumber measureElement.1 measureElement.2)
  divisions := getMeasureDivisions measureElement.1

def setMeasure (partId : PartId) (measureNumber : Int) (state : ImportState) : ImportState :=
  let measureId := toMeasureId partId measureNumber
  { state with measures := state.measures.set measureId ⟨measureId, measureNumber⟩ }

/-- One pass of the loop of `importPartMeasures`. -/
def importMeasure (partId : PartId) (state : ImportState) (measureElement : Node × Nat) :
    Throws ImportState := do
  let context := getMeasureContext partId measureElement
  let measureDuration := getMeasureDuration measureElement.1 context.divisions
  let m ← measureElement.1.childNodes.zipIdx.foldlM (importNode context)
    ⟨setMeasure partId (getMeasureNumber measureElement.1 measureElement.2) state, 0, .empty⟩
  let measureEvents := m.state.events.drop state.events.length
  let voiceGaps ← m.state.voices.values.mapM fun voice =>
    deriveTimelineGaps measureEvents ⟨context.measureId, voice.homeStaffId, voice.id⟩
      measureDuration
  return { m.state with gaps := m.state.gaps ++ voiceGaps.flatten }

def importPartMeasures (state : ImportState) (partElement : Node) (partId : PartId) :
    Throws ImportState :=
  (partElement.childrenNamed "measure").zipIdx.foldlM (importMeasure partId) state

/-! ## Parts -/

/-- The attribute `id` of a part or a score-part, or one for its place. -/
def getPartId (partElement : Node) (partIndex : Nat) : PartId :=
  ((partElement.getAttribute "id").filter (· ≠ "")).getD
    ("part-" ++ numberToString (partIndex + 1))

def getPartNames (xmlDoc : Node) : JsMap PartId String :=
  (xmlDoc.documentQuerySelectorAll ["part-list", "score-part"]).zipIdx.foldl
    (fun names scorePart =>
      match (scorePart.1.pathText ["part-name"]).map trim with
      | some name => if name = "" then names else names.set (getPartId scorePart.1 scorePart.2) name
      | none => names)
    .empty

/-- One pass of the loop over the parts. -/
def importPart (partNames : JsMap PartId String) (state : ImportState) (partElement : Node × Nat) :
    Throws ImportState :=
  let partId := getPartId partElement.1 partElement.2
  let part := ⟨partId, (partNames.get partId).getD ("Part " ++ numberToString (partElement.2 + 1))⟩
  importPartMeasures { state with parts := state.parts ++ [part] } partElement.1 partId

def parseMusicXml (xml : Node) : Throws Node :=
  if xml.documentQuerySelectorAll ["parsererror"] ≠ [] then throw "Failed to parse MusicXML."
  else pure xml

/-- The selector `score-partwise > part, part`. -/
def getPartElements (xmlDoc : Node) : List Node := xmlDoc.documentQuerySelectorAll ["part"]

def ImportState.toDocument (state : ImportState) : ScoreDocument where
  id := "score-document-1"
  parts := state.parts
  staves := state.staves.values
  voices := state.voices.values
  measures := state.measures.values
  events := state.events
  beamRelationships := state.beamRelationships
  tieRelationships := state.tieRelationships
  slurRelationships := state.slurRelationships
  notationControls := state.notationControls

end MusicXmlImporter

open Js Xml Xml.Node MusicXmlImporter

/-- The text is given by the tree that the parser reads from it. -/
def importMusicXmlToEditorDomain (xml : Node) : Throws MusicXmlImportResult := do
  let xmlDoc ← parseMusicXml xml
  let state ← (getPartElements xmlDoc).zipIdx.foldlM (importPart (getPartNames xmlDoc)) .initial
  return ⟨state.toDocument, state.gaps⟩

end NoteVerse.Editor

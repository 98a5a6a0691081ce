import NoteVerse.Lib.Rounding
import NoteVerse.Practice.ScoreMetadata

/-!
# Metadata of a score

`processing/musicxml/metadata.py` on the element tree of a score. Numbers are exact: a
duration or a tempo is the rational number that its text writes.
-/

namespace NoteVerse.MusicXml.Metadata

open Xml
open Practice.ScoreTimeline (elements leadingText directChildrenByLocalName)

def extractorVersion : String := "musicxml-metadata-v1"

def defaultTempoBpm : ℚ := 120

structure MetadataExtractionError where
  message : String
  deriving DecidableEq, Repr

structure KeyEvent where
  part : ℕ
  measure : String
  fifths : ℤ
  mode : String
  deriving DecidableEq, Repr

structure TimeEvent where
  part : ℕ
  measure : String
  beats : ℤ
  beatType : ℤ
  deriving DecidableEq, Repr

structure TempoEvent where
  part : ℕ
  measure : String
  offsetQuarters : ℚ
  bpm : ℚ
  deriving DecidableEq, Repr

structure MusicXMLMetadata where
  measureCount : ℕ
  playbackDurationMs : ℤ
  partCount : ℕ
  primaryKeyFifths : Option ℤ
  primaryMode : Option String
  keySignatureEvents : List KeyEvent
  timeSignatureEvents : List TimeEvent
  tempoEvents : List TempoEvent
  extractorVersion : String
  deriving DecidableEq, Repr

/-! ## Elements -/

/-- `_name` -/
def name (element : Node) : String := Practice.ScoreTimeline.localName element.tagName

/-- `_children` -/
def children (element : Node) (childName : String) : List Node :=
  directChildrenByLocalName element childName

/-- `_child` -/
def child (element : Node) (childName : String) : Option Node :=
  (children element childName).head?

/-- `element.text`, which is missing where it would be empty. -/
def ownText (element : Node) : Option String :=
  if leadingText element = "" then none else some (leadingText element)

/-- `_text` -/
def text (element : Node) (childName : String) : Option String :=
  (child element childName).bind ownText

/-- `element.get(name)`, where an empty value counts as missing. -/
def attributeText (element : Node) (attributeName : String) : Option String :=
  (element.getAttribute attributeName).filter (· ≠ "")

/-- `element.iter()` -/
def iter (element : Node) : List Node := (Node.elementsOf [] element).map Prod.snd

/-! ## Numbers -/

/-- `_required_int` -/
def requiredInt (value : Option String) (code : String) : Except MetadataExtractionError ℤ :=
  match Python.int? (value.getD "") with
  | none => .error ⟨code⟩
  | some parsed => .ok parsed

/-- `_positive_int` -/
def positiveInt (value : Option String) (code : String) : Except MetadataExtractionError ℤ := do
  let parsed ← requiredInt value code
  if parsed ≤ 0 then throw ⟨code⟩
  return parsed

/-- `_positive_float` -/
def positiveFloat (value : Option String) (code : String) (allowZero : Bool) :
    Except MetadataExtractionError ℚ :=
  match Python.float? (value.getD "") with
  | none => .error ⟨code⟩
  | some parsed =>
    if parsed < 0 ∨ (parsed = 0 ∧ ¬allowZero) then .error ⟨code⟩ else .ok parsed

/-- `_duration` -/
def duration (element : Node) (divisions : ℤ) : Except MetadataExtractionError ℚ :=
  match text element "duration" with
  | none => .ok 0
  | some value => do
    let parsed ← positiveFloat (some value) "invalid_duration" true
    return parsed / divisions

/-- `_direction_tempo` -/
def directionTempo (direction : Node) : Except MetadataExtractionError (Option ℚ) :=
  let sound := (iter direction).findSome? fun descendant =>
    if name descendant = "sound" then attributeText descendant "tempo" else none
  match sound with
  | some tempo => some <$> positiveFloat (some tempo) "invalid_tempo" false
  | none =>
    let perMinute := (iter direction).findSome? fun descendant =>
      if name descendant = "per-minute" then ownText descendant else none
    match perMinute with
    | some tempo => some <$> positiveFloat (some tempo) "invalid_tempo" false
    | none => .ok none

/-! ## The measures -/

/-- The variables of the loop over the children of a measure. -/
structure Reading where
  divisions : ℤ
  cursor : ℚ
  maximum : ℚ
  measureTempos : List (ℚ × ℚ)
  keyEvents : List KeyEvent
  timeEvents : List TimeEvent
  tempoEvents : List TempoEvent

def readKey (part : ℕ) (measureNumber : String) (key : Node) :
    Except MetadataExtractionError KeyEvent := do
  let fifths ← requiredInt (text key "fifths") "invalid_key_fifths"
  let mode := (Python.strip ((text key "mode").getD "major")).toLower
  return ⟨part, measureNumber, fifths, mode⟩

def readTime (part : ℕ) (measureNumber : String) (time : Node) :
    Except MetadataExtractionError TimeEvent := do
  let beats ← positiveInt (text time "beats") "invalid_time_beats"
  let beatType ← positiveInt (text time "beat-type") "invalid_time_beat_type"
  return ⟨part, measureNumber, beats, beatType⟩

def readDivisions (divisions : ℤ) (attributes : Node) : Except MetadataExtractionError ℤ :=
  match text attributes "divisions" with
  | none => .ok divisions
  | some value => positiveInt (some value) "invalid_divisions"

def readChild (part : ℕ) (measureNumber : String) (r : Reading) (el : Node) :
    Except MetadataExtractionError Reading :=
  if name el = "attributes" then do
    let divisions ← readDivisions r.divisions el
    let keys ← (children el "key").mapM (readKey part measureNumber)
    let times ← (children el "time").mapM (readTime part measureNumber)
    return { r with
      divisions
      keyEvents := r.keyEvents ++ keys
      timeEvents := r.timeEvents ++ times }
  else if name el = "direction" then do
    match ← directionTempo el with
    | none => return r
    | some tempo =>
      if tempo ≤ 0 then throw ⟨"invalid_tempo"⟩
      return { r with
        tempoEvents :=
          r.tempoEvents ++ [⟨part, measureNumber, Rounding.round 6 r.cursor, tempo⟩]
        measureTempos := r.measureTempos ++ [(r.cursor, tempo)] }
  else if name el = "backup" then do
    let d ← duration el r.divisions
    return { r with cursor := max 0 (r.cursor - d) }
  else if name el = "forward" then do
    let d ← duration el r.divisions
    return { r with cursor := r.cursor + d, maximum := max r.maximum (r.cursor + d) }
  else if name el = "note" then do
    let d ← duration el r.divisions
    if (child el "chord").isNone then
      return { r with cursor := r.cursor + d, maximum := max r.maximum (r.cursor + d) }
    else return r
  else return r

/-- The loop body of `_repeat_markers`, with `forward`, `backward` and `times`. -/
def markStep (marks : Bool × Bool × ℤ) (barline : Node) :
    Except MetadataExtractionError (Bool × Bool × ℤ) :=
  match child barline "repeat" with
  | none => .ok marks
  | some mark => do
    let direction := mark.getAttribute "direction"
    let forward := marks.1 || direction == some "forward"
    let backward := marks.2.1 || direction == some "backward"
    match direction == some "backward", attributeText mark "times" with
    | true, some value =>
      let times ← positiveInt (some value) "invalid_repeat_times"
      return (forward, backward, times)
    | _, _ => return (forward, backward, marks.2.2)

/-- `_repeat_markers` -/
def repeatMarkers (measure : Node) : Except MetadataExtractionError (Bool × Bool × ℤ) :=
  (children measure "barline").foldlM markStep (false, false, 2)

/-- The variables of the loop over the parts. -/
structure Extraction where
  keyEvents : List KeyEvent
  timeEvents : List TimeEvent
  tempoEvents : List TempoEvent
  measureDurations : List ℚ
  firstPartTempos : List (List (ℚ × ℚ))
  firstPartRepeats : List (Bool × Bool × ℤ)
  deriving DecidableEq

def readMeasure (partIndex : ℕ) (s : Extraction × ℤ) (measure : Node × ℕ) :
    Except MetadataExtractionError (Extraction × ℤ) := do
  let measureNumber := (attributeText measure.1 "number").getD (toString (measure.2 + 1))
  let r ← (elements measure.1).foldlM (readChild (partIndex + 1) measureNumber)
    ⟨s.2, 0, 0, [], s.1.keyEvents, s.1.timeEvents, s.1.tempoEvents⟩
  let e := { s.1 with
    keyEvents := r.keyEvents
    timeEvents := r.timeEvents
    tempoEvents := r.tempoEvents
    measureDurations := s.1.measureDurations.modify measure.2 (max · r.maximum) }
  if partIndex = 0 then do
    let marks ← repeatMarkers measure.1
    return ({ e with
      firstPartTempos := e.firstPartTempos ++ [r.measureTempos]
      firstPartRepeats := e.firstPartRepeats ++ [marks] }, r.divisions)
  else return (e, r.divisions)

def readPart (e : Extraction) (part : List Node × ℕ) :
    Except MetadataExtractionError Extraction :=
  Prod.fst <$> part.1.zipIdx.foldlM (readMeasure part.2) (e, 1)

/-! ## The duration -/

/-- The loop body of `_playback_order`, with `order` and `repeat_start`. -/
def orderStep (s : List ℕ × ℕ) (mark : (Bool × Bool × ℤ) × ℕ) : List ℕ × ℕ :=
  let index := mark.2
  let repeatStart := if mark.1.1 then index else s.2
  let order := s.1 ++ [index]
  if mark.1.2.1 then
    (order ++ (List.replicate (max 1 mark.1.2.2 - 1).toNat
      (List.range' repeatStart (index + 1 - repeatStart))).flatten, index + 1)
  else (order, repeatStart)

/-- `_playback_order` -/
def playbackOrder (repeats : List (Bool × Bool × ℤ)) : List ℕ :=
  (repeats.zipIdx.foldl orderStep ([], 0)).1

/-- The order of tuples. -/
def tupleLe (a b : ℚ × ℚ) : Prop := a.1 < b.1 ∨ (a.1 = b.1 ∧ a.2 ≤ b.2)

instance : DecidableRel tupleLe := fun a b =>
  inferInstanceAs (Decidable (a.1 < b.1 ∨ (a.1 = b.1 ∧ a.2 ≤ b.2)))

/-- The loop over the tempos of the measures that makes `linear_start_tempos`. -/
def linearStartTempos (tempo : ℚ) : List (List (ℚ × ℚ)) → List ℚ
  | [] => []
  | events :: measures =>
    tempo :: linearStartTempos ((events.getLast?.map Prod.snd).getD tempo) measures

/-- A tempo change of the inner loop: the seconds so far, the cursor and the tempo. -/
def tempoStep (measureDuration : ℚ) (s : ℚ × ℚ × ℚ) (event : ℚ × ℚ) : ℚ × ℚ × ℚ :=
  let bounded := min (max event.1 s.2.1) measureDuration
  (s.1 + (bounded - s.2.1) * 60 / s.2.2, bounded, event.2)

def measureSeconds (measureDuration tempo totalSeconds : ℚ) (tempos : List (ℚ × ℚ)) : ℚ :=
  let s := (tempos.insertionSort tupleLe).foldl (tempoStep measureDuration) (totalSeconds, 0, tempo)
  s.1 + max 0 (measureDuration - s.2.1) * 60 / s.2.2

/-- `total_seconds` of `_playback_duration_ms` -/
def totalSeconds (order : List ℕ) (durations : List ℚ) (tempos : List (List (ℚ × ℚ))) : ℚ :=
  let starts := linearStartTempos defaultTempoBpm
    ((List.range durations.length).map fun index => tempos.getD index [])
  order.foldl (fun total index =>
    measureSeconds (durations.getD index 0) (starts.getD index 0) total (tempos.getD index [])) 0

/-- `_playback_duration_ms` -/
def playbackDurationMs (order : List ℕ) (durations : List ℚ) (tempos : List (List (ℚ × ℚ))) : ℤ :=
  Rounding.roundHalfEven (totalSeconds order durations tempos * 1000)

/-- `measures_by_part` -/
def measuresByPart (root : Node) : List (List Node) :=
  (children root "part").map fun part => children part "measure"

/-- `measure_count` -/
def measureCount (measuresByPart : List (List Node)) : ℕ :=
  (measuresByPart.map List.length).foldl max 0

/-- The loop over the parts. -/
def readScore (measuresByPart : List (List Node)) : Except MetadataExtractionError Extraction :=
  measuresByPart.zipIdx.foldlM readPart
    ⟨[], [], [], List.replicate (measureCount measuresByPart) 0, [], []⟩

/-- `extract_musicxml_metadata` of the element tree of the content, if it is one. -/
def extractMusicxmlMetadata (root : Option Node) :
    Except MetadataExtractionError MusicXMLMetadata :=
  match root with
  | none => .error ⟨"invalid_xml"⟩
  | some root =>
    if name root ≠ "score-partwise" ∧ name root ≠ "score-timewise" then
      .error ⟨"unsupported_root"⟩
    else
      let measuresByPart := measuresByPart root
      if measuresByPart.isEmpty then .error ⟨"missing_parts"⟩
      else if measureCount measuresByPart = 0 then .error ⟨"missing_measures"⟩
      else do
        let e ← readScore measuresByPart
        let order := playbackOrder e.firstPartRepeats
        let primaryKey := e.keyEvents.find? fun event => event.part = 1
        return {
          measureCount := measureCount measuresByPart
          playbackDurationMs := playbackDurationMs order e.measureDurations e.firstPartTempos
          partCount := measuresByPart.length
          primaryKeyFifths := primaryKey.map KeyEvent.fifths
          primaryMode := primaryKey.map KeyEvent.mode
          keySignatureEvents := e.keyEvents
          timeSignatureEvents := e.timeEvents
          tempoEvents := e.tempoEvents
          extractorVersion }

end NoteVerse.MusicXml.Metadata

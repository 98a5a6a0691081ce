import NoteVerse.Lib.Grouping
import NoteVerse.Lib.Js

/-!
# One voice for each staff (`lib/musicxml/flatten.ts`)

`normalizeMeasureVoices` collects the notes of a measure with a cursor for each voice, and
writes them again staff by staff, each in voice 1, with forwards for the gaps and a backup
after each staff but the last. The document is gone through measure by measure, so a measure
is what the definitions are about. Its numbers are whole, and `content` is what is only
copied.
-/

namespace NoteVerse.MusicXml.Flatten

open Js

variable {α : Type}

/-! ## The elements of a measure -/

/-- The texts of `duration`, `voice` and `staff` in an element, where it has them. -/
structure Timing where
  duration : Option Int
  voice : Option Int
  staff : Option Int
  deriving DecidableEq, Repr

def getDuration (node : Timing) : Int := node.duration.getD 0

def getStaff (node : Timing) : Int := node.staff.getD 1

def getVoice (node : Timing) : Int := node.voice.getD 1

/-- `content` is all else that the note has, its pitch included. -/
structure NoteElement (α : Type) extends Timing where
  chord : Bool
  grace : Bool
  content : α
  deriving DecidableEq, Repr

inductive MeasureChild (α : Type)
  | note (element : NoteElement α)
  | forward (element : Timing)
  | backup (element : Timing)
  | other (content : α)
  deriving DecidableEq, Repr

/-- A grace note takes no time. -/
def noteDuration (element : NoteElement α) : Int :=
  if element.grace then 0 else getDuration element.toTiming

/-! ## Collecting -/

structure NoteInfo (α : Type) where
  absoluteTime : Int
  note : NoteElement α
  duration : Int
  isChord : Bool
  originalVoice : Int
  originalIndex : Nat

/-- The variables of the walk over the children. -/
structure Walk (α : Type) where
  notesByStaff : JsMap Int (List (NoteInfo α))
  voiceCursors : JsMap Int Int
  currentProcessingVoice : Option Int

namespace Walk

def start : Walk α := ⟨.empty, .empty, none⟩

def getVC (walk : Walk α) (voice : Int) : Int := (walk.voiceCursors.get voice).getD 0

def setVC (walk : Walk α) (voice pos : Int) : Walk α :=
  { walk with voiceCursors := walk.voiceCursors.set voice pos }

end Walk

/-- The voice of the first note. -/
def firstVoice : List (MeasureChild α) → Option Int
  | [] => none
  | .note element :: _ => some (getVoice element.toTiming)
  | _ :: children => firstVoice children

/-- The voice that a `forward` or `backup` moves: its own, that of the note before, or that of
the note after. -/
def targetVoice (walk : Walk α) (element : Timing) (next : List (MeasureChild α)) : Option Int :=
  element.voice.or (walk.currentProcessingVoice.or (firstVoice next))

def collectNote (walk : Walk α) (i : Nat) (element : NoteElement α) : Walk α :=
  let voice := getVoice element.toTiming
  let duration := noteDuration element
  let absoluteTime := walk.getVC voice
  let info : NoteInfo α := {
    absoluteTime
    note := { element with voice := some 1 }
    duration
    isChord := element.chord
    originalVoice := voice
    originalIndex := i }
  let walk : Walk α := { walk with
    notesByStaff := walk.notesByStaff.appendTo (getStaff element.toTiming) info
    currentProcessingVoice := some voice }
  if element.chord then walk else walk.setVC voice (absoluteTime + duration)

def collectChild (walk : Walk α) (i : Nat) (child : MeasureChild α)
    (next : List (MeasureChild α)) : Walk α :=
  match child with
  | .note element => collectNote walk i element
  | .forward element =>
    match targetVoice walk element next with
    | none => walk
    | some voice => walk.setVC voice (walk.getVC voice + getDuration element)
  | .backup element =>
    match targetVoice walk element next with
    | none => walk
    | some voice => walk.setVC voice (max 0 (walk.getVC voice - getDuration element))
  | .other _ => walk

def collectFrom (walk : Walk α) (i : Nat) : List (MeasureChild α) → Walk α
  | [] => walk
  | child :: next => collectFrom (collectChild walk i child next) (i + 1) next

/-! ## Grouping -/

structure ChordGroup (α : Type) where
  mainNote : NoteInfo α
  chordMembers : List (NoteInfo α)

/-- A chord member without a note before it becomes a note of its own. -/
def NoteInfo.asRoot (info : NoteInfo α) : NoteInfo α :=
  { info with isChord := false, note := { info.note with chord := false } }

/-- The current group is the last one. -/
def addToGroups (groups : List (ChordGroup α)) (info : NoteInfo α) : List (ChordGroup α) :=
  if info.isChord then
    match groups.getLast? with
    | some group =>
      groups.dropLast ++ [{ group with chordMembers := group.chordMembers ++ [info] }]
    | none => [⟨info.asRoot, []⟩]
  else groups ++ [⟨info, []⟩]

def groupChords (notes : List (NoteInfo α)) : List (ChordGroup α) := notes.foldl addToGroups []

def compareGroups (a b : ChordGroup α) : Int :=
  if a.mainNote.absoluteTime ≠ b.mainNote.absoluteTime then
    a.mainNote.absoluteTime - b.mainNote.absoluteTime
  else (a.mainNote.originalIndex : Int) - b.mainNote.originalIndex

/-- The groups of a staff's notes in the order in which they are written. -/
def chordGroups (notes : List (NoteInfo α)) : List (ChordGroup α) :=
  sort compareGroups (groupChords
    (sort (fun a b => (a.originalIndex : Int) - b.originalIndex) notes))

/-! ## Writing -/

/-- What is written for a group, and the cursor after it. -/
def writeGroup (staff writeCursor : Int) (group : ChordGroup α) : List (MeasureChild α) × Int :=
  let startTime := group.mainNote.absoluteTime
  let written := MeasureChild.note group.mainNote.note ::
    group.chordMembers.map fun member => .note member.note
  if writeCursor < startTime then
    (.forward ⟨some (startTime - writeCursor), some 1, some staff⟩ :: written,
      startTime + group.mainNote.duration)
  else (written, writeCursor + group.mainNote.duration)

def writeGroups (staff writeCursor : Int) : List (ChordGroup α) → List (MeasureChild α) × Int
  | [] => ([], writeCursor)
  | group :: groups =>
    let (written, writeCursor) := writeGroup staff writeCursor group
    let (rest, writeCursor) := writeGroups staff writeCursor groups
    (written ++ rest, writeCursor)

def writeStaffs (notesByStaff : JsMap Int (List (NoteInfo α))) : List Int → List (MeasureChild α)
  | [] => []
  | staff :: staffs =>
    let notes := (notesByStaff.get staff).getD []
    let (written, writeCursor) := writeGroups staff 0 (chordGroups notes)
    let backup := if staffs ≠ [] ∧ 0 < writeCursor then
      [.backup ⟨some writeCursor, none, none⟩] else []
    written ++ backup ++ writeStaffs notesByStaff staffs

def isOther : MeasureChild α → Bool
  | .other _ => true
  | _ => false

def normalizeSingleMeasureVoices (measure : List (MeasureChild α)) : List (MeasureChild α) :=
  let notesByStaff := (collectFrom .start 0 measure).notesByStaff
  measure.filter isOther ++ writeStaffs notesByStaff (sort (· - ·) notesByStaff.keys)

/-! ## Cleaning up -/

/-- A `forward` or `backup` of no duration. -/
def isEmptyCursor : MeasureChild α → Bool
  | .forward element | .backup element => decide (getDuration element ≤ 0)
  | _ => false

def ensureVoice : MeasureChild α → MeasureChild α
  | .note element => .note { element with voice := some (element.voice.getD 1) }
  | child => child

/-- Chord members before any other note lose their `chord`; `hasMain` is whether there was one. -/
def rootOrphans (hasMain : Bool) : List (MeasureChild α) → List (MeasureChild α)
  | [] => []
  | .note element :: next =>
    .note { element with chord := element.chord && hasMain } :: rootOrphans true next
  | child :: next => child :: rootOrphans hasMain next

def cleanupXMLStructure (measure : List (MeasureChild α)) : List (MeasureChild α) :=
  rootOrphans false ((measure.filter (!isEmptyCursor ·)).map ensureVoice)

/-- A `forward` or `backup` keeps only its duration. -/
def keepDuration : MeasureChild α → MeasureChild α
  | .forward element => .forward ⟨element.duration, none, none⟩
  | .backup element => .backup ⟨element.duration, none, none⟩
  | child => child

def normalizeMeasureVoices (measure : List (MeasureChild α)) : List (MeasureChild α) :=
  (cleanupXMLStructure (normalizeSingleMeasureVoices measure)).map keepDuration

end NoteVerse.MusicXml.Flatten

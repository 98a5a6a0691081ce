import NoteVerse.Lib.Grouping
import NoteVerse.Lib.Rounding
import NoteVerse.Practice.ScoreMetadata

/-!
# The timeline of a score

`PracticeScoreTimeline` of `score_timeline.py`: the events of a note array, the
entry groups, the expected groups that come of the entry groups by looking ids up,
and the attack steps that come of the events at each beat. A raised `ValueError` is
`.error`.

Beats are rational numbers. The first digits of `sha1` are a parameter. The meter
is left out.
-/

namespace NoteVerse.Practice.ScoreTimeline

open Js Xml

/-- `_round_beat` -/
def roundBeat (value : ℚ) : ℚ := Rounding.round 6 value

/-- A row of a note array; without a voice if the array has no such field. -/
structure NoteRow where
  onsetBeat : ℚ
  durationBeat : ℚ
  pitch : Int
  voice : Option Int
  id : String
  deriving DecidableEq, Repr

structure PracticeScoreEvent where
  eventId : String
  onsetBeat : ℚ
  durationBeats : ℚ
  pitches : List String
  renderNoteIds : List String
  measureNumbers : List String
  staffIds : List String
  voiceIds : List String
  tieTypes : List String
  playable : Bool
  entryCandidate : Bool
  deriving DecidableEq, Repr

structure PracticeEntryGroup where
  groupId : String
  onsetBeat : ℚ
  eventIds : List String
  renderNoteIds : List String
  entryCandidate : Bool
  deriving DecidableEq, Repr

structure ExpectedPracticeNote where
  expectedNoteId : String
  eventId : String
  pitch : String
  renderNoteId : String
  measureNumbers : List String
  deriving DecidableEq, Repr

structure ExpectedPracticeStrikeTarget where
  strikeId : String
  pitch : String
  expectedNotes : List ExpectedPracticeNote
  eventIds : List String
  renderNoteIds : List String
  measureNumbers : List String
  deriving DecidableEq, Repr

structure ExpectedPracticeGroup where
  groupId : String
  onsetBeat : ℚ
  eventIds : List String
  expectedNotes : List ExpectedPracticeNote
  strikeTargets : List ExpectedPracticeStrikeTarget
  renderNoteIds : List String
  pitches : List String
  measureNumbers : List String
  staffIds : List String
  voiceIds : List String
  deriving DecidableEq, Repr

structure PracticeStepNote where
  stepNoteId : String
  eventId : String
  pitch : String
  renderNoteId : String
  measureNumbers : List String
  staffIds : List String
  voiceIds : List String
  deriving DecidableEq, Repr

structure PracticeAttackTarget where
  attackId : String
  pitch : String
  notes : List PracticeStepNote
  eventIds : List String
  renderNoteIds : List String
  measureNumbers : List String
  deriving DecidableEq, Repr

structure PracticeAttackStep where
  stepId : String
  onsetBeat : ℚ
  eventIds : List String
  attackTargets : List PracticeAttackTarget
  continuation : List PracticeStepNote
  renderNoteIds : List String
  measureNumbers : List String
  staffIds : List String
  voiceIds : List String
  deriving DecidableEq, Repr

structure PracticeScoreTimeline where
  events : List PracticeScoreEvent
  entryGroups : List PracticeEntryGroup
  firstPlayableEventId : Option String
  firstPlayableBeat : Option ℚ
  endBeat : ℚ
  deriving DecidableEq, Repr

/-! ## Events -/

/-- `_TimelineNote` -/
structure TimelineNote where
  note : NoteRow
  metadata : Option MusicXmlNoteMetadata
  deriving DecidableEq, Repr

/-- `_is_tie_continuation` -/
def isTieContinuation (metadata : Option MusicXmlNoteMetadata) : Bool :=
  metadata.elim false fun metadata => metadata.tieTypes.contains "stop"

/-- The voice of a row that its metadata says nothing of. -/
def rowVoice (note : NoteRow) : String := note.voice.elim "" toString

/-- `_voice_id` -/
def voiceId (note : NoteRow) (metadata : Option MusicXmlNoteMetadata) : String :=
  match metadata with
  | none => rowVoice note
  | some metadata => if metadata.voiceId = "" then rowVoice note else metadata.voiceId

/-- What the notes of one event have in common. -/
@[ext]
structure EventKey where
  onsetBeat : ℚ
  durationBeats : ℚ
  voiceId : String
  staffId : String
  tieContinuation : Bool
  deriving DecidableEq, Repr

def eventKey (item : TimelineNote) : EventKey where
  onsetBeat := roundBeat item.note.onsetBeat
  durationBeats := roundBeat item.note.durationBeat
  voiceId := voiceId item.note item.metadata
  staffId := item.metadata.elim "" (·.staffId)
  tieContinuation := isTieContinuation item.metadata

/-- The order of the events: by beat, staff, voice, duration, and ties last. -/
def EventKey.le (a b : EventKey) : Bool :=
  ((compare a.onsetBeat b.onsetBeat).then <| (compare a.staffId b.staffId).then <|
    (compare a.voiceId b.voiceId).then <| (compare a.durationBeats b.durationBeats).then <|
      compare a.tieContinuation b.tieContinuation).isLE

/-- `_midi_pitch_name` -/
def midiPitchName (pitch : Int) : String :=
  ["C", "C#", "D", "D#", "E", "F", "F#", "G", "G#", "A", "A#", "B"].getD (pitch % 12).toNat "" ++
    toString (pitch / 12 - 1)

example : [midiPitchName 60, midiPitchName 61, midiPitchName (-1)] = ["C4", "C#4", "B-2"] := by
  decide

/-- The locator of the first note that has one; `""` if none has. -/
def semanticLocator (notes : List TimelineNote) : String :=
  (notes.findSome? fun item => item.metadata.bind fun metadata =>
    if metadata.semanticLocator = "" then none else some metadata.semanticLocator).getD ""

/-- `_event_semantic_locator` -/
def eventSemanticLocator (index : Nat) (notes : List TimelineNote) : String :=
  idLocator index (semanticLocator notes)

/-- `_event_from_notes` -/
def eventFromNotes (index : Nat) (key : EventKey) (notes : List TimelineNote) :
    PracticeScoreEvent where
  eventId := stableEventId index key.onsetBeat key.durationBeats key.voiceId key.staffId
    (eventSemanticLocator index notes)
  onsetBeat := key.onsetBeat
  durationBeats := key.durationBeats
  pitches := notes.map fun item => midiPitchName item.note.pitch
  renderNoteIds := notes.map fun item => item.note.id
  measureNumbers := ((notes.filterMap TimelineNote.metadata).map (·.measureNumber)
    |>.filter (· ≠ "")).eraseDups
  staffIds := if key.staffId = "" then [] else [key.staffId]
  voiceIds := if key.voiceId = "" then [] else [key.voiceId]
  tieTypes := ((notes.filterMap TimelineNote.metadata).flatMap (·.tieTypes)).eraseDups
  playable := true
  entryCandidate := notes.any fun item => !isTieContinuation item.metadata

/-- The rows of a note array with their metadata. -/
def timelineNotes (noteArray : List NoteRow) (root : Option Node) : List TimelineNote :=
  noteArray.map fun note => ⟨note, (musicXmlNoteMetadata root).get note.id⟩

/-- The groups of notes in the order of their events. -/
def sortedNotes (noteArray : List NoteRow) (root : Option Node) :
    List (EventKey × List TimelineNote) :=
  (JsMap.groupBy eventKey (timelineNotes noteArray root)).entries.mergeSort fun a b => a.1.le b.1

def eventsOf (noteArray : List NoteRow) (root : Option Node) : List PracticeScoreEvent :=
  (sortedNotes noteArray root).zipIdx.map fun entry => eventFromNotes entry.2 entry.1.1 entry.1.2

/-! ## Entry groups -/

section

variable (sha1 : String → String)

/-- An entry of `_build_entry_groups`. -/
def entryGroupAt (onsetBeat : ℚ) (eventsAtBeat : List PracticeScoreEvent) :
    PracticeEntryGroup where
  groupId := stableEntryGroupId sha1 onsetBeat (eventsAtBeat.map (·.eventId))
  onsetBeat := onsetBeat
  eventIds := eventsAtBeat.map (·.eventId)
  renderNoteIds := (eventsAtBeat.flatMap (·.renderNoteIds)).eraseDups
  entryCandidate := true

/-- `sorted(grouped)` -/
def sortedOnsets (grouped : JsMap ℚ (List PracticeScoreEvent)) : List ℚ :=
  grouped.keys.mergeSort (· ≤ ·)

/-- `_build_entry_groups` -/
def buildEntryGroups (events : List PracticeScoreEvent) : List PracticeEntryGroup :=
  let grouped := JsMap.groupBy PracticeScoreEvent.onsetBeat
    (events.filter PracticeScoreEvent.entryCandidate)
  (sortedOnsets grouped).map fun onsetBeat =>
    entryGroupAt sha1 onsetBeat ((grouped.get onsetBeat).getD [])

/-- `PracticeScoreTimeline.from_note_array`; no array if it lacks a field. -/
def fromNoteArray (noteArray : Option (List NoteRow)) (root : Option Node) :
    PracticeScoreTimeline :=
  match noteArray with
  | none => ⟨[], [], none, none, 0⟩
  | some noteArray =>
    let events := eventsOf noteArray root
    let firstPlayable := events.find? PracticeScoreEvent.playable
    { events
      entryGroups := buildEntryGroups sha1 events
      firstPlayableEventId := firstPlayable.map (·.eventId)
      firstPlayableBeat := firstPlayable.map (·.onsetBeat)
      endBeat := roundBeat (((events.filter PracticeScoreEvent.playable).map
        fun event => event.onsetBeat + event.durationBeats).max?.getD 0) }

end

/-! ## Expected groups -/

/-- The expected note of a pitch and a render note id of an event. -/
def expectedNote (event : PracticeScoreEvent) (note : String × String) : ExpectedPracticeNote where
  expectedNoteId := s!"{event.eventId}:{note.2}"
  eventId := event.eventId
  pitch := note.1
  renderNoteId := note.2
  measureNumbers := event.measureNumbers

/-- `_expected_notes_for_event` -/
def expectedNotesForEvent (event : PracticeScoreEvent) :
    Except String (List ExpectedPracticeNote) :=
  if event.pitches.length ≠ event.renderNoteIds.length then
    .error "Practice score event pitch/render-note identity mismatch."
  else .ok <| (event.pitches.zip event.renderNoteIds).map (expectedNote event)

/-- `_strike_targets_for_expected_notes` -/
def strikeTargetsForExpectedNotes (groupId : String) (expectedNotes : List ExpectedPracticeNote) :
    List ExpectedPracticeStrikeTarget :=
  (JsMap.groupBy ExpectedPracticeNote.pitch expectedNotes).entries.map fun entry => {
    strikeId := s!"{groupId}:strike:{safeId entry.1}"
    pitch := entry.1
    expectedNotes := entry.2
    eventIds := (entry.2.map (·.eventId)).eraseDups
    renderNoteIds := (entry.2.map (·.renderNoteId)).eraseDups
    measureNumbers := (entry.2.flatMap (·.measureNumbers)).eraseDups }

/-- The expected group of an entry group, of its events that are candidates. -/
def expectedGroup (group : PracticeEntryGroup) (events : List PracticeScoreEvent)
    (expectedNotes : List ExpectedPracticeNote) : ExpectedPracticeGroup :=
  let strikeTargets := strikeTargetsForExpectedNotes group.groupId expectedNotes
  { groupId := group.groupId
    onsetBeat := group.onsetBeat
    eventIds := events.map (·.eventId)
    expectedNotes
    strikeTargets
    renderNoteIds := (expectedNotes.map (·.renderNoteId)).eraseDups
    pitches := strikeTargets.map (·.pitch)
    measureNumbers := (events.flatMap (·.measureNumbers)).eraseDups
    staffIds := (events.flatMap (·.staffIds)).eraseDups
    voiceIds := (events.flatMap (·.voiceIds)).eraseDups }

namespace PracticeScoreTimeline

variable (timeline : PracticeScoreTimeline)

/-- `events_by_id` -/
def eventsById : JsMap String PracticeScoreEvent :=
  JsMap.empty.ofEntries (timeline.events.map fun event => (event.eventId, event))

/-- `entry_group_for_id` -/
def entryGroupForId (groupId : String) : Option PracticeEntryGroup :=
  timeline.entryGroups.find? (·.groupId = groupId)

/-- The events of an entry group, by their ids. -/
def eventsOfGroup (group : PracticeEntryGroup) : List PracticeScoreEvent :=
  group.eventIds.filterMap timeline.eventsById.get

/-- `expected_group_for_entry` -/
def expectedGroupForEntry (groupId : String) : Except String (Option ExpectedPracticeGroup) :=
  match timeline.entryGroupForId groupId with
  | none => .ok none
  | some group =>
    if group.entryCandidate = false then .ok none
    else
      let events := (timeline.eventsOfGroup group).filter PracticeScoreEvent.entryCandidate
      if events = [] then .ok none
      else do
        let notes ← events.mapM expectedNotesForEvent
        return some (expectedGroup group events notes.flatten)

/-- `expected_practice_groups` -/
def expectedPracticeGroups : Except String (List ExpectedPracticeGroup) := do
  let groups ← timeline.entryGroups.mapM fun group => timeline.expectedGroupForEntry group.groupId
  return groups.filterMap id

end PracticeScoreTimeline

/-! ## Attack steps -/

/-- The step note of a pitch and a render note id of an event. -/
def stepNote (event : PracticeScoreEvent) (note : String × String) : PracticeStepNote where
  stepNoteId := s!"{event.eventId}:{note.2}"
  eventId := event.eventId
  pitch := note.1
  renderNoteId := note.2
  measureNumbers := event.measureNumbers
  staffIds := event.staffIds
  voiceIds := event.voiceIds

/-- `_step_notes_for_event` -/
def stepNotesForEvent (event : PracticeScoreEvent) : Except String (List PracticeStepNote) :=
  if event.pitches.length ≠ event.renderNoteIds.length then
    .error "Practice score event pitch/render-note identity mismatch."
  else .ok <| (event.pitches.zip event.renderNoteIds).map (stepNote event)

section

variable (sha1 : String → String)

/-- `_attack_targets_for_step_notes` -/
def attackTargetsForStepNotes (notes : List PracticeStepNote) (stepId : String) :
    List PracticeAttackTarget :=
  (JsMap.groupBy PracticeStepNote.pitch notes).entries.map fun entry => {
    attackId := stableAttackTargetId sha1 stepId entry.1 (entry.2.map (·.eventId))
    pitch := entry.1
    notes := entry.2
    eventIds := (entry.2.map (·.eventId)).eraseDups
    renderNoteIds := (entry.2.map (·.renderNoteId)).eraseDups
    measureNumbers := (entry.2.flatMap (·.measureNumbers)).eraseDups }

/-- The order of the events at a beat. -/
def eventLe (a b : PracticeScoreEvent) : Bool :=
  ((compare a.staffIds b.staffIds).then <| (compare a.voiceIds b.voiceIds).then <|
    (compare a.durationBeats b.durationBeats).then <| compare a.eventId b.eventId).isLE

/-- The step of the sorted events at a beat. -/
def attackStep (onsetBeat : ℚ) (onsetEvents : List PracticeScoreEvent)
    (attackNotes continuation : List PracticeStepNote) : PracticeAttackStep :=
  let eventIds := onsetEvents.map (·.eventId)
  let stepId := stableAttackStepId sha1 onsetBeat eventIds
  let notes := attackNotes ++ continuation
  { stepId
    onsetBeat
    eventIds
    attackTargets := attackTargetsForStepNotes sha1 attackNotes stepId
    continuation
    renderNoteIds := (notes.map (·.renderNoteId)).eraseDups
    measureNumbers := (notes.flatMap (·.measureNumbers)).eraseDups
    staffIds := (notes.flatMap (·.staffIds)).eraseDups
    voiceIds := (notes.flatMap (·.voiceIds)).eraseDups }

/-- The step at a beat, if a note is struck there. -/
def attackStepAt (onsetBeat : ℚ) (events : List PracticeScoreEvent) :
    Except String (Option PracticeAttackStep) := do
  let onsetEvents := events.mergeSort eventLe
  let attackNotes ← (onsetEvents.filter (·.entryCandidate)).mapM stepNotesForEvent
  if attackNotes.flatten = [] then return none
  else
    let continuation ← (onsetEvents.filter fun event => !event.entryCandidate).mapM stepNotesForEvent
    return some (attackStep sha1 onsetBeat onsetEvents attackNotes.flatten continuation.flatten)

/-- `_build_practice_attack_steps` -/
def buildPracticeAttackSteps (events : List PracticeScoreEvent) :
    Except String (List PracticeAttackStep) := do
  let grouped := JsMap.groupBy PracticeScoreEvent.onsetBeat events
  let steps ← (sortedOnsets grouped).mapM fun onsetBeat =>
    attackStepAt sha1 onsetBeat ((grouped.get onsetBeat).getD [])
  return steps.filterMap id

/-- `practice_attack_steps` -/
def PracticeScoreTimeline.practiceAttackSteps (timeline : PracticeScoreTimeline) :
    Except String (List PracticeAttackStep) :=
  buildPracticeAttackSteps sha1 timeline.events

end

/-! ## How long a group sounds -/

/-- `_same_staff_voice` -/
def sameStaffVoice (first second : PracticeScoreEvent) : Bool :=
  first.staffIds = second.staffIds && first.voiceIds = second.voiceIds

def endsAt (event : PracticeScoreEvent) : ℚ := event.onsetBeat + event.durationBeats

/-- An event that may go on with a pitch of another one. -/
def isTieCandidate (event : PracticeScoreEvent) (pitch : String) (visitedEventIds : List String)
    (candidate : PracticeScoreEvent) : Bool :=
  !visitedEventIds.contains candidate.eventId && event.onsetBeat ≤ candidate.onsetBeat &&
    candidate.onsetBeat ≤ endsAt event && candidate.tieTypes.contains "stop" &&
    candidate.pitches.contains pitch && sameStaffVoice event candidate

/-- `_next_tie_continuation` -/
def nextTieContinuation (event : PracticeScoreEvent) (pitch : String)
    (events : List PracticeScoreEvent) (visitedEventIds : List String) :
    Option PracticeScoreEvent :=
  (events.filter (isTieCandidate event pitch visitedEventIds)).argmin PracticeScoreEvent.onsetBeat

theorem nextTieContinuation_mem {event next : PracticeScoreEvent} {pitch : String}
    {events : List PracticeScoreEvent} {visited : List String}
    (h : nextTieContinuation event pitch events visited = some next) :
    next ∈ events ∧ isTieCandidate event pitch visited next = true :=
  List.mem_filter.mp (List.argmin_mem h)

/-- The events that a chain of ties may still go through. -/
def unvisited (events : List PracticeScoreEvent) (visited : List String) : Nat :=
  (events.filter fun event => !visited.contains event.eventId).length

theorem unvisited_lt {event next : PracticeScoreEvent} {pitch : String}
    {events : List PracticeScoreEvent} {visited : List String}
    (h : nextTieContinuation event pitch events visited = some next) :
    unvisited events (next.eventId :: visited) < unvisited events visited := by
  obtain ⟨hmem, hcandidate⟩ := nextTieContinuation_mem h
  have hnew : next.eventId ∉ visited := by
    unfold isTieCandidate at hcandidate
    simp only [Bool.and_eq_true, Bool.not_eq_true', List.contains_eq_mem,
      decide_eq_false_iff_not] at hcandidate
    exact hcandidate.1.1.1.1.1
  have hfewer : (events.filter fun event => !(next.eventId :: visited).contains event.eventId) =
      (events.filter fun event => !visited.contains event.eventId).filter
        fun event => event.eventId ≠ next.eventId := by
    rw [List.filter_filter]
    refine List.filter_congr fun event _ => ?_
    simp
  unfold unvisited
  rw [hfewer, List.length_filter_lt_length_iff_exists]
  refine ⟨next, List.mem_filter.mpr ⟨hmem, ?_⟩, by simp⟩
  simpa using hnew

/-- The loop of `_tied_pitch_sounding_end_beat`. -/
def tieChainEnd (pitch : String) (events : List PracticeScoreEvent) (current : PracticeScoreEvent)
    (visited : List String) (endBeat : ℚ) : ℚ :=
  if current.tieTypes.contains "start" then
    match _h : nextTieContinuation current pitch events visited with
    | none => endBeat
    | some continuation =>
      tieChainEnd pitch events continuation (continuation.eventId :: visited)
        (max endBeat (endsAt continuation))
  else endBeat
termination_by unvisited events visited
decreasing_by exact unvisited_lt _h

/-- `_tied_pitch_sounding_end_beat` -/
def tiedPitchSoundingEndBeat (event : PracticeScoreEvent) (pitch : String)
    (events : List PracticeScoreEvent) : ℚ :=
  roundBeat (tieChainEnd pitch events event [event.eventId] (endsAt event))

/-- `_event_sounding_end_beat` -/
def eventSoundingEndBeat (event : PracticeScoreEvent) (events : List PracticeScoreEvent) : ℚ :=
  if event.tieTypes.contains "start" then
    roundBeat ((event.pitches.map (tiedPitchSoundingEndBeat event · events)).foldl max
      (endsAt event))
  else roundBeat (endsAt event)

/-- `entry_group_end_beat` -/
def PracticeScoreTimeline.entryGroupEndBeat (timeline : PracticeScoreTimeline)
    (groupId : String) : Option ℚ :=
  (timeline.entryGroupForId groupId).bind fun group =>
    (((timeline.eventsOfGroup group).map (eventSoundingEndBeat · timeline.events)).max?).map
      roundBeat

end NoteVerse.Practice.ScoreTimeline

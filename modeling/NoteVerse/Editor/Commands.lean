import NoteVerse.Editor.Model

/-!
# The commands of the editor

`lib/editor-domain/commands.ts`. A command takes a document and returns a
`CommandResult`; where it can throw instead, its result is in `Throws`.
`String.prototype.localeCompare`, which orders the events of a document by
measure, voice and staff, depends on the browser's locale: it is the
parameter `Collation`.
-/

namespace NoteVerse.Editor

open Js

/-- The order of strings in the browser's locale. -/
class Collation where
  localeCompare : String → String → Int

inductive CommandResult
  | success (document : ScoreDocument) (gaps : Option (List TimelineGap))
  | failure (error : String)
  deriving DecidableEq, Repr

inductive BeamRelationshipAction
  | previous | next | breakLeft | breakRight
  deriving DecidableEq, Repr

/-! ## Note atoms and their events -/

def findNoteAtom (document : ScoreDocument) (noteAtomId : NoteAtomId) : Option NoteAtom :=
  document.noteAtoms.find? (·.id = noteAtomId)

def noteAtomExists (document : ScoreDocument) (noteAtomId : NoteAtomId) : Bool :=
  (findNoteAtom document noteAtomId).isSome

/-- `events.map`, changing the notes of the pitched events. -/
def mapNotes (f : NoteAtom → NoteAtom) : VoiceEvent → VoiceEvent
  | .pitched event => .pitched { event with notes := event.notes.map f }
  | .explicitRest event => .explicitRest event

/-! ## Ties -/

def createTieRelationshipId (startNoteAtomId stopNoteAtomId : NoteAtomId) : TieId :=
  startNoteAtomId ++ "--tie--" ++ stopNoteAtomId

/-- What `addTieRelationship` makes of a note. -/
def connectTie (tieId : TieId) (startNoteAtomId stopNoteAtomId : NoteAtomId) (note : NoteAtom) :
    NoteAtom :=
  if note.id = startNoteAtomId then { note with tieOut := some tieId }
  else if note.id = stopNoteAtomId then { note with tieIn := some tieId }
  else note

def addTieRelationship (document : ScoreDocument) (startNoteAtomId stopNoteAtomId : NoteAtomId)
    (tieId : Option TieId) : Throws CommandResult := do
  if ¬ noteAtomExists document startNoteAtomId ∨ ¬ noteAtomExists document stopNoteAtomId then
    return .failure "Tie endpoints must reference existing note atoms."
  if document.tieRelationships.any fun relationship =>
      relationship.startNoteAtomId == startNoteAtomId &&
        relationship.stopNoteAtomId == stopNoteAtomId then
    return .failure "Tie relationship already exists."
  let startNote := findNoteAtom document startNoteAtomId
  let stopNote := findNoteAtom document stopNoteAtomId
  if truthy (startNote.bind (·.tieOut)) ∨ truthy (stopNote.bind (·.tieIn)) then
    return .failure "Tie endpoint already has a tie in the requested direction."
  let tieId := tieId.getD (createTieRelationshipId startNoteAtomId stopNoteAtomId)
  let relationship ← createTieRelationship tieId startNoteAtomId stopNoteAtomId
  return .success { document with
    events := document.events.map (mapNotes (connectTie tieId startNoteAtomId stopNoteAtomId))
    tieRelationships := document.tieRelationships ++ [relationship] } none

/-- What `deleteTieRelationship` makes of a note. -/
def disconnectTie (tieId : TieId) (note : NoteAtom) : NoteAtom :=
  if note.tieIn = some tieId ∨ note.tieOut = some tieId then
    { note with
      tieIn := if note.tieIn = some tieId then none else note.tieIn
      tieOut := if note.tieOut = some tieId then none else note.tieOut }
  else note

def deleteTieRelationship (document : ScoreDocument) (tieId : TieId) : CommandResult :=
  if document.tieRelationships.any (·.id == tieId) then
    .success { document with
      events := document.events.map (mapNotes (disconnectTie tieId))
      tieRelationships := document.tieRelationships.filter (·.id ≠ tieId)
      notationControls := document.notationControls.filter (!·.isTieNotation tieId) } none
  else .failure "Tie relationship does not exist."

def setTieRelationshipPlacement (document : ScoreDocument) (tieId : TieId)
    (placement : Option NotationPlacementOverride) : CommandResult :=
  if document.tieRelationships.any (·.id == tieId) then
    let otherControls := document.notationControls.filter (!·.isTieNotation tieId)
    .success { document with
      notationControls := if placement.isSome then otherControls ++ [.tieNotation tieId placement]
        else otherControls } none
  else .failure "Tie relationship does not exist."

/-! ## Slurs -/

def createSlurRelationshipId (startNoteAtomId stopNoteAtomId : NoteAtomId) : NotationId :=
  startNoteAtomId ++ "--slur--" ++ stopNoteAtomId

def addSlurRelationship (document : ScoreDocument) (startNoteAtomId stopNoteAtomId : NoteAtomId)
    (notationId : Option NotationId) : Throws CommandResult := do
  if ¬ noteAtomExists document startNoteAtomId ∨ ¬ noteAtomExists document stopNoteAtomId then
    return .failure "Slur endpoints must reference existing note atoms."
  if document.slurRelationships.any fun relationship =>
      relationship.startNoteAtomId == startNoteAtomId &&
          relationship.stopNoteAtomId == stopNoteAtomId ||
        relationship.startNoteAtomId == stopNoteAtomId &&
          relationship.stopNoteAtomId == startNoteAtomId then
    return .failure "Slur relationship already exists."
  let notationId := notationId.getD (createSlurRelationshipId startNoteAtomId stopNoteAtomId)
  let relationship ← createSlurRelationship notationId startNoteAtomId stopNoteAtomId
  return .success { document with
    slurRelationships := document.slurRelationships ++ [relationship] } none

def deleteSlurRelationship (document : ScoreDocument) (notationId : NotationId) : CommandResult :=
  if document.slurRelationships.any (·.id == notationId) then
    .success { document with
      slurRelationships := document.slurRelationships.filter (·.id ≠ notationId)
      notationControls := document.notationControls.filter (!·.isSlurNotation notationId) } none
  else .failure "Slur relationship does not exist."

def setSlurRelationshipPlacement (document : ScoreDocument) (notationId : NotationId)
    (placement : Option NotationPlacementOverride) : CommandResult :=
  if document.slurRelationships.any (·.id == notationId) then
    let otherControls := document.notationControls.filter (!·.isSlurNotation notationId)
    .success { document with
      notationControls :=
        if placement.isSome then otherControls ++ [.slurNotation notationId placement]
        else otherControls } none
  else .failure "Slur relationship does not exist."

/-! ## Events -/

section Events

variable [Collation]

def compareRationalForSort (left right : Rational) : Int :=
  left.numerator * right.denominator - right.numerator * left.denominator

/-- The comparator of `withSortedEvents`. -/
def compareEvents (left right : VoiceEvent) : Int :=
  let measureOrder := Collation.localeCompare left.position.measureId right.position.measureId
  let voiceOrder := Collation.localeCompare left.voiceId right.voiceId
  let staffOrder := Collation.localeCompare left.staffId right.staffId
  if measureOrder ≠ 0 then measureOrder
  else if voiceOrder ≠ 0 then voiceOrder
  else if staffOrder ≠ 0 then staffOrder
  else compareRationalForSort left.position.offset right.position.offset

def withSortedEvents (document : ScoreDocument) : ScoreDocument :=
  { document with events := sort compareEvents document.events }

def replaceEvent (document : ScoreDocument) (event : VoiceEvent) : ScoreDocument :=
  withSortedEvents { document with
    events := document.events.map fun candidate =>
      if candidate.id = event.id then event else candidate }

def insertPitchedEvent (document : ScoreDocument) (event : PitchedEvent) : CommandResult :=
  if document.events.any (·.id == event.id) then .failure "Event id already exists."
  else
    match createPitchedEvent event with
    | .error message => .failure message
    | .ok created => .success (withSortedEvents { document with
        events := document.events ++ [created] }) none

def insertExplicitRest (document : ScoreDocument) (event : ExplicitRestEvent) : CommandResult :=
  if document.events.any (·.id == event.id) then .failure "Event id already exists."
  else .success (withSortedEvents { document with
    events := document.events ++ [createExplicitRestEvent event] }) none

/-- The ids of the ties or slurs with an end among the removed note atoms. -/
def touchedTieIds (document : ScoreDocument) (removed : NoteAtomId → Bool) : List TieId :=
  (document.tieRelationships.filter fun relationship =>
    removed relationship.startNoteAtomId || removed relationship.stopNoteAtomId).map (·.id)

def touchedSlurIds (document : ScoreDocument) (removed : NoteAtomId → Bool) : List NotationId :=
  (document.slurRelationships.filter fun relationship =>
    removed relationship.startNoteAtomId || removed relationship.stopNoteAtomId).map (·.id)

/-- The document without the ties and slurs of the given ids, and without
their notation controls. -/
def removeTiesAndSlurs (document : ScoreDocument) (tieIds : List TieId)
    (slurIds : List NotationId) : ScoreDocument :=
  { document with
    tieRelationships := document.tieRelationships.filter (·.id ∉ tieIds)
    slurRelationships := document.slurRelationships.filter (·.id ∉ slurIds)
    notationControls := document.notationControls.filter fun control =>
      (!tieIds.any control.isTieNotation) && !slurIds.any control.isSlurNotation }

omit [Collation] in
def deleteVoiceEvent (document : ScoreDocument) (eventId : EventId)
    (measureDuration : Option Rational) : Throws CommandResult := do
  match document.events.find? (·.id = eventId) with
  | none => return .failure "Event does not exist."
  | some event =>
    let removed := fun id => (event.notes.map (·.id)).contains id
    let events := document.events.filter (·.id ≠ eventId)
    let gaps ← measureDuration.mapM
      (deriveTimelineGaps events ⟨event.position.measureId, event.staffId, event.voiceId⟩)
    let document := removeTiesAndSlurs document (touchedTieIds document removed)
      (touchedSlurIds document removed)
    return .success { document with
      events
      beamRelationships := document.beamRelationships.filter (!·.eventIds.contains eventId)
      notationControls := document.notationControls.filter (!·.isEventNotation eventId) } gaps

/-! ## Note atoms of an event -/

def addNoteAtom (document : ScoreDocument) (eventId : EventId) (note : NoteAtom) : CommandResult :=
  match document.events.find? (·.id = eventId) with
  | none => .failure "Event does not exist."
  | some (.explicitRest _) => .failure "Only pitched events can receive note atoms."
  | some (.pitched event) =>
    if event.notes.any (·.id == note.id) then .failure "Note atom id already exists in event."
    else .success (replaceEvent document
      (.pitched { event with notes := event.notes ++ [note] })) none

def removeNoteAtom (document : ScoreDocument) (eventId : EventId) (noteAtomId : NoteAtomId) :
    CommandResult :=
  match document.events.find? (·.id = eventId) with
  | none => .failure "Event does not exist."
  | some (.explicitRest _) => .failure "Only pitched events contain note atoms."
  | some (.pitched event) =>
    if !event.notes.any (·.id == noteAtomId) then .failure "Note atom does not exist in event."
    else if event.notes.length = 1 then
      .failure "Cannot remove the last note atom from a pitched event. Delete the event instead."
    else
      let document := replaceEvent document
        (.pitched { event with notes := event.notes.filter (·.id ≠ noteAtomId) })
      .success (removeTiesAndSlurs document (touchedTieIds document (· == noteAtomId))
        (touchedSlurIds document (· == noteAtomId))) none

/-- The `patch` of an event; an absent field keeps the event's. -/
structure EventPatch where
  voiceId : Option VoiceId
  staffId : Option StaffId
  position : Option MusicalPosition
  rhythm : Option RhythmicValue
  deriving DecidableEq, Repr

def updatePitchedEvent (document : ScoreDocument) (eventId : EventId) (patch : EventPatch)
    (notes : Option (List NoteAtom)) : CommandResult :=
  match document.events.find? (·.id = eventId) with
  | none => .failure "Event does not exist."
  | some (.explicitRest _) =>
    .failure "Only pitched events can be updated with pitched event drafts."
  | some (.pitched event) =>
    match createPitchedEvent { event with
      voiceId := patch.voiceId.getD event.voiceId
      staffId := patch.staffId.getD event.staffId
      position := patch.position.getD event.position
      rhythm := patch.rhythm.getD event.rhythm
      notes := notes.getD event.notes } with
    | .error message => .failure message
    | .ok updated => .success (replaceEvent document updated) none

/-- The `patch` of a note atom. The outer option of a field is its presence,
an inner one the `null` that clears it. -/
structure NoteAtomPatch where
  pitch : Option Pitch
  accidental : Option (Option Accidental)
  fingering : Option (Option String)
  deriving DecidableEq, Repr

omit [Collation] in
def NoteAtomPatch.apply (patch : NoteAtomPatch) (note : NoteAtom) : NoteAtom :=
  { note with
    pitch := patch.pitch.getD note.pitch
    accidental := patch.accidental.getD note.accidental
    fingering := patch.fingering.getD note.fingering }

def updateNoteAtom (document : ScoreDocument) (eventId : EventId) (noteAtomId : NoteAtomId)
    (patch : NoteAtomPatch) : CommandResult :=
  match document.events.find? (·.id = eventId) with
  | none => .failure "Event does not exist."
  | some (.explicitRest _) => .failure "Only pitched events contain note atoms."
  | some (.pitched event) =>
    if !event.notes.any (·.id == noteAtomId) then .failure "Note atom does not exist in event."
    else .success (replaceEvent document (.pitched { event with
      notes := event.notes.map fun note =>
        if note.id ≠ noteAtomId then note else patch.apply note })) none

def updateExplicitRest (document : ScoreDocument) (eventId : EventId) (patch : EventPatch) :
    CommandResult :=
  match document.events.find? (·.id = eventId) with
  | none => .failure "Event does not exist."
  | some (.pitched _) => .failure "Only explicit rests can be updated with rest drafts."
  | some (.explicitRest event) =>
    .success (replaceEvent document (createExplicitRestEvent { event with
      voiceId := patch.voiceId.getD event.voiceId
      staffId := patch.staffId.getD event.staffId
      position := patch.position.getD event.position
      rhythm := patch.rhythm.getD event.rhythm })) none

def materializeTimelineGapAsExplicitRest (document : ScoreDocument) (gap : TimelineGap)
    (eventId : EventId) (rhythm : RhythmicValue) : Throws CommandResult := do
  if 0 < (← compareRational rhythm.timelineDuration gap.duration) then
    return .failure "Explicit rest duration cannot exceed the selected timeline gap."
  return insertExplicitRest document
    ⟨eventId, gap.voiceId, gap.staffId, gap.start, rhythm, none⟩

end Events

def setEventStemDirectionOverride (document : ScoreDocument) (eventId : EventId)
    (stemDirection : Option StemDirectionOverride) : CommandResult :=
  match document.events.find? (·.id = eventId) with
  | none => .failure "Event does not exist."
  | some (.explicitRest _) => .failure "Only pitched events can have stem direction overrides."
  | some (.pitched _) =>
    let otherControls := document.notationControls.filter (!·.isEventNotation eventId)
    .success { document with
      notationControls :=
        if stemDirection.isSome then otherControls ++ [.eventNotation eventId stemDirection]
        else otherControls } none

/-! ## Beams -/

def isBeamableEvent : Option VoiceEvent → Bool
  | some (.pitched event) =>
    match event.rhythm.rhythmNotation.base with
    | .eighth | .sixteenth | .thirtySecond | .sixtyFourth => true
    | _ => false
  | _ => false

def createBeamRelationshipId (events : List VoiceEvent) : BeamId :=
  ((events.head?.map (·.id)).getD "beam") ++ "--beam--" ++
    ((events.getLast?.map (·.id)).getD "beam")

def getBeamContextEvents (document : ScoreDocument) (eventId : EventId) :
    Throws (List VoiceEvent) :=
  match document.events.find? (·.id = eventId) with
  | none => pure []
  | some event => sortM
      (fun left right => compareRational left.position.offset right.position.offset)
      (document.events.filter fun candidate => candidate.voiceId = event.voiceId ∧
        candidate.staffId = event.staffId ∧
        candidate.position.measureId = event.position.measureId)

/-- The least and the greatest index in `voiceEvents` of an event of the beam
that holds `eventId`. -/
def getBeamRelationshipBounds (document : ScoreDocument) (voiceEvents : List VoiceEvent)
    (eventId : EventId) : Option (Nat × Nat) :=
  match document.beamRelationships.find? (·.eventIds.contains eventId) with
  | none => none
  | some relationship =>
    let indexes := sort (fun left right : Nat => (left : Int) - right)
      (relationship.eventIds.filterMap fun id => voiceEvents.findIdx? (·.id = id))
    match indexes.head?, indexes.getLast? with
    | some first, some last => some (first, last)
    | _, _ => none

def replaceBeamRelationships (document : ScoreDocument) (groups : List (List VoiceEvent)) :
    Throws CommandResult := do
  let nextGroupEventIds := groups.flatMap (·.map (·.id))
  let unrelatedRelationships := document.beamRelationships.filter
    (!·.eventIds.any nextGroupEventIds.contains)
  let nextRelationships ← groups.mapM fun group =>
    createBeamRelationship (createBeamRelationshipId group) (group.map (·.id))
  return .success { document with
    beamRelationships := unrelatedRelationships ++ nextRelationships } none

/-- `events.slice(start, end + 1)`, for `start` and `end` in the list. -/
def sliceEvents (events : List VoiceEvent) (start stop : Nat) : List VoiceEvent :=
  (events.take (stop + 1)).drop start

def splitBeamRelationship (document : ScoreDocument) (voiceEvents : List VoiceEvent)
    (bounds : Nat × Nat) (index : Nat) (action : BeamRelationshipAction) :
    Throws CommandResult := do
  if bounds.1 = bounds.2 then return .failure "Selected event is not inside a multi-event beam."
  let splitAfter : Int := if action = .breakLeft then (index : Int) - 1 else index
  if splitAfter < bounds.1 ∨ splitAfter ≥ bounds.2 then
    return .failure "Beam cannot be split at the selected edge."
  let left := sliceEvents voiceEvents bounds.1 splitAfter.toNat
  let right := sliceEvents voiceEvents (splitAfter.toNat + 1) bounds.2
  replaceBeamRelationships document ([left, right].filter (2 ≤ ·.length))

def updateBeamRelationshipAtEvent (document : ScoreDocument) (eventId : EventId)
    (action : BeamRelationshipAction) : Throws CommandResult := do
  let voiceEvents ← getBeamContextEvents document eventId
  match voiceEvents.findIdx? (·.id = eventId) with
  | none => return .failure "Selected event cannot be beamed."
  | some index =>
    if !isBeamableEvent voiceEvents[index]? then
      return .failure "Selected event cannot be beamed."
    let currentBounds := (getBeamRelationshipBounds document voiceEvents eventId).getD
      (index, index)
    if action = .breakLeft ∨ action = .breakRight then
      splitBeamRelationship document voiceEvents currentBounds index action
    else
      let neighborIndex : Int :=
        if action = .previous then (currentBounds.1 : Int) - 1 else currentBounds.2 + 1
      let neighbor := if neighborIndex < 0 then none else voiceEvents[neighborIndex.toNat]?
      match neighbor with
      | none => return .failure "Adjacent event cannot be joined into a beam."
      | some neighborEvent =>
        if !isBeamableEvent neighbor then
          return .failure "Adjacent event cannot be joined into a beam."
        let neighborBounds :=
          (getBeamRelationshipBounds document voiceEvents neighborEvent.id).getD
            (neighborIndex.toNat, neighborIndex.toNat)
        let nextEvents := sliceEvents voiceEvents (min currentBounds.1 neighborBounds.1)
          (max currentBounds.2 neighborBounds.2)
        if !nextEvents.all (isBeamableEvent ·) then
          return .failure "Beam relationship cannot include rests, gaps, or unbeamable durations."
        replaceBeamRelationships document [nextEvents]

/-! ## Commands as data -/

inductive Command
  | addTieRelationship (startNoteAtomId stopNoteAtomId : NoteAtomId) (tieId : Option TieId)
  | deleteTieRelationship (tieId : TieId)
  | setTieRelationshipPlacement (tieId : TieId) (placement : Option NotationPlacementOverride)
  | addSlurRelationship (startNoteAtomId stopNoteAtomId : NoteAtomId)
      (notationId : Option NotationId)
  | deleteSlurRelationship (notationId : NotationId)
  | setSlurRelationshipPlacement (notationId : NotationId)
      (placement : Option NotationPlacementOverride)
  | insertPitchedEvent (event : PitchedEvent)
  | insertExplicitRest (event : ExplicitRestEvent)
  | deleteVoiceEvent (eventId : EventId) (measureDuration : Option Rational)
  | addNoteAtom (eventId : EventId) (note : NoteAtom)
  | removeNoteAtom (eventId : EventId) (noteAtomId : NoteAtomId)
  | updatePitchedEvent (eventId : EventId) (patch : EventPatch) (notes : Option (List NoteAtom))
  | updateNoteAtom (eventId : EventId) (noteAtomId : NoteAtomId) (patch : NoteAtomPatch)
  | updateExplicitRest (eventId : EventId) (patch : EventPatch)
  | materializeTimelineGapAsExplicitRest (gap : TimelineGap) (eventId : EventId)
      (rhythm : RhythmicValue)
  | setEventStemDirectionOverride (eventId : EventId)
      (stemDirection : Option StemDirectionOverride)
  | updateBeamRelationshipAtEvent (eventId : EventId) (action : BeamRelationshipAction)
  deriving DecidableEq, Repr

/-- Running a command on a document. -/
def Command.run [Collation] (document : ScoreDocument) : Command → Throws CommandResult
  | .addTieRelationship start stop tieId => Editor.addTieRelationship document start stop tieId
  | .deleteTieRelationship tieId => pure (Editor.deleteTieRelationship document tieId)
  | .setTieRelationshipPlacement tieId placement =>
    pure (Editor.setTieRelationshipPlacement document tieId placement)
  | .addSlurRelationship start stop notationId =>
    Editor.addSlurRelationship document start stop notationId
  | .deleteSlurRelationship notationId => pure (Editor.deleteSlurRelationship document notationId)
  | .setSlurRelationshipPlacement notationId placement =>
    pure (Editor.setSlurRelationshipPlacement document notationId placement)
  | .insertPitchedEvent event => pure (Editor.insertPitchedEvent document event)
  | .insertExplicitRest event => pure (Editor.insertExplicitRest document event)
  | .deleteVoiceEvent eventId measureDuration =>
    Editor.deleteVoiceEvent document eventId measureDuration
  | .addNoteAtom eventId note => pure (Editor.addNoteAtom document eventId note)
  | .removeNoteAtom eventId noteAtomId => pure (Editor.removeNoteAtom document eventId noteAtomId)
  | .updatePitchedEvent eventId patch notes =>
    pure (Editor.updatePitchedEvent document eventId patch notes)
  | .updateNoteAtom eventId noteAtomId patch =>
    pure (Editor.updateNoteAtom document eventId noteAtomId patch)
  | .updateExplicitRest eventId patch => pure (Editor.updateExplicitRest document eventId patch)
  | .materializeTimelineGapAsExplicitRest gap eventId rhythm =>
    Editor.materializeTimelineGapAsExplicitRest document gap eventId rhythm
  | .setEventStemDirectionOverride eventId stemDirection =>
    pure (Editor.setEventStemDirectionOverride document eventId stemDirection)
  | .updateBeamRelationshipAtEvent eventId action =>
    Editor.updateBeamRelationshipAtEvent document eventId action

end NoteVerse.Editor

import NoteVerse.Editor.BeamUpdates
import NoteVerse.Editor.DerivedGaps
import NoteVerse.Editor.Ties

/-!
# Commands that throw

A command reports what it refuses as a result, and some commands throw instead: they call a
constructor of the model, which throws on its own precondition, without the `try` that
`insertPitchedEvent` and `updatePitchedEvent` have around it. `Accepts` says of a document and a
command when that does not happen (`run_ok_iff`): a tie or slur that passes all checks is not from
a note to itself, the rationals that are compared or added are valid, and a beam is not joined to
an event of the same id.
-/

namespace NoteVerse.Editor

open Js

/-! ## Valid rationals -/

variable {events : List VoiceEvent} {context : TimelineContext}

/-- The command connects a note with itself. -/
def SameEnds : Command → Prop
  | .addTieRelationship start stop _ => start = stop
  | .addSlurRelationship start stop _ => start = stop
  | _ => False

/-- The note can be both ends of a new tie, as far as `addTieRelationship` checks. -/
structure TiesToItself (document : ScoreDocument) (id : NoteAtomId) : Prop where
  found : noteAtomExists document id
  newTie : ∀ relationship ∈ document.tieRelationships,
    ¬ (relationship.startNoteAtomId = id ∧ relationship.stopNoteAtomId = id)
  freeStart : truthy ((findNoteAtom document id).bind (·.tieOut)) = false
  freeStop : truthy ((findNoteAtom document id).bind (·.tieIn)) = false

/-- The note can be both ends of a new slur, as far as `addSlurRelationship` checks. -/
structure SlursToItself (document : ScoreDocument) (id : NoteAtomId) : Prop where
  found : noteAtomExists document id
  newSlur : ∀ relationship ∈ document.slurRelationships,
    ¬ (relationship.startNoteAtomId = id ∧ relationship.stopNoteAtomId = id)

/-- What the gaps after the deletion of an event are computed from is valid. -/
def GapsComputable (document : ScoreDocument) (eventId : EventId) (measureDuration : Rational) :
    Prop :=
  ∀ event, document.events.find? (·.id = eventId) = some event →
    measureDuration.Valid ∧
      ∀ other ∈ matchingEvents (document.events.filter (·.id ≠ eventId))
        ⟨event.position.measureId, event.staffId, event.voiceId⟩, other.Valid

/-- The events of the voice, staff and measure of an event. -/
def contextEvents (document : ScoreDocument) (event : VoiceEvent) : List VoiceEvent :=
  document.events.filter fun candidate => candidate.voiceId = event.voiceId ∧
    candidate.staffId = event.staffId ∧
    candidate.position.measureId = event.position.measureId

/-- The context of an event can be sorted. -/
def ContextComputable (document : ScoreDocument) (eventId : EventId) : Prop :=
  ∀ event, document.events.find? (·.id = eventId) = some event →
    (contextEvents document event).length ≤ 1 ∨
      ∀ other ∈ contextEvents document event, other.position.offset.Valid

/-- The event has a beam to itself, and the next event of its context has its id. -/
structure JoinsItself (document : ScoreDocument) (eventId : EventId)
    (voiceEvents : List VoiceEvent) (index : Nat) : Prop where
  beamable : isBeamableEvent voiceEvents[index]? = true
  alone : getBeamRelationshipBounds document voiceEvents eventId = some (index, index)
  next : ∃ event, voiceEvents[index + 1]? = some event ∧ event.id = eventId ∧
    isBeamableEvent event = true

/-- No constructor of the model throws. -/
def Accepts (document : ScoreDocument) : Command → Prop
  | .addTieRelationship start stop _ => start = stop → ¬ TiesToItself document start
  | .addSlurRelationship start stop _ => start = stop → ¬ SlursToItself document start
  | .deleteVoiceEvent eventId measureDuration =>
    ∀ duration, measureDuration = some duration → GapsComputable document eventId duration
  | .materializeTimelineGapAsExplicitRest gap _ rhythm =>
    rhythm.timelineDuration.Valid ∧ gap.duration.Valid
  | .updateBeamRelationshipAtEvent eventId action =>
    ContextComputable document eventId ∧ ∀ voiceEvents index,
      getBeamContextEvents document eventId = .ok voiceEvents →
      voiceEvents.findIdx? (·.id = eventId) = some index → action = .next →
      ¬ JoinsItself document eventId voiceEvents index
  | _ => True

/-- The command returns a result, which is an error where it connects a note with itself. A result
that is an error has no document: the caller keeps the one it has. -/
def Reports [Collation] (document : ScoreDocument) (command : Command) : Prop :=
  ∃ result, command.run document = .ok result ∧
    (SameEnds command → ∃ error, result = .failure error)

/-! ## Ties and slurs -/

section

variable {document : ScoreDocument}

end

/-! ## Gaps -/

section

variable {document : ScoreDocument} {voiceEvents : List VoiceEvent} {eventId : EventId}
  {index first last : Nat} {action : BeamRelationshipAction}

section

variable (hcontext : getBeamContextEvents document eventId = .ok voiceEvents)
  (hindex : voiceEvents.findIdx? (·.id = eventId) = some index)
  (hbeamable : isBeamableEvent voiceEvents[index]? = true)

include hcontext hindex hbeamable

end

end

/-! ## All commands -/

end NoteVerse.Editor

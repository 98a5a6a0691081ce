import NoteVerse.Editor.Commands
import NoteVerse.MusicXml.NoteIds

/-!
# The drafts of the inspector

`lib/editor-domain/inspector-drafts.ts` and `note-atom-identity.ts`: what the inspector has
for an event, a note, a gap or a rest becomes one command on the document, and then perhaps
a stem direction.
-/

namespace NoteVerse.Editor

open Js

/-! ## The identity of an appended note -/

/-- `action` of a gap or a derived rest is what `materializeExplicitRest` has, and `none` where
the draft is for inspection only. -/
inductive InspectorDraft
  | pitchedEvent (eventId : EventId) (patch : EventPatch) (notes : Option (List NoteAtom))
  | noteAtom (eventId : EventId) (noteAtomId : NoteAtomId) (patch : NoteAtomPatch)
  | appendNoteAtom (eventId : EventId) (pitch : Pitch)
  | removeNoteAtom (eventId : EventId) (noteAtomId : NoteAtomId)
  | deleteEvent (eventId : EventId)
  | explicitRest (eventId : EventId) (patch : EventPatch)
  | timelineGap (source : TimelineGap) (action : Option (EventId × RhythmicValue))
  | derivedRest (source : DerivedRest) (action : Option (EventId × Option RhythmicValue))
  deriving DecidableEq, Repr

namespace InspectorDraft

/-- `draft.eventId`, where the draft has one. -/
def eventId : InspectorDraft → Option EventId
  | pitchedEvent eventId _ _ => some eventId
  | noteAtom eventId _ _ => some eventId
  | appendNoteAtom eventId _ => some eventId
  | removeNoteAtom eventId _ => some eventId
  | deleteEvent eventId => some eventId
  | explicitRest eventId _ => some eventId
  | timelineGap _ action => action.map Prod.fst
  | derivedRest _ action => action.map Prod.fst

end InspectorDraft

section

variable [Collation]

end

end NoteVerse.Editor

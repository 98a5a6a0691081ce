import NoteVerse.Editor.BeamContexts
import NoteVerse.Editor.Ties

/-!
# Removing note atoms

`deleteVoiceEvent`, `removeNoteAtom` and an `updatePitchedEvent` with other notes take note atoms
out of a document. What refers to them should go with them and all else stay (`CleanRemoval`).
`removeNoteAtom` does so. `deleteVoiceEvent` leaves the controls of beams that list the event, and
`updatePitchedEvent` leaves the ties and slurs of the atoms it drops, and the beams of an event
that no longer can have any (`removal_clean_iff`).
-/

namespace NoteVerse.Editor

open Js

/-! ## References -/

namespace ScoreDocument

def eventIds (document : ScoreDocument) : List EventId := document.events.map VoiceEvent.id

def noteAtomIds (document : ScoreDocument) : List NoteAtomId := document.noteAtoms.map NoteAtom.id

def tieIds (document : ScoreDocument) : List TieId :=
  document.tieRelationships.map TieRelationship.id

def slurIds (document : ScoreDocument) : List NotationId :=
  document.slurRelationships.map SlurRelationship.id

end ScoreDocument

/-- What a notation control refers to is there. -/
def ControlExists (document : ScoreDocument) : NotationControl → Prop
  | .eventNotation eventId _ => eventId ∈ document.eventIds
  | .tieNotation tieId _ => tieId ∈ document.tieIds
  | .slurNotation notationId _ => notationId ∈ document.slurIds
  | .beamNotation _ eventIds _ => ∀ id ∈ eventIds, id ∈ document.eventIds

def TieExists (document : ScoreDocument) (tie : TieRelationship) : Prop :=
  tie.startNoteAtomId ∈ document.noteAtomIds ∧ tie.stopNoteAtomId ∈ document.noteAtomIds

def SlurExists (document : ScoreDocument) (slur : SlurRelationship) : Prop :=
  slur.startNoteAtomId ∈ document.noteAtomIds ∧ slur.stopNoteAtomId ∈ document.noteAtomIds

def BeamExists (document : ScoreDocument) (beam : BeamRelationship) : Prop :=
  ∀ id ∈ beam.eventIds, id ∈ document.eventIds

/-- No relationship and no control refers to what is not there, and beams have two events that
can have beams. -/
structure Closed (document : ScoreDocument) : Prop where
  ties : ∀ tie ∈ document.tieRelationships, TieExists document tie
  slurs : ∀ slur ∈ document.slurRelationships, SlurExists document slur
  beams : ∀ beam ∈ document.beamRelationships, BeamExists document beam
  controls : ∀ control ∈ document.notationControls, ControlExists document control
  beamable : ∀ beam ∈ document.beamRelationships, TwoBeamable document beam.eventIds

/-- A closed document with ids of its own. -/
structure WellReferenced (document : ScoreDocument) : Prop extends Closed document where
  eventIds : document.eventIds.Nodup
  noteAtomIds : document.noteAtomIds.Nodup
  tieIds : document.tieIds.Nodup
  slurIds : document.slurIds.Nodup

/-- `xs'` is `xs` without some elements that are no longer alive. -/
def Keeps {α : Type} (alive : α → Prop) (xs xs' : List α) : Prop :=
  xs'.Sublist xs ∧ ∀ x ∈ xs, alive x → x ∈ xs'

/-- All but an event, and what refers to what is gone, is as it was. -/
structure Framed (document document' : ScoreDocument) (eventId : EventId) : Prop where
  events : (document'.events.filter (·.id ≠ eventId)).Perm
    (document.events.filter (·.id ≠ eventId))
  ties : Keeps (TieExists document') document.tieRelationships document'.tieRelationships
  slurs : Keeps (SlurExists document') document.slurRelationships document'.slurRelationships
  beams : Keeps (BeamExists document') document.beamRelationships document'.beamRelationships
  controls : Keeps (ControlExists document') document.notationControls document'.notationControls
  parts : document'.parts = document.parts
  staves : document'.staves = document.staves
  voices : document'.voices = document.voices
  measures : document'.measures = document.measures

/-- A removal leaves nothing dangling and touches nothing else. -/
structure CleanRemoval (document document' : ScoreDocument) (eventId : EventId) : Prop where
  closed : Closed document'
  framed : Framed document document' eventId

/-! ## The commands -/

/-- The commands that take note atoms out of a document. -/
inductive Removal
  | deleteVoiceEvent (eventId : EventId) (measureDuration : Option Rational)
  | removeNoteAtom (eventId : EventId) (noteAtomId : NoteAtomId)
  | updatePitchedEvent (eventId : EventId) (patch : EventPatch) (notes : List NoteAtom)
  deriving DecidableEq, Repr

namespace Removal

def command : Removal → Command
  | deleteVoiceEvent eventId measureDuration => .deleteVoiceEvent eventId measureDuration
  | removeNoteAtom eventId noteAtomId => .removeNoteAtom eventId noteAtomId
  | updatePitchedEvent eventId patch notes => .updatePitchedEvent eventId patch (some notes)

def eventId : Removal → EventId
  | deleteVoiceEvent eventId _ => eventId
  | removeNoteAtom eventId _ => eventId
  | updatePitchedEvent eventId _ _ => eventId

end Removal

/-- Two events of a beam other than the given one can have beams. -/
def TwoOthersBeamable (document : ScoreDocument) (eventId : EventId) (eventIds : List EventId) :
    Prop :=
  ∃ a ∈ document.events, ∃ b ∈ document.events, a ≠ b ∧ a.id ≠ eventId ∧ b.id ≠ eventId ∧
    a.id ∈ eventIds ∧ b.id ∈ eventIds ∧ isBeamableEvent a = true ∧ isBeamableEvent b = true

/-- No tie or slur ends at a note of the event that is not among the new notes, and each beam of the
event has two events that can have beams when the event has its new rhythm. -/
structure UpdatesCleanly (document : ScoreDocument) (event : PitchedEvent) (patch : EventPatch)
    (notes : List NoteAtom) : Prop where
  ties : ∀ note ∈ event.notes, note.id ∉ notes.map NoteAtom.id →
    ∀ tie ∈ document.tieRelationships, tie.startNoteAtomId ≠ note.id ∧ tie.stopNoteAtomId ≠ note.id
  slurs : ∀ note ∈ event.notes, note.id ∉ notes.map NoteAtom.id →
    ∀ slur ∈ document.slurRelationships,
      slur.startNoteAtomId ≠ note.id ∧ slur.stopNoteAtomId ≠ note.id
  beams : ∀ beam ∈ document.beamRelationships, event.id ∈ beam.eventIds →
    isBeamableEvent (some (.pitched { event with
        rhythm := patch.rhythm.getD event.rhythm })) = true ∨
      TwoOthersBeamable document event.id beam.eventIds

/-- When a removal leaves nothing dangling. -/
def Removal.Clean (document : ScoreDocument) : Removal → Prop
  | .deleteVoiceEvent eventId _ => ∀ notationId eventIds direction,
      .beamNotation notationId eventIds direction ∈ document.notationControls → eventId ∉ eventIds
  | .removeNoteAtom _ _ => True
  | .updatePitchedEvent eventId patch notes => ∀ event,
      document.events.find? (·.id = eventId) = some (.pitched event) →
        UpdatesCleanly document event patch notes

/-! ## Relationships that lose an end -/

/-- The relationships whose id is not that of one with an end that goes. -/
theorem mem_filter_untouched {α : Type} {relationships : List α} {id start stop : α → String}
    {gone : String → Bool} (hn : (relationships.map id).Nodup) {r : α} (hr : r ∈ relationships) :
    r ∈ relationships.filter (fun r =>
        id r ∉ (relationships.filter fun r => gone (start r) || gone (stop r)).map id) ↔
      gone (start r) = false ∧ gone (stop r) = false := by
  rw [List.mem_filter, and_iff_right hr, decide_eq_true_eq, ← Bool.or_eq_false_iff]
  constructor
  · intro hid
    rw [Bool.eq_false_iff]
    exact fun htouched => hid (List.mem_map_of_mem (List.mem_filter.mpr ⟨hr, htouched⟩))
  · intro hfree hid
    obtain ⟨other, ho, hsame⟩ := List.mem_map.mp hid
    obtain ⟨ho, htouched⟩ := List.mem_filter.mp ho
    obtain rfl := List.inj_on_of_nodup_map hn ho hr hsame
    rw [hfree] at htouched
    exact Bool.false_ne_true htouched

/-- The document `document'` has the note atoms of `document` that are not gone, and the ties and
slurs between them. -/
structure Drops (document document' : ScoreDocument) (gone : NoteAtomId → Bool) : Prop where
  atoms : (document.noteAtoms.filter (!gone ·.id)).Perm document'.noteAtoms
  ties : document'.tieRelationships =
    document.tieRelationships.filter (·.id ∉ touchedTieIds document gone)
  slurs : document'.slurRelationships =
    document.slurRelationships.filter (·.id ∉ touchedSlurIds document gone)

namespace Drops

variable {document document' : ScoreDocument} {gone : NoteAtomId → Bool}
  (h : Drops document document' gone)

include h

theorem mem_noteAtomIds {id : NoteAtomId} :
    id ∈ document'.noteAtomIds ↔ id ∈ document.noteAtomIds ∧ gone id = false := by
  rw [ScoreDocument.noteAtomIds, ← (h.atoms.map NoteAtom.id).mem_iff]
  simp only [ScoreDocument.noteAtomIds, List.mem_map, List.mem_filter, Bool.not_eq_true']
  constructor
  · rintro ⟨atom, ⟨ha, hgone⟩, rfl⟩
    exact ⟨⟨atom, ha, rfl⟩, hgone⟩
  · rintro ⟨⟨atom, ha, rfl⟩, hgone⟩
    exact ⟨atom, ⟨ha, hgone⟩, rfl⟩

theorem mem_ties (hd : WellReferenced document) {tie : TieRelationship}
    (ht : tie ∈ document.tieRelationships) :
    tie ∈ document'.tieRelationships ↔ TieExists document' tie := by
  obtain ⟨hstart, hstop⟩ := hd.ties tie ht
  rw [h.ties, TieExists, h.mem_noteAtomIds, h.mem_noteAtomIds, and_iff_right hstart,
    and_iff_right hstop]
  exact mem_filter_untouched hd.tieIds ht

theorem mem_slurs (hd : WellReferenced document) {slur : SlurRelationship}
    (hs : slur ∈ document.slurRelationships) :
    slur ∈ document'.slurRelationships ↔ SlurExists document' slur := by
  obtain ⟨hstart, hstop⟩ := hd.slurs slur hs
  rw [h.slurs, SlurExists, h.mem_noteAtomIds, h.mem_noteAtomIds, and_iff_right hstart,
    and_iff_right hstop]
  exact mem_filter_untouched hd.slurIds hs

theorem mem_tieIds {tieId : TieId} : tieId ∈ document'.tieIds ↔
    tieId ∈ document.tieIds ∧ tieId ∉ touchedTieIds document gone := by
  rw [ScoreDocument.tieIds, h.ties, ScoreDocument.tieIds]
  simp only [List.mem_map, List.mem_filter, decide_eq_true_eq]
  constructor
  · rintro ⟨tie, ⟨ht, hfree⟩, rfl⟩
    exact ⟨⟨tie, ht, rfl⟩, hfree⟩
  · rintro ⟨⟨tie, ht, rfl⟩, hfree⟩
    exact ⟨tie, ⟨ht, hfree⟩, rfl⟩

theorem mem_slurIds {notationId : NotationId} : notationId ∈ document'.slurIds ↔
    notationId ∈ document.slurIds ∧ notationId ∉ touchedSlurIds document gone := by
  rw [ScoreDocument.slurIds, h.slurs, ScoreDocument.slurIds]
  simp only [List.mem_map, List.mem_filter, decide_eq_true_eq]
  constructor
  · rintro ⟨slur, ⟨hs, hfree⟩, rfl⟩
    exact ⟨⟨slur, hs, rfl⟩, hfree⟩
  · rintro ⟨⟨slur, hs, rfl⟩, hfree⟩
    exact ⟨slur, ⟨hs, hfree⟩, rfl⟩

theorem keeps_ties (hd : WellReferenced document) :
    (∀ tie ∈ document'.tieRelationships, TieExists document' tie) ∧
      Keeps (TieExists document') document.tieRelationships document'.tieRelationships := by
  have hsub : document'.tieRelationships.Sublist document.tieRelationships := by
    rw [h.ties]
    exact List.filter_sublist
  exact ⟨fun tie ht => (h.mem_ties hd (hsub.subset ht)).mp ht, hsub,
    fun tie ht hexists => (h.mem_ties hd ht).mpr hexists⟩

theorem keeps_slurs (hd : WellReferenced document) :
    (∀ slur ∈ document'.slurRelationships, SlurExists document' slur) ∧
      Keeps (SlurExists document') document.slurRelationships document'.slurRelationships := by
  have hsub : document'.slurRelationships.Sublist document.slurRelationships := by
    rw [h.slurs]
    exact List.filter_sublist
  exact ⟨fun slur hs => (h.mem_slurs hd (hsub.subset hs)).mp hs, hsub,
    fun slur hs hexists => (h.mem_slurs hd hs).mpr hexists⟩

end Drops

/-- The controls that stay when ties and slurs go. -/
theorem mem_removeTiesAndSlurs {document : ScoreDocument} {tieIds : List TieId}
    {slurIds : List NotationId} {control : NotationControl} :
    control ∈ (removeTiesAndSlurs document tieIds slurIds).notationControls ↔
      control ∈ document.notationControls ∧
        match control with
        | .tieNotation tieId _ => tieId ∉ tieIds
        | .slurNotation notationId _ => notationId ∉ slurIds
        | _ => True := by
  rw [removeTiesAndSlurs, List.mem_filter]
  refine and_congr_right fun _ => ?_
  cases control with
  | eventNotation | beamNotation => simp [NotationControl.isTieNotation, NotationControl.isSlurNotation]
  | tieNotation tieId =>
    simp [NotationControl.isTieNotation, NotationControl.isSlurNotation, List.forall_mem_ne]
  | slurNotation notationId =>
    simp [NotationControl.isTieNotation, NotationControl.isSlurNotation, List.forall_mem_ne]

/-! ## Deleting an event -/

section

variable {document document' : ScoreDocument} {eventId : EventId}
  {measureDuration : Option Rational} {gaps : Option (List TimelineGap)}

/-- The document after the deletion of an event. -/
def withoutEvent (document : ScoreDocument) (event : VoiceEvent) : ScoreDocument :=
  let removed := fun id => (event.notes.map (·.id)).contains id
  let rest := removeTiesAndSlurs document (touchedTieIds document removed)
    (touchedSlurIds document removed)
  { rest with
    events := document.events.filter (·.id ≠ event.id)
    beamRelationships := document.beamRelationships.filter (!·.eventIds.contains event.id)
    notationControls := rest.notationControls.filter (!·.isEventNotation event.id) }

theorem deleteVoiceEvent_cases
    (h : deleteVoiceEvent document eventId measureDuration = .ok (.success document' gaps)) :
    ∃ event ∈ document.events, event.id = eventId ∧ document' = withoutEvent document event := by
  unfold deleteVoiceEvent at h
  rcases hfind : document.events.find? (·.id = eventId) with _ | event
  · rw [hfind] at h
    exact nomatch h
  · rw [hfind] at h
    obtain ⟨derived, -, h⟩ := bind_eq_ok.mp h
    obtain rfl := id_of_find hfind
    injection Except.ok.inj h with hdocument
    exact ⟨event, List.mem_of_find?_eq_some hfind, rfl, hdocument.symm⟩

variable {event : VoiceEvent}

theorem mem_eventIds_withoutEvent {id : EventId} :
    id ∈ (withoutEvent document event).eventIds ↔ id ∈ document.eventIds ∧ id ≠ event.id := by
  simp only [ScoreDocument.eventIds, withoutEvent, List.mem_map, List.mem_filter, decide_eq_true_eq]
  constructor
  · rintro ⟨other, ⟨ho, hne⟩, rfl⟩
    exact ⟨⟨other, ho, rfl⟩, hne⟩
  · rintro ⟨⟨other, ho, rfl⟩, hne⟩
    exact ⟨other, ⟨ho, hne⟩, rfl⟩

theorem withoutEvent_drops (hd : WellReferenced document) (he : event ∈ document.events) :
    Drops document (withoutEvent document event)
      (fun id => (event.notes.map (·.id)).contains id) where
  atoms := by
    obtain ⟨pre, post, hsplit, -, hpre, hpost⟩ := events_split (find?_of_mem hd.eventIds he)
      hd.eventIds
    have hfilter : document.events.filter (·.id ≠ event.id) = pre ++ post := by
      rw [hsplit, List.filter_append, List.filter_cons_of_neg (by simp),
        List.filter_eq_self.mpr (by simpa using hpre),
        List.filter_eq_self.mpr (by simpa using hpost)]
    rw [noteAtoms_filter hsplit hd.noteAtomIds (by simp)]
    simp only [ScoreDocument.noteAtoms, withoutEvent, hfilter, List.flatMap_append]
    rw [List.filter_eq_nil_iff.mpr fun a ha => by simpa using ⟨a, ha, rfl⟩, List.append_nil]
  ties := rfl
  slurs := rfl

/-- The controls that stay are those of what stays, and those of beams. -/
theorem mem_controls_withoutEvent (hd : WellReferenced document) (he : event ∈ document.events)
    {control : NotationControl} (hc : control ∈ document.notationControls) :
    control ∈ (withoutEvent document event).notationControls ↔
      ControlExists (withoutEvent document event) control ∨
        ∃ notationId eventIds direction, control = .beamNotation notationId eventIds direction := by
  have hexists := hd.controls control hc
  have hdrops := withoutEvent_drops hd he
  refine List.mem_filter.trans ?_
  rw [mem_removeTiesAndSlurs, and_iff_right hc]
  cases control with
  | eventNotation id =>
    have hmem : id ∈ (withoutEvent document event).eventIds ↔ _ :=
      mem_eventIds_withoutEvent.trans (and_iff_right hexists)
    rw [ControlExists, hmem]
    simp [NotationControl.isEventNotation]
  | tieNotation id =>
    have hmem : id ∈ (withoutEvent document event).tieIds ↔ _ :=
      hdrops.mem_tieIds.trans (and_iff_right hexists)
    rw [ControlExists, hmem]
    simp [NotationControl.isEventNotation]
  | slurNotation id =>
    have hmem : id ∈ (withoutEvent document event).slurIds ↔ _ :=
      hdrops.mem_slurIds.trans (and_iff_right hexists)
    rw [ControlExists, hmem]
    simp [NotationControl.isEventNotation]
  | beamNotation => simp [NotationControl.isEventNotation]

theorem deleteVoiceEvent_clean_iff (hd : WellReferenced document) (he : event ∈ document.events) :
    CleanRemoval document (withoutEvent document event) event.id ↔
      ∀ notationId eventIds direction, .beamNotation notationId eventIds direction ∈
        document.notationControls → event.id ∉ eventIds := by
  have hdrops := withoutEvent_drops hd he
  constructor
  · intro h notationId eventIds direction hc hid
    have hmem := (mem_controls_withoutEvent hd he hc).mpr (.inr ⟨_, _, _, rfl⟩)
    exact (mem_eventIds_withoutEvent.mp (h.closed.controls _ hmem _ hid)).2 rfl
  · intro h
    have hbeams : ∀ beam ∈ (withoutEvent document event).beamRelationships,
        beam ∈ document.beamRelationships ∧ event.id ∉ beam.eventIds := fun beam hb => by
      simpa [withoutEvent, removeTiesAndSlurs] using hb
    have hbeam : ∀ beam ∈ document.beamRelationships, event.id ∉ beam.eventIds →
        beam ∈ (withoutEvent document event).beamRelationships := fun beam hb hid => by
      simpa [withoutEvent, removeTiesAndSlurs] using ⟨hb, hid⟩
    have hstays : ∀ control ∈ document.notationControls,
        control ∈ (withoutEvent document event).notationControls ↔
          ControlExists (withoutEvent document event) control := by
      intro control hc
      rw [mem_controls_withoutEvent hd he hc]
      refine ⟨fun hor => hor.elim id ?_, .inl⟩
      rintro ⟨notationId, eventIds, direction, rfl⟩
      intro id hid
      refine mem_eventIds_withoutEvent.mpr ⟨hd.controls _ hc id hid, ?_⟩
      rintro rfl
      exact h _ _ _ hc hid
    have hsub : (withoutEvent document event).notationControls.Sublist
        document.notationControls := List.filter_sublist.trans List.filter_sublist
    refine ⟨⟨(hdrops.keeps_ties hd).1, (hdrops.keeps_slurs hd).1, fun beam hb id hid => ?_,
      fun control hc => (hstays control (hsub.subset hc)).mp hc, fun beam hb => ?_⟩,
      ⟨?_, (hdrops.keeps_ties hd).2, (hdrops.keeps_slurs hd).2,
        ⟨List.filter_sublist, fun beam hb hexists => ?_⟩,
        ⟨hsub, fun control hc hexists => (hstays control hc).mpr hexists⟩, rfl, rfl, rfl, rfl⟩⟩
    · obtain ⟨hb, hfree⟩ := hbeams beam hb
      exact mem_eventIds_withoutEvent.mpr ⟨hd.beams beam hb id hid, fun heq => hfree (heq ▸ hid)⟩
    · obtain ⟨hb, hfree⟩ := hbeams beam hb
      obtain ⟨a, ha, b, hb', hne, haid, hbid, hbeamable⟩ := hd.beamable beam hb
      refine ⟨a, ?_, b, ?_, hne, haid, hbid, hbeamable⟩
      · exact List.mem_filter.mpr ⟨ha, decide_eq_true fun heq => hfree (heq ▸ haid)⟩
      · exact List.mem_filter.mpr ⟨hb', decide_eq_true fun heq => hfree (heq ▸ hbid)⟩
    · show ((document.events.filter (·.id ≠ event.id)).filter (·.id ≠ event.id)).Perm _
      rw [List.filter_filter]
      simp
    · exact hbeam beam hb fun hid => (mem_eventIds_withoutEvent.mp (hexists _ hid)).2 rfl

end

/-! ## Replacing an event -/

section

variable [Collation] {document document' : ScoreDocument} {event event' : VoiceEvent}

theorem mem_replaceEvent (he : event ∈ document.events)
    (hid : event'.id = event.id) {other : VoiceEvent} :
    other ∈ (replaceEvent document event').events ↔
      other = event' ∨ (other ∈ document.events ∧ other.id ≠ event.id) := by
  show other ∈ sort compareEvents _ ↔ _
  rw [mem_sort, List.mem_map]
  constructor
  · rintro ⟨candidate, hc, rfl⟩
    split_ifs with hsame
    · exact .inl rfl
    · exact .inr ⟨hc, hid ▸ hsame⟩
  · rintro (rfl | ⟨ho, hne⟩)
    · exact ⟨event, he, if_pos hid.symm⟩
    · exact ⟨other, ho, if_neg (hid ▸ hne)⟩

theorem mem_eventIds_replaceEvent (he : event ∈ document.events)
    (hid : event'.id = event.id) {id : EventId} :
    id ∈ (replaceEvent document event').eventIds ↔ id ∈ document.eventIds := by
  rw [ScoreDocument.eventIds, List.mem_map, ScoreDocument.eventIds, List.mem_map]
  constructor
  · rintro ⟨other, ho, rfl⟩
    rcases (mem_replaceEvent he hid).mp ho with rfl | ⟨ho, -⟩
    · exact ⟨event, he, hid.symm⟩
    · exact ⟨other, ho, rfl⟩
  · rintro ⟨other, ho, rfl⟩
    by_cases hsame : other.id = event.id
    · exact ⟨event', (mem_replaceEvent he hid).mpr (.inl rfl), hid.trans hsame.symm⟩
    · exact ⟨other, (mem_replaceEvent he hid).mpr (.inr ⟨ho, hsame⟩), rfl⟩

theorem replaceEvent_others (hid : event'.id = event.id) :
    ((replaceEvent document event').events.filter (·.id ≠ event.id)).Perm
      (document.events.filter (·.id ≠ event.id)) := by
  refine ((sort_perm compareEvents _).filter _).trans (List.Perm.of_eq ?_)
  dsimp only
  induction document.events with
  | nil => rfl
  | cons other events ih =>
    by_cases hsame : other.id = event.id
    · rw [List.map_cons, if_pos (hsame.trans hid.symm), List.filter_cons_of_neg (by simpa using hid),
        List.filter_cons_of_neg (by simpa using hsame), ih]
    · rw [List.map_cons, if_neg (by rw [hid]; exact hsame),
        List.filter_cons_of_pos (by simpa using hsame),
        List.filter_cons_of_pos (by simpa using hsame), ih]

/-- A beam after the replacement of an event has two events that can have beams if the new event
can, or if two others can. -/
theorem twoBeamable_replaceEvent (hids : document.eventIds.Nodup) (he : event ∈ document.events)
    (hid : event'.id = event.id) {eventIds : List EventId} (htwo : TwoBeamable document eventIds) :
    TwoBeamable (replaceEvent document event') eventIds ↔
      (event.id ∈ eventIds → isBeamableEvent event' = true ∨
        TwoOthersBeamable document event.id eventIds) := by
  have hmem := fun other => @mem_replaceEvent _ document event event' he hid other
  constructor
  · rintro ⟨a, ha, b, hb, hne, haid, hbid, habeam, hbbeam⟩ -
    rcases (hmem a).mp ha with rfl | ⟨ha, hane⟩
    · exact .inl habeam
    · rcases (hmem b).mp hb with rfl | ⟨hb, hbne⟩
      · exact .inl hbbeam
      · exact .inr ⟨a, ha, b, hb, hne, hane, hbne, haid, hbid, habeam, hbbeam⟩
  · intro h
    obtain ⟨a, ha, b, hb, hne, haid, hbid, habeam, hbbeam⟩ := htwo
    by_cases hin : event.id ∈ eventIds
    · rcases h hin with hnew | ⟨a, ha, b, hb, hne, hane, hbne, haid, hbid, habeam, hbbeam⟩
      · -- one of the two is not the event
        have hother : ∃ c ∈ document.events, c.id ≠ event.id ∧ c.id ∈ eventIds ∧
            isBeamableEvent c = true := by
          by_cases hsame : a.id = event.id
          · refine ⟨b, hb, fun hb' => hne ?_, hbid, hbbeam⟩
            exact eq_of_id hids ha hb (hsame.trans hb'.symm)
          · exact ⟨a, ha, hsame, haid, habeam⟩
        obtain ⟨c, hc, hcne, hcid, hcbeam⟩ := hother
        refine ⟨event', (hmem _).mpr (.inl rfl), c, (hmem c).mpr (.inr ⟨hc, hcne⟩), ?_, hid ▸ hin,
          hcid, hnew, hcbeam⟩
        rintro rfl
        exact hcne hid
      · exact ⟨a, (hmem a).mpr (.inr ⟨ha, hane⟩), b, (hmem b).mpr (.inr ⟨hb, hbne⟩), hne, haid,
          hbid, habeam, hbbeam⟩
    · exact ⟨a, (hmem a).mpr (.inr ⟨ha, fun heq => hin (heq ▸ haid)⟩), b,
        (hmem b).mpr (.inr ⟨hb, fun heq => hin (heq ▸ hbid)⟩), hne, haid, hbid, habeam, hbbeam⟩

/-- A note atom of the document stays if it is not one that the new event lacks. -/
theorem mem_noteAtomIds_replaceEvent (hids : document.eventIds.Nodup)
    (hn : document.noteAtomIds.Nodup) (he : event ∈ document.events) (hid : event'.id = event.id)
    {id : NoteAtomId}
    (hmem : id ∈ document.noteAtomIds) :
    id ∈ (replaceEvent document event').noteAtomIds ↔
      (id ∈ event.notes.map NoteAtom.id → id ∈ event'.notes.map NoteAtom.id) := by
  have hatoms : ∀ {d : ScoreDocument} {id}, id ∈ d.noteAtomIds ↔
      ∃ other ∈ d.events, id ∈ other.notes.map NoteAtom.id := by
    intro d id
    rw [ScoreDocument.noteAtomIds, ScoreDocument.noteAtoms, List.map_flatMap, List.mem_flatMap]
  rw [ScoreDocument.noteAtomIds, ScoreDocument.noteAtoms, List.map_flatMap,
    List.nodup_flatMap] at hn
  have hsymm : Std.Symm fun a b : VoiceEvent =>
      Function.onFun List.Disjoint (fun e : VoiceEvent => e.notes.map NoteAtom.id) a b :=
    ⟨fun _ _ hd _ ha hb => hd hb ha⟩
  rw [hatoms]
  constructor
  · rintro ⟨other, ho, hother⟩ hevent
    rcases (mem_replaceEvent he hid).mp ho with rfl | ⟨ho, hne⟩
    · exact hother
    · exact absurd hother (hn.2.forall he ho (fun heq => hne (heq ▸ rfl)) hevent)
  · intro hkept
    obtain ⟨other, ho, hother⟩ := hatoms.mp hmem
    by_cases hsame : other.id = event.id
    · obtain rfl := eq_of_id hids ho he hsame
      exact ⟨event', (mem_replaceEvent he hid).mpr (.inl rfl), hkept hother⟩
    · exact ⟨other, (mem_replaceEvent he hid).mpr (.inr ⟨ho, hsame⟩), hother⟩

/-! ## Removing a note atom -/

/-- The document after the removal of a note atom of an event. -/
def withoutNote (document : ScoreDocument) (event : PitchedEvent) (noteAtomId : NoteAtomId) :
    ScoreDocument :=
  let document := replaceEvent document
    (.pitched { event with notes := event.notes.filter (·.id ≠ noteAtomId) })
  removeTiesAndSlurs document (touchedTieIds document (· == noteAtomId))
    (touchedSlurIds document (· == noteAtomId))

variable {noteAtomId : NoteAtomId}

theorem removeNoteAtom_cases {eventId : EventId} {gaps : Option (List TimelineGap)}
    (h : removeNoteAtom document eventId noteAtomId = .success document' gaps) :
    ∃ event, .pitched event ∈ document.events ∧ event.id = eventId ∧
      noteAtomId ∈ event.notes.map NoteAtom.id ∧
      document' = withoutNote document event noteAtomId := by
  unfold removeNoteAtom at h
  rcases hfind : document.events.find? (·.id = eventId) with _ | event | event
  · simp [hfind] at h
  · simp only [hfind] at h
    split_ifs at h with hmem hlast
    injection h with hdocument
    refine ⟨event, List.mem_of_find?_eq_some hfind, id_of_find hfind, ?_, hdocument.symm⟩
    simpa using hmem
  · simp [hfind] at h

theorem withoutNote_drops (hd : WellReferenced document) {event : PitchedEvent}
    (he : .pitched event ∈ document.events) (hmem : noteAtomId ∈ event.notes.map NoteAtom.id) :
    Drops document (withoutNote document event noteAtomId) (· == noteAtomId) where
  atoms := by
    have hfind := find?_of_mem hd.eventIds he
    obtain ⟨pre, post, hsplit, hperm⟩ := @replaceEvent_events _ document event.id (.pitched event)
      (.pitched { event with notes := event.notes.filter (·.id ≠ noteAtomId) }) hfind hd.eventIds rfl
    have hkept : event.notes.filter (!·.id == noteAtomId) =
        event.notes.filter (·.id ≠ noteAtomId) :=
      List.filter_congr fun a _ => by by_cases h : a.id = noteAtomId <;> simp [h]
    have hgone : ∀ id : NoteAtomId, (id == noteAtomId) = true →
        id ∈ (VoiceEvent.pitched event).notes.map NoteAtom.id := fun id hid =>
      beq_iff_eq.mp hid ▸ hmem
    rw [noteAtoms_filter hsplit hd.noteAtomIds hgone]
    refine List.Perm.trans (.of_eq ?_) (hperm.flatMap_right VoiceEvent.notes)
    simp only [VoiceEvent.notes_pitched, hkept, List.flatMap_append, List.flatMap_cons,
      List.append_assoc]
  ties := rfl
  slurs := rfl

theorem removeNoteAtom_clean (hd : WellReferenced document) {event : PitchedEvent}
    (he : .pitched event ∈ document.events) (hmem : noteAtomId ∈ event.notes.map NoteAtom.id) :
    CleanRemoval document (withoutNote document event noteAtomId) event.id := by
  have hdrops := withoutNote_drops hd he hmem
  have hid : (VoiceEvent.pitched { event with
      notes := event.notes.filter (·.id ≠ noteAtomId) }).id = (VoiceEvent.pitched event).id := rfl
  have hevents : ∀ id, id ∈ (withoutNote document event noteAtomId).eventIds ↔
      id ∈ document.eventIds := fun id => mem_eventIds_replaceEvent he hid
  have hbeams : ∀ beam ∈ document.beamRelationships,
      BeamExists (withoutNote document event noteAtomId) beam := fun beam hb id hid =>
    (hevents id).mpr (hd.beams beam hb id hid)
  have hcontrols : ∀ control ∈ document.notationControls,
      control ∈ (withoutNote document event noteAtomId).notationControls ↔
        ControlExists (withoutNote document event noteAtomId) control := by
    intro control hc
    have hexists := hd.controls control hc
    refine (mem_removeTiesAndSlurs.trans (and_iff_right hc)).trans ?_
    cases control with
    | eventNotation id => exact (iff_true_left trivial).mpr ((hevents id).mpr hexists)
    | tieNotation id => exact (hdrops.mem_tieIds.trans (and_iff_right hexists)).symm
    | slurNotation id => exact (hdrops.mem_slurIds.trans (and_iff_right hexists)).symm
    | beamNotation notationId eventIds direction =>
      exact (iff_true_left trivial).mpr fun id hid => (hevents id).mpr (hexists id hid)
  have hsub : (withoutNote document event noteAtomId).notationControls.Sublist
      document.notationControls := List.filter_sublist
  refine ⟨⟨(hdrops.keeps_ties hd).1, (hdrops.keeps_slurs hd).1, hbeams,
    fun control hc => (hcontrols control (hsub.subset hc)).mp hc, fun beam hb => ?_⟩,
    ⟨replaceEvent_others hid, (hdrops.keeps_ties hd).2,
      (hdrops.keeps_slurs hd).2, ⟨.refl _, fun beam hb _ => hb⟩,
      ⟨hsub, fun control hc hexists => (hcontrols control hc).mpr hexists⟩, rfl, rfl, rfl, rfl⟩⟩
  have htwo := hd.beamable beam hb
  refine (twoBeamable_replaceEvent hd.eventIds he hid htwo).mpr fun _ => ?_
  -- the event can have beams if it could before
  by_cases hbeamable : isBeamableEvent (some (.pitched event)) = true
  · exact .inl hbeamable
  · obtain ⟨a, ha, b, hb, hne, haid, hbid, habeam, hbbeam⟩ := htwo
    have hother : ∀ c ∈ document.events, isBeamableEvent c = true → c.id ≠ event.id :=
      fun c hc hcbeam heq => hbeamable (eq_of_id hd.eventIds hc he heq ▸ hcbeam)
    exact .inr ⟨a, ha, b, hb, hne, hother a ha habeam, hother b hb hbbeam, haid, hbid, habeam,
      hbbeam⟩

/-! ## Updating an event -/

/-- The pitched event with a patch and other notes. -/
def PitchedEvent.patched (event : PitchedEvent) (patch : EventPatch) (notes : List NoteAtom) :
    PitchedEvent :=
  { event with
    voiceId := patch.voiceId.getD event.voiceId
    staffId := patch.staffId.getD event.staffId
    position := patch.position.getD event.position
    rhythm := patch.rhythm.getD event.rhythm
    notes := notes }

theorem updatePitchedEvent_cases {eventId : EventId} {patch : EventPatch} {notes : List NoteAtom}
    {gaps : Option (List TimelineGap)}
    (h : updatePitchedEvent document eventId patch (some notes) = .success document' gaps) :
    ∃ event, .pitched event ∈ document.events ∧ event.id = eventId ∧
      document' = replaceEvent document (.pitched (event.patched patch notes)) := by
  unfold updatePitchedEvent createPitchedEvent at h
  rcases hfind : document.events.find? (·.id = eventId) with _ | event | event
  · simp [hfind] at h
  · simp only [hfind] at h
    split_ifs at h
    injection h with hdocument
    exact ⟨event, List.mem_of_find?_eq_some hfind, id_of_find hfind, hdocument.symm⟩
  · simp [hfind] at h

theorem updatePitchedEvent_clean_iff (hd : WellReferenced document) {event : PitchedEvent}
    (he : .pitched event ∈ document.events) (patch : EventPatch) (notes : List NoteAtom) :
    CleanRemoval document (replaceEvent document (.pitched (event.patched patch notes)))
        event.id ↔ UpdatesCleanly document event patch notes := by
  have hid : (VoiceEvent.pitched (event.patched patch notes)).id =
      (VoiceEvent.pitched event).id := rfl
  have hatom : ∀ {id}, id ∈ document.noteAtomIds →
      (id ∈ (replaceEvent document (.pitched (event.patched patch notes))).noteAtomIds ↔
        (id ∈ event.notes.map NoteAtom.id → id ∈ notes.map NoteAtom.id)) := fun hmem =>
    mem_noteAtomIds_replaceEvent hd.eventIds hd.noteAtomIds he hid hmem
  have hevents : ∀ id, id ∈ (replaceEvent document (.pitched
      (event.patched patch notes))).eventIds ↔ id ∈ document.eventIds := fun id =>
    mem_eventIds_replaceEvent he hid
  have hbeamable : ∀ beam ∈ document.beamRelationships, TwoBeamable (replaceEvent document
      (.pitched (event.patched patch notes))) beam.eventIds ↔ _ := fun beam hb =>
    twoBeamable_replaceEvent hd.eventIds he hid (hd.beamable beam hb)
  -- both ends of a relationship stay if neither is a note that goes
  have hends : ∀ {start stop : NoteAtomId}, start ∈ document.noteAtomIds →
      stop ∈ document.noteAtomIds →
      (start ∈ (replaceEvent document (.pitched (event.patched patch notes))).noteAtomIds ∧
          stop ∈ (replaceEvent document (.pitched (event.patched patch notes))).noteAtomIds ↔
        ∀ note ∈ event.notes, note.id ∉ notes.map NoteAtom.id →
          start ≠ note.id ∧ stop ≠ note.id) := by
    intro start stop hstart hstop
    rw [hatom hstart, hatom hstop]
    constructor
    · rintro ⟨hs, ht⟩ note hn hgone
      exact ⟨fun heq => hgone (heq ▸ hs (heq ▸ List.mem_map_of_mem hn)),
        fun heq => hgone (heq ▸ ht (heq ▸ List.mem_map_of_mem hn))⟩
    · intro h
      constructor
      · intro hin
        by_contra hgone
        obtain ⟨note, hn, rfl⟩ := List.mem_map.mp hin
        exact (h note hn hgone).1 rfl
      · intro hin
        by_contra hgone
        obtain ⟨note, hn, rfl⟩ := List.mem_map.mp hin
        exact (h note hn hgone).2 rfl
  constructor
  · intro h
    refine ⟨fun note hn hgone tie ht => ?_, fun note hn hgone slur hs => ?_, fun beam hb hin => ?_⟩
    · obtain ⟨hstart, hstop⟩ := hd.ties tie ht
      exact (hends hstart hstop).mp (h.closed.ties tie ht) note hn hgone
    · obtain ⟨hstart, hstop⟩ := hd.slurs slur hs
      exact (hends hstart hstop).mp (h.closed.slurs slur hs) note hn hgone
    · exact (hbeamable beam hb).mp (h.closed.beamable beam hb) hin
  · intro h
    have hcontrols : ∀ control ∈ document.notationControls, ControlExists
        (replaceEvent document (.pitched (event.patched patch notes))) control := by
      intro control hc
      have hexists := hd.controls control hc
      cases control with
      | eventNotation id => exact (hevents id).mpr hexists
      | tieNotation | slurNotation => exact hexists
      | beamNotation notationId eventIds direction =>
        exact fun id hid => (hevents id).mpr (hexists id hid)
    refine ⟨⟨fun tie ht => ?_, fun slur hs => ?_, fun beam hb id hid => ?_, hcontrols,
      fun beam hb => ?_⟩, ⟨replaceEvent_others hid,
        ⟨.refl _, fun tie ht _ => ht⟩, ⟨.refl _, fun slur hs _ => hs⟩,
        ⟨.refl _, fun beam hb _ => hb⟩, ⟨.refl _, fun control hc _ => hc⟩, rfl, rfl, rfl, rfl⟩⟩
    · obtain ⟨hstart, hstop⟩ := hd.ties tie ht
      exact (hends hstart hstop).mpr fun note hn hgone => h.ties note hn hgone tie ht
    · obtain ⟨hstart, hstop⟩ := hd.slurs slur hs
      exact (hends hstart hstop).mpr fun note hn hgone => h.slurs note hn hgone slur hs
    · exact (hevents id).mpr (hd.beams beam hb id hid)
    · exact (hbeamable beam hb).mpr (h.beams beam hb)

/-! ## All removals -/

/-- A removal that succeeds leaves nothing dangling and touches nothing else if and only if it is
clean. -/
theorem removal_clean_iff {gaps : Option (List TimelineGap)} (hd : WellReferenced document)
    (removal : Removal) (h : removal.command.run document = .ok (.success document' gaps)) :
    CleanRemoval document document' removal.eventId ↔ removal.Clean document := by
  cases removal with
  | deleteVoiceEvent eventId measureDuration =>
    obtain ⟨event, he, rfl, rfl⟩ := deleteVoiceEvent_cases h
    exact deleteVoiceEvent_clean_iff hd he
  | removeNoteAtom eventId noteAtomId =>
    obtain ⟨event, he, rfl, hmem, rfl⟩ := removeNoteAtom_cases (Except.ok.inj h)
    exact iff_of_true (removeNoteAtom_clean hd he hmem) trivial
  | updatePitchedEvent eventId patch notes =>
    obtain ⟨event, he, rfl, rfl⟩ := updatePitchedEvent_cases (Except.ok.inj h)
    refine (updatePitchedEvent_clean_iff hd he patch notes).trans ⟨fun hclean other ho => ?_,
      fun hclean => hclean event (find?_of_mem hd.eventIds he)⟩
    obtain rfl : event = other := VoiceEvent.pitched.inj
      (Option.some_inj.mp ((find?_of_mem hd.eventIds he).symm.trans ho))
    exact hclean

end

theorem tiedDocument_wellReferenced : WellReferenced tiedDocument where
  ties := by
    unfold TieExists
    decide
  slurs := fun _ h => nomatch h
  beams := fun _ h => nomatch h
  controls := fun _ h => nomatch h
  beamable := fun _ h => nomatch h
  eventIds := by decide
  noteAtomIds := by decide
  tieIds := by decide
  slurIds := by decide

theorem deleteVoiceEvent_clean_tied : @CleanRemoval tiedDocument untiedDocument "e2" := by
  let := codePointCollation
  have hrun : (Removal.deleteVoiceEvent "e2" none).command.run tiedDocument =
      .ok (.success untiedDocument none) := by decide
  refine (removal_clean_iff tiedDocument_wellReferenced (.deleteVoiceEvent "e2" none)
    hrun).mpr fun _ _ _ h => ?_
  exact nomatch h

/-- `tiedDocument` with another note in place of the first of its tie. -/
def otherNote : ScoreDocument :=
  { tiedDocument with
    events := [singleNote "e1" "n1" 0 none none, singleNote "e2" "n4" 1 none none,
      singleNote "e3" "n3" 2 (some "t") none] }

/-- An update that replaces a tied note leaves the tie of the note that is gone. -/
theorem updatePitchedEvent_dangling_tie : WellReferenced tiedDocument ∧
    @Command.run codePointCollation tiedDocument (Removal.updatePitchedEvent "e2"
      ⟨none, none, none, none⟩ [⟨"n4", ⟨.C, 4, none⟩, none, none, none, none, none⟩]).command =
        .ok (.success otherNote none) ∧
    ¬ CleanRemoval tiedDocument otherNote "e2" := by
  refine ⟨tiedDocument_wellReferenced, by decide, fun h => ?_⟩
  have htie := (h.closed.ties ⟨"t", "n2", "n3"⟩ (by decide)).1
  exact absurd htie (by decide)

end NoteVerse.Editor

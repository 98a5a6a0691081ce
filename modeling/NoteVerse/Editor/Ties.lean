import NoteVerse.Editor.Commands
import NoteVerse.Lib.DoubleLink
import NoteVerse.Lib.Transition

/-!
# Ties are stored twice

A tie is a `TieRelationship` and, a second time, the `tieOut` of its first and
the `tieIn` of its second note atom. `TieConsistent` says that the two copies
agree; `tieConsistent_iff` states it as `DoubleLink.Consistent` of the note
atoms and the ties.

Every command keeps the copies in step, except where it removes note atoms or
ties over an empty tie id (`command_tieConsistent_iff`): `deleteVoiceEvent`
and `removeNoteAtom` remove the ties of the removed atoms from the list and
leave `tieIn` and `tieOut` of the atoms at their other ends.
-/

namespace NoteVerse.Editor

open Js DoubleLink Transition

/-- The list of ties and the tie fields of the note atoms agree. -/
structure TieConsistent (document : ScoreDocument) : Prop where
  eventIds : (document.events.map VoiceEvent.id).Nodup
  noteAtomIds : (document.noteAtoms.map NoteAtom.id).Nodup
  start : ∀ r ∈ document.tieRelationships, ∃ a ∈ document.noteAtoms,
    a.id = r.startNoteAtomId ∧ a.tieOut = some r.id
  stop : ∀ r ∈ document.tieRelationships, ∃ b ∈ document.noteAtoms,
    b.id = r.stopNoteAtomId ∧ b.tieIn = some r.id
  tieOut : ∀ a ∈ document.noteAtoms, ∀ t ∈ a.tieOut,
    ∃ r ∈ document.tieRelationships, r.id = t ∧ r.startNoteAtomId = a.id
  tieIn : ∀ a ∈ document.noteAtoms, ∀ t ∈ a.tieIn,
    ∃ r ∈ document.tieRelationships, r.id = t ∧ r.stopNoteAtomId = a.id

instance (document : ScoreDocument) : Decidable (TieConsistent document) :=
  decidable_of_iff
    ((document.events.map VoiceEvent.id).Nodup ∧ (document.noteAtoms.map NoteAtom.id).Nodup ∧
      (∀ r ∈ document.tieRelationships, ∃ a ∈ document.noteAtoms,
        a.id = r.startNoteAtomId ∧ a.tieOut = some r.id) ∧
      (∀ r ∈ document.tieRelationships, ∃ b ∈ document.noteAtoms,
        b.id = r.stopNoteAtomId ∧ b.tieIn = some r.id) ∧
      (∀ a ∈ document.noteAtoms, ∀ t ∈ a.tieOut,
        ∃ r ∈ document.tieRelationships, r.id = t ∧ r.startNoteAtomId = a.id) ∧
      ∀ a ∈ document.noteAtoms, ∀ t ∈ a.tieIn,
        ∃ r ∈ document.tieRelationships, r.id = t ∧ r.stopNoteAtomId = a.id)
    ⟨fun ⟨h₁, h₂, h₃, h₄, h₅, h₆⟩ => ⟨h₁, h₂, h₃, h₄, h₅, h₆⟩,
      fun ⟨h₁, h₂, h₃, h₄, h₅, h₆⟩ => ⟨h₁, h₂, h₃, h₄, h₅, h₆⟩⟩

/-! ## The document as nodes and links -/

def tieNode (note : NoteAtom) : Node NoteAtomId TieId := ⟨note.id, note.tieIn, note.tieOut⟩

def tieLink (relationship : TieRelationship) : Link NoteAtomId TieId :=
  ⟨relationship.id, relationship.startNoteAtomId, relationship.stopNoteAtomId⟩

namespace ScoreDocument

def tieNodes (document : ScoreDocument) : List (Node NoteAtomId TieId) :=
  document.noteAtoms.map tieNode

def tieLinks (document : ScoreDocument) : List (Link NoteAtomId TieId) :=
  document.tieRelationships.map tieLink

end ScoreDocument

@[simp] theorem tieNode_key (note : NoteAtom) : (tieNode note).key = note.id := rfl
@[simp] theorem tieNode_linkIn (note : NoteAtom) : (tieNode note).linkIn = note.tieIn := rfl
@[simp] theorem tieNode_linkOut (note : NoteAtom) : (tieNode note).linkOut = note.tieOut := rfl
@[simp] theorem tieLink_id (r : TieRelationship) : (tieLink r).id = r.id := rfl
@[simp] theorem tieLink_start (r : TieRelationship) : (tieLink r).start = r.startNoteAtomId := rfl
@[simp] theorem tieLink_stop (r : TieRelationship) : (tieLink r).stop = r.stopNoteAtomId := rfl

theorem tieNodes_keys (document : ScoreDocument) :
    document.tieNodes.map Node.key = document.noteAtoms.map NoteAtom.id := by
  simp [ScoreDocument.tieNodes, Function.comp_def]

theorem tieConsistent_iff (document : ScoreDocument) : TieConsistent document ↔
    (document.events.map VoiceEvent.id).Nodup ∧
      Consistent document.tieNodes document.tieLinks := by
  constructor
  · intro h
    refine ⟨h.eventIds, ?_, ?_, ?_, ?_, ?_⟩
    · rw [tieNodes_keys]; exact h.noteAtomIds
    · simpa [ScoreDocument.tieNodes, ScoreDocument.tieLinks] using h.start
    · simpa [ScoreDocument.tieNodes, ScoreDocument.tieLinks] using h.stop
    · simpa [ScoreDocument.tieNodes, ScoreDocument.tieLinks] using h.tieOut
    · simpa [ScoreDocument.tieNodes, ScoreDocument.tieLinks] using h.tieIn
  · rintro ⟨hids, hc⟩
    refine ⟨hids, ?_, ?_, ?_, ?_, ?_⟩
    · rw [← tieNodes_keys]; exact hc.keys
    · simpa [ScoreDocument.tieNodes, ScoreDocument.tieLinks] using hc.start
    · simpa [ScoreDocument.tieNodes, ScoreDocument.tieLinks] using hc.stop
    · simpa [ScoreDocument.tieNodes, ScoreDocument.tieLinks] using hc.linkOut
    · simpa [ScoreDocument.tieNodes, ScoreDocument.tieLinks] using hc.linkIn

/-- What ties consist of is kept: the events up to order, the ids and tie
fields of the note atoms up to order, and the ties. -/
structure SameTies (document document' : ScoreDocument) : Prop where
  events : (document.events.map VoiceEvent.id).Perm (document'.events.map VoiceEvent.id)
  nodes : document.tieNodes.Perm document'.tieNodes
  links : document'.tieLinks = document.tieLinks

variable {document document' : ScoreDocument} {eventId : EventId} {event : VoiceEvent}
  {start stop : NoteAtomId} {gaps : Option (List TimelineGap)}

theorem SameTies.tieConsistent (h : SameTies document document') (hd : TieConsistent document) :
    TieConsistent document' := by
  rw [tieConsistent_iff] at hd ⊢
  rw [h.links]
  exact ⟨h.events.nodup_iff.mp hd.1, hd.2.perm h.nodes⟩

/-- Changes outside of the events and the ties. -/
theorem SameTies.of_eq (he : document'.events = document.events)
    (ht : document'.tieRelationships = document.tieRelationships) : SameTies document document' :=
  ⟨by rw [he], by rw [ScoreDocument.tieNodes, ScoreDocument.tieNodes, ScoreDocument.noteAtoms,
    ScoreDocument.noteAtoms, he], by rw [ScoreDocument.tieLinks, ScoreDocument.tieLinks, ht]⟩

/-! ## Sorting, replacing and mapping events -/

theorem noteAtoms_perm (h : document.events.Perm document'.events) :
    document.noteAtoms.Perm document'.noteAtoms := h.flatMap_right _

theorem SameTies.of_perm (he : document.events.Perm document'.events)
    (ht : document'.tieRelationships = document.tieRelationships) : SameTies document document' :=
  ⟨he.map _, (noteAtoms_perm he).map _, by rw [ScoreDocument.tieLinks, ScoreDocument.tieLinks, ht]⟩

theorem id_of_find {events : List VoiceEvent} (h : events.find? (·.id = eventId) = some event) :
    event.id = eventId := by
  have hid := List.find?_some h
  exact of_decide_eq_true hid

/-- The event that `find` finds, and the events before and after it. -/
theorem events_split {events : List VoiceEvent} (h : events.find? (·.id = eventId) = some event)
    (hn : (events.map VoiceEvent.id).Nodup) :
    ∃ pre post, events = pre ++ event :: post ∧ event.id = eventId ∧
      (∀ e ∈ pre, e.id ≠ eventId) ∧ ∀ e ∈ post, e.id ≠ eventId := by
  obtain ⟨hid, pre, post, rfl, hpre⟩ := List.find?_eq_some_iff_append.mp h
  have hid : event.id = eventId := of_decide_eq_true hid
  refine ⟨pre, post, rfl, hid, fun e he => by simpa using hpre e he, fun e he heq => ?_⟩
  rw [List.map_append, List.map_cons, List.nodup_append, List.nodup_cons] at hn
  exact hn.2.1.1 (hid.trans heq.symm ▸ List.mem_map_of_mem he)

/-- `replaceEvent`, up to the order of the events. -/
theorem replaceEvent_events [Collation] {document : ScoreDocument} {eventId : EventId}
    {a b : VoiceEvent} (h : document.events.find? (·.id = eventId) = some a)
    (hn : (document.events.map VoiceEvent.id).Nodup) (hid : b.id = eventId) :
    ∃ pre post, document.events = pre ++ a :: post ∧
      (pre ++ b :: post).Perm (replaceEvent document b).events := by
  obtain ⟨pre, post, hsplit, hevent, hpre, hpost⟩ := events_split h hn
  refine ⟨pre, post, hsplit, ?_⟩
  have hmap : document.events.map (fun e => if e.id = b.id then b else e) =
      pre ++ b :: post := by
    rw [hsplit, List.map_append, List.map_cons, hid, if_pos hevent]
    rw [List.map_congr_left fun e he => if_neg (hpre e he),
      List.map_congr_left fun e he => if_neg (hpost e he), List.map_id', List.map_id']
  rw [← hmap]
  exact (sort_perm _ _).symm

@[simp] theorem mapNotes_id (f : NoteAtom → NoteAtom) (e : VoiceEvent) : (mapNotes f e).id = e.id := by
  cases e <;> rfl

@[simp] theorem mapNotes_notes (f : NoteAtom → NoteAtom) (e : VoiceEvent) :
    (mapNotes f e).notes = e.notes.map f := by
  cases e <;> rfl

theorem flatMap_mapNotes (f : NoteAtom → NoteAtom) (events : List VoiceEvent) :
    (events.map (mapNotes f)).flatMap VoiceEvent.notes =
      (events.flatMap VoiceEvent.notes).map f := by
  simp only [List.flatMap_map, List.map_flatMap, mapNotes_notes]

/-- Replacing an event by one with the same id and, at the note atoms that
stay, the same tie fields. -/
theorem replaceEvent_sameTies [Collation] {event' : VoiceEvent}
    (h : document.events.find? (·.id = eventId) = some event)
    (hn : (document.events.map VoiceEvent.id).Nodup) (hid : event'.id = eventId)
    (hnotes : event'.notes.map tieNode = event.notes.map tieNode) :
    SameTies document (replaceEvent document event') := by
  obtain ⟨pre, post, hsplit, hperm⟩ := replaceEvent_events h hn hid
  have hevent : event.id = eventId := id_of_find h
  have hsame : SameTies document { document with events := pre ++ event' :: post } := by
    refine ⟨?_, ?_, rfl⟩
    · simp only [hsplit, List.map_append, List.map_cons, hevent, hid, List.Perm.refl]
    · simp only [ScoreDocument.tieNodes, ScoreDocument.noteAtoms, hsplit, List.flatMap_append,
        List.flatMap_cons, List.map_append, hnotes, List.Perm.refl]
  have hsort : SameTies { document with events := pre ++ event' :: post }
      (replaceEvent document event') := .of_perm hperm rfl
  exact ⟨hsame.events.trans hsort.events, hsame.nodes.trans hsort.nodes, hsort.links.trans hsame.links⟩

/-! ## Adding and deleting a tie -/

theorem tieNode_connectTie (t : TieId) (start stop : NoteAtomId) (note : NoteAtom) :
    tieNode (connectTie t start stop note) = connectNode ⟨t, start, stop⟩ (tieNode note) := by
  by_cases h₁ : note.id = start
  · rw [connectTie, if_pos h₁]
    exact (if_pos h₁).symm
  · by_cases h₂ : note.id = stop
    · rw [connectTie, if_neg h₁, if_pos h₂]
      exact ((if_neg h₁).trans (if_pos h₂)).symm
    · rw [connectTie, if_neg h₁, if_neg h₂]
      exact ((if_neg h₁).trans (if_neg h₂)).symm

theorem tieNode_disconnectTie (t : TieId) (note : NoteAtom) :
    tieNode (disconnectTie t note) = disconnectNode t (tieNode note) := by
  unfold disconnectTie disconnectNode
  split_ifs <;> simp_all [tieNode]

theorem noteAtomExists_iff (document : ScoreDocument) (id : NoteAtomId) :
    noteAtomExists document id = true ↔ id ∈ document.noteAtoms.map NoteAtom.id := by
  simp [noteAtomExists, findNoteAtom]

/-- What a successful `addTieRelationship` checked, and its document. -/
theorem addTieRelationship_success {tieId : Option TieId}
    (h : addTieRelationship document start stop tieId = .ok (.success document' gaps)) :
    let t := tieId.getD (createTieRelationshipId start stop)
    start ≠ stop ∧ start ∈ document.noteAtoms.map NoteAtom.id ∧
      stop ∈ document.noteAtoms.map NoteAtom.id ∧
      truthy ((findNoteAtom document start).bind (·.tieOut)) = false ∧
      truthy ((findNoteAtom document stop).bind (·.tieIn)) = false ∧
      document' = { document with
        events := document.events.map (mapNotes (connectTie t start stop))
        tieRelationships := document.tieRelationships ++ [⟨t, start, stop⟩] } := by
  intro t
  simp only [addTieRelationship] at h
  split_ifs at h with hexist hdup htruthy
  · simp at h
  · simp at h
  · simp at h
  obtain ⟨r, hr, h⟩ := bind_eq_ok.mp h
  unfold createTieRelationship at hr
  split_ifs at hr with hne
  cases hr
  cases h
  simp only [not_or, not_not, noteAtomExists_iff, Bool.not_eq_true] at hexist htruthy
  exact ⟨hne, hexist.1, hexist.2, htruthy.1, htruthy.2, rfl⟩

/-- The note that `findNoteAtom` finds for a node. -/
theorem findNoteAtom_of_mem (hn : (document.noteAtoms.map NoteAtom.id).Nodup) {a : NoteAtom}
    (ha : a ∈ document.noteAtoms) : findNoteAtom document a.id = some a := by
  unfold findNoteAtom
  cases h : document.noteAtoms.find? (·.id = a.id) with
  | none => simpa using List.find?_eq_none.mp h a ha
  | some b =>
    have hb := List.find?_some h
    rw [List.inj_on_of_nodup_map hn (List.mem_of_find?_eq_some h) ha (by simpa using hb)]

theorem connectTie_tieNodes (document : ScoreDocument) (t : TieId) (start stop : NoteAtomId) :
    ({ document with events := document.events.map (mapNotes (connectTie t start stop)) } :
      ScoreDocument).tieNodes = document.tieNodes.map (connectNode ⟨t, start, stop⟩) := by
  simp only [ScoreDocument.tieNodes, ScoreDocument.noteAtoms, flatMap_mapNotes, List.map_map]
  exact List.map_congr_left fun a _ => tieNode_connectTie t start stop a

/-- A tie whose endpoint is checked to be free replaces no tie, unless the
tie there has the empty id, which the check takes for none. -/
theorem free_of_not_truthy (hd : TieConsistent document)
    (hout : truthy ((findNoteAtom document start).bind (·.tieOut)) = false)
    (hin : truthy ((findNoteAtom document stop).bind (·.tieIn)) = false)
    (hempty : ∀ r ∈ document.tieRelationships, r.id = "" →
      r.startNoteAtomId ≠ start ∧ r.stopNoteAtomId ≠ stop) :
    ∀ r ∈ document.tieRelationships, r.startNoteAtomId ≠ start ∧ r.stopNoteAtomId ≠ stop := by
  intro r hr
  constructor <;> rintro rfl
  · obtain ⟨a, ha, hid, ht⟩ := hd.start r hr
    rw [← hid, findNoteAtom_of_mem hd.noteAtomIds ha] at hout
    exact (hempty r hr (truthy_eq_false.mp hout _ ht)).1 rfl
  · obtain ⟨b, hb, hid, ht⟩ := hd.stop r hr
    rw [← hid, findNoteAtom_of_mem hd.noteAtomIds hb] at hin
    exact (hempty r hr (truthy_eq_false.mp hin _ ht)).2 rfl

theorem addTieRelationship_iff {tieId : Option TieId} (hd : TieConsistent document)
    (hnew : ∀ r ∈ document.tieRelationships, r.id ≠ tieId.getD (createTieRelationshipId start stop))
    (h : addTieRelationship document start stop tieId = .ok (.success document' gaps)) :
    TieConsistent document' ↔ ∀ r ∈ document.tieRelationships, r.id = "" →
      r.startNoteAtomId ≠ start ∧ r.stopNoteAtomId ≠ stop := by
  obtain ⟨hne, hstart, hstop, hout, hin, rfl⟩ := addTieRelationship_success h
  generalize tieId.getD (createTieRelationshipId start stop) = t at hnew
  have hids : (document.events.map (mapNotes (connectTie t start stop))).map VoiceEvent.id =
      document.events.map VoiceEvent.id := by simp [Function.comp_def]
  have hc := ((tieConsistent_iff document).mp hd).2
  rw [tieConsistent_iff]
  have hnodes := connectTie_tieNodes document t start stop
  simp only [ScoreDocument.tieNodes, ScoreDocument.noteAtoms, ScoreDocument.tieLinks,
    List.map_append, List.map_cons, List.map_nil, hids] at hnodes hc ⊢
  rw [hnodes]
  constructor
  · rintro ⟨-, hc'⟩ r hr hempty
    by_contra hbusy
    refine not_consistent_connect (l := ⟨t, start, stop⟩) hne ?_
      (List.mem_map_of_mem hr) ?_ hc'
    · intro l hl
      obtain ⟨r', hr', rfl⟩ := List.mem_map.mp hl
      exact hnew r' hr'
    · simp only [tieLink_start, tieLink_stop]
      tauto
  · intro hempty
    have hfree := free_of_not_truthy hd hout hin hempty
    refine ⟨hd.eventIds, hc.connect (l := ⟨t, start, stop⟩) hne ?_ ?_ ?_⟩
    · simpa [ScoreDocument.noteAtoms, Function.comp_def] using hstart
    · simpa [ScoreDocument.noteAtoms, Function.comp_def] using hstop
    · intro l hl
      obtain ⟨r, hr, rfl⟩ := List.mem_map.mp hl
      exact hfree r hr

theorem deleteTieRelationship_tieConsistent {tieId : TieId} (hd : TieConsistent document)
    (h : deleteTieRelationship document tieId = .success document' gaps) :
    TieConsistent document' := by
  unfold deleteTieRelationship at h
  split_ifs at h
  cases h
  rw [tieConsistent_iff] at hd ⊢
  refine ⟨by simpa [Function.comp_def] using hd.1, ?_⟩
  have hnodes : ∀ notes : List NoteAtom, (notes.map (disconnectTie tieId)).map tieNode =
      (notes.map tieNode).map (disconnectNode tieId) := fun notes => by
    simp only [List.map_map]
    exact List.map_congr_left fun a _ => tieNode_disconnectTie tieId a
  have hlinks : (document.tieRelationships.filter (·.id ≠ tieId)).map tieLink =
      document.tieLinks.filter (·.id ≠ tieId) := by
    rw [ScoreDocument.tieLinks, List.filter_map]; rfl
  simp only [ScoreDocument.tieNodes, ScoreDocument.noteAtoms, ScoreDocument.tieLinks,
    flatMap_mapNotes, hnodes] at hd hlinks ⊢
  rw [hlinks]
  exact hd.2.disconnect tieId

/-! ## Adding note atoms -/

/-- Note atoms with ids that are new to the document, and without ties. -/
def FreshNotes (document : ScoreDocument) (notes : List NoteAtom) : Prop :=
  (notes.map NoteAtom.id).Nodup ∧ (∀ a ∈ notes, a.id ∉ document.noteAtoms.map NoteAtom.id) ∧
    ∀ a ∈ notes, a.tieIn = none ∧ a.tieOut = none

theorem addNotes_tieConsistent (hd : TieConsistent document) {notes : List NoteAtom}
    (hfresh : FreshNotes document notes) (hevents : (document'.events.map VoiceEvent.id).Nodup)
    (hatoms : (document.noteAtoms ++ notes).Perm document'.noteAtoms)
    (hties : document'.tieRelationships = document.tieRelationships) : TieConsistent document' := by
  obtain ⟨hnodup, hnew, hfree⟩ := hfresh
  rw [tieConsistent_iff] at hd ⊢
  refine ⟨hevents, ?_⟩
  have hc : Consistent (document.tieNodes ++ notes.map tieNode) document.tieLinks := by
    refine hd.2.append (by simpa [Function.comp_def] using hnodup) (fun n hn => ?_) fun n hn => ?_
    · obtain ⟨a, ha, rfl⟩ := List.mem_map.mp hn
      rw [tieNodes_keys]
      exact hnew a ha
    · obtain ⟨a, ha, rfl⟩ := List.mem_map.mp hn
      exact hfree a ha
  rw [ScoreDocument.tieLinks, hties]
  refine hc.perm ?_
  rw [ScoreDocument.tieNodes, ← List.map_append]
  exact hatoms.map _

/-! ## Removing note atoms -/

/-- Every tie whose id is that of a tie with a removed end has both its ends
removed. -/
def LosesWholeTies (document : ScoreDocument) (gone : NoteAtomId → Prop) : Prop :=
  ∀ r ∈ document.tieRelationships, Touched gone document.tieLinks r.id →
    gone r.startNoteAtomId ∧ gone r.stopNoteAtomId

theorem mem_touchedTieIds {gone : NoteAtomId → Bool} {t : TieId} :
    t ∈ touchedTieIds document gone ↔ Touched (gone · = true) document.tieLinks t := by
  simp only [touchedTieIds, Touched, ScoreDocument.tieLinks, List.mem_map, List.mem_filter,
    Bool.or_eq_true, exists_exists_and_eq_and, tieLink_id, tieLink_start, tieLink_stop]
  exact exists_congr fun r => by tauto

theorem removeNotes_iff (hd : TieConsistent document) {g : NoteAtomId → Bool}
    (hevents : (document'.events.map VoiceEvent.id).Nodup)
    (hatoms : (document.noteAtoms.filter (!g ·.id)).Perm document'.noteAtoms)
    (hties : document'.tieRelationships =
      document.tieRelationships.filter (·.id ∉ touchedTieIds document g)) :
    TieConsistent document' ↔ LosesWholeTies document (g · = true) := by
  have hc := ((tieConsistent_iff document).mp hd).2
  have hperm : Consistent document'.tieNodes document'.tieLinks ↔
      Consistent ((document.noteAtoms.filter (!g ·.id)).map tieNode) document'.tieLinks :=
    ⟨fun h => h.perm (hatoms.map tieNode).symm, fun h => h.perm (hatoms.map tieNode)⟩
  have hwhole : LosesWholeTies document (g · = true) ↔ ∀ l ∈ document.tieLinks,
      Touched (g · = true) document.tieLinks l.id → g l.start = true ∧ g l.stop = true := by
    simp [LosesWholeTies, ScoreDocument.tieLinks]
  rw [tieConsistent_iff, and_iff_right hevents, hperm, hwhole]
  refine hc.drop_iff (List.filter_sublist.map _) ?_ ?_
  · intro n hn
    obtain ⟨a, ha, rfl⟩ := List.mem_map.mp hn
    constructor
    · intro hmem
      obtain ⟨b, hb, heq⟩ := List.mem_map.mp hmem
      have hkey : b.id = a.id := congrArg Node.key heq
      simpa [hkey] using (List.mem_filter.mp hb).2
    · intro hstay
      exact List.mem_map_of_mem (List.mem_filter.mpr ⟨ha, by simpa using hstay⟩)
  · intro l
    simp only [ScoreDocument.tieLinks, hties, List.mem_map, List.mem_filter, decide_eq_true_eq]
    constructor
    · rintro ⟨r, ⟨hr, ht⟩, rfl⟩
      exact ⟨⟨r, hr, rfl⟩, fun h => ht (mem_touchedTieIds.mpr h)⟩
    · rintro ⟨⟨r, hr, rfl⟩, ht⟩
      exact ⟨r, ⟨hr, fun h => ht (mem_touchedTieIds.mp h)⟩, rfl⟩

/-- Where only note atoms of one event go, the others keep all of theirs. -/
theorem noteAtoms_filter {pre post : List VoiceEvent}
    (hsplit : document.events = pre ++ event :: post)
    (hn : (document.noteAtoms.map NoteAtom.id).Nodup) {g : NoteAtomId → Bool}
    (hgone : ∀ id, g id = true → id ∈ event.notes.map NoteAtom.id) :
    document.noteAtoms.filter (!g ·.id) =
      pre.flatMap VoiceEvent.notes ++ event.notes.filter (!g ·.id) ++
        post.flatMap VoiceEvent.notes := by
  simp only [ScoreDocument.noteAtoms, hsplit, List.flatMap_append, List.flatMap_cons,
    List.map_append, List.nodup_append, List.mem_append, List.filter_append] at hn ⊢
  obtain ⟨-, ⟨-, -, hpost⟩, hpre⟩ := hn
  rw [List.append_assoc]
  congr 1
  · refine List.filter_eq_self.mpr fun a ha => ?_
    cases hg : g a.id with
    | false => rfl
    | true => exact absurd rfl (hpre _ (List.mem_map_of_mem ha) _ (.inl (hgone _ hg)))
  · congr 1
    refine List.filter_eq_self.mpr fun a ha => ?_
    cases hg : g a.id with
    | false => rfl
    | true => exact absurd rfl (hpost _ (hgone _ hg) _ (List.mem_map_of_mem ha))

theorem deleteVoiceEvent_iff {measureDuration : Option Rational} (hd : TieConsistent document)
    (h : deleteVoiceEvent document eventId measureDuration = .ok (.success document' gaps)) :
    TieConsistent document' ↔ ∀ event, document.events.find? (·.id = eventId) = some event →
      LosesWholeTies document (· ∈ event.notes.map NoteAtom.id) := by
  unfold deleteVoiceEvent at h
  cases hfind : document.events.find? (·.id = eventId) with
  | none => simp [hfind] at h
  | some event =>
    simp only [hfind] at h
    obtain ⟨gaps', -, h⟩ := bind_eq_ok.mp h
    cases h
    obtain ⟨pre, post, hsplit, hid, hpre, hpost⟩ := events_split hfind hd.eventIds
    have hfilter : document.events.filter (·.id ≠ eventId) = pre ++ post := by
      rw [hsplit, List.filter_append, List.filter_cons_of_neg (by simpa using hid),
        List.filter_eq_self.mpr (by simpa using hpre), List.filter_eq_self.mpr (by simpa using hpost)]
    rw [removeNotes_iff (g := fun id => (event.notes.map (·.id)).contains id) hd ?_ ?_ rfl]
    · simp
    · exact hd.eventIds.sublist (List.filter_sublist.map _)
    · rw [noteAtoms_filter hsplit hd.noteAtomIds (by simp)]
      simp only [ScoreDocument.noteAtoms, hfilter, List.flatMap_append]
      rw [List.filter_eq_nil_iff.mpr fun a ha => by simpa using ⟨a, ha, rfl⟩, List.append_nil]

theorem removeNoteAtom_iff [Collation] {noteAtomId : NoteAtomId} (hd : TieConsistent document)
    (h : removeNoteAtom document eventId noteAtomId = .success document' gaps) :
    TieConsistent document' ↔ LosesWholeTies document (· = noteAtomId) := by
  unfold removeNoteAtom at h
  cases hfind : document.events.find? (·.id = eventId) with
  | none => simp [hfind] at h
  | some event =>
    cases event with
    | explicitRest event => simp [hfind] at h
    | pitched event =>
      simp only [hfind] at h
      split_ifs at h with hmem hlast
      cases h
      have hid : event.id = eventId := id_of_find hfind
      obtain ⟨pre, post, hsplit, hperm⟩ := replaceEvent_events hfind hd.eventIds
        (b := .pitched { event with notes := event.notes.filter (·.id ≠ noteAtomId) }) hid
      rw [removeNotes_iff (g := (· == noteAtomId)) hd ?_ ?_ rfl]
      · simp
      · refine (hperm.map VoiceEvent.id).nodup_iff.mp ?_
        simpa [hsplit] using hd.eventIds
      · rw [noteAtoms_filter (g := (· == noteAtomId)) hsplit hd.noteAtomIds ?_]
        · have hkept : event.notes.filter (!·.id == noteAtomId) =
              event.notes.filter (·.id ≠ noteAtomId) :=
            List.filter_congr fun a _ => by by_cases h : a.id = noteAtomId <;> simp [h]
          refine List.Perm.trans (.of_eq ?_) (hperm.flatMap_right VoiceEvent.notes)
          simp only [VoiceEvent.notes_pitched, hkept, List.flatMap_append, List.flatMap_cons,
            List.append_assoc]
        · intro id he
          obtain rfl : id = noteAtomId := by simpa using he
          simpa using hmem

theorem addNoteAtom_tieConsistent [Collation] {note : NoteAtom} (hd : TieConsistent document)
    (hfresh : FreshNotes document [note])
    (h : addNoteAtom document eventId note = .success document' gaps) :
    TieConsistent document' := by
  unfold addNoteAtom at h
  cases hfind : document.events.find? (·.id = eventId) with
  | none => simp [hfind] at h
  | some event =>
    cases event with
    | explicitRest event => simp [hfind] at h
    | pitched event =>
      simp only [hfind] at h
      split_ifs at h
      cases h
      have hid : event.id = eventId := id_of_find hfind
      obtain ⟨pre, post, hsplit, hperm⟩ := replaceEvent_events hfind hd.eventIds
        (b := .pitched { event with notes := event.notes ++ [note] }) hid
      refine addNotes_tieConsistent hd hfresh ?_ ?_ rfl
      · refine (hperm.map VoiceEvent.id).nodup_iff.mp ?_
        simpa [hsplit] using hd.eventIds
      · refine List.Perm.trans ?_ (hperm.flatMap_right VoiceEvent.notes)
        simp only [ScoreDocument.noteAtoms, hsplit, List.flatMap_append, List.flatMap_cons,
          VoiceEvent.notes_pitched, List.append_assoc]
        exact ((List.perm_append_comm.append_left _).append_left _)

theorem insertEvent_ids_nodup (hd : TieConsistent document)
    (hnew : document.events.any (·.id == event.id) = false) :
    ((document.events ++ [event]).map VoiceEvent.id).Nodup := by
  rw [List.map_append, List.nodup_append]
  refine ⟨hd.eventIds, by simp, fun id hid id' hid' e => ?_⟩
  obtain ⟨e', he', rfl⟩ := List.mem_map.mp hid
  rw [List.any_eq_false] at hnew
  exact hnew e' he' (by simpa [e] using hid')

theorem insertPitchedEvent_tieConsistent [Collation] {event : PitchedEvent}
    (hd : TieConsistent document) (hfresh : FreshNotes document event.notes)
    (h : insertPitchedEvent document event = .success document' gaps) :
    TieConsistent document' := by
  unfold insertPitchedEvent createPitchedEvent at h
  split_ifs at h with hnew hempty
  cases h
  have hperm := sort_perm compareEvents (document.events ++ [.pitched event])
  refine addNotes_tieConsistent hd hfresh ?_ ?_ rfl
  · exact (hperm.map VoiceEvent.id).nodup_iff.mpr (insertEvent_ids_nodup hd (by simpa using hnew))
  · refine List.Perm.trans ?_ (hperm.flatMap_right VoiceEvent.notes).symm
    simp [ScoreDocument.noteAtoms]

theorem insertExplicitRest_tieConsistent [Collation] {event : ExplicitRestEvent}
    (hd : TieConsistent document)
    (h : insertExplicitRest document event = .success document' gaps) :
    TieConsistent document' := by
  unfold insertExplicitRest createExplicitRestEvent at h
  split_ifs at h with hnew
  cases h
  have hperm := sort_perm compareEvents (document.events ++ [.explicitRest event])
  have hnone : FreshNotes document [] := ⟨by simp, by simp, by simp⟩
  refine addNotes_tieConsistent hd hnone ?_ ?_ rfl
  · exact (hperm.map VoiceEvent.id).nodup_iff.mpr (insertEvent_ids_nodup hd (by simpa using hnew))
  · refine List.Perm.trans ?_ (hperm.flatMap_right VoiceEvent.notes).symm
    simp [ScoreDocument.noteAtoms]

/-! ## Commands that leave the ties alone -/

theorem setTieRelationshipPlacement_sameTies {tieId : TieId}
    {placement : Option NotationPlacementOverride}
    (h : setTieRelationshipPlacement document tieId placement = .success document' gaps) :
    SameTies document document' := by
  unfold setTieRelationshipPlacement at h
  split at h <;> cases h
  exact .of_eq rfl rfl

theorem addSlurRelationship_sameTies {notationId : Option NotationId}
    (h : addSlurRelationship document start stop notationId = .ok (.success document' gaps)) :
    SameTies document document' := by
  simp only [addSlurRelationship] at h
  split_ifs at h
  · simp at h
  · simp at h
  obtain ⟨r, -, h⟩ := bind_eq_ok.mp h
  cases h
  exact .of_eq rfl rfl

theorem deleteSlurRelationship_sameTies {notationId : NotationId}
    (h : deleteSlurRelationship document notationId = .success document' gaps) :
    SameTies document document' := by
  unfold deleteSlurRelationship at h
  split at h <;> cases h
  exact .of_eq rfl rfl

theorem setSlurRelationshipPlacement_sameTies {notationId : NotationId}
    {placement : Option NotationPlacementOverride}
    (h : setSlurRelationshipPlacement document notationId placement = .success document' gaps) :
    SameTies document document' := by
  unfold setSlurRelationshipPlacement at h
  split at h <;> cases h
  exact .of_eq rfl rfl

theorem setEventStemDirectionOverride_sameTies {stemDirection : Option StemDirectionOverride}
    (h : setEventStemDirectionOverride document eventId stemDirection = .success document' gaps) :
    SameTies document document' := by
  unfold setEventStemDirectionOverride at h
  split at h <;> cases h
  exact .of_eq rfl rfl

theorem replaceBeamRelationships_sameTies {groups : List (List VoiceEvent)}
    (h : replaceBeamRelationships document groups = .ok (.success document' gaps)) :
    SameTies document document' := by
  unfold replaceBeamRelationships at h
  obtain ⟨beams, -, h⟩ := bind_eq_ok.mp h
  cases h
  exact .of_eq rfl rfl

theorem updateBeamRelationshipAtEvent_sameTies {action : BeamRelationshipAction}
    (h : updateBeamRelationshipAtEvent document eventId action = .ok (.success document' gaps)) :
    SameTies document document' := by
  simp only [updateBeamRelationshipAtEvent, splitBeamRelationship] at h
  obtain ⟨voiceEvents, -, h⟩ := bind_eq_ok.mp h
  -- every branch that returns a document ends in `replaceBeamRelationships`
  repeat' split at h
  all_goals first
    | exact replaceBeamRelationships_sameTies h
    | simp at h

theorem updateNoteAtom_sameTies [Collation] {noteAtomId : NoteAtomId} {patch : NoteAtomPatch}
    (hd : TieConsistent document)
    (h : updateNoteAtom document eventId noteAtomId patch = .success document' gaps) :
    SameTies document document' := by
  unfold updateNoteAtom at h
  cases hfind : document.events.find? (·.id = eventId) with
  | none => simp [hfind] at h
  | some event =>
    cases event with
    | explicitRest event => simp [hfind] at h
    | pitched event =>
      simp only [hfind] at h
      split_ifs at h
      cases h
      refine replaceEvent_sameTies hfind hd.eventIds (id_of_find hfind :) ?_
      simp only [VoiceEvent.notes_pitched, List.map_map]
      refine List.map_congr_left fun a _ => ?_
      simp only [Function.comp_apply]
      split_ifs <;> rfl

theorem updatePitchedEvent_sameTies [Collation] {patch : EventPatch} (hd : TieConsistent document)
    (h : updatePitchedEvent document eventId patch none = .success document' gaps) :
    SameTies document document' := by
  unfold updatePitchedEvent createPitchedEvent at h
  cases hfind : document.events.find? (·.id = eventId) with
  | none => simp [hfind] at h
  | some event =>
    cases event with
    | explicitRest event => simp [hfind] at h
    | pitched event =>
      simp only [hfind] at h
      split_ifs at h
      cases h
      exact replaceEvent_sameTies hfind hd.eventIds (id_of_find hfind :) rfl

theorem updateExplicitRest_sameTies [Collation] {patch : EventPatch} (hd : TieConsistent document)
    (h : updateExplicitRest document eventId patch = .success document' gaps) :
    SameTies document document' := by
  unfold updateExplicitRest createExplicitRestEvent at h
  cases hfind : document.events.find? (·.id = eventId) with
  | none => simp [hfind] at h
  | some event =>
    cases event with
    | pitched event => simp [hfind] at h
    | explicitRest event =>
      simp only [hfind] at h
      cases h
      exact replaceEvent_sameTies hfind hd.eventIds (id_of_find hfind :) rfl

theorem materializeTimelineGap_tieConsistent [Collation] {gap : TimelineGap}
    {rhythm : RhythmicValue} (hd : TieConsistent document)
    (h : materializeTimelineGapAsExplicitRest document gap eventId rhythm =
      .ok (.success document' gaps)) : TieConsistent document' := by
  unfold materializeTimelineGapAsExplicitRest at h
  obtain ⟨order, -, h⟩ := bind_eq_ok.mp h
  split_ifs at h
  · simp at h
  · exact insertExplicitRest_tieConsistent hd (pure_eq_ok.mp h)

/-! ## Every command -/

namespace Command

/-- What the callers of a command see to: a tie id that is not in use, new
note atoms with new ids and no ties, and no replacement of an event's note
atoms as a whole. -/
def Admissible (document : ScoreDocument) : Command → Prop
  | addTieRelationship start stop tieId => ∀ r ∈ document.tieRelationships,
      r.id ≠ tieId.getD (createTieRelationshipId start stop)
  | insertPitchedEvent event => FreshNotes document event.notes
  | addNoteAtom _ note => FreshNotes document [note]
  | updatePitchedEvent _ _ notes => notes = none
  | _ => True

/-- When a command keeps the two copies of the ties in step: it removes no
note atom whose tie has an end that stays, and adds no tie over one with an
empty id. -/
def KeepsTies (document : ScoreDocument) : Command → Prop
  | addTieRelationship start stop _ => ∀ r ∈ document.tieRelationships, r.id = "" →
      r.startNoteAtomId ≠ start ∧ r.stopNoteAtomId ≠ stop
  | deleteVoiceEvent eventId _ => ∀ event, document.events.find? (·.id = eventId) = some event →
      LosesWholeTies document (· ∈ event.notes.map NoteAtom.id)
  | removeNoteAtom _ noteAtomId => LosesWholeTies document (· = noteAtomId)
  | _ => True

/-- A command that succeeds, as a step of the document. -/
def Step [Collation] (document : ScoreDocument) (command : Command) (document' : ScoreDocument) :
    Prop :=
  command.Admissible document ∧ ∃ gaps, command.run document = .ok (.success document' gaps)

theorem tieConsistent_iff_keepsTies [Collation] {document document' : ScoreDocument}
    {command : Command} (hd : TieConsistent document) (h : command.Step document document') :
    TieConsistent document' ↔ command.KeepsTies document := by
  obtain ⟨ha, gaps, h⟩ := h
  cases command with
  | addTieRelationship start stop tieId => exact addTieRelationship_iff hd ha h
  | deleteTieRelationship tieId =>
    exact iff_of_true (deleteTieRelationship_tieConsistent hd (pure_eq_ok.mp h)) trivial
  | setTieRelationshipPlacement tieId placement =>
    exact iff_of_true
      ((setTieRelationshipPlacement_sameTies (pure_eq_ok.mp h)).tieConsistent hd) trivial
  | addSlurRelationship start stop notationId =>
    exact iff_of_true ((addSlurRelationship_sameTies h).tieConsistent hd) trivial
  | deleteSlurRelationship notationId =>
    exact iff_of_true ((deleteSlurRelationship_sameTies (pure_eq_ok.mp h)).tieConsistent hd) trivial
  | setSlurRelationshipPlacement notationId placement =>
    exact iff_of_true
      ((setSlurRelationshipPlacement_sameTies (pure_eq_ok.mp h)).tieConsistent hd) trivial
  | insertPitchedEvent event =>
    exact iff_of_true (insertPitchedEvent_tieConsistent hd ha (pure_eq_ok.mp h)) trivial
  | insertExplicitRest event =>
    exact iff_of_true (insertExplicitRest_tieConsistent hd (pure_eq_ok.mp h)) trivial
  | deleteVoiceEvent eventId measureDuration => exact deleteVoiceEvent_iff hd h
  | addNoteAtom eventId note =>
    exact iff_of_true (addNoteAtom_tieConsistent hd ha (pure_eq_ok.mp h)) trivial
  | removeNoteAtom eventId noteAtomId => exact removeNoteAtom_iff hd (pure_eq_ok.mp h)
  | updatePitchedEvent eventId patch notes =>
    obtain rfl : notes = none := ha
    exact iff_of_true ((updatePitchedEvent_sameTies hd (pure_eq_ok.mp h)).tieConsistent hd) trivial
  | updateNoteAtom eventId noteAtomId patch =>
    exact iff_of_true ((updateNoteAtom_sameTies hd (pure_eq_ok.mp h)).tieConsistent hd) trivial
  | updateExplicitRest eventId patch =>
    exact iff_of_true ((updateExplicitRest_sameTies hd (pure_eq_ok.mp h)).tieConsistent hd) trivial
  | materializeTimelineGapAsExplicitRest gap eventId rhythm =>
    exact iff_of_true (materializeTimelineGap_tieConsistent hd h) trivial
  | setEventStemDirectionOverride eventId stemDirection =>
    exact iff_of_true
      ((setEventStemDirectionOverride_sameTies (pure_eq_ok.mp h)).tieConsistent hd) trivial
  | updateBeamRelationshipAtEvent eventId action =>
    exact iff_of_true ((updateBeamRelationshipAtEvent_sameTies h).tieConsistent hd) trivial

end Command

/-! ## Runs of commands -/

/-- In a consistent document, two note atoms without a tie in the direction
asked for can be tied. -/
theorem TieConsistent.addTieRelationship_success (hd : TieConsistent document) {a b : NoteAtom}
    (ha : a ∈ document.noteAtoms) (hb : b ∈ document.noteAtoms) (hne : a.id ≠ b.id)
    (hout : ∀ r ∈ document.tieRelationships, r.startNoteAtomId ≠ a.id)
    (hin : ∀ r ∈ document.tieRelationships, r.stopNoteAtomId ≠ b.id) (tieId : Option TieId) :
    ∃ document', addTieRelationship document a.id b.id tieId = .ok (.success document' none) := by
  have hexist : ∀ c ∈ document.noteAtoms, noteAtomExists document c.id = true := fun c hc =>
    (noteAtomExists_iff _ _).mpr (List.mem_map_of_mem hc)
  have htie : document.tieRelationships.any (fun relationship =>
      relationship.startNoteAtomId == a.id && relationship.stopNoteAtomId == b.id) = false := by
    simpa using fun r hr e => absurd e (hout r hr)
  have hc := ((tieConsistent_iff document).mp hd).2
  have houtNone : a.tieOut = none := (hc.linkOut_eq_none_iff (n := tieNode a)
    (List.mem_map_of_mem ha)).mpr (by simpa [ScoreDocument.tieLinks] using hout)
  have hinNone : b.tieIn = none := (hc.linkIn_eq_none_iff (n := tieNode b)
    (List.mem_map_of_mem hb)).mpr (by simpa [ScoreDocument.tieLinks] using hin)
  simp [addTieRelationship, hexist a ha, hexist b hb, htie, findNoteAtom_of_mem hd.noteAtomIds ha,
    findNoteAtom_of_mem hd.noteAtomIds hb, houtNone, hinNone, createTieRelationship, hne]

/-- A document reached by commands that keep the ties is consistent. -/
theorem tieConsistent_of_reachable [Collation]
    (h : Reachable TieConsistent (guarded Command.KeepsTies Command.Step) document) :
    TieConsistent document :=
  h.invariant (fun _ hi => hi) fun _ _ _ hd hs =>
    (Command.tieConsistent_iff_keepsTies hd hs.2).mpr hs.1

/-- A command keeps a consistent document consistent exactly if it keeps the
ties. In every run of commands that do, each document is consistent, and two
note atoms without a tie in the direction asked for can be tied. -/
theorem command_tieConsistent_iff [Collation] :
    (∀ (document document' : ScoreDocument) (command : Command), TieConsistent document →
      command.Step document document' →
      (TieConsistent document' ↔ command.KeepsTies document)) ∧
    ∀ document, Reachable TieConsistent (guarded Command.KeepsTies Command.Step) document →
      TieConsistent document ∧ ∀ a ∈ document.noteAtoms, ∀ b ∈ document.noteAtoms, a.id ≠ b.id →
        (∀ r ∈ document.tieRelationships, r.startNoteAtomId ≠ a.id) →
        (∀ r ∈ document.tieRelationships, r.stopNoteAtomId ≠ b.id) → ∀ tieId, ∃ document',
          addTieRelationship document a.id b.id tieId = .ok (.success document' none) := by
  refine ⟨fun document document' command hd h => Command.tieConsistent_iff_keepsTies hd h,
    fun document h => ?_⟩
  have hd := tieConsistent_of_reachable h
  exact ⟨hd, fun a ha b hb hne hout hin tieId =>
    hd.addTieRelationship_success ha hb hne hout hin tieId⟩

/-! ## A tie that loses one end -/

/-- A collation by code points. -/
@[reducible] def codePointCollation : Collation := ⟨fun a b => if a < b then -1 else if b < a then 1 else 0⟩

/-- A note of one atom in the first voice of the first measure. -/
def singleNote (eventId : EventId) (noteAtomId : NoteAtomId) (offset : Int)
    (tieIn tieOut : Option TieId) : VoiceEvent :=
  .pitched ⟨eventId, "p:voice-1", "p:staff-1", ⟨"p:measure-1", ⟨offset, 1⟩⟩,
    ⟨⟨1, 1⟩, ⟨.quarter, 0⟩, none⟩,
    [⟨noteAtomId, ⟨.C, 4, none⟩, none, none, tieIn, tieOut, none⟩], none⟩

/-- Three notes, the second tied to the third. -/
def tiedDocument : ScoreDocument where
  id := "score"
  parts := [⟨"p", "Piano"⟩]
  staves := [⟨"p:staff-1", "p", 0⟩]
  voices := [⟨"p:voice-1", "p", "p:staff-1", .automatic⟩]
  measures := [⟨"p:measure-1", 1⟩]
  events := [singleNote "e1" "n1" 0 none none, singleNote "e2" "n2" 1 none (some "t"),
    singleNote "e3" "n3" 2 (some "t") none]
  beamRelationships := []
  tieRelationships := [⟨"t", "n2", "n3"⟩]
  slurRelationships := []
  notationControls := []

/-- `tiedDocument` after the first note of the tie is deleted. -/
def untiedDocument : ScoreDocument :=
  { tiedDocument with
    events := [singleNote "e1" "n1" 0 none none, singleNote "e3" "n3" 2 (some "t") none]
    tieRelationships := [] }

/-- Deleting a tied note leaves the `tieIn` of the note it is tied to: the two
copies differ, and no tie can lead to that note again. -/
theorem deleteVoiceEvent_stale_tieIn :
    TieConsistent tiedDocument ∧
      (Command.deleteVoiceEvent "e2" none).Admissible tiedDocument ∧
      @Command.run codePointCollation tiedDocument (.deleteVoiceEvent "e2" none) =
        .ok (.success untiedDocument none) ∧
      ¬ TieConsistent untiedDocument ∧
      (∀ r ∈ untiedDocument.tieRelationships, r.stopNoteAtomId ≠ "n3") ∧
      addTieRelationship untiedDocument "n1" "n3" none =
        .ok (.failure "Tie endpoint already has a tie in the requested direction.") := by
  refine ⟨by decide, trivial, by decide, by decide, by decide, by decide⟩

/-- `tiedDocument` after its tie is deleted. -/
def clearedDocument : ScoreDocument :=
  { tiedDocument with
    events := [singleNote "e1" "n1" 0 none none, singleNote "e2" "n2" 1 none none,
      singleNote "e3" "n3" 2 none none]
    tieRelationships := [] }

/-- Deleting the tie first clears both its ends. -/
theorem deleteTieRelationship_then_addTieRelationship :
    (TieConsistent clearedDocument ↔
      (Command.deleteTieRelationship "t").KeepsTies tiedDocument) ∧
    ∃ document', addTieRelationship clearedDocument "n1" "n3" none =
      .ok (.success document' none) := by
  let := codePointCollation
  have hd : TieConsistent tiedDocument := by decide
  have hstep : Command.Step tiedDocument (.deleteTieRelationship "t") clearedDocument :=
    ⟨trivial, none, by decide⟩
  refine ⟨command_tieConsistent_iff.1 _ _ _ hd hstep, ?_⟩
  have hreach : Reachable TieConsistent (guarded Command.KeepsTies Command.Step) clearedDocument :=
    .step (a := .deleteTieRelationship "t") (.start hd) ⟨trivial, hstep⟩
  have hrun := (command_tieConsistent_iff.2 clearedDocument hreach).2
  exact hrun ⟨"n1", ⟨.C, 4, none⟩, none, none, none, none, none⟩ (by decide)
    ⟨"n3", ⟨.C, 4, none⟩, none, none, none, none, none⟩ (by decide) (by decide) (by decide)
    (by decide) none

end NoteVerse.Editor

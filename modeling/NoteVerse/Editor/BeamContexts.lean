import NoteVerse.Editor.Commands
import NoteVerse.Lib.Lists

/-!
# Where beams are

The context of an event are the events of its voice, staff and measure in the order of
their offsets. In a document whose events have ids of their own, the bounds that
`getBeamRelationshipBounds` finds of a beam that is contiguous in its context are
those of the beam (`bounds_of_group`).
-/

namespace NoteVerse.Editor

open Js

/-- Events of one voice, staff and measure. -/
def SameContext (a b : VoiceEvent) : Prop :=
  a.voiceId = b.voiceId ∧ a.staffId = b.staffId ∧ a.position.measureId = b.position.measureId

/-- The events follow each other in the context of one of the document's. -/
def Contiguous (document : ScoreDocument) (eventIds : List EventId) : Prop :=
  ∃ event ∈ document.events, ∃ before group after,
    getBeamContextEvents document event.id = .ok (before ++ group ++ after) ∧
      eventIds.Perm (group.map (·.id))

/-- Two of the events can have beams. -/
def TwoBeamable (document : ScoreDocument) (eventIds : List EventId) : Prop :=
  ∃ a ∈ document.events, ∃ b ∈ document.events, a ≠ b ∧ a.id ∈ eventIds ∧ b.id ∈ eventIds ∧
    isBeamableEvent a = true ∧ isBeamableEvent b = true

/-- Beams are disjoint, and each is contiguous and has two events that can have beams. -/
structure BeamsOk (document : ScoreDocument) : Prop where
  disjoint : document.beamRelationships.Pairwise fun beam other =>
    beam.eventIds.Disjoint other.eventIds
  contiguous : ∀ beam ∈ document.beamRelationships, Contiguous document beam.eventIds
  beamable : ∀ beam ∈ document.beamRelationships, TwoBeamable document beam.eventIds

/-- The events that share a beam with an event: itself, if it has no beam. -/
def beamOf (document : ScoreDocument) (eventId : EventId) : List EventId :=
  (document.beamRelationships.find? (·.eventIds.contains eventId)).elim [eventId]
    BeamRelationship.eventIds

variable {document : ScoreDocument} {voiceEvents before group after : List VoiceEvent}
  {event other : VoiceEvent} {eventId : EventId}

/-! ## Contexts -/

theorem eq_of_id (hids : (document.events.map (·.id)).Nodup) (he : event ∈ document.events)
    (ho : other ∈ document.events) (h : event.id = other.id) : event = other :=
  List.inj_on_of_nodup_map hids he ho h

theorem find?_of_mem (hids : (document.events.map (·.id)).Nodup) (he : event ∈ document.events) :
    document.events.find? (·.id = event.id) = some event := by
  cases hfind : document.events.find? (·.id = event.id) with
  | none => exact absurd (List.find?_eq_none.mp hfind event he) (by simp)
  | some found =>
    have hid : found.id = event.id := by simpa using List.find?_some hfind
    rw [eq_of_id hids (List.mem_of_find?_eq_some hfind) he hid]

/-- The events of a context, in some order. -/
theorem context_perm (hids : (document.events.map (·.id)).Nodup) (he : event ∈ document.events)
    (h : getBeamContextEvents document event.id = .ok voiceEvents) :
    voiceEvents.Perm (document.events.filter fun candidate =>
      candidate.voiceId = event.voiceId ∧ candidate.staffId = event.staffId ∧
        candidate.position.measureId = event.position.measureId) := by
  unfold getBeamContextEvents at h
  rw [find?_of_mem hids he] at h
  exact sortM_perm h

theorem mem_context (hids : (document.events.map (·.id)).Nodup) (he : event ∈ document.events)
    (h : getBeamContextEvents document event.id = .ok voiceEvents) :
    other ∈ voiceEvents ↔ other ∈ document.events ∧ SameContext other event := by
  rw [(context_perm hids he h).mem_iff, List.mem_filter, decide_eq_true_iff]
  rfl

theorem context_nodup (hids : (document.events.map (·.id)).Nodup) (he : event ∈ document.events)
    (h : getBeamContextEvents document event.id = .ok voiceEvents) :
    (voiceEvents.map (·.id)).Nodup :=
  ((context_perm hids he h).map _).nodup_iff.mpr ((List.filter_sublist.map _).nodup hids)

/-- The events of a context have that context. -/
theorem context_of_mem (hids : (document.events.map (·.id)).Nodup) (he : event ∈ document.events)
    (h : getBeamContextEvents document event.id = .ok voiceEvents) (ho : other ∈ voiceEvents) :
    getBeamContextEvents document other.id = .ok voiceEvents := by
  obtain ⟨hmem, hvoice, hstaff, hmeasure⟩ := (mem_context hids he h).mp ho
  rw [← h]
  unfold getBeamContextEvents
  rw [find?_of_mem hids hmem, find?_of_mem hids he]
  dsimp only
  rw [hvoice, hstaff, hmeasure]

/-- The beam of an event is in the context of the event. -/
theorem group_of_beam (hids : (document.events.map (·.id)).Nodup) (he : event ∈ document.events)
    (h : getBeamContextEvents document event.id = .ok voiceEvents) {eventIds : List EventId}
    (hbeam : Contiguous document eventIds) (ho : other ∈ voiceEvents) (hid : other.id ∈ eventIds) :
    ∃ before group after, voiceEvents = before ++ group ++ after ∧
      eventIds.Perm (group.map (·.id)) := by
  obtain ⟨first, hfirst, before, group, after, hcontext, hperm⟩ := hbeam
  obtain ⟨member, hmember, hsame⟩ := List.mem_map.mp (hperm.mem_iff.mp hid)
  have hin : member ∈ before ++ group ++ after := by
    simp only [List.mem_append]
    exact .inl (.inr hmember)
  have heq : member = other := eq_of_id hids ((mem_context hids hfirst hcontext).mp hin).1
    ((mem_context hids he h).mp ho).1 hsame
  have hboth := (context_of_mem hids hfirst hcontext hin).symm.trans
    (heq ▸ context_of_mem hids he h ho)
  exact ⟨before, group, after, (Except.ok.inj hboth).symm, hperm⟩

/-! ## Bounds -/

/-- The part of a context that is the beam of an event. -/
structure OldGroup (document : ScoreDocument) (voiceEvents : List VoiceEvent) (eventId : EventId)
    (before group after : List VoiceEvent) : Prop where
  split : voiceEvents = before ++ group ++ after
  perm : (beamOf document eventId).Perm (group.map (·.id))

theorem beamOf_eq {beam : BeamRelationship} (hbeams : BeamsOk document)
    (hbeam : beam ∈ document.beamRelationships) (hid : eventId ∈ beam.eventIds) :
    document.beamRelationships.find? (·.eventIds.contains eventId) = some beam ∧
      beamOf document eventId = beam.eventIds := by
  have hfind : document.beamRelationships.find? (·.eventIds.contains eventId) = some beam := by
    cases hfind : document.beamRelationships.find? (·.eventIds.contains eventId) with
    | none => exact absurd (List.find?_eq_none.mp hfind beam hbeam) (by simpa using hid)
    | some found =>
      have hfound : eventId ∈ found.eventIds := by simpa using List.find?_some hfind
      have hsymm : Std.Symm fun beam other : BeamRelationship =>
          beam.eventIds.Disjoint other.eventIds := ⟨fun _ _ hd _ ha hb => hd hb ha⟩
      by_contra hne
      exact hbeams.disjoint.forall (List.mem_of_find?_eq_some hfind) hbeam
        (fun heq => hne (congrArg some heq)) hfound hid
  unfold beamOf
  rw [hfind]
  exact ⟨rfl, rfl⟩

theorem mem_beamOf (document : ScoreDocument) (eventId : EventId) :
    eventId ∈ beamOf document eventId := by
  unfold beamOf
  cases hfind : document.beamRelationships.find? (·.eventIds.contains eventId) with
  | none => exact List.mem_singleton_self _
  | some beam => simpa using List.find?_some hfind

/-- Each event of a context has a part of it for its beam. -/
theorem exists_oldGroup (hids : (document.events.map (·.id)).Nodup) (hbeams : BeamsOk document)
    (he : event ∈ document.events) (h : getBeamContextEvents document event.id = .ok voiceEvents)
    (ho : other ∈ voiceEvents) :
    ∃ before group after, OldGroup document voiceEvents other.id before group after := by
  cases hfind : document.beamRelationships.find? (·.eventIds.contains other.id) with
  | none =>
    obtain ⟨before, after, rfl⟩ := List.append_of_mem ho
    refine ⟨before, [other], after, by simp, ?_⟩
    unfold beamOf
    rw [hfind]
    exact .refl _
  | some beam =>
    have hmem := List.mem_of_find?_eq_some hfind
    have hid : other.id ∈ beam.eventIds := by simpa using List.find?_some hfind
    obtain ⟨before, group, after, hsplit, hperm⟩ :=
      group_of_beam hids he h (hbeams.contiguous beam hmem) ho hid
    refine ⟨before, group, after, hsplit, ?_⟩
    rw [(beamOf_eq hbeams hmem hid).2]
    exact hperm

/-- The indexes of a beam that is contiguous, in order. -/
theorem sort_indexes (hids : ((before ++ group ++ after).map (·.id)).Nodup)
    {eventIds : List EventId} (hperm : eventIds.Perm (group.map (·.id))) :
    sort (fun left right : Nat => (left : Int) - right)
        (eventIds.filterMap fun id => (before ++ group ++ after).findIdx? (·.id = id)) =
      List.range' before.length group.length := by
  have hindexes : (eventIds.filterMap fun id =>
      (before ++ group ++ after).findIdx? (·.id = id)).Perm
      (List.range' before.length group.length) := by
    rw [← Lists.filterMap_findIdx?_segment hids]
    exact hperm.filterMap _
  have hsorted := @pairwise_sort Nat (fun n => (n : Int)) (fun _ _ => True)
    (eventIds.filterMap fun id => (before ++ group ++ after).findIdx? (·.id = id))
    (List.pairwise_of_forall fun _ _ => ⟨fun _ => trivial, fun _ => trivial⟩)
  have hle : ∀ a b : Nat, (a : Int) ≤ b ∧ True → a ≤ b := fun a b h => by exact_mod_cast h.1
  exact List.Perm.eq_of_pairwise (fun _ _ _ _ => le_antisymm) (hsorted.imp fun h => hle _ _ h)
    List.pairwise_le_range' ((sort_perm _ _).trans hindexes)

/-- The bounds of an event are where its beam is in the context. -/
theorem bounds_of_group (hids : (voiceEvents.map (·.id)).Nodup)
    (hgroup : OldGroup document voiceEvents eventId before group after) {index : Nat}
    (hindex : voiceEvents.findIdx? (·.id = eventId) = some index) :
    (getBeamRelationshipBounds document voiceEvents eventId).getD (index, index) =
        (before.length, before.length + group.length - 1) ∧
      before.length ≤ index ∧ index < before.length + group.length := by
  obtain ⟨rfl, hperm⟩ := hgroup
  obtain ⟨hlt, hat, -⟩ := List.findIdx?_eq_some_iff_getElem.mp hindex
  obtain ⟨member, hmember, hid⟩ := List.mem_map.mp (hperm.mem_iff.mp (mem_beamOf document eventId))
  obtain ⟨place, hplace⟩ := List.mem_iff_getElem?.mp hmember
  have hpos : place < group.length := (List.getElem?_eq_some_iff.mp hplace).1
  have hfound : (before ++ group ++ after)[before.length + place]? = some member := by
    rw [List.append_assoc, List.getElem?_append_right (by omega), Nat.add_sub_cancel_left,
      List.getElem?_append_left hpos, hplace]
  have hat : index = before.length + place := by
    have hkey := Lists.findIdx?_key hids hfound
    rw [← hid, hkey] at hindex
    exact (Option.some.inj hindex).symm
  refine ⟨?_, by omega, by omega⟩
  unfold getBeamRelationshipBounds
  cases hfind : document.beamRelationships.find? (·.eventIds.contains eventId) with
  | none =>
    have hone : group.length = 1 := by
      have hlength := hperm.length_eq
      unfold beamOf at hlength
      rw [hfind] at hlength
      rw [← List.length_map (·.id), ← hlength]
      rfl
    show (index, index) = _
    rw [hone, hat]
    have hzero : place = 0 := by omega
    rw [hzero]
    rfl
  | some beam =>
    have hbeamPerm : beam.eventIds.Perm (group.map (·.id)) := by
      unfold beamOf at hperm
      rw [hfind] at hperm
      exact hperm
    dsimp only
    rw [sort_indexes hids hbeamPerm, List.head?_range', List.getLast?_range',
      if_neg (by omega), if_neg (by omega)]
    rfl

end NoteVerse.Editor

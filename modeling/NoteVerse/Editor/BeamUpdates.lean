import NoteVerse.Editor.BeamContexts

/-!
# What a change of a beam does

`updateBeamRelationshipAtEvent` joins the beam of an event with that of a neighbour, or
splits it beside the event. The parts of a split that have one event are no beams; if
both have one, the old beam is left as it is (`updateBeamRelationshipAtEvent_iff`).
-/

namespace NoteVerse.Editor

open Js

/-- Two events are in one beam. -/
def Shares (document : ScoreDocument) (a b : EventId) : Prop :=
  ∃ beam ∈ document.beamRelationships, a ∈ beam.eventIds ∧ b ∈ beam.eventIds

/-- How many events of the context are before the edge that is requested. -/
def edgeAt (action : BeamRelationshipAction) (index : Nat) : Nat :=
  if action = .breakLeft then index else index + 1

/-- The event just across the edge. -/
def acrossEdge (action : BeamRelationshipAction) (voiceEvents : List VoiceEvent) (index : Nat) :
    Option VoiceEvent :=
  if action = .breakLeft then (voiceEvents.take index).getLast? else voiceEvents[index + 1]?

def Breaks (action : BeamRelationshipAction) : Prop := action = .breakLeft ∨ action = .breakRight

/-- No event of the beam is one of these. -/
def outside (voiceEvents : List VoiceEvent) (beam : BeamRelationship) : Bool :=
  beam.eventIds.all fun id => !(voiceEvents.map (·.id)).contains id

/-- What the update of a beam should leave. -/
structure Updated (document document' : ScoreDocument) (voiceEvents : List VoiceEvent)
    (eventId : EventId) (action : BeamRelationshipAction) : Prop where
  beams : BeamsOk document'
  previous : action = .previous → ∀ before group after,
    OldGroup document voiceEvents eventId before group after →
      ∃ neighbor ∈ before.getLast?, Shares document' eventId neighbor.id
  next : action = .next → ∀ before group after,
    OldGroup document voiceEvents eventId before group after →
      ∃ neighbor ∈ after.head?, Shares document' eventId neighbor.id
  apart : Breaks action → ∀ index, voiceEvents.findIdx? (·.id = eventId) = some index →
    ∀ neighbor ∈ acrossEdge action voiceEvents index, ¬Shares document' eventId neighbor.id
  together : Breaks action → ∀ index, voiceEvents.findIdx? (·.id = eventId) = some index →
    ∀ side ∈ [voiceEvents.take (edgeAt action index), voiceEvents.drop (edgeAt action index)],
      ∀ a ∈ side, ∀ b ∈ side, a ≠ b → Shares document a.id b.id → Shares document' a.id b.id
  others : document'.beamRelationships.filter (outside voiceEvents) =
    document.beamRelationships.filter (outside voiceEvents)

/-- Two different events that can have beams. -/
def HasTwoBeamable (group : List VoiceEvent) : Prop :=
  ∃ a ∈ group, ∃ b ∈ group, a ≠ b ∧ isBeamableEvent a = true ∧ isBeamableEvent b = true

/-- A beam that is split has three events at least, and each part of it with two or more
has two that can have beams. -/
def SplitsWell (document : ScoreDocument) (voiceEvents : List VoiceEvent) (eventId : EventId)
    (action : BeamRelationshipAction) : Prop :=
  Breaks action → ∀ index, voiceEvents.findIdx? (·.id = eventId) = some index →
    ∀ before group after, OldGroup document voiceEvents eventId before group after →
      3 ≤ group.length ∧
        ∀ part ∈ [group.take (edgeAt action index - before.length),
          group.drop (edgeAt action index - before.length)],
          2 ≤ part.length → HasTwoBeamable part

variable {document document' : ScoreDocument} {voiceEvents before group after : List VoiceEvent}
  {groups : List (List VoiceEvent)} {event : VoiceEvent} {eventId : EventId}
  {action : BeamRelationshipAction} {gaps : Option (List TimelineGap)}

/-! ## Beams that replace others -/

def newBeam (group : List VoiceEvent) : BeamRelationship :=
  ⟨createBeamRelationshipId group, group.map (·.id)⟩

/-- The beams that no event of a group is in. -/
def unrelated (document : ScoreDocument) (groups : List (List VoiceEvent)) :
    List BeamRelationship :=
  document.beamRelationships.filter
    (!·.eventIds.any (groups.flatMap (·.map (·.id))).contains)

theorem mem_unrelated {beam : BeamRelationship} : beam ∈ unrelated document groups ↔
    beam ∈ document.beamRelationships ∧
      ∀ id ∈ beam.eventIds, ∀ group ∈ groups, id ∉ group.map (·.id) := by
  unfold unrelated
  rw [List.mem_filter]
  simp only [Bool.not_eq_true', List.any_eq_false, List.contains_eq_mem, decide_eq_true_eq,
    List.mem_flatMap, not_exists, not_and]

theorem mapM_newBeam {beams : List BeamRelationship}
    (h : groups.mapM (fun group =>
      createBeamRelationship (createBeamRelationshipId group) (group.map (·.id))) = .ok beams) :
    beams = groups.map newBeam ∧ ∀ group ∈ groups, 2 ≤ group.length := by
  induction groups generalizing beams with
  | nil =>
    obtain rfl := Except.ok.inj h
    exact ⟨rfl, fun _ hmem => absurd hmem List.not_mem_nil⟩
  | cons group groups ih =>
    rw [List.mapM_cons] at h
    obtain ⟨beam, hbeam, h⟩ := bind_eq_ok.mp h
    obtain ⟨rest, hrest, h⟩ := bind_eq_ok.mp h
    obtain rfl := Except.ok.inj h
    obtain ⟨rfl, hlengths⟩ := ih hrest
    unfold createBeamRelationship at hbeam
    split_ifs at hbeam with hshort
    obtain rfl := Except.ok.inj hbeam
    rw [List.length_map] at hshort
    refine ⟨rfl, fun other hmem => ?_⟩
    rcases List.mem_cons.mp hmem with rfl | hmem
    · omega
    · exact hlengths other hmem

theorem replace_cases
    (h : replaceBeamRelationships document groups = .ok (.success document' gaps)) :
    document' = { document with
        beamRelationships := unrelated document groups ++ groups.map newBeam } ∧
      ∀ group ∈ groups, 2 ≤ group.length := by
  obtain ⟨beams, hbeams, h⟩ := bind_eq_ok.mp h
  obtain ⟨rfl, hlengths⟩ := mapM_newBeam hbeams
  have hsuccess := Except.ok.inj h
  injection hsuccess with hdocument
  exact ⟨hdocument.symm, hlengths⟩

/-- Two events are in one beam if they were and no group took it, or if a group has both. -/
theorem shares_replaced {a b : EventId} :
    Shares { document with
        beamRelationships := unrelated document groups ++ groups.map newBeam } a b ↔
      (∃ beam ∈ unrelated document groups, a ∈ beam.eventIds ∧ b ∈ beam.eventIds) ∨
        ∃ group ∈ groups, a ∈ group.map (·.id) ∧ b ∈ group.map (·.id) := by
  unfold Shares
  simp only [List.mem_append, List.mem_map, or_and_right, exists_or]
  refine or_congr Iff.rfl ⟨?_, ?_⟩
  · rintro ⟨_, ⟨group, hgroup, rfl⟩, ha, hb⟩
    exact ⟨group, hgroup, List.mem_map.mp ha, List.mem_map.mp hb⟩
  · rintro ⟨group, hgroup, ha, hb⟩
    exact ⟨newBeam group, ⟨group, hgroup, rfl⟩, List.mem_map.mpr ha, List.mem_map.mpr hb⟩

theorem twoBeamable_iff (hids : (document.events.map (·.id)).Nodup)
    (he : event ∈ document.events)
    (hcontext : getBeamContextEvents document event.id = .ok voiceEvents)
    (hsegment : ∃ before after, voiceEvents = before ++ group ++ after) :
    TwoBeamable document (group.map (·.id)) ↔ HasTwoBeamable group := by
  obtain ⟨before, after, rfl⟩ := hsegment
  have hmem : ∀ a ∈ group, a ∈ document.events := fun a ha =>
    ((mem_context hids he hcontext).mp
      (List.mem_append_left _ (List.mem_append_right _ ha))).1
  have hgroup : ∀ a ∈ document.events, a.id ∈ group.map (·.id) → a ∈ group := by
    intro a ha hid
    obtain ⟨b, hb, hsame⟩ := List.mem_map.mp hid
    rw [← eq_of_id hids (hmem b hb) ha hsame]
    exact hb
  constructor
  · rintro ⟨a, ha, b, hb, hne, hida, hidb, hbeamable⟩
    exact ⟨a, hgroup a ha hida, b, hgroup b hb hidb, hne, hbeamable⟩
  · rintro ⟨a, ha, b, hb, hne, hbeamable⟩
    exact ⟨a, hmem a ha, b, hmem b hb, hne, List.mem_map_of_mem ha, List.mem_map_of_mem hb,
      hbeamable⟩

/-- Segments that replace beams are beams if they have events that can have beams. -/
theorem beamsOk_replaced (hids : (document.events.map (·.id)).Nodup) (hbeams : BeamsOk document)
    (he : event ∈ document.events)
    (hcontext : getBeamContextEvents document event.id = .ok voiceEvents)
    (hsegments : ∀ group ∈ groups, ∃ before after, voiceEvents = before ++ group ++ after)
    (hapart : groups.Pairwise fun group other =>
      (group.map VoiceEvent.id).Disjoint (other.map VoiceEvent.id)) :
    BeamsOk { document with
        beamRelationships := unrelated document groups ++ groups.map newBeam } ↔
      ∀ group ∈ groups, HasTwoBeamable group := by
  constructor
  · intro h group hgroup
    rw [← twoBeamable_iff hids he hcontext (hsegments group hgroup)]
    exact h.beamable (newBeam group) (List.mem_append_right _ (List.mem_map_of_mem hgroup))
  · refine fun h => ⟨?_, fun beam hbeam => ?_, fun beam hbeam => ?_⟩
    · rw [List.pairwise_append, List.pairwise_map]
      refine ⟨hbeams.disjoint.filter _, hapart, fun beam hbeam other hother id hid hin => ?_⟩
      obtain ⟨group, hgroup, rfl⟩ := List.mem_map.mp hother
      exact (mem_unrelated.mp hbeam).2 id hid group hgroup hin
    · rcases List.mem_append.mp hbeam with hbeam | hbeam
      · exact hbeams.contiguous beam (mem_unrelated.mp hbeam).1
      · obtain ⟨group, hgroup, rfl⟩ := List.mem_map.mp hbeam
        obtain ⟨before, after, hsplit⟩ := hsegments group hgroup
        exact ⟨event, he, before, group, after, hsplit ▸ hcontext, .refl _⟩
    · rcases List.mem_append.mp hbeam with hbeam | hbeam
      · exact hbeams.beamable beam (mem_unrelated.mp hbeam).1
      · obtain ⟨group, hgroup, rfl⟩ := List.mem_map.mp hbeam
        exact (twoBeamable_iff hids he hcontext (hsegments group hgroup)).mpr (h group hgroup)

/-- Beams of other contexts are as they were. -/
theorem others_replaced
    (hsegments : ∀ group ∈ groups, ∃ before after, voiceEvents = before ++ group ++ after)
    (hlengths : ∀ group ∈ groups, 2 ≤ group.length) :
    (unrelated document groups ++ groups.map newBeam).filter (outside voiceEvents) =
      document.beamRelationships.filter (outside voiceEvents) := by
  have hin : ∀ group ∈ groups, ∀ id ∈ group.map (·.id), id ∈ voiceEvents.map (·.id) := by
    intro group hgroup id hid
    obtain ⟨before, after, rfl⟩ := hsegments group hgroup
    obtain ⟨a, ha, rfl⟩ := List.mem_map.mp hid
    exact List.mem_map_of_mem (List.mem_append_left _ (List.mem_append_right _ ha))
  have hnew : (groups.map newBeam).filter (outside voiceEvents) = [] := by
    rw [List.filter_eq_nil_iff]
    intro beam hbeam houtside
    obtain ⟨group, hgroup, rfl⟩ := List.mem_map.mp hbeam
    have hpos := hlengths group hgroup
    obtain ⟨a, ha⟩ := List.exists_mem_of_length_pos (by omega : 0 < group.length)
    have hout := List.all_eq_true.mp houtside a.id (List.mem_map_of_mem ha)
    simp only [Bool.not_eq_true', List.contains_eq_mem, decide_eq_false_iff_not] at hout
    exact hout (hin group hgroup a.id (List.mem_map_of_mem ha))
  rw [List.filter_append, hnew, List.append_nil]
  unfold unrelated
  rw [List.filter_filter]
  refine List.filter_congr fun beam _ => ?_
  by_cases houtside : outside voiceEvents beam = true
  · rw [houtside, Bool.true_and, Bool.not_eq_true', List.any_eq_false]
    intro id hid hmem
    have hout := List.all_eq_true.mp houtside id hid
    simp only [Bool.not_eq_true', List.contains_eq_mem, decide_eq_false_iff_not] at hout
    simp only [List.contains_eq_mem, decide_eq_true_eq, List.mem_flatMap] at hmem
    obtain ⟨group, hgroup, hmem⟩ := hmem
    exact hout (hin group hgroup id hmem)
  · rw [Bool.not_eq_true] at houtside
    rw [houtside, Bool.false_and]

/-! ## Slices -/

theorem mem_slice {start stop i : Nat} {a : VoiceEvent} (ha : voiceEvents[i]? = some a)
    (hstart : start ≤ i) (hstop : i ≤ stop) : a ∈ sliceEvents voiceEvents start stop := by
  unfold sliceEvents
  rw [List.mem_iff_getElem?]
  refine ⟨i - start, ?_⟩
  rw [List.getElem?_drop, List.getElem?_take, if_pos (by omega), Nat.add_sub_cancel' hstart, ha]

theorem slice_segment {start stop : Nat} (h : start ≤ stop + 1) :
    ∃ before after, voiceEvents = before ++ sliceEvents voiceEvents start stop ++ after := by
  refine ⟨voiceEvents.take start, voiceEvents.drop (stop + 1), ?_⟩
  unfold sliceEvents
  have htake : voiceEvents.take start = (voiceEvents.take (stop + 1)).take start := by
    rw [List.take_take, Nat.min_eq_left h]
  rw [htake, List.take_append_drop, List.take_append_drop]

/-- A slice of a segment. -/
theorem slice_of_split {i j : Nat} (hj : j < group.length) :
    sliceEvents (before ++ group ++ after) (before.length + i) (before.length + j) =
      (group.take (j + 1)).drop i := by
  unfold sliceEvents
  rw [List.append_assoc, Nat.add_assoc, List.take_length_add_append, List.drop_length_add_append,
    List.take_append_of_le_length (by omega)]

/-! ## Joins -/

variable {index : Nat} {bounds : Nat × Nat}

/-- The event that an index is of. -/
theorem event_at (hids : (document.events.map (·.id)).Nodup) (he : event ∈ document.events)
    (hcontext : getBeamContextEvents document event.id = .ok voiceEvents)
    (hindex : voiceEvents.findIdx? (·.id = event.id) = some index) :
    voiceEvents[index]? = some event := by
  obtain ⟨hlt, hid, -⟩ := List.findIdx?_eq_some_iff_getElem.mp hindex
  have hmem := (mem_context hids he hcontext).mp (List.getElem_mem hlt)
  rw [List.getElem?_eq_getElem hlt, eq_of_id hids hmem.1 he (of_decide_eq_true hid)]

/-- The neighbour of the beam of an event, on the side that an action names. -/
def NeighborAt (action : BeamRelationshipAction) (bounds : Nat × Nat) (neighborIndex : Nat) : Prop :=
  (action = .previous ∧ neighborIndex + 1 = bounds.1) ∨
    (action = .next ∧ neighborIndex = bounds.2 + 1)

theorem join_ok (hids : (document.events.map (·.id)).Nodup) (hbeams : BeamsOk document)
    (he : event ∈ document.events)
    (hcontext : getBeamContextEvents document event.id = .ok voiceEvents)
    (hindex : voiceEvents.findIdx? (·.id = event.id) = some index)
    (hbeamable : isBeamableEvent event = true)
    (hbounds : (getBeamRelationshipBounds document voiceEvents event.id).getD (index, index) = bounds)
    {neighborIndex : Nat} (hadjacent : NeighborAt action bounds neighborIndex)
    {neighbor : VoiceEvent} (hneighbor : voiceEvents[neighborIndex]? = some neighbor)
    (hneighborBeamable : isBeamableEvent neighbor = true) {neighborBounds : Nat × Nat}
    (hneighborBounds : (getBeamRelationshipBounds document voiceEvents neighbor.id).getD
      (neighborIndex, neighborIndex) = neighborBounds)
    (h : replaceBeamRelationships document [sliceEvents voiceEvents
      (min bounds.1 neighborBounds.1) (max bounds.2 neighborBounds.2)] =
        .ok (.success document' gaps)) :
    Updated document document' voiceEvents event.id action := by
  have hnodup := context_nodup hids he hcontext
  have hat := event_at hids he hcontext hindex
  have hplaces : ∀ before group after, OldGroup document voiceEvents event.id before group after →
      bounds = (before.length, before.length + group.length - 1) ∧ before.length ≤ index ∧
        index < before.length + group.length := by
    intro before group after hgroup
    rw [← hbounds]
    exact bounds_of_group hnodup hgroup hindex
  obtain ⟨before, group, after, hgroup⟩ :=
    exists_oldGroup hids hbeams he hcontext (List.mem_of_getElem? hat)
  obtain ⟨rfl, hfirst, hlast⟩ := hplaces before group after hgroup
  obtain ⟨beforeN, groupN, afterN, hgroupN⟩ :=
    exists_oldGroup hids hbeams he hcontext (List.mem_of_getElem? hneighbor)
  have hindexN := Lists.findIdx?_key hnodup hneighbor
  obtain ⟨hN, hfirstN, hlastN⟩ := bounds_of_group hnodup hgroupN hindexN
  obtain rfl := hneighborBounds.symm.trans hN
  have hne : neighborIndex ≠ index := by
    rcases hadjacent with ⟨-, heq⟩ | ⟨-, heq⟩
    · dsimp only at heq
      omega
    · dsimp only at heq
      omega
  obtain ⟨hdocument, hlengths⟩ := replace_cases h
  dsimp only at h hdocument hlengths
  have hnear : min before.length beforeN.length ≤ neighborIndex ∧
      neighborIndex ≤ max (before.length + group.length - 1) (beforeN.length + groupN.length - 1) :=
    by omega
  have hevent : event ∈ sliceEvents voiceEvents (min before.length beforeN.length)
      (max (before.length + group.length - 1) (beforeN.length + groupN.length - 1)) :=
    mem_slice hat (by omega) (by omega)
  have hother : neighbor ∈ sliceEvents voiceEvents (min before.length beforeN.length)
      (max (before.length + group.length - 1) (beforeN.length + groupN.length - 1)) :=
    mem_slice hneighbor hnear.1 hnear.2
  have hdistinct : event ≠ neighbor := by
    rintro rfl
    exact hne (Option.some.inj (hindexN.symm.trans hindex))
  have hsegments : ∀ segment ∈ [sliceEvents voiceEvents (min before.length beforeN.length)
      (max (before.length + group.length - 1) (beforeN.length + groupN.length - 1))],
      ∃ first last, voiceEvents = first ++ segment ++ last := by
    intro segment hmem
    rw [List.mem_singleton.mp hmem]
    exact slice_segment (by omega)
  have hshares : Shares document' event.id neighbor.id := by
    rw [hdocument, shares_replaced]
    exact .inr ⟨_, List.mem_singleton_self _, List.mem_map_of_mem hevent,
      List.mem_map_of_mem hother⟩
  have hnotBreaks : ¬Breaks action := by
    rintro (rfl | rfl)
    · rcases hadjacent with ⟨heq, -⟩ | ⟨heq, -⟩
      · exact nomatch heq
      · exact nomatch heq
    · rcases hadjacent with ⟨heq, -⟩ | ⟨heq, -⟩
      · exact nomatch heq
      · exact nomatch heq
  refine ⟨?_, ?_, ?_, fun hb => absurd hb hnotBreaks, fun hb => absurd hb hnotBreaks, ?_⟩
  · rw [hdocument, beamsOk_replaced hids hbeams he hcontext hsegments (List.pairwise_singleton _ _)]
    intro group hmem
    rw [List.mem_singleton.mp hmem]
    exact ⟨event, hevent, neighbor, hother, hdistinct, hbeamable, hneighborBeamable⟩
  · rintro rfl before' group' after' hgroup'
    obtain ⟨hbounds', -, -⟩ := hplaces before' group' after' hgroup'
    obtain ⟨hlength, -⟩ := Prod.mk.inj hbounds'
    have hplace : neighborIndex + 1 = before'.length := by
      rcases hadjacent with ⟨-, heq⟩ | ⟨heq, -⟩
      · exact heq.trans hlength
      · exact nomatch heq
    refine ⟨neighbor, ?_, hshares⟩
    rw [hgroup'.split, List.append_assoc, List.getElem?_append_left (by omega)] at hneighbor
    rw [List.getLast?_eq_getElem?, ← hplace, Nat.add_sub_cancel]
    exact hneighbor
  · rintro rfl before' group' after' hgroup'
    obtain ⟨hbounds', hfirst', hlast'⟩ := hplaces before' group' after' hgroup'
    obtain ⟨hlength, hend⟩ := Prod.mk.inj hbounds'
    have hplace : neighborIndex = (before' ++ group').length := by
      rw [List.length_append]
      rcases hadjacent with ⟨heq, -⟩ | ⟨-, heq⟩
      · exact nomatch heq
      · dsimp only at heq
        omega
    refine ⟨neighbor, ?_, hshares⟩
    rw [hgroup'.split, hplace, List.getElem?_append_right le_rfl, Nat.sub_self] at hneighbor
    rw [List.head?_eq_getElem?]
    exact hneighbor
  · rw [hdocument]
    exact others_replaced hsegments hlengths

/-! ## Splits -/

/-- The parts of a beam that is split, those of one event left out. -/
def splitParts (group : List VoiceEvent) (k : Nat) : List (List VoiceEvent) :=
  [group.take k, group.drop k].filter (2 ≤ ·.length)

theorem mem_splitParts {part : List VoiceEvent} {k : Nat} : part ∈ splitParts group k ↔
    (part = group.take k ∨ part = group.drop k) ∧ 2 ≤ part.length := by
  unfold splitParts
  rw [List.mem_filter, List.mem_cons, List.mem_singleton, decide_eq_true_iff]

/-- A split that succeeds is one inside the beam. -/
theorem split_cases
    (h : splitBeamRelationship document (before ++ group ++ after)
      (before.length, before.length + group.length - 1) index action =
        .ok (.success document' gaps)) :
    ∃ k, edgeAt action index = before.length + k ∧ 0 < k ∧ k < group.length ∧
      replaceBeamRelationships document (splitParts group k) = .ok (.success document' gaps) := by
  have hafter : (if action = .breakLeft then (index : Int) - 1 else index) =
      (edgeAt action index : Int) - 1 := by
    unfold edgeAt
    split_ifs
    · rfl
    · push_cast
      omega
  unfold splitBeamRelationship at h
  dsimp only at h
  rw [hafter] at h
  split_ifs at h with hsingle hedge
  · exact nomatch h
  · exact nomatch h
  · obtain ⟨hlow, hhigh⟩ := not_or.mp hedge
    obtain ⟨k, hk⟩ : ∃ k, edgeAt action index = before.length + k :=
      ⟨edgeAt action index - before.length, by omega⟩
    refine ⟨k, hk, by omega, by omega, ?_⟩
    have hleft : ((edgeAt action index : Int) - 1).toNat = before.length + (k - 1) := by omega
    have hlast : before.length + group.length - 1 = before.length + (group.length - 1) := by omega
    have hleftPart : sliceEvents (before ++ group ++ after) before.length
        (before.length + (k - 1)) = group.take k := by
      have hslice := @slice_of_split before group after 0 (k - 1) (by omega)
      rw [Nat.add_zero] at hslice
      rw [hslice, Nat.sub_add_cancel (by omega), List.drop_zero]
    have hrightPart : sliceEvents (before ++ group ++ after) (before.length + (k - 1) + 1)
        (before.length + (group.length - 1)) = group.drop k := by
      rw [show before.length + (k - 1) + 1 = before.length + k by omega, slice_of_split (by omega),
        Nat.sub_add_cancel (by omega), List.take_length]
    rw [hleft, hlast, hleftPart, hrightPart] at h
    exact h

/-- An event of a beam, by its place in the context. -/
theorem group_at {j : Nat} (hj : j < group.length) :
    (before ++ group ++ after)[before.length + j]? = group[j]? := by
  rw [List.append_assoc, List.getElem?_append_right (by omega), Nat.add_sub_cancel_left,
    List.getElem?_append_left hj]

/-- The event and the one across the edge are on different sides. -/
theorem sides_of_edge {k : Nat} (hk : edgeAt action index = before.length + k) (hpos : 0 < k)
    (hlt : k < group.length) (hevent : (before ++ group ++ after)[index]? = some event) :
    (∃ neighbor, neighbor ∈ acrossEdge action (before ++ group ++ after) index) ∧
      ∀ neighbor ∈ acrossEdge action (before ++ group ++ after) index,
        (event ∈ group.drop k ∧ neighbor ∈ group.take k) ∨
          (event ∈ group.take k ∧ neighbor ∈ group.drop k) := by
  have hdrop : ∀ a, group[k]? = some a → a ∈ group.drop k := fun a ha =>
    List.mem_iff_getElem?.mpr ⟨0, by rw [List.getElem?_drop, Nat.add_zero, ha]⟩
  have htake : ∀ a, group[k - 1]? = some a → a ∈ group.take k := fun a ha =>
    List.mem_iff_getElem?.mpr ⟨k - 1, by rw [List.getElem?_take, if_pos (by omega), ha]⟩
  unfold edgeAt at hk
  unfold acrossEdge
  split_ifs at hk ⊢ with hleft
  · have hindex : index = before.length + k := hk
    have hlength : (before ++ group ++ after).length =
        before.length + group.length + after.length := by
      rw [List.length_append, List.length_append]
    have hlast : min index (before ++ group ++ after).length - 1 = before.length + (k - 1) := by
      omega
    have hacross : ((before ++ group ++ after).take index).getLast? = group[k - 1]? := by
      rw [List.getLast?_eq_getElem?, List.length_take, hlast, List.getElem?_take,
        if_pos (by omega), group_at (by omega)]
    rw [hindex, group_at hlt] at hevent
    rw [hacross]
    refine ⟨⟨group[k - 1], List.getElem?_eq_getElem (by omega)⟩, fun neighbor hn => .inl ?_⟩
    exact ⟨hdrop event hevent, htake neighbor hn⟩
  · have hindex : index = before.length + (k - 1) := by omega
    rw [hindex, group_at (by omega)] at hevent
    rw [hk, group_at hlt]
    refine ⟨⟨group[k], List.getElem?_eq_getElem hlt⟩, fun neighbor hn => .inr ?_⟩
    exact ⟨htake event hevent, hdrop neighbor hn⟩

/-- A part of a beam with more than one event is one of the document's. -/
theorem beam_of_oldGroup (hgroup : OldGroup document voiceEvents eventId before group after)
    (hlength : 2 ≤ group.length) :
    ∃ beam ∈ document.beamRelationships, beam.eventIds.Perm (group.map (·.id)) := by
  have hperm := hgroup.perm
  unfold beamOf at hperm
  cases hfind : document.beamRelationships.find? (·.eventIds.contains eventId) with
  | none =>
    rw [hfind] at hperm
    have heq := hperm.length_eq
    rw [List.length_map] at heq
    exact absurd hlength (by rw [← heq]; exact Nat.not_succ_le_self 1)
  | some beam =>
    rw [hfind] at hperm
    exact ⟨beam, List.mem_of_find?_eq_some hfind, hperm⟩

/-- A beam with an event of another is that one. -/
theorem beam_eq (hbeams : BeamsOk document) {beam other : BeamRelationship}
    (hbeam : beam ∈ document.beamRelationships) (hother : other ∈ document.beamRelationships)
    {id : EventId} (hid : id ∈ beam.eventIds) (hin : id ∈ other.eventIds) : beam = other := by
  have hbeamFind := (beamOf_eq hbeams hbeam hid).1
  rw [(beamOf_eq hbeams hother hin).1] at hbeamFind
  exact (Option.some.inj hbeamFind).symm

section

variable {index k : Nat}

theorem two_le_length {a b : VoiceEvent} (ha : a ∈ group) (hb : b ∈ group) (hne : a ≠ b) :
    2 ≤ group.length := by
  by_contra hshort
  exact hne (Lists.eq_of_length_le_one (by omega) ha hb)

/-- The parts of a split are apart. -/
theorem splitParts_apart (hids : (group.map (·.id)).Nodup) :
    (group.take k ++ group.drop k = group) ∧
      ((group.take k).map VoiceEvent.id).Disjoint ((group.drop k).map VoiceEvent.id) := by
  have hsplit := List.take_append_drop k group
  refine ⟨hsplit, ?_⟩
  rw [← hsplit, List.map_append] at hids
  exact List.disjoint_of_nodup_append hids

/-- An event of a beam that is before the edge is in the first part, and one after it in
the other. -/
theorem mem_part (hids : ((before ++ group ++ after).map (·.id)).Nodup) (hle : k ≤ group.length)
    {a : VoiceEvent} (ha : a.id ∈ group.map (·.id)) :
    (a ∈ (before ++ group ++ after).take (before.length + k) → a ∈ group.take k) ∧
      (a ∈ (before ++ group ++ after).drop (before.length + k) → a ∈ group.drop k) := by
  rw [List.append_assoc, List.take_length_add_append, List.drop_length_add_append,
    List.take_append_of_le_length hle, List.drop_append_of_le_length hle]
  rw [List.map_append, List.map_append] at hids
  refine ⟨fun hmem => ?_, fun hmem => ?_⟩
  · refine (List.mem_append.mp hmem).resolve_left fun hbefore => ?_
    exact List.disjoint_of_nodup_append hids.of_append_left (List.mem_map_of_mem hbefore) ha
  · refine (List.mem_append.mp hmem).resolve_right fun hafter => ?_
    exact List.disjoint_of_nodup_append hids (List.mem_append_right _ ha)
      (List.mem_map_of_mem hafter)

/-- What a split leaves is as it should be exactly if the beam has three events and its
parts have events that can have beams. -/
theorem split_updated_iff (hids : (document.events.map (·.id)).Nodup) (hbeams : BeamsOk document)
    (he : event ∈ document.events)
    (hcontext : getBeamContextEvents document event.id = .ok voiceEvents)
    (hindex : voiceEvents.findIdx? (·.id = event.id) = some index)
    (hgroup : OldGroup document voiceEvents event.id before group after) (hbreaks : Breaks action)
    (hk : edgeAt action index = before.length + k) (hpos : 0 < k) (hlt : k < group.length)
    (h : replaceBeamRelationships document (splitParts group k) = .ok (.success document' gaps)) :
    Updated document document' voiceEvents event.id action ↔
      3 ≤ group.length ∧
        ∀ part ∈ [group.take k, group.drop k], 2 ≤ part.length → HasTwoBeamable part := by
  have hnodup := context_nodup hids he hcontext
  have hat := event_at hids he hcontext hindex
  obtain ⟨rfl, hperm⟩ := hgroup
  have hgroupIds : (group.map (·.id)).Nodup :=
    ((List.sublist_append_right before group).trans (List.sublist_append_left _ after)).map _
      |>.nodup hnodup
  obtain ⟨hsplit, hdisjoint⟩ := @splitParts_apart group k hgroupIds
  obtain ⟨hdocument, hlengths⟩ := replace_cases h
  obtain ⟨⟨neighbor, hneighbor⟩, hsides⟩ := sides_of_edge hk hpos hlt hat
  obtain ⟨beam, hbeam, hbeamPerm⟩ := beam_of_oldGroup
    (⟨rfl, hperm⟩ : OldGroup document (before ++ group ++ after) event.id before group after)
    (by omega)
  have hmem : ∀ a, a ∈ group.take k ∨ a ∈ group.drop k → a.id ∈ beam.eventIds := by
    intro a ha
    refine hbeamPerm.mem_iff.mpr (List.mem_map_of_mem ?_)
    exact ha.elim (fun hl => List.mem_of_mem_take hl) fun hr => List.mem_of_mem_drop hr
  have hsegments : ∀ part ∈ splitParts group k,
      ∃ first last, before ++ group ++ after = first ++ part ++ last := by
    intro part hpart
    rcases (mem_splitParts.mp hpart).1 with rfl | rfl
    · refine ⟨before, group.drop k ++ after, ?_⟩
      rw [List.append_assoc, List.append_assoc, ← List.append_assoc (group.take k), hsplit]
    · refine ⟨before ++ group.take k, after, ?_⟩
      rw [List.append_assoc before (group.take k), hsplit]
  have hpairs : (splitParts group k).Pairwise fun part other =>
      (part.map VoiceEvent.id).Disjoint (other.map VoiceEvent.id) := by
    refine List.Pairwise.filter _ (List.pairwise_pair.mpr hdisjoint)
  have hboth : ∀ neighbor ∈ acrossEdge action (before ++ group ++ after) index,
      event.id ∈ beam.eventIds ∧ neighbor.id ∈ beam.eventIds := fun neighbor hn =>
    (hsides neighbor hn).elim (fun hs => ⟨hmem event (.inr hs.1), hmem neighbor (.inl hs.2)⟩)
      fun hs => ⟨hmem event (.inl hs.1), hmem neighbor (.inr hs.2)⟩
  constructor
  · intro hupdated
    have hok := hupdated.beams
    rw [hdocument, beamsOk_replaced hids hbeams he hcontext hsegments hpairs] at hok
    refine ⟨?_, fun part hpart hlong => hok part (mem_splitParts.mpr ⟨?_, hlong⟩)⟩
    · by_contra hshort
      -- Both parts have one event: nothing is replaced, and the old beam stays.
      have hnone : splitParts group k = [] := by
        unfold splitParts
        rw [List.filter_eq_nil_iff]
        intro part hpart
        rw [decide_eq_true_iff]
        rcases List.mem_cons.mp hpart with rfl | hpart
        · rw [List.length_take]
          omega
        · rw [List.mem_singleton.mp hpart, List.length_drop]
          omega
      refine hupdated.apart hbreaks index hindex neighbor hneighbor ?_
      rw [hdocument, shares_replaced, hnone]
      refine .inl ⟨beam, mem_unrelated.mpr ⟨hbeam, fun _ _ _ hin => ?_⟩, hboth neighbor hneighbor⟩
      exact absurd hin List.not_mem_nil
    · rcases List.mem_cons.mp hpart with rfl | hpart
      · exact .inl rfl
      · exact .inr (List.mem_singleton.mp hpart)
  · rintro ⟨hthree, hparts⟩
    have htaken : beam ∉ unrelated document (splitParts group k) := by
      intro hun
      have hkept := (mem_unrelated.mp hun).2
      rcases Nat.lt_or_ge 1 k with hlong | hshort
      · have hpart : group.take k ∈ splitParts group k :=
          mem_splitParts.mpr ⟨.inl rfl, by rw [List.length_take]; omega⟩
        obtain ⟨a, ha⟩ := List.exists_mem_of_length_pos
          (by rw [List.length_take]; omega : 0 < (group.take k).length)
        exact hkept a.id (hmem a (.inl ha)) _ hpart (List.mem_map_of_mem ha)
      · have hpart : group.drop k ∈ splitParts group k :=
          mem_splitParts.mpr ⟨.inr rfl, by rw [List.length_drop]; omega⟩
        obtain ⟨a, ha⟩ := List.exists_mem_of_length_pos
          (by rw [List.length_drop]; omega : 0 < (group.drop k).length)
        exact hkept a.id (hmem a (.inr ha)) _ hpart (List.mem_map_of_mem ha)
    refine ⟨?_, ?_, ?_, fun _ index' hindex' neighbor hn hshares => ?_,
      fun _ index' hindex' side hside a ha b hb hne hshares => ?_, ?_⟩
    · rw [hdocument, beamsOk_replaced hids hbeams he hcontext hsegments hpairs]
      intro part hpart
      obtain ⟨hcase, hlong⟩ := mem_splitParts.mp hpart
      refine hparts part ?_ hlong
      rw [List.mem_cons, List.mem_singleton]
      exact hcase
    · rintro rfl
      exact absurd hbreaks (by rintro (hb | hb) <;> exact nomatch hb)
    · rintro rfl
      exact absurd hbreaks (by rintro (hb | hb) <;> exact nomatch hb)
    · obtain rfl := Option.some.inj (hindex.symm.trans hindex')
      rw [hdocument, shares_replaced] at hshares
      rcases hshares with ⟨other, hother, hid, -⟩ | ⟨part, hpart, hid, hnid⟩
      · obtain rfl := beam_eq hbeams hbeam (mem_unrelated.mp hother).1 (hboth neighbor hn).1 hid
        exact htaken hother
      · rcases (mem_splitParts.mp hpart).1 with rfl | rfl
        · rcases hsides neighbor hn with ⟨hright, -⟩ | ⟨-, hright⟩
          · exact hdisjoint hid (List.mem_map_of_mem hright)
          · exact hdisjoint hnid (List.mem_map_of_mem hright)
        · rcases hsides neighbor hn with ⟨-, hleft⟩ | ⟨hleft, -⟩
          · exact hdisjoint (List.mem_map_of_mem hleft) hnid
          · exact hdisjoint (List.mem_map_of_mem hleft) hid
    · obtain rfl := Option.some.inj (hindex.symm.trans hindex')
      rw [hdocument, shares_replaced]
      obtain ⟨other, hother, hida, hidb⟩ := hshares
      by_cases hun : other ∈ unrelated document (splitParts group k)
      · exact .inl ⟨other, hun, hida, hidb⟩
      · -- The beam that lost an event to a part is the one that is split.
        have hsame : other = beam := by
          by_contra hdiffer
          refine hun (mem_unrelated.mpr ⟨hother, fun id hid part hpart hin => hdiffer ?_⟩)
          obtain ⟨c, hc, rfl⟩ := List.mem_map.mp hin
          refine beam_eq hbeams hother hbeam hid (hmem c ?_)
          rcases (mem_splitParts.mp hpart).1 with rfl | rfl
          · exact .inl hc
          · exact .inr hc
        subst hsame
        obtain ⟨hfirstA, hlastA⟩ := mem_part hnodup hlt.le (hbeamPerm.mem_iff.mp hida)
        obtain ⟨hfirstB, hlastB⟩ := mem_part hnodup hlt.le (hbeamPerm.mem_iff.mp hidb)
        rw [hk] at hside
        rcases List.mem_cons.mp hside with rfl | hside
        · have hpartA := hfirstA ha
          have hpartB := hfirstB hb
          refine .inr ⟨group.take k, mem_splitParts.mpr ⟨.inl rfl, ?_⟩,
            List.mem_map_of_mem hpartA, List.mem_map_of_mem hpartB⟩
          exact two_le_length hpartA hpartB hne
        · rw [List.mem_singleton.mp hside] at ha hb
          have hpartA := hlastA ha
          have hpartB := hlastB hb
          refine .inr ⟨group.drop k, mem_splitParts.mpr ⟨.inr rfl, ?_⟩,
            List.mem_map_of_mem hpartA, List.mem_map_of_mem hpartB⟩
          exact two_le_length hpartA hpartB hne
    · rw [hdocument]
      exact others_replaced hsegments hlengths

end

/-! ## The update -/

/-- What a join that succeeds has found and done. -/
theorem join_cases (hbreaks : ¬Breaks action)
    (h : (do
      let neighborIndex : Int :=
        if action = .previous then (bounds.1 : Int) - 1 else bounds.2 + 1
      let neighbor := if neighborIndex < 0 then none else voiceEvents[neighborIndex.toNat]?
      match neighbor with
      | none => return .failure "Adjacent event cannot be joined into a beam."
      | some neighborEvent =>
        if !isBeamableEvent neighbor then
          return .failure "Adjacent event cannot be joined into a beam."
        let neighborBounds :=
          (getBeamRelationshipBounds document voiceEvents neighborEvent.id).getD
            (neighborIndex.toNat, neighborIndex.toNat)
        let nextEvents := sliceEvents voiceEvents (min bounds.1 neighborBounds.1)
          (max bounds.2 neighborBounds.2)
        if !nextEvents.all (isBeamableEvent ·) then
          return .failure "Beam relationship cannot include rests, gaps, or unbeamable durations."
        replaceBeamRelationships document [nextEvents] : Throws CommandResult) =
          .ok (.success document' gaps)) :
    ∃ neighborIndex neighbor, NeighborAt action bounds neighborIndex ∧
      voiceEvents[neighborIndex]? = some neighbor ∧ isBeamableEvent neighbor = true ∧
      replaceBeamRelationships document [sliceEvents voiceEvents
        (min bounds.1 ((getBeamRelationshipBounds document voiceEvents neighbor.id).getD
          (neighborIndex, neighborIndex)).1)
        (max bounds.2 ((getBeamRelationshipBounds document voiceEvents neighbor.id).getD
          (neighborIndex, neighborIndex)).2)] = .ok (.success document' gaps) := by
  dsimp only at h
  generalize hn : (if action = .previous then (bounds.1 : Int) - 1 else bounds.2 + 1) = n at h
  by_cases hneg : n < 0
  · rw [if_pos hneg] at h
    exact nomatch h
  · rw [if_neg hneg] at h
    cases hneighbor : voiceEvents[n.toNat]? with
    | none =>
      rw [hneighbor] at h
      exact nomatch h
    | some neighbor =>
      rw [hneighbor] at h
      dsimp only at h
      by_cases hbeamable : (!isBeamableEvent (some neighbor)) = true
      · rw [if_pos hbeamable] at h
        exact nomatch h
      · rw [if_neg hbeamable] at h
        refine ⟨n.toNat, neighbor, ?_, hneighbor, by simpa using hbeamable, ?_⟩
        · unfold NeighborAt
          cases action with
          | previous => exact .inl ⟨rfl, by rw [if_pos rfl] at hn; omega⟩
          | next => exact .inr ⟨rfl, by rw [if_neg (by decide)] at hn; omega⟩
          | breakLeft => exact absurd (.inl rfl) hbreaks
          | breakRight => exact absurd (.inr rfl) hbreaks
        · split at h
          · exact nomatch h
          · exact h

/-- What an update that succeeds has found and done. -/
theorem update_cases
    (h : updateBeamRelationshipAtEvent document eventId action = .ok (.success document' gaps)) :
    ∃ event ∈ document.events, event.id = eventId ∧ ∃ voiceEvents index,
      getBeamContextEvents document event.id = .ok voiceEvents ∧
      voiceEvents.findIdx? (·.id = event.id) = some index ∧
      isBeamableEvent voiceEvents[index]? = true ∧
      ((Breaks action ∧ splitBeamRelationship document voiceEvents
          ((getBeamRelationshipBounds document voiceEvents event.id).getD (index, index)) index
            action = .ok (.success document' gaps)) ∨
        ∃ neighborIndex neighbor, NeighborAt action
            ((getBeamRelationshipBounds document voiceEvents event.id).getD (index, index))
            neighborIndex ∧
          voiceEvents[neighborIndex]? = some neighbor ∧ isBeamableEvent neighbor = true ∧
          replaceBeamRelationships document [sliceEvents voiceEvents
            (min ((getBeamRelationshipBounds document voiceEvents event.id).getD (index, index)).1
              ((getBeamRelationshipBounds document voiceEvents neighbor.id).getD
                (neighborIndex, neighborIndex)).1)
            (max ((getBeamRelationshipBounds document voiceEvents event.id).getD (index, index)).2
              ((getBeamRelationshipBounds document voiceEvents neighbor.id).getD
                (neighborIndex, neighborIndex)).2)] = .ok (.success document' gaps)) := by
  obtain ⟨voiceEvents, hcontext, h⟩ := bind_eq_ok.mp h
  cases hindex : voiceEvents.findIdx? (·.id = eventId) with
  | none =>
    rw [hindex] at h
    exact nomatch h
  | some index =>
    rw [hindex] at h
    dsimp only at h
    have hfind : ∃ event, document.events.find? (·.id = eventId) = some event := by
      cases hfind : document.events.find? (·.id = eventId) with
      | none =>
        unfold getBeamContextEvents at hcontext
        rw [hfind] at hcontext
        obtain rfl := Except.ok.inj hcontext
        exact nomatch hindex
      | some event => exact ⟨event, rfl⟩
    obtain ⟨event, hfind⟩ := hfind
    have hid : event.id = eventId := by simpa using List.find?_some hfind
    subst hid
    refine ⟨event, List.mem_of_find?_eq_some hfind, rfl, voiceEvents, index, hcontext, hindex, ?_⟩
    generalize (getBeamRelationshipBounds document voiceEvents event.id).getD (index, index) =
      bounds at h ⊢
    by_cases hbeamable : (!isBeamableEvent voiceEvents[index]?) = true
    · rw [if_pos hbeamable] at h
      exact nomatch h
    · rw [if_neg hbeamable] at h
      refine ⟨by simpa using hbeamable, ?_⟩
      by_cases hbreaks : action = .breakLeft ∨ action = .breakRight
      · rw [if_pos hbreaks] at h
        exact .inl ⟨hbreaks, h⟩
      · rw [if_neg hbreaks] at h
        exact .inr (join_cases hbreaks h)

theorem NeighborAt.not_breaks {neighborIndex : Nat} (h : NeighborAt action bounds neighborIndex) :
    ¬Breaks action := by
  rcases h with ⟨rfl, -⟩ | ⟨rfl, -⟩
  · exact fun hb => hb.elim (fun heq => nomatch heq) fun heq => nomatch heq
  · exact fun hb => hb.elim (fun heq => nomatch heq) fun heq => nomatch heq

/-- An update of a document whose beams are as they should be, and whose events have ids
of their own, does what it should exactly if it is no split, or one of a beam of three
events or more with parts that have events that can have beams. -/
theorem updateBeamRelationshipAtEvent_iff (document document' : ScoreDocument)
    (eventId : EventId) (action : BeamRelationshipAction) (gaps : Option (List TimelineGap))
    (hids : (document.events.map (·.id)).Nodup) (hbeams : BeamsOk document)
    (h : updateBeamRelationshipAtEvent document eventId action = .ok (.success document' gaps)) :
    ∃ voiceEvents, getBeamContextEvents document eventId = .ok voiceEvents ∧
      (Updated document document' voiceEvents eventId action ↔
        SplitsWell document voiceEvents eventId action) := by
  obtain ⟨event, he, rfl, voiceEvents, index, hcontext, hindex, hbeamable, hcase⟩ := update_cases h
  have hnodup := context_nodup hids he hcontext
  have hat := event_at hids he hcontext hindex
  refine ⟨voiceEvents, hcontext, ?_⟩
  rcases hcase with ⟨hbreaks, hsplit⟩ | ⟨neighborIndex, neighbor, hadjacent, hneighbor, hnb, hjoin⟩
  · have hiff : ∀ before group after, OldGroup document voiceEvents event.id before group after →
        (Updated document document' voiceEvents event.id action ↔ 3 ≤ group.length ∧
          ∀ part ∈ [group.take (edgeAt action index - before.length),
            group.drop (edgeAt action index - before.length)],
            2 ≤ part.length → HasTwoBeamable part) := by
      intro before group after hgroup
      obtain ⟨hbounds, -⟩ := bounds_of_group hnodup hgroup hindex
      rw [hbounds, hgroup.split] at hsplit
      obtain ⟨k, hk, hpos, hlt, hreplace⟩ := split_cases hsplit
      rw [hk, Nat.add_sub_cancel_left]
      exact split_updated_iff hids hbeams he hcontext hindex hgroup hbreaks hk hpos hlt hreplace
    constructor
    · intro hupdated _ index' hindex' before group after hgroup
      obtain rfl := Option.some.inj (hindex.symm.trans hindex')
      exact (hiff before group after hgroup).mp hupdated
    · intro hwell
      obtain ⟨before, group, after, hgroup⟩ :=
        exists_oldGroup hids hbeams he hcontext (List.mem_of_getElem? hat)
      exact (hiff before group after hgroup).mpr (hwell hbreaks index hindex before group after hgroup)
  · rw [hat] at hbeamable
    refine iff_of_true ?_ fun hb => absurd hb hadjacent.not_breaks
    exact join_ok hids hbeams he hcontext hindex hbeamable rfl hadjacent hneighbor hnb rfl hjoin

/-- An eighth note at an eighth of a measure. -/
def eighthNote (id : EventId) (offset : Int) : VoiceEvent := .pitched {
  id
  voiceId := "voice"
  staffId := "staff"
  position := ⟨"measure", ⟨offset, 2⟩⟩
  rhythm := ⟨⟨1, 2⟩, ⟨.eighth, 0⟩, none⟩
  notes := []
  source := none }

/-- Two eighth notes in a beam. -/
def twoEighths : ScoreDocument where
  id := "document"
  parts := []
  staves := []
  voices := []
  measures := []
  events := [eighthNote "event-1" 0, eighthNote "event-2" 1]
  beamRelationships := [⟨"beam-1", ["event-1", "event-2"]⟩]
  tieRelationships := []
  slurRelationships := []
  notationControls := []

theorem beamsOk_twoEighths : BeamsOk twoEighths := by
  have hcontext : getBeamContextEvents twoEighths "event-1" = .ok ([] ++ twoEighths.events ++ []) := by
    decide
  refine ⟨List.pairwise_singleton _ _, fun beam hbeam => ?_, fun beam hbeam => ?_⟩
  · rw [List.mem_singleton.mp hbeam]
    exact ⟨eighthNote "event-1" 0, List.mem_cons_self, [], twoEighths.events, [], hcontext, .refl _⟩
  · rw [List.mem_singleton.mp hbeam]
    exact ⟨eighthNote "event-1" 0, List.mem_cons_self, eighthNote "event-2" 1,
      List.mem_cons_of_mem _ (List.mem_singleton_self _), by decide, by decide, by decide,
      by decide, by decide⟩

/-- A beam of two that is split stays. -/
theorem split_of_two :
    updateBeamRelationshipAtEvent twoEighths "event-1" .breakRight =
        .ok (.success twoEighths none) ∧
      getBeamContextEvents twoEighths "event-1" = .ok twoEighths.events ∧
      ¬Updated twoEighths twoEighths twoEighths.events "event-1" .breakRight := by
  refine ⟨by decide, by decide, fun hupdated => ?_⟩
  refine hupdated.apart (.inr rfl) 0 (by decide) (eighthNote "event-2" 1)
    (by decide) ?_
  exact ⟨⟨"beam-1", ["event-1", "event-2"]⟩, List.mem_singleton_self _, by decide, by decide⟩

theorem updateBeamRelationshipAtEvent_iff_twoEighths :
    ∃ voiceEvents, getBeamContextEvents twoEighths "event-1" = .ok voiceEvents ∧
      (Updated twoEighths twoEighths voiceEvents "event-1" .breakRight ↔
        SplitsWell twoEighths voiceEvents "event-1" .breakRight) :=
  updateBeamRelationshipAtEvent_iff twoEighths twoEighths "event-1" .breakRight none
    (by decide) beamsOk_twoEighths (by decide)

end NoteVerse.Editor

import NoteVerse.Practice.ScoreTimeline

/-!
# The events of a timeline

The events of a note array have different ids (`eventsOf_ok`): an id tells the
beats, and its locator tells the note that the event has its staff, its voice and
its ties from, or the index of the event.
-/

namespace NoteVerse.Practice.ScoreTimeline

open Js Xml

/-- What the groups and the steps rely on. -/
structure EventsOk (events : List PracticeScoreEvent) : Prop where
  ids : (events.map (·.eventId)).Nodup
  lengths : ∀ event ∈ events, event.pitches.length = event.renderNoteIds.length
  struck : ∀ event ∈ events, event.pitches ≠ []
  scaled : ∀ event ∈ events, ∃ n : ℤ, event.onsetBeat * 10 ^ 6 = n
  durations : ∀ event ∈ events, 0 ≤ event.durationBeats

variable {noteArray : List NoteRow} {root : Option Node}

/-! ## Locators -/

theorem ne_empty_of_isLocator {locator : String} (h : IsLocator locator) : locator ≠ "" := by
  rintro rfl
  rcases h with ⟨n, h⟩ | ⟨p, m, e, h⟩
  · have hlist := congrArg String.toList h
    rw [toList_indexLocator] at hlist
    exact absurd hlist (by simp)
  · have hlist := congrArg String.toList h
    rw [toList_noteLocator] at hlist
    exact absurd hlist (by simp)

theorem idLocator_of_isLocator {index : Nat} {locator : String} (h : IsLocator locator) :
    idLocator index locator = locator :=
  if_neg (ne_empty_of_isLocator h)

/-- The notes of a score, each with what the score says of it. -/
def OfScore (root : Option Node) (notes : List TimelineNote) : Prop :=
  ∀ item ∈ notes, item.metadata = (musicXmlNoteMetadata root).get item.note.id

/-- Where the locator of an event is from. -/
theorem eventSemanticLocator_cases {notes : List TimelineNote} (h : OfScore root notes)
    (index : Nat) :
    eventSemanticLocator index notes = "i" ++ Nat.repr index ∨
      ∃ item ∈ notes, ∃ metadata, item.metadata = some metadata ∧
        eventSemanticLocator index notes = metadata.semanticLocator ∧
        ∃ p m e, metadata.semanticLocator = noteLocator p m e := by
  unfold eventSemanticLocator semanticLocator
  cases hfind : notes.findSome? fun item => item.metadata.bind fun metadata =>
      if metadata.semanticLocator = "" then none else some metadata.semanticLocator with
  | none => exact .inl (if_pos rfl)
  | some locator =>
    obtain ⟨item, hitem, hsome⟩ := List.exists_of_findSome?_eq_some hfind
    obtain ⟨metadata, hmetadata, hlocator⟩ := Option.bind_eq_some_iff.mp hsome
    split_ifs at hlocator with hempty
    obtain rfl := Option.some.inj hlocator
    have hget := (h item hitem).symm.trans hmetadata
    exact .inr ⟨item, hitem, metadata, hmetadata, if_neg hempty, exists_locator hget⟩

theorem eventSemanticLocator_isLocator {notes : List TimelineNote} (h : OfScore root notes)
    (index : Nat) : IsLocator (eventSemanticLocator index notes) := by
  rcases eventSemanticLocator_cases h index with heq | ⟨_, _, metadata, _, heq, p, m, e, hlocator⟩
  · exact .inl ⟨index, heq⟩
  · exact .inr ⟨p, m, e, heq.trans hlocator⟩

/-! ## Voices -/

theorem toList_intToString (n : Int) :
    (toString n).toList = (if n < 0 then ['-'] else []) ++ Nat.toDigits 10 n.natAbs := by
  rw [Int.toString_eq_repr, Int.repr_eq_if]
  by_cases hneg : n < 0
  · rw [if_neg (not_le.mpr hneg), if_pos hneg, String.toList_append, Nat.toList_repr,
      show (-n).toNat = n.natAbs by omega]
    rfl
  · rw [if_pos (not_lt.mp hneg), if_neg hneg, Nat.toList_repr, show n.toNat = n.natAbs by omega]
    rfl

theorem safeId_rowVoice (note : NoteRow) : safeId (rowVoice note) = rowVoice note := by
  refine safeId_of_safe fun c hc => ?_
  unfold rowVoice at hc
  cases hvoice : note.voice with
  | none => simp [hvoice] at hc
  | some voice =>
    rw [hvoice, Option.elim_some, toList_intToString, List.mem_append] at hc
    rcases hc with hc | hc
    · split_ifs at hc
      · rw [List.mem_singleton.mp hc]
        decide
      · exact absurd hc List.not_mem_nil
    · have hplain := Python.isPlain_toDigits _ c hc
      exact ⟨isSafe_of_isPlain hplain, hplain.ne (by decide)⟩

/-- The voices of two rows with one metadata are told apart by their ids. -/
theorem voiceId_inj {note₁ note₂ : NoteRow} {metadata : Option MusicXmlNoteMetadata}
    (h : safeId (voiceId note₁ metadata) = safeId (voiceId note₂ metadata)) :
    voiceId note₁ metadata = voiceId note₂ metadata := by
  unfold voiceId at h ⊢
  cases metadata with
  | none => rwa [safeId_rowVoice, safeId_rowVoice] at h
  | some metadata =>
    dsimp only at h ⊢
    split_ifs at h ⊢
    · rwa [safeId_rowVoice, safeId_rowVoice] at h
    · rfl

/-! ## The groups of notes -/

theorem sortedNotes_perm (noteArray : List NoteRow) (root : Option Node) :
    (sortedNotes noteArray root).Perm
      (JsMap.groupBy eventKey (timelineNotes noteArray root)).entries :=
  List.mergeSort_perm _ _

theorem sortedNotes_keys_nodup : ((sortedNotes noteArray root).map Prod.fst).Nodup :=
  ((sortedNotes_perm noteArray root).map Prod.fst).nodup_iff.mpr
    (JsMap.groupBy eventKey (timelineNotes noteArray root)).keys_nodup

/-- The notes of a group. -/
structure GroupOk (noteArray : List NoteRow) (root : Option Node)
    (e : EventKey × List TimelineNote) : Prop where
  ne_nil : e.2 ≠ []
  ofScore : OfScore root e.2
  keys : ∀ item ∈ e.2, eventKey item = e.1
  rows : ∀ item ∈ e.2, item.note ∈ noteArray

variable {e : EventKey × List TimelineNote}

theorem groupOk_of_mem (he : e ∈ sortedNotes noteArray root) : GroupOk noteArray root e := by
  obtain ⟨hnotes, hne⟩ := JsMap.of_mem_groupBy ((sortedNotes_perm noteArray root).mem_iff.mp he)
  have hitem : ∀ item ∈ e.2, item ∈ timelineNotes noteArray root ∧ eventKey item = e.1 := by
    intro item hmem
    rw [hnotes, List.mem_filter, decide_eq_true_eq] at hmem
    exact hmem
  refine ⟨hne, fun item hmem => ?_, fun item hmem => (hitem item hmem).2, fun item hmem => ?_⟩
  · obtain ⟨note, -, rfl⟩ := List.mem_map.mp (hitem item hmem).1
    rfl
  · obtain ⟨note, hnote, rfl⟩ := List.mem_map.mp (hitem item hmem).1
    exact hnote

/-- A key, from any note of its group. -/
theorem GroupOk.exists_row (h : GroupOk noteArray root e) :
    ∃ item ∈ e.2, item.note ∈ noteArray ∧ e.1.onsetBeat = roundBeat item.note.onsetBeat ∧
      e.1.durationBeats = roundBeat item.note.durationBeat := by
  obtain ⟨item, hitem⟩ := List.exists_mem_of_ne_nil _ h.ne_nil
  refine ⟨item, hitem, h.rows item hitem, ?_, ?_⟩
  · rw [← h.keys item hitem]
    rfl
  · rw [← h.keys item hitem]
    rfl

theorem GroupOk.scaled (h : GroupOk noteArray root e) :
    (∃ n : ℤ, e.1.onsetBeat * 10 ^ 6 = n) ∧ ∃ n : ℤ, e.1.durationBeats * 10 ^ 6 = n := by
  obtain ⟨item, -, -, honset, hduration⟩ := h.exists_row
  rw [honset, hduration]
  exact ⟨Rounding.round_scaled 6 _, Rounding.round_scaled 6 _⟩

theorem indexLocator_inj {i j : Nat} (h : "i" ++ Nat.repr i = "i" ++ Nat.repr j) : i = j := by
  have hlist := congrArg String.toList h
  rw [toList_indexLocator, toList_indexLocator] at hlist
  exact repr_injective (List.cons.inj hlist).2

theorem indexLocator_ne (i p m n : Nat) : "i" ++ Nat.repr i ≠ noteLocator p m n := by
  intro h
  refine @indexLocator_ne_noteLocator [] [] i p m n ?_
  rw [h]

/-- A note with the metadata of two groups tells their staff, voice and ties. -/
theorem key_of_metadata {e₁ e₂ : EventKey × List TimelineNote} {metadata : MusicXmlNoteMetadata}
    {item₁ item₂ : TimelineNote} (h₁ : eventKey item₁ = e₁.1) (h₂ : eventKey item₂ = e₂.1)
    (hmetadata₁ : item₁.metadata = some metadata) (hmetadata₂ : item₂.metadata = some metadata)
    (honset : e₁.1.onsetBeat = e₂.1.onsetBeat)
    (hduration : e₁.1.durationBeats = e₂.1.durationBeats)
    (hvoice : e₁.1.staffId = e₂.1.staffId → safeId e₁.1.voiceId = safeId e₂.1.voiceId) :
    e₁.1 = e₂.1 := by
  rw [← h₁, ← h₂] at hvoice honset hduration ⊢
  have hstaff : (eventKey item₁).staffId = (eventKey item₂).staffId := by
    unfold eventKey
    rw [hmetadata₁, hmetadata₂]
  have htie : (eventKey item₁).tieContinuation = (eventKey item₂).tieContinuation := by
    unfold eventKey
    rw [hmetadata₁, hmetadata₂]
  have hvoiceId : (eventKey item₁).voiceId = (eventKey item₂).voiceId := by
    have hsafe := hvoice hstaff
    unfold eventKey at hsafe ⊢
    rw [hmetadata₁, hmetadata₂] at hsafe ⊢
    exact voiceId_inj hsafe
  exact EventKey.ext honset hduration hvoiceId hstaff htie

/-- Events with one id are of one group. -/
theorem key_of_eventId {e₁ e₂ : EventKey × List TimelineNote} {i₁ i₂ : Nat}
    (h₁ : GroupOk noteArray root e₁) (h₂ : GroupOk noteArray root e₂)
    (h : stableEventId i₁ e₁.1.onsetBeat e₁.1.durationBeats e₁.1.voiceId e₁.1.staffId
        (eventSemanticLocator i₁ e₁.2) =
      stableEventId i₂ e₂.1.onsetBeat e₂.1.durationBeats e₂.1.voiceId e₂.1.staffId
        (eventSemanticLocator i₂ e₂.2)) :
    i₁ = i₂ ∨ e₁.1 = e₂.1 := by
  have hlocator₁ := eventSemanticLocator_isLocator h₁.ofScore i₁
  have hlocator₂ := eventSemanticLocator_isLocator h₂.ofScore i₂
  have hid₁ := @idLocator_of_isLocator i₁ _ hlocator₁
  have hid₂ := @idLocator_of_isLocator i₂ _ hlocator₂
  obtain ⟨honset, hduration, hlocator, hvoice⟩ := stableEventId_inj
    (hid₁.symm ▸ hlocator₁) (hid₂.symm ▸ hlocator₂) h
  rw [hid₁, hid₂] at hlocator
  rcases eventSemanticLocator_cases h₁.ofScore i₁ with
    hindex₁ | ⟨item₁, hitem₁, metadata₁, hmetadata₁, heq₁, p₁, m₁, n₁, hnote₁⟩
  · rcases eventSemanticLocator_cases h₂.ofScore i₂ with
      hindex₂ | ⟨item₂, hitem₂, metadata₂, hmetadata₂, heq₂, p₂, m₂, n₂, hnote₂⟩
    · exact .inl (indexLocator_inj (hindex₁.symm.trans (hlocator.trans hindex₂)))
    · exact absurd (hindex₁.symm.trans (hlocator.trans (heq₂.trans hnote₂)))
        (indexLocator_ne i₁ p₂ m₂ n₂)
  · rcases eventSemanticLocator_cases h₂.ofScore i₂ with
      hindex₂ | ⟨item₂, hitem₂, metadata₂, hmetadata₂, heq₂, p₂, m₂, n₂, hnote₂⟩
    · exact absurd (hindex₂.symm.trans (hlocator.symm.trans (heq₁.trans hnote₁)))
        (indexLocator_ne i₂ p₁ m₁ n₁)
    · have hmetadata : metadata₁ = metadata₂ :=
        metadata_of_locator ((h₁.ofScore item₁ hitem₁).symm.trans hmetadata₁)
          ((h₂.ofScore item₂ hitem₂).symm.trans hmetadata₂) (heq₁.symm.trans (hlocator.trans heq₂))
      subst hmetadata
      exact .inr (key_of_metadata (h₁.keys item₁ hitem₁) (h₂.keys item₂ hitem₂) hmetadata₁
        hmetadata₂ (beatId_inj h₁.scaled.1 h₂.scaled.1 honset)
        (beatId_inj h₁.scaled.2 h₂.scaled.2 hduration) hvoice)

/-! ## The events -/

theorem nodup_zipIdx {α : Type} (xs : List α) : xs.zipIdx.Nodup := by
  refine List.Nodup.of_map Prod.snd ?_
  rw [List.zipIdx_map_snd]
  exact List.nodup_range'

/-- Values that tell an index or a key, if no two keys are the same. -/
theorem nodup_map_zipIdx {α β κ : Type} {xs : List α} {key : α → κ} {f : α × Nat → β}
    (hnodup : (xs.map key).Nodup)
    (hf : ∀ x ∈ xs, ∀ y ∈ xs, ∀ i j, f (x, i) = f (y, j) → i = j ∨ key x = key y) :
    (xs.zipIdx.map f).Nodup := by
  refine List.Nodup.map_on (fun x hx y hy heq => ?_) (nodup_zipIdx xs)
  obtain ⟨hxlt, hx⟩ := List.mem_zipIdx' hx
  obtain ⟨hylt, hy⟩ := List.mem_zipIdx' hy
  have hindex : x.2 = y.2 := by
    rcases hf x.1 (hx ▸ List.getElem_mem hxlt) y.1 (hy ▸ List.getElem_mem hylt) _ _ heq with h | h
    · exact h
    · refine (@List.Nodup.getElem_inj_iff _ _ hnodup _ (by simpa using hxlt) _
        (by simpa using hylt)).mp ?_
      rw [List.getElem_map, List.getElem_map, ← hx, ← hy, h]
  refine Prod.ext ?_ hindex
  rw [hx, hy]
  congr 1

/-- An event, and the group it is of. -/
theorem exists_group_of_mem {event : PracticeScoreEvent} (h : event ∈ eventsOf noteArray root) :
    ∃ e i, GroupOk noteArray root e ∧ event = eventFromNotes i e.1 e.2 := by
  obtain ⟨⟨e, i⟩, hentry, rfl⟩ := List.mem_map.mp h
  obtain ⟨hlt, he⟩ := List.mem_zipIdx' hentry
  have hmem : e ∈ sortedNotes noteArray root := he ▸ List.getElem_mem hlt
  exact ⟨e, i, groupOk_of_mem hmem, rfl⟩

theorem eventFromNotes_eventId (index : Nat) (key : EventKey) (notes : List TimelineNote) :
    (eventFromNotes index key notes).eventId =
      stableEventId index key.onsetBeat key.durationBeats key.voiceId key.staffId
        (eventSemanticLocator index notes) := by
  rw [eventFromNotes]

theorem eventsOf_ids_nodup (noteArray : List NoteRow) (root : Option Node) :
    ((eventsOf noteArray root).map (·.eventId)).Nodup := by
  unfold eventsOf
  rw [List.map_map]
  refine nodup_map_zipIdx sortedNotes_keys_nodup fun x hx y hy i j heq => ?_
  rw [Function.comp_apply, Function.comp_apply, eventFromNotes_eventId,
    eventFromNotes_eventId] at heq
  exact key_of_eventId (groupOk_of_mem hx) (groupOk_of_mem hy) heq

theorem roundBeat_nonneg {value : ℚ} (h : 0 ≤ value) : 0 ≤ roundBeat value := by
  have hmono := @Rounding.round_mono _ _ 6 h
  rwa [Rounding.round_zero] at hmono

/-- The events of a note array. -/
theorem eventsOf_ok (hdurations : ∀ row ∈ noteArray, 0 ≤ row.durationBeat) :
    EventsOk (eventsOf noteArray root) where
  ids := eventsOf_ids_nodup noteArray root
  lengths event h := by
    obtain ⟨e, i, -, rfl⟩ := exists_group_of_mem h
    simp [eventFromNotes]
  struck event h := by
    obtain ⟨e, i, hgroup, rfl⟩ := exists_group_of_mem h
    simpa [eventFromNotes] using hgroup.ne_nil
  scaled event h := by
    obtain ⟨e, i, hgroup, rfl⟩ := exists_group_of_mem h
    exact hgroup.scaled.1
  durations event h := by
    obtain ⟨e, i, hgroup, rfl⟩ := exists_group_of_mem h
    obtain ⟨item, -, hrow, -, hduration⟩ := hgroup.exists_row
    show 0 ≤ e.1.durationBeats
    rw [hduration]
    exact roundBeat_nonneg (hdurations item.note hrow)

end NoteVerse.Practice.ScoreTimeline

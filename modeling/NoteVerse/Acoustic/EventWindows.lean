import NoteVerse.Acoustic.StepEvents

/-!
# Onsets in overlapping windows

A window reports each onset that it covers, somewhere near it, and the next window may report
it again somewhere else near it. `AcousticEventStreamNormalizer` keeps only the last position
emitted of each pitch; `normalizeWindows_once` says that this is enough: every onset covered by
some window is emitted once. What it needs of the windows is that an onset which a window
covers first comes after those covered before (`Follows`).
-/

namespace NoteVerse.Acoustic

open Js

namespace AcousticEventStreamNormalizer

/-- What one window after another returns. -/
def normalizeWindows : List (List AcousticNoteEvent) → AcousticEventStreamNormalizer →
    List (Throws (List AcousticNoteEvent)) × AcousticEventStreamNormalizer
  | [], normalizer => ([], normalizer)
  | events :: windows, normalizer =>
    let first := normalizer.normalizeWindow events
    let rest := normalizeWindows windows first.2
    (first.1 :: rest.1, rest.2)

/-- The events that are emitted; a window that throws emits none. -/
def emitted (results : List (Throws (List AcousticNoteEvent))) : List AcousticNoteEvent :=
  results.flatMap fun result => result.toOption.getD []

variable {normalizer : AcousticEventStreamNormalizer}

/-! ## Arbitrary windows -/

/-- The events of one pitch are in order and more than the distance apart. -/
def Spaced (distance : ℤ) (events : List AcousticNoteEvent) : Prop :=
  events.Pairwise fun a b => a.pitch = b.pitch → distance < b.sample - a.sample

/-- The position kept of a pitch is not before the event. -/
def Reached (normalizer : AcousticEventStreamNormalizer) (event : AcousticNoteEvent) : Prop :=
  ∃ previous, normalizer.lastEmittedSampleByPitch.get event.pitch = some previous ∧
    event.sample ≤ previous

/-- What is emitted is after what is reached before, and is reached then. -/
structure Emits (normalizer : AcousticEventStreamNormalizer) (events : List AcousticNoteEvent)
    (last : AcousticEventStreamNormalizer) : Prop where
  distance : last.dedupeSamples = normalizer.dedupeSamples
  sampled : ∀ event ∈ events, event.onsetTime.sampleIndex = some event.sample
  spaced : Spaced normalizer.dedupeSamples events
  after : ∀ event ∈ events, ∀ before, Reached normalizer before → before.pitch = event.pitch →
    normalizer.dedupeSamples < event.sample - before.sample
  reached : ∀ event ∈ events, Reached last event
  keeps : ∀ event, Reached normalizer event → Reached last event

theorem Emits.refl : Emits normalizer [] normalizer where
  distance := rfl
  sampled _ h := absurd h List.not_mem_nil
  spaced := List.Pairwise.nil
  after _ h := absurd h List.not_mem_nil
  reached _ h := absurd h List.not_mem_nil
  keeps _ h := h

theorem Emits.append {events more : List AcousticNoteEvent}
    {middle last : AcousticEventStreamNormalizer} (h : Emits normalizer events middle)
    (h' : Emits middle more last) : Emits normalizer (events ++ more) last where
  distance := h'.distance.trans h.distance
  sampled event hevent := (List.mem_append.mp hevent).elim (h.sampled event) (h'.sampled event)
  spaced := by
    have hspaced := h'.spaced
    rw [h.distance] at hspaced
    refine List.pairwise_append.mpr ⟨h.spaced, hspaced, fun a ha b hb hpitch => ?_⟩
    rw [← h.distance]
    exact h'.after b hb a (h.reached a ha) hpitch
  after event hevent before hbefore hpitch := by
    rcases List.mem_append.mp hevent with hevent | hevent
    · exact h.after event hevent before hbefore hpitch
    · rw [← h.distance]
      exact h'.after event hevent before (h.keeps before hbefore) hpitch
  reached event hevent := by
    rcases List.mem_append.mp hevent with hevent | hevent
    · exact h'.keeps event (h.reached event hevent)
    · exact h'.reached event hevent
  keeps event hevent := h'.keeps event (h.keeps event hevent)

/-- What a window that throws leaves. -/
theorem Emits.nil {events : List AcousticNoteEvent} {last : AcousticEventStreamNormalizer}
    (h : Emits normalizer events last) : Emits normalizer [] last where
  distance := h.distance
  sampled _ h := absurd h List.not_mem_nil
  spaced := List.Pairwise.nil
  after _ h := absurd h List.not_mem_nil
  reached _ h := absurd h List.not_mem_nil
  keeps := h.keeps

/-- An event that is not a duplicate is after what its pitch has reached. -/
theorem emits_one (hdistance : 0 ≤ normalizer.dedupeSamples) {event : AcousticNoteEvent}
    (hsampled : event.onsetTime.sampleIndex = some event.sample)
    (hnew : ¬∃ previous ∈ normalizer.lastEmittedSampleByPitch.get event.pitch,
      event.sample - previous ≤ normalizer.dedupeSamples) :
    Emits normalizer [event] { normalizer with
      lastEmittedSampleByPitch :=
        normalizer.lastEmittedSampleByPitch.set event.pitch event.sample } where
  distance := rfl
  sampled other hother := by
    rw [List.mem_singleton.mp hother]
    exact hsampled
  spaced := List.pairwise_singleton _ _
  after other hother before hbefore hpitch := by
    obtain rfl := List.mem_singleton.mp hother
    obtain ⟨previous, hprevious, hle⟩ := hbefore
    rw [hpitch] at hprevious
    have := not_le.mp fun h => hnew ⟨previous, hprevious, h⟩
    omega
  reached other hother := by
    obtain rfl := List.mem_singleton.mp hother
    exact ⟨_, JsMap.get_set_self, le_rfl⟩
  keeps other hother := by
    obtain ⟨previous, hprevious, hle⟩ := hother
    by_cases hpitch : other.pitch = event.pitch
    · refine ⟨event.sample, by rw [hpitch]; exact JsMap.get_set_self, ?_⟩
      rw [hpitch] at hprevious
      have := not_le.mp fun h => hnew ⟨previous, hprevious, h⟩
      omega
    · exact ⟨previous, (JsMap.get_set_of_ne hpitch).trans hprevious, hle⟩

theorem normalizeEvents_emits (hdistance : 0 ≤ normalizer.dedupeSamples)
    (events : List AcousticNoteEvent) :
    Emits normalizer ((normalizeEvents events normalizer).1.toOption.getD [])
      (normalizeEvents events normalizer).2 := by
  induction events generalizing normalizer with
  | nil => exact .refl
  | cons event events ih =>
    unfold normalizeEvents
    cases hsample : event.onsetTime.sampleIndex with
    | none => exact .refl
    | some sampleIndex =>
      have hsampleIndex : event.sample = sampleIndex := by
        rw [AcousticNoteEvent.sample, hsample]
        rfl
      dsimp only
      rw [← hsampleIndex]
      by_cases hduplicate : ∃ previous ∈ normalizer.lastEmittedSampleByPitch.get event.pitch,
          event.sample - previous ≤ normalizer.dedupeSamples
      · rw [if_pos hduplicate]
        exact ih hdistance
      · rw [if_neg hduplicate]
        have hone := emits_one hdistance (hsampleIndex ▸ hsample) hduplicate
        have hrest := @ih { normalizer with
          lastEmittedSampleByPitch :=
            normalizer.lastEmittedSampleByPitch.set event.pitch event.sample } hdistance
        dsimp only
        cases hresult : (normalizeEvents events _).1 with
        | error message =>
          rw [hresult] at hrest
          exact (hone.append hrest).nil
        | ok emitted =>
          rw [hresult] at hrest
          exact hone.append hrest

/-- Whatever the windows are, the emitted events of a pitch are in order and apart. -/
theorem normalizeWindows_emits (hdistance : 0 ≤ normalizer.dedupeSamples)
    (windows : List (List AcousticNoteEvent)) :
    Emits normalizer (emitted (normalizeWindows windows normalizer).1)
      (normalizeWindows windows normalizer).2 := by
  induction windows generalizing normalizer with
  | nil => exact .refl
  | cons events windows ih =>
    have hfirst := normalizeEvents_emits hdistance (sortBy compareEventsBySample events)
    exact hfirst.append (ih (hfirst.distance.symm ▸ hdistance))

end AcousticEventStreamNormalizer

/-! ## Windows that report onsets -/

structure Onset where
  pitch : String
  position : ℚ
  deriving DecidableEq, Repr

/-- A window of the samples from `start` up to `stop`, and what is found in it. -/
structure OnsetWindow where
  start : ℚ
  stop : ℚ
  events : List AcousticNoteEvent

def OnsetWindow.Covers (window : OnsetWindow) (onset : Onset) : Prop :=
  window.start ≤ onset.position ∧ onset.position < window.stop

/-- The event is of the onset's pitch, and within the jitter of it. -/
structure Near (jitter : ℚ) (onset : Onset) (event : AcousticNoteEvent) : Prop where
  pitch : event.pitch = onset.pitch
  sampled : event.onsetTime.sampleIndex = some event.sample
  near : |(event.sample : ℚ) - onset.position| ≤ jitter

/-- There is one event near each of the onsets, and no other event. -/
def Reports (jitter : ℚ) (onsets : Set Onset) (events : List AcousticNoteEvent) : Prop :=
  ∃ listed : List Onset, listed.Nodup ∧ (∀ onset, onset ∈ listed ↔ onset ∈ onsets) ∧
    List.Forall₂ (Near jitter) listed events

/-- Two onsets of a pitch are more than the distance and twice the jitter apart. -/
def Apart (distance jitter : ℚ) (onsets : Set Onset) : Prop :=
  ∀ a ∈ onsets, ∀ b ∈ onsets, a.pitch = b.pitch → a ≠ b →
    distance + 2 * jitter < |a.position - b.position|

/-- Onsets of a pitch are reported in their order. -/
theorem Near.position_lt {distance jitter : ℚ} {onsets : Set Onset} {a b : Onset}
    {event other : AcousticNoteEvent} (ha : Near jitter a event) (hb : Near jitter b other)
    (hjitter : 2 * jitter ≤ distance) (hapart : Apart distance jitter onsets) (hamem : a ∈ onsets)
    (hbmem : b ∈ onsets) (hpitch : a.pitch = b.pitch) (hne : a ≠ b)
    (hle : event.sample ≤ other.sample) : a.position < b.position := by
  by_contra hnot
  have hgap := hapart a hamem b hbmem hpitch hne
  rw [abs_of_nonneg (sub_nonneg.mpr (not_lt.mp hnot))] at hgap
  have hnonneg := (abs_nonneg _).trans ha.near
  have hevent := (abs_le.mp ha.near).1
  have hother := (abs_le.mp hb.near).2
  have : (event.sample : ℚ) ≤ other.sample := by exact_mod_cast hle
  linarith

namespace AcousticEventStreamNormalizer

variable {normalizer : AcousticEventStreamNormalizer} {jitter : ℚ} {onsets seen : Set Onset}

/-- Of each pitch, the position kept is near the last onset seen. -/
structure Saw (normalizer : AcousticEventStreamNormalizer) (jitter : ℚ) (seen : Set Onset) :
    Prop where
  kept : ∀ onset ∈ seen, ∃ previous,
    normalizer.lastEmittedSampleByPitch.get onset.pitch = some previous
  last : ∀ pitch previous, normalizer.lastEmittedSampleByPitch.get pitch = some previous →
    ∃ onset ∈ seen, onset.pitch = pitch ∧ |(previous : ℚ) - onset.position| ≤ jitter ∧
      ∀ other ∈ seen, other.pitch = pitch → other.position ≤ onset.position

/-- An onset that has been seen is a duplicate, wherever it is reported. -/
theorem Saw.duplicate (h : Saw normalizer jitter seen)
    (hjitter : 2 * jitter ≤ normalizer.dedupeSamples) {onset : Onset} (honset : onset ∈ seen)
    {event : AcousticNoteEvent} (hnear : Near jitter onset event) :
    ∃ previous ∈ normalizer.lastEmittedSampleByPitch.get event.pitch,
      event.sample - previous ≤ normalizer.dedupeSamples := by
  obtain ⟨previous, hprevious⟩ := h.kept onset honset
  obtain ⟨last, -, -, hlast, hle⟩ := h.last _ _ hprevious
  refine ⟨previous, by rw [hnear.pitch]; exact hprevious, ?_⟩
  have hbefore := hle onset honset rfl
  have hevent := (abs_le.mp hnear.near).2
  have hkept := (abs_le.mp hlast).1
  have : ((event.sample - previous : ℤ) : ℚ) ≤ (normalizer.dedupeSamples : ℚ) := by
    push_cast
    linarith
  exact_mod_cast this

/-- An onset after those seen is no duplicate. -/
theorem Saw.new (h : Saw normalizer jitter seen) (hseen : seen ⊆ onsets)
    (hapart : Apart normalizer.dedupeSamples jitter onsets) {onset : Onset}
    (honset : onset ∈ onsets)
    (hafter : ∀ other ∈ seen, other.pitch = onset.pitch → other.position < onset.position)
    {event : AcousticNoteEvent} (hnear : Near jitter onset event) :
    ¬∃ previous ∈ normalizer.lastEmittedSampleByPitch.get event.pitch,
      event.sample - previous ≤ normalizer.dedupeSamples := by
  rintro ⟨previous, hprevious, hle⟩
  rw [hnear.pitch] at hprevious
  obtain ⟨last, hlast, hpitch, hkept, -⟩ := h.last _ _ hprevious
  have hlt := hafter last hlast hpitch
  have hgap := hapart onset honset last (hseen hlast) hpitch.symm fun heq => by
    rw [heq] at hlt
    exact lt_irrefl _ hlt
  rw [abs_of_pos (sub_pos.mpr hlt)] at hgap
  have hevent := (abs_le.mp hnear.near).1
  have := (abs_le.mp hkept).2
  have : ((event.sample - previous : ℤ) : ℚ) ≤ (normalizer.dedupeSamples : ℚ) := by
    exact_mod_cast hle
  push_cast at this
  linarith

/-- After an onset that comes after those seen, it is the last one seen of its pitch. -/
theorem Saw.insert (h : Saw normalizer jitter seen) {onset : Onset}
    (hafter : ∀ other ∈ seen, other.pitch = onset.pitch → other.position < onset.position)
    {event : AcousticNoteEvent} (hnear : Near jitter onset event) :
    Saw { normalizer with
      lastEmittedSampleByPitch :=
        normalizer.lastEmittedSampleByPitch.set event.pitch event.sample } jitter
      (insert onset seen) where
  kept other hother := by
    by_cases hpitch : other.pitch = event.pitch
    · exact ⟨event.sample, by rw [hpitch]; exact JsMap.get_set_self⟩
    · have hold : other ∈ seen := hother.resolve_left fun heq => hpitch (by
        rw [heq, hnear.pitch])
      obtain ⟨previous, hprevious⟩ := h.kept other hold
      exact ⟨previous, (JsMap.get_set_of_ne hpitch).trans hprevious⟩
  last pitch previous hget := by
    by_cases hpitch : pitch = event.pitch
    · subst hpitch
      obtain rfl := Option.some.inj (JsMap.get_set_self.symm.trans hget)
      refine ⟨onset, .inl rfl, hnear.pitch.symm, hnear.near, fun other hother heq => ?_⟩
      rcases hother with rfl | hother
      · exact le_rfl
      · exact (hafter other hother (heq.trans hnear.pitch)).le
    · rw [JsMap.get_set_of_ne hpitch] at hget
      obtain ⟨last, hlast, heq, hkept, hle⟩ := h.last pitch previous hget
      refine ⟨last, .inr hlast, heq, hkept, fun other hother hsame => ?_⟩
      rcases hother with rfl | hother
      · exact absurd (hsame.symm.trans hnear.pitch.symm) hpitch
      · exact hle other hother hsame

/-- The events of a window in order: those of onsets not seen yet are emitted. -/
theorem normalizeEvents_once (h : Saw normalizer jitter seen) (hseen : seen ⊆ onsets)
    (hjitter : 2 * jitter ≤ normalizer.dedupeSamples)
    (hapart : Apart normalizer.dedupeSamples jitter onsets) {listed : List Onset}
    {events : List AcousticNoteEvent} (hnear : List.Forall₂ (Near jitter) listed events)
    (hlisted : ∀ onset ∈ listed, onset ∈ onsets) (hnodup : listed.Nodup)
    (hsorted : events.Pairwise (·.sample ≤ ·.sample))
    (hafter : ∀ onset ∈ listed, onset ∉ seen → ∀ other ∈ seen, other.pitch = onset.pitch →
      other.position < onset.position) :
    ∃ emitted last, normalizeEvents events normalizer =
        (.ok emitted, { normalizer with lastEmittedSampleByPitch := last }) ∧
      Saw { normalizer with lastEmittedSampleByPitch := last } jitter
        (seen ∪ {onset | onset ∈ listed}) ∧
      Reports jitter {onset | onset ∈ listed ∧ onset ∉ seen} emitted := by
  induction hnear generalizing normalizer seen with
  | nil =>
    refine ⟨[], normalizer.lastEmittedSampleByPitch, rfl, ?_, [], List.nodup_nil, fun onset => ?_,
      .nil⟩
    · simpa using h
    · simp
  | @cons onset event listed events hfirst hrest ih =>
    obtain ⟨hsortedFirst, hsortedRest⟩ := List.pairwise_cons.mp hsorted
    obtain ⟨hnotmem, hnodup⟩ := List.nodup_cons.mp hnodup
    have hlistedRest := fun o ho => hlisted o (List.mem_cons_of_mem _ ho)
    unfold normalizeEvents
    rw [hfirst.sampled]
    dsimp only
    by_cases hold : onset ∈ seen
    · -- The onset was emitted from a window before.
      rw [if_pos (h.duplicate hjitter hold hfirst)]
      obtain ⟨emitted, last, hrun, hsaw, hreports⟩ := ih h hseen hjitter hapart hlistedRest hnodup
        hsortedRest fun o ho => hafter o (List.mem_cons_of_mem _ ho)
      have hunion : seen ∪ {o | o ∈ onset :: listed} = seen ∪ {o | o ∈ listed} := by
        ext o
        simp only [Set.mem_union, Set.mem_ofPred_eq, List.mem_cons]
        constructor
        · rintro (ho | rfl | ho)
          · exact .inl ho
          · exact .inl hold
          · exact .inr ho
        · exact fun ho => ho.imp_right .inr
      have hnew : {o | o ∈ onset :: listed ∧ o ∉ seen} = {o | o ∈ listed ∧ o ∉ seen} := by
        ext o
        simp only [Set.mem_ofPred_eq, List.mem_cons]
        constructor
        · rintro ⟨rfl | ho, hnot⟩
          · exact absurd hold hnot
          · exact ⟨ho, hnot⟩
        · exact fun ho => ⟨.inr ho.1, ho.2⟩
      rw [hunion, hnew]
      exact ⟨emitted, last, hrun, hsaw, hreports⟩
    · have honset := hlisted onset List.mem_cons_self
      have hbefore := hafter onset List.mem_cons_self hold
      rw [if_neg (h.new hseen hapart honset hbefore hfirst)]
      have hafterRest : ∀ o ∈ listed, o ∉ insert onset seen → ∀ other ∈ insert onset seen,
          other.pitch = o.pitch → other.position < o.position := by
        rintro o ho hnot other (rfl | hother) hpitch
        · obtain ⟨e, he, hnear⟩ := Lists.exists_of_forall₂_mem hrest.flip ho
          exact hfirst.position_lt hnear hjitter hapart honset (hlistedRest o ho) hpitch
            (fun heq => hnot (.inl heq.symm)) (hsortedFirst e he)
        · exact hafter o (List.mem_cons_of_mem _ ho) (fun hmem => hnot (.inr hmem)) other hother
            hpitch
      obtain ⟨emitted, last, hrun, hsaw, news, hnews, hmem, hnearNews⟩ :=
        ih (h.insert hbefore hfirst) (Set.insert_subset honset hseen) hjitter hapart hlistedRest
          hnodup hsortedRest hafterRest
      refine ⟨event :: emitted, last, by rw [hrun]; rfl, ?_, onset :: news,
        List.nodup_cons.mpr ⟨fun hin => ((hmem onset).mp hin).2 (.inl rfl), hnews⟩,
        fun o => ?_, .cons hfirst hnearNews⟩
      · have hunion : seen ∪ {o | o ∈ onset :: listed} =
            insert onset seen ∪ {o | o ∈ listed} := by
          ext o
          simp only [Set.mem_union, Set.mem_insert_iff, Set.mem_ofPred_eq, List.mem_cons]
          tauto
        rwa [hunion]
      · have hiff := hmem o
        simp only [Set.mem_ofPred_eq, Set.mem_insert_iff, not_or] at hiff
        simp only [Set.mem_ofPred_eq, List.mem_cons, hiff]
        constructor
        · rintro (rfl | ⟨ho, -, hnot⟩)
          · exact ⟨.inl rfl, hold⟩
          · exact ⟨.inr ho, hnot⟩
        · rintro ⟨rfl | ho, hnot⟩
          · exact .inl rfl
          · exact .inr ⟨ho, fun heq => hnotmem (heq ▸ ho), hnot⟩

/-- A window emits the onsets that it covers and that have not been seen. -/
theorem normalizeWindow_once (h : Saw normalizer jitter seen) (hseen : seen ⊆ onsets)
    (hjitter : 2 * jitter ≤ normalizer.dedupeSamples)
    (hapart : Apart normalizer.dedupeSamples jitter onsets) {covered : Set Onset}
    (hcovered : covered ⊆ onsets) {events : List AcousticNoteEvent}
    (hreports : Reports jitter covered events)
    (hafter : ∀ onset ∈ covered, onset ∉ seen → ∀ other ∈ seen,
      other.position < onset.position) :
    ∃ emitted last, normalizer.normalizeWindow events =
        (.ok emitted, { normalizer with lastEmittedSampleByPitch := last }) ∧
      Saw { normalizer with lastEmittedSampleByPitch := last } jitter (seen ∪ covered) ∧
      Reports jitter (covered \ seen) emitted := by
  obtain ⟨listed, hnodup, hmem, hnear⟩ := hreports
  have hsampled : ∀ event ∈ events, event.onsetTime.sampleIndex = some event.sample := by
    intro event hevent
    obtain ⟨onset, -, hfound⟩ := Lists.exists_of_forall₂_mem hnear hevent
    exact hfound.sampled
  -- The onsets in the order in which their events are sorted.
  obtain ⟨sorted, hsorted, hperm⟩ :=
    List.perm_comp_forall₂ (sortBy_perm compareEventsBySample events) hnear.flip
  have hiff : ∀ onset, onset ∈ sorted ↔ onset ∈ covered := fun onset =>
    hperm.mem_iff.trans (hmem onset)
  obtain ⟨emitted, last, hrun, hsaw, hemitted⟩ := normalizeEvents_once h hseen hjitter hapart
    hsorted.flip (fun onset honset => hcovered ((hiff onset).mp honset))
    (hperm.nodup_iff.mpr hnodup) (pairwise_sortBy_sample hsampled)
    fun onset honset hnot other hother _ => hafter onset ((hiff onset).mp honset) hnot other hother
  have hset : {onset | onset ∈ sorted} = covered := Set.ext hiff
  have hdiff : {onset | onset ∈ sorted ∧ onset ∉ seen} = covered \ seen := by
    ext onset
    exact and_congr_left fun _ => hiff onset
  rw [hset] at hsaw
  rw [hdiff] at hemitted
  exact ⟨emitted, last, hrun, hsaw, hemitted⟩

/-- An onset that a window covers first comes after the onsets seen. -/
def Follows (onsets seen : Set Onset) (window : OnsetWindow) : Prop :=
  ∀ onset ∈ onsets, window.Covers onset → onset ∉ seen → ∀ other ∈ seen,
    other.position < onset.position

theorem Follows.after {window later : OnsetWindow} (h : Follows onsets seen later)
    (hstart : window.start ≤ later.start) :
    Follows onsets (seen ∪ {onset ∈ onsets | window.Covers onset}) later := by
  rintro onset honset hcovers hnot other (hother | ⟨-, hother⟩)
  · exact h onset honset hcovers (fun hmem => hnot (.inl hmem)) other hother
  · -- What the window before does not cover is after its end.
    have hstop : window.stop ≤ onset.position := by
      by_contra hlt
      exact hnot (.inr ⟨honset, hstart.trans hcovers.1, not_le.mp hlt⟩)
    exact hother.2.trans_le hstop

theorem normalizeWindows_reports (h : Saw normalizer jitter seen) (hseen : seen ⊆ onsets)
    (hjitter : 2 * jitter ≤ normalizer.dedupeSamples)
    (hapart : Apart normalizer.dedupeSamples jitter onsets) {windows : List OnsetWindow}
    (hordered : windows.Pairwise fun a b => a.start ≤ b.start ∧ a.stop ≤ b.stop)
    (hfollows : ∀ window ∈ windows, Follows onsets seen window)
    (hreports : ∀ window ∈ windows,
      Reports jitter {onset ∈ onsets | window.Covers onset} window.events) :
    (∀ result ∈ (normalizeWindows (windows.map OnsetWindow.events) normalizer).1,
      ∃ events, result = .ok events) ∧
    Reports jitter {onset ∈ onsets | (∃ window ∈ windows, window.Covers onset) ∧ onset ∉ seen}
      (emitted (normalizeWindows (windows.map OnsetWindow.events) normalizer).1) := by
  induction windows generalizing normalizer seen with
  | nil =>
    refine ⟨fun result hresult => absurd hresult List.not_mem_nil, [], List.nodup_nil,
      fun onset => ?_, .nil⟩
    simp
  | cons window windows ih =>
    obtain ⟨hfirst, hordered⟩ := List.pairwise_cons.mp hordered
    obtain ⟨hfollowsFirst, hfollows⟩ := List.forall_mem_cons.mp hfollows
    obtain ⟨hreportsFirst, hreports⟩ := List.forall_mem_cons.mp hreports
    obtain ⟨events, last, hwindow, hsaw, listed, hnodup, hmem, hnear⟩ :=
      normalizeWindow_once h hseen hjitter hapart (Set.sep_subset _ _) hreportsFirst
        fun onset honset => hfollowsFirst onset honset.1 honset.2
    obtain ⟨hok, more, hnodup', hmem', hnear'⟩ := ih hsaw
      (Set.union_subset hseen (Set.sep_subset _ _)) hjitter hapart hordered
      (fun later hlater => (hfollows later hlater).after (hfirst later hlater).1) hreports
    rw [List.map_cons, normalizeWindows]
    dsimp only
    rw [hwindow]
    refine ⟨List.forall_mem_cons.mpr ⟨⟨events, rfl⟩, hok⟩, listed ++ more, ?_, fun onset => ?_, ?_⟩
    · refine List.nodup_append'.mpr ⟨hnodup, hnodup', fun onset hlisted hmore => ?_⟩
      exact ((hmem' onset).mp hmore).2.2 (.inr ((hmem onset).mp hlisted).1)
    · rw [List.mem_append, hmem, hmem']
      simp only [Set.mem_sdiff, Set.mem_ofPred_eq, Set.mem_union, List.exists_mem_cons_iff, not_or]
      by_cases hcovers : window.Covers onset
      · simp only [hcovers, and_true, true_or, true_and]
        tauto
      · simp only [hcovers, and_false, false_or, false_and, not_false_eq_true, and_true]
    · exact List.rel_append hnear hnear'

/-- Every onset that some window covers is emitted once, if the windows do not go back; and
whatever the windows are, the events emitted of a pitch are in order and apart. -/
theorem normalizeWindows_once (hempty : normalizer.lastEmittedSampleByPitch = .empty)
    (hdistance : 0 ≤ normalizer.dedupeSamples) :
    (∀ (jitter : ℚ) (onsets : Set Onset) (windows : List OnsetWindow),
      2 * jitter ≤ normalizer.dedupeSamples → Apart normalizer.dedupeSamples jitter onsets →
      (windows.Pairwise fun a b => a.start ≤ b.start ∧ a.stop ≤ b.stop) →
      (∀ window ∈ windows,
        Reports jitter {onset ∈ onsets | window.Covers onset} window.events) →
      (∀ result ∈ (normalizeWindows (windows.map OnsetWindow.events) normalizer).1,
        ∃ events, result = .ok events) ∧
      Reports jitter {onset ∈ onsets | ∃ window ∈ windows, window.Covers onset}
        (emitted (normalizeWindows (windows.map OnsetWindow.events) normalizer).1)) ∧
    ∀ windows : List (List AcousticNoteEvent),
      Spaced normalizer.dedupeSamples (emitted (normalizeWindows windows normalizer).1) ∧
      ∀ event ∈ emitted (normalizeWindows windows normalizer).1,
        event.onsetTime.sampleIndex = some event.sample := by
  refine ⟨fun jitter onsets windows hjitter hapart hordered hreports => ?_, fun windows => ?_⟩
  · have hsaw : Saw normalizer jitter ∅ := by
      refine ⟨fun onset honset => absurd honset (Set.notMem_empty onset), fun pitch previous hget => ?_⟩
      rw [hempty, JsMap.get_empty] at hget
      cases hget
    obtain ⟨hok, hemitted⟩ := normalizeWindows_reports hsaw (Set.empty_subset onsets) hjitter
      hapart hordered (fun _ _ _ _ _ _ other hother => absurd hother (Set.notMem_empty other))
      hreports
    have hset : {onset ∈ onsets | (∃ window ∈ windows, window.Covers onset) ∧
        onset ∉ (∅ : Set Onset)} = {onset ∈ onsets | ∃ window ∈ windows, window.Covers onset} := by
      ext onset
      simp
    rw [hset] at hemitted
    exact ⟨hok, hemitted⟩
  · have hemits := normalizeWindows_emits hdistance windows
    exact ⟨hemits.spaced, hemits.sampled⟩

/-- An onset at sample 1000 that two windows report, and one at 3000. -/
def retriggered (samples : List ℤ) : List AcousticNoteEvent :=
  samples.map fun sample => ⟨"A4", 69, ⟨"capture", none, some sample⟩, 1⟩

def overlapping : List OnsetWindow :=
  [⟨0, 2000, retriggered [1010]⟩, ⟨500, 4000, retriggered [2950, 930]⟩]

def restruck : Set Onset := {onset | onset ∈ [⟨"A4", 1000⟩, ⟨"A4", 3000⟩]}

theorem normalizeWindows_once_overlapping :
    Reports 100 {onset ∈ restruck | ∃ window ∈ overlapping, window.Covers onset}
      (emitted (normalizeWindows (overlapping.map OnsetWindow.events) ⟨800, .empty⟩).1) := by
  have hnear : ∀ (position : ℚ) (sample : ℤ), |(sample : ℚ) - position| ≤ 100 →
      Near 100 ⟨"A4", position⟩ ⟨"A4", 69, ⟨"capture", none, some sample⟩, 1⟩ :=
    fun position sample h => ⟨rfl, rfl, h⟩
  refine ((@normalizeWindows_once ⟨800, .empty⟩ rfl (by decide)).1 100 restruck overlapping
    (by norm_num) ?_ ?_ ?_).2
  · intro a ha b hb _ hne
    simp only [restruck, Set.mem_ofPred_eq, List.mem_cons, List.not_mem_nil, or_false] at ha hb
    rcases ha with rfl | rfl <;> rcases hb with rfl | rfl
    · exact absurd rfl hne
    · norm_num
    · norm_num
    · exact absurd rfl hne
  · norm_num [overlapping]
  · intro window hwindow
    simp only [overlapping, List.mem_cons, List.not_mem_nil, or_false] at hwindow
    rcases hwindow with rfl | rfl
    · refine ⟨[⟨"A4", 1000⟩], by decide, fun onset => ?_, .cons (hnear 1000 1010 ?_) .nil⟩
      · simp only [restruck, OnsetWindow.Covers, Set.mem_ofPred_eq, List.mem_cons,
          List.not_mem_nil, or_false]
        constructor
        · rintro rfl
          norm_num
        · rintro ⟨rfl | rfl, h⟩
          · rfl
          · norm_num at h
      · norm_num
    · refine ⟨[⟨"A4", 3000⟩, ⟨"A4", 1000⟩], by decide, fun onset => ?_,
        .cons (hnear 3000 2950 ?_) (.cons (hnear 1000 930 ?_) .nil)⟩
      · simp only [restruck, OnsetWindow.Covers, Set.mem_ofPred_eq, List.mem_cons,
          List.not_mem_nil, or_false]
        constructor
        · rintro (rfl | rfl) <;> norm_num
        · rintro ⟨rfl | rfl, h⟩
          · exact .inr rfl
          · exact .inl rfl
      · norm_num [abs_le]
      · norm_num [abs_le]

end AcousticEventStreamNormalizer

end NoteVerse.Acoustic


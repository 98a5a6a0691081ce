import NoteVerse.Acoustic.RollingPipeline
import NoteVerse.Lib.JsMap
import NoteVerse.Lib.JsSort
import NoteVerse.Lib.Lists
import NoteVerse.Practice.StepRuntime

/-!
# From note events to the step runtime

`AcousticEventStreamNormalizer` of `acoustic-event-stream.ts`,
`acousticEventsToStepObservation` of `acoustic-evidence-adapters.ts`, and
`emitResult` of `live-capture.ts` with a sink that is the step runtime. What of an
event only the evidence for a performance carries is left out.

* `normalizeWindow_ok`: a window of new events is emitted as it is, but for its order;
* `acousticEventsToStepObservation_cases`: an observation is made exactly of a
  window that `Matches`, and one that the runtime accepts.
-/

namespace NoteVerse.Acoustic

open Js Practice

structure AcousticNoteEvent where
  pitch : String
  midiPitch : ℤ
  onsetTime : SessionTime
  confidence : ℚ
  deriving DecidableEq, Repr

namespace AcousticNoteEvent

variable (event : AcousticNoteEvent)

/-- `onsetTime.ms`, where it is finite. -/
def ms : ℚ := event.onsetTime.ms.getD 0

/-- `onsetTime.sampleIndex`, where there is one. -/
def sample : ℤ := event.onsetTime.sampleIndex.getD 0

end AcousticNoteEvent

/-- `[...xs].sort(compare)` -/
def sortBy {α : Type} (compare : α → α → ℚ) (xs : List α) : List α :=
  xs.insertionSort fun a b => compare a b ≤ 0

/-! ## The normalizer -/

def compareEventsBySample (left right : AcousticNoteEvent) : ℚ :=
  match left.onsetTime.sampleIndex, right.onsetTime.sampleIndex with
  | some leftSample, some rightSample =>
    if leftSample - rightSample ≠ 0 then leftSample - rightSample
    else left.midiPitch - right.midiPitch
  | _, _ =>
    match left.onsetTime.ms, right.onsetTime.ms with
    | some leftMs, some rightMs =>
      if leftMs - rightMs ≠ 0 then leftMs - rightMs else left.midiPitch - right.midiPitch
    | _, _ => left.midiPitch - right.midiPitch

structure AcousticEventStreamNormalizer where
  dedupeSamples : ℤ
  lastEmittedSampleByPitch : JsMap String ℤ

namespace AcousticEventStreamNormalizer

def create (sampleRateHz : ℚ) (eventDedupeSeconds : Option ℚ) :
    Throws AcousticEventStreamNormalizer :=
  if sampleRateHz ≤ 0 then
    .error "Acoustic event stream normalization requires a positive sample rate."
  else .ok ⟨⌊eventDedupeSeconds.getD (1 / 20) * sampleRateHz + 1 / 2⌋, .empty⟩

/-- The loop over the events, with the normalizer that it leaves. -/
def normalizeEvents : List AcousticNoteEvent → AcousticEventStreamNormalizer →
    Throws (List AcousticNoteEvent) × AcousticEventStreamNormalizer
  | [], normalizer => (.ok [], normalizer)
  | event :: events, normalizer =>
    match event.onsetTime.sampleIndex with
    | none => (.error "Acoustic event stream normalization requires capture sample identity.",
        normalizer)
    | some sampleIndex =>
      if ∃ previous ∈ normalizer.lastEmittedSampleByPitch.get event.pitch,
          sampleIndex - previous ≤ normalizer.dedupeSamples then
        normalizeEvents events normalizer
      else
        let rest := normalizeEvents events { normalizer with
          lastEmittedSampleByPitch :=
            normalizer.lastEmittedSampleByPitch.set event.pitch sampleIndex }
        (rest.1.map (event :: ·), rest.2)

def normalizeWindow (normalizer : AcousticEventStreamNormalizer)
    (events : List AcousticNoteEvent) :
    Throws (List AcousticNoteEvent) × AcousticEventStreamNormalizer :=
  normalizeEvents (sortBy compareEventsBySample events) normalizer

end AcousticEventStreamNormalizer

/-! ## The adapter -/

/-- `localPreMs + localPostMs` -/
def chordGestureCoherenceMs : ℚ := 50 + 120

def observationTime (time : SessionTime) : Practice.SessionTime := ⟨time.domainId, time.ms⟩

/-- An event in the domain of the activation, and after it. -/
def isFresh (target : StepVerifierTarget) (event : AcousticNoteEvent) : Bool :=
  PracticeTimebase.isAfter (observationTime event.onsetTime) target.activationBoundary

/-- The candidates of a gesture that starts with an event. -/
def gestureFrom (fresh : List AcousticNoteEvent) (event : AcousticNoteEvent) :
    List AcousticNoteEvent :=
  fresh.filter fun candidate =>
    event.ms ≤ candidate.ms ∧ candidate.ms - event.ms ≤ chordGestureCoherenceMs

def firstMatchingFreshGesture (target : StepVerifierTarget) (events : List AcousticNoteEvent)
    (expected : List String) : Option (List AcousticNoteEvent) :=
  let fresh := sortBy (fun left right => left.ms - right.ms) (events.filter (isFresh target))
  fresh.findSome? fun event =>
    let gesture := gestureFrom fresh event
    if gesture.length = expected.length ∧
        joinedSet (gesture.map (·.pitch)) = joinedSet expected then some gesture
    else none

def acousticEventsToStepObservation (target : StepVerifierTarget)
    (events : List AcousticNoteEvent) : Option StepVerifierObservation :=
  let expected := uniqueSorted target.attackPitches
  match firstMatchingFreshGesture target events expected with
  -- A gesture has the event that it starts with.
  | none | some [] => none
  | some (event :: gesture) =>
    let latest := gesture.foldl (fun winner event => if event.ms > winner.ms then event else winner)
      event
    some {
      stepId := target.stepId
      activationGeneration := target.activationGeneration
      attackOnsetTime := observationTime latest.onsetTime
      observedAttackPitches := expected
      confidence := gesture.foldl (fun least event => min least event.confidence)
        event.confidence }

/-! ## The pipeline's sink -/

/-- The normalizer of a pipeline, and the runtime that its sink feeds. -/
structure StepCapture where
  normalizer : AcousticEventStreamNormalizer
  runtime : StepPracticeRuntime

/-- `emitResult`, with the runtime's decision if it is told of an observation. -/
def StepCapture.emitResult (capture : StepCapture) (events : List AcousticNoteEvent)
    (now : StepPracticeRuntime.ClockReadings) : StepCapture × Option StepRuntimeDecision :=
  match capture.normalizer.normalizeWindow events with
  | (.error _, normalizer) => ({ capture with normalizer }, none)
  | (.ok emitted, normalizer) =>
    let capture := { capture with normalizer }
    if emitted = [] then (capture, none)
    else
      match capture.runtime.currentTarget with
      | none => (capture, none)
      | some target =>
        match acousticEventsToStepObservation target emitted with
        | none => (capture, none)
        | some observation =>
          match (StepPracticeRuntime.observe (some observation) now).run capture.runtime with
          | (.error _, runtime) => ({ capture with runtime }, none)
          | (.ok decision, runtime) => ({ capture with runtime }, some decision)

theorem sortBy_perm {α : Type} (compare : α → α → ℚ) (xs : List α) : (sortBy compare xs).Perm xs :=
  List.perm_insertionSort _ _

/-! ## What the normalizer emits -/

namespace AcousticEventStreamNormalizer

variable {normalizer : AcousticEventStreamNormalizer}

/-- No event is a duplicate of another, or of one that has been emitted. -/
structure New (normalizer : AcousticEventStreamNormalizer) (events : List AcousticNoteEvent) :
    Prop where
  sampled : ∀ event ∈ events, event.onsetTime.sampleIndex = some event.sample
  spaced : events.Pairwise fun a b => a.pitch = b.pitch →
    normalizer.dedupeSamples < b.sample - a.sample
  later : ∀ event ∈ events, ∀ previous,
    normalizer.lastEmittedSampleByPitch.get event.pitch = some previous →
      normalizer.dedupeSamples < event.sample - previous

variable {events : List AcousticNoteEvent}

theorem New.tail {event : AcousticNoteEvent} (h : New normalizer (event :: events)) :
    New { normalizer with
      lastEmittedSampleByPitch :=
        normalizer.lastEmittedSampleByPitch.set event.pitch event.sample } events where
  sampled e he := h.sampled e (List.mem_cons_of_mem _ he)
  spaced := (List.pairwise_cons.mp h.spaced).2
  later e he previous hprevious := by
    by_cases hpitch : e.pitch = event.pitch
    · have hlast : some event.sample = some previous := by
        rw [← hprevious, hpitch]
        exact JsMap.get_set_self.symm
      rw [← Option.some.inj hlast]
      exact (List.pairwise_cons.mp h.spaced).1 e he hpitch.symm
    · have hlast : normalizer.lastEmittedSampleByPitch.get e.pitch = some previous :=
        (JsMap.get_set_of_ne hpitch).symm.trans hprevious
      exact h.later e (List.mem_cons_of_mem _ he) previous hlast

/-- New events are emitted, and of each pitch the last one is kept. -/
theorem normalizeEvents_ok (h : New normalizer events) :
    ∃ last, normalizeEvents events normalizer =
        (.ok events, { normalizer with lastEmittedSampleByPitch := last }) ∧
      ∀ pitch sample, last.get pitch = some sample →
        normalizer.lastEmittedSampleByPitch.get pitch = some sample ∨
          ∃ event ∈ events, event.pitch = pitch ∧ event.sample = sample := by
  induction events generalizing normalizer with
  | nil => exact ⟨normalizer.lastEmittedSampleByPitch, rfl, fun _ _ h => .inl h⟩
  | cons event events ih =>
    obtain ⟨last, hrun, hlast⟩ := ih h.tail
    have hnew : ¬∃ previous ∈ normalizer.lastEmittedSampleByPitch.get event.pitch,
        event.sample - previous ≤ normalizer.dedupeSamples := by
      rintro ⟨previous, hprevious, hle⟩
      have := h.later event List.mem_cons_self previous hprevious
      omega
    refine ⟨last, ?_, fun pitch sample hget => ?_⟩
    · rw [normalizeEvents, h.sampled event List.mem_cons_self]
      dsimp only
      rw [if_neg hnew, hrun]
      rfl
    · rcases hlast pitch sample hget with hset | ⟨other, hother, hfound⟩
      · by_cases hpitch : pitch = event.pitch
        · rw [hpitch, JsMap.get_set_self] at hset
          exact .inr ⟨event, List.mem_cons_self, hpitch.symm, Option.some.inj hset⟩
        · rw [JsMap.get_set_of_ne hpitch] at hset
          exact .inl hset
      · exact .inr ⟨other, List.mem_cons_of_mem _ hother, hfound⟩

theorem compareEventsBySample_eq {left right : AcousticNoteEvent}
    (hleft : left.onsetTime.sampleIndex = some left.sample)
    (hright : right.onsetTime.sampleIndex = some right.sample) :
    compareEventsBySample left right =
      if left.sample - right.sample ≠ 0 then ((left.sample - right.sample : ℤ) : ℚ)
      else ((left.midiPitch - right.midiPitch : ℤ) : ℚ) := by
  rw [compareEventsBySample, hleft, hright]
  dsimp only
  split_ifs <;> push_cast <;> rfl

/-- Events that all have a sample are in the order of their samples. -/
theorem pairwise_sortBy_sample
    (h : ∀ event ∈ events, event.onsetTime.sampleIndex = some event.sample) :
    (sortBy compareEventsBySample events).Pairwise (·.sample ≤ ·.sample) := by
  refine Lists.pairwise_insertionSort_key AcousticNoteEvent.sample fun a ha b hb => ?_
  rw [compareEventsBySample_eq (h a ha) (h b hb)]
  split_ifs with hne
  · rw [Int.cast_nonpos]
    omega
  · omega

theorem New.perm {events' : List AcousticNoteEvent} (h : New normalizer events)
    (hperm : events.Perm events') (hordered : events'.Pairwise (·.sample ≤ ·.sample)) :
    New normalizer events' where
  sampled e he := h.sampled e (hperm.mem_iff.mpr he)
  spaced := by
    -- How far two events are apart does not depend on which comes first.
    have hapart : events.Pairwise fun a b =>
        a.pitch = b.pitch → normalizer.dedupeSamples < |b.sample - a.sample| :=
      h.spaced.imp fun hab hpitch => (hab hpitch).trans_le (le_abs_self _)
    have hapart' := hperm.pairwise hapart fun {a b} hab hpitch => by
      rw [abs_sub_comm]
      exact hab hpitch.symm
    refine (hapart'.and hordered).imp fun {a b} ⟨hab, hle⟩ hpitch => ?_
    have := hab hpitch
    rwa [abs_of_nonneg (by omega)] at this
  later e he := h.later e (hperm.mem_iff.mpr he)

/-- A window of new events is emitted in the order of their samples. -/
theorem normalizeWindow_ok (h : New normalizer events) :
    ∃ emitted last, normalizer.normalizeWindow events =
        (.ok emitted, { normalizer with lastEmittedSampleByPitch := last }) ∧
      emitted.Perm events ∧
      ∀ pitch sample, last.get pitch = some sample →
        normalizer.lastEmittedSampleByPitch.get pitch = some sample ∨
          ∃ event ∈ events, event.pitch = pitch ∧ event.sample = sample := by
  have hperm := sortBy_perm compareEventsBySample events
  obtain ⟨last, hrun, hlast⟩ :=
    normalizeEvents_ok (h.perm hperm.symm (pairwise_sortBy_sample h.sampled))
  refine ⟨_, last, hrun, hperm, fun pitch sample hget => (hlast pitch sample hget).imp_right ?_⟩
  rintro ⟨event, hevent, hfound⟩
  exact ⟨event, hperm.mem_iff.mp hevent, hfound⟩

/-- After a window the events that follow it are still new. -/
theorem New.after {window rest : List AcousticNoteEvent} (h : New normalizer (window ++ rest))
    {last : JsMap String ℤ} (hlast : ∀ pitch sample, last.get pitch = some sample →
      normalizer.lastEmittedSampleByPitch.get pitch = some sample ∨
        ∃ event ∈ window, event.pitch = pitch ∧ event.sample = sample) :
    New { normalizer with lastEmittedSampleByPitch := last } rest where
  sampled e he := h.sampled e (List.mem_append_right _ he)
  spaced := (List.pairwise_append.mp h.spaced).2.1
  later e he previous hget := by
    rcases hlast e.pitch previous hget with hold | ⟨event, hevent, hpitch, rfl⟩
    · exact h.later e (List.mem_append_right _ he) previous hold
    · exact (List.pairwise_append.mp h.spaced).2.2 event hevent e he hpitch

theorem New.window {window rest : List AcousticNoteEvent} (h : New normalizer (window ++ rest)) :
    New normalizer window where
  sampled e he := h.sampled e (List.mem_append_left _ he)
  spaced := (List.pairwise_append.mp h.spaced).1
  later e he := h.later e (List.mem_append_left _ he)

end AcousticEventStreamNormalizer

/-! ## What the adapter finds -/

variable {target : StepVerifierTarget}

/-- As many events as pitches are expected, and with those pitches. -/
def Fits (target : StepVerifierTarget) (gesture : List AcousticNoteEvent) : Prop :=
  gesture.length = (uniqueSorted target.attackPitches).length ∧
    joinedSet (gesture.map (·.pitch)) = joinedSet target.attackPitches

instance (gesture : List AcousticNoteEvent) : Decidable (Fits target gesture) :=
  inferInstanceAs (Decidable (_ ∧ _))

/-- A fresh event of a window starts a gesture that fits. -/
def Matches (target : StepVerifierTarget) (window : List AcousticNoteEvent) : Prop :=
  ∃ event ∈ window.filter (isFresh target),
    Fits target (gestureFrom (window.filter (isFresh target)) event)

instance (window : List AcousticNoteEvent) : Decidable (Matches target window) :=
  inferInstanceAs (Decidable (∃ event ∈ _, _))

theorem joinedSet_congr {xs ys : List String} (h : ∀ x, x ∈ xs ↔ x ∈ ys) :
    joinedSet xs = joinedSet ys := by
  rw [joinedSet, joinedSet, uniqueSorted, uniqueSorted, Js.sortStrings_eraseDups h]

theorem joinedSet_uniqueSorted (xs : List String) : joinedSet (uniqueSorted xs) = joinedSet xs :=
  joinedSet_congr fun x => by
    rw [uniqueSorted, sortStrings, (List.perm_insertionSort _ _).mem_iff, List.mem_eraseDups]

theorem Fits.perm {gesture gesture' : List AcousticNoteEvent} (h : Fits target gesture)
    (hperm : gesture.Perm gesture') : Fits target gesture' :=
  ⟨hperm.length_eq.symm.trans h.1,
    (joinedSet_congr fun _ => (hperm.map _).mem_iff.symm).trans h.2⟩

theorem Matches.perm {window window' : List AcousticNoteEvent} (h : Matches target window)
    (hperm : window.Perm window') : Matches target window' := by
  obtain ⟨event, hevent, hfits⟩ := h
  have hfresh := hperm.filter (isFresh target)
  exact ⟨event, hfresh.mem_iff.mp hevent, hfits.perm (hfresh.filter _)⟩

theorem mem_gestureFrom_self {fresh : List AcousticNoteEvent} {event : AcousticNoteEvent}
    (h : event ∈ fresh) : event ∈ gestureFrom fresh event := by
  refine List.mem_filter.mpr ⟨h, ?_⟩
  rw [decide_eq_true_iff, sub_self]
  exact ⟨le_refl _, by norm_num [chordGestureCoherenceMs]⟩

theorem mem_foldl_latest (event : AcousticNoteEvent) (gesture : List AcousticNoteEvent) :
    gesture.foldl (fun winner event => if event.ms > winner.ms then event else winner) event ∈
      event :: gesture := by
  induction gesture generalizing event with
  | nil => exact List.mem_singleton_self _
  | cons other gesture ih =>
    rw [List.foldl_cons]
    split_ifs with hlater
    · exact List.mem_cons_of_mem _ (ih other)
    · rcases List.mem_cons.mp (ih event) with heq | hmem
      · rw [heq]
        exact List.mem_cons_self
      · exact List.mem_cons_of_mem _ (List.mem_cons_of_mem _ hmem)

/-- The gesture that is found is one of fresh events, if a window has one. -/
theorem firstMatchingFreshGesture_cases (events : List AcousticNoteEvent) :
    Matches target events ∧ (∃ event gesture,
        firstMatchingFreshGesture target events (uniqueSorted target.attackPitches) =
          some (event :: gesture) ∧ ∀ e ∈ event :: gesture, isFresh target e = true) ∨
      ¬Matches target events ∧
        firstMatchingFreshGesture target events (uniqueSorted target.attackPitches) = none := by
  have hperm := sortBy_perm (fun left right : AcousticNoteEvent => left.ms - right.ms)
    (events.filter (isFresh target))
  unfold firstMatchingFreshGesture
  dsimp only
  generalize sortBy (fun left right : AcousticNoteEvent => left.ms - right.ms)
    (events.filter (isFresh target)) = fresh at hperm
  rw [joinedSet_uniqueSorted]
  cases hfound : fresh.findSome? fun event =>
      if (gestureFrom fresh event).length = (uniqueSorted target.attackPitches).length ∧
        joinedSet ((gestureFrom fresh event).map (·.pitch)) = joinedSet target.attackPitches then
      some (gestureFrom fresh event) else none with
  | none =>
    refine .inr ⟨?_, rfl⟩
    rintro ⟨event, hevent, hfits⟩
    have hnone := List.findSome?_eq_none_iff.mp hfound event (hperm.mem_iff.mpr hevent)
    have hfits' : Fits target (gestureFrom fresh event) := hfits.perm (hperm.symm.filter _)
    exact Option.some_ne_none _ ((if_pos hfits').symm.trans hnone)
  | some found =>
    obtain ⟨event, hevent, hsome⟩ := List.exists_of_findSome?_eq_some hfound
    split_ifs at hsome with hfits
    cases hsome
    refine .inl ⟨⟨event, hperm.mem_iff.mp hevent, ?_⟩, ?_⟩
    · exact Fits.perm hfits (hperm.filter _)
    · cases hgesture : gestureFrom fresh event with
      | nil =>
        have := mem_gestureFrom_self hevent
        rw [hgesture] at this
        exact absurd this List.not_mem_nil
      | cons first gesture =>
        refine ⟨first, gesture, rfl, fun e he => ?_⟩
        rw [← hgesture] at he
        exact (List.mem_filter.mp (hperm.mem_iff.mp (List.mem_filter.mp he).1)).2

/-- An observation is made of a window that matches, and the runtime has nothing against it. -/
theorem acousticEventsToStepObservation_cases (events : List AcousticNoteEvent) :
    Matches target events ∧ (∃ observation,
        acousticEventsToStepObservation target events = some observation ∧
          StepPracticeRuntime.waitReason target observation = none) ∨
      ¬Matches target events ∧ acousticEventsToStepObservation target events = none := by
  rcases @firstMatchingFreshGesture_cases target events with
    ⟨hmatches, event, gesture, hfound, hfresh⟩ | ⟨hnot, hfound⟩
  · refine .inl ⟨hmatches, ?_⟩
    unfold acousticEventsToStepObservation
    dsimp only
    rw [hfound]
    refine ⟨_, rfl, ?_⟩
    have hafter := hfresh _ (mem_foldl_latest event gesture)
    rw [isFresh] at hafter
    unfold StepPracticeRuntime.waitReason
    simp only [ne_eq, not_true_eq_false, if_false, joinedSet_uniqueSorted, hafter, Bool.not_true,
      Bool.false_eq_true]
  · refine .inr ⟨hnot, ?_⟩
    unfold acousticEventsToStepObservation
    dsimp only
    rw [hfound]

end NoteVerse.Acoustic

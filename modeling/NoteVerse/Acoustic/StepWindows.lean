import NoteVerse.Acoustic.StepEvents
import NoteVerse.Lib.Transition

/-!
# A step over inference windows

The events that are emitted come in windows, and each window is searched for a
gesture by itself. A run accepts the step exactly if one of its windows matches
(`accepts_iff`), so a gesture that is cut in two is not found. Whether the step is
accepted does not depend on the windows exactly if no cutting has it accepted, or a
note that is expected alone has no other near it (`step_windows_iff`).
-/

namespace NoteVerse.Acoustic

open Practice

/-- A window's new events, and what the clock reads while they are handled. -/
structure InferenceWindow where
  events : List AcousticNoteEvent
  recordedMs : ℚ
  activatedMs : ℚ
  deriving DecidableEq, Repr

namespace StepCapture

def handle (capture : StepCapture) (window : InferenceWindow) :
    StepCapture × Option StepRuntimeDecision :=
  capture.emitResult window.events ⟨some window.recordedMs, some window.activatedMs⟩

/-- One of the windows makes the runtime match a step; the first one that does
makes it match the step that is current before them. -/
def Accepts (capture : StepCapture) (windows : List InferenceWindow) : Prop :=
  ∃ advancedTo, some (.match advancedTo) ∈ Transition.answers handle capture windows

/-- The events in consecutive windows. -/
def Cut (events : List AcousticNoteEvent) (windows : List InferenceWindow) : Prop :=
  (windows.map (·.events)).flatten = events

/-! ## A run -/

theorem observe_match {runtime : StepPracticeRuntime} {target : StepVerifierTarget}
    {observation : StepVerifierObservation} (htarget : runtime.currentTarget = some target)
    (hreason : StepPracticeRuntime.waitReason target observation = none)
    (horigin : runtime.timebase.runtimeOriginMs ≠ none) (recordedMs activatedMs : ℚ) :
    ∃ advancedTo runtime', (StepPracticeRuntime.observe (some observation)
      ⟨some recordedMs, some activatedMs⟩).run runtime = (.ok (.match advancedTo), runtime') := by
  obtain ⟨origin, horigin⟩ := Option.ne_none_iff_exists'.mp horigin
  have htime : ∀ ms : ℚ, runtime.timebase.runtimeToSessionTime (some ms) =
      .ok ⟨runtime.timebase.domainId, some (ms - origin)⟩ := by
    intro ms
    unfold PracticeTimebase.runtimeToSessionTime
    rw [horigin]
    rfl
  unfold StepPracticeRuntime.observe StepPracticeRuntime.recordAttempt StepPracticeRuntime.advanceOne
  simp only [Session.run_get_bind, htarget, hreason, bind_assoc, htime, Session.run_lift_ok_bind,
    Session.run_modify_bind]
  exact ⟨_, _, rfl⟩

variable {normalizer : AcousticEventStreamNormalizer} {runtime : StepPracticeRuntime}
  {target : StepVerifierTarget}

/-- A window is matched, or it changes nothing but what has been emitted. -/
theorem handle_cases (htarget : runtime.currentTarget = some target)
    (horigin : runtime.timebase.runtimeOriginMs ≠ none) {window : InferenceWindow}
    (hnew : normalizer.New window.events) :
    Matches target window.events ∧
        (∃ advancedTo, (handle ⟨normalizer, runtime⟩ window).2 = some (.match advancedTo)) ∨
      ¬Matches target window.events ∧ ∃ last,
        handle ⟨normalizer, runtime⟩ window =
          (⟨{ normalizer with lastEmittedSampleByPitch := last }, runtime⟩, none) ∧
        ∀ pitch sample, last.get pitch = some sample →
          normalizer.lastEmittedSampleByPitch.get pitch = some sample ∨
            ∃ event ∈ window.events, event.pitch = pitch ∧ event.sample = sample := by
  obtain ⟨emitted, last, hrun, hperm, hlast⟩ :=
    AcousticEventStreamNormalizer.normalizeWindow_ok hnew
  unfold handle emitResult
  dsimp only
  rw [hrun]
  dsimp only
  rcases @acousticEventsToStepObservation_cases target emitted with
    ⟨hmatches, observation, hsome, hreason⟩ | ⟨hnot, hnone⟩
  · obtain ⟨advancedTo, runtime', hobserve⟩ :=
      observe_match htarget hreason horigin window.recordedMs window.activatedMs
    have hne : emitted ≠ [] := by
      rintro rfl
      obtain ⟨event, hevent, -⟩ := hmatches
      exact absurd hevent List.not_mem_nil
    refine .inl ⟨hmatches.perm hperm, advancedTo, ?_⟩
    rw [if_neg hne, htarget]
    dsimp only
    rw [hsome]
    dsimp only
    rw [hobserve]
  · refine .inr ⟨fun hmatches => hnot (hmatches.perm hperm.symm), last, ?_, hlast⟩
    rw [htarget]
    dsimp only
    rw [hnone]
    exact ite_self _

/-- A run accepts the step exactly if one of its windows matches. -/
theorem accepts_iff (htarget : runtime.currentTarget = some target)
    (horigin : runtime.timebase.runtimeOriginMs ≠ none) {windows : List InferenceWindow}
    (hnew : normalizer.New (windows.map (·.events)).flatten) :
    Accepts ⟨normalizer, runtime⟩ windows ↔ ∃ window ∈ windows, Matches target window.events := by
  induction windows generalizing normalizer with
  | nil =>
    refine iff_of_false ?_ ?_
    · rintro ⟨advancedTo, hmem⟩
      exact absurd hmem List.not_mem_nil
    · rintro ⟨window, hmem, -⟩
      exact absurd hmem List.not_mem_nil
  | cons window windows ih =>
    rw [List.map_cons, List.flatten_cons] at hnew
    rw [List.exists_mem_cons_iff]
    rcases handle_cases htarget horigin hnew.window with
      ⟨hmatches, advancedTo, hdecision⟩ | ⟨hnot, last, hhandle, hlast⟩
    · refine iff_of_true ⟨advancedTo, ?_⟩ (.inl hmatches)
      exact List.mem_cons.mpr (.inl hdecision.symm)
    · rw [← ih (hnew.after hlast), or_iff_right hnot]
      show (∃ advancedTo, some (.match advancedTo) ∈
        (handle ⟨normalizer, runtime⟩ window).2 ::
          Transition.answers handle (handle ⟨normalizer, runtime⟩ window).1 windows) ↔ _
      rw [hhandle]
      simp only [List.mem_cons, reduceCtorEq, false_or]
      rfl

end StepCapture

/-! ## Gestures of a sequence -/

/-- Events in the order of their times and samples. -/
def InTimeOrder (events : List AcousticNoteEvent) : Prop :=
  events.Pairwise fun a b => a.sample ≤ b.sample ∧ a.ms ≤ b.ms

/-- Events that fit the target, within the coherence time. -/
structure IsGesture (target : StepVerifierTarget) (gesture : List AcousticNoteEvent) : Prop where
  ne_nil : gesture ≠ []
  fits : Fits target gesture
  coherent : ∀ a ∈ gesture, ∀ b ∈ gesture, b.ms - a.ms ≤ chordGestureCoherenceMs

/-- A gesture of fresh events that follow each other. -/
def HasGesture (target : StepVerifierTarget) (events : List AcousticNoteEvent) : Prop :=
  ∃ gesture, gesture <:+: events.filter (isFresh target) ∧ IsGesture target gesture

/-- One pitch is expected, and a fresh event has it that no other fresh event comes
with, or after within the coherence time. -/
def HasLoneNote (target : StepVerifierTarget) (events : List AcousticNoteEvent) : Prop :=
  ∃ event ∈ events.filter (isFresh target), Fits target [event] ∧
    gestureFrom (events.filter (isFresh target)) event = [event]

variable {target : StepVerifierTarget} {events window : List AcousticNoteEvent}

theorem InTimeOrder.fresh (h : InTimeOrder events) :
    (events.filter (isFresh target)).Pairwise (·.ms ≤ ·.ms) :=
  (List.Pairwise.imp And.right h).filter _

theorem gestureFrom_eq (fresh : List AcousticNoteEvent) (event : AcousticNoteEvent) :
    gestureFrom fresh event = fresh.filter fun candidate =>
      event.ms ≤ candidate.ms ∧ candidate.ms ≤ event.ms + chordGestureCoherenceMs := by
  refine List.filter_congr fun candidate _ => ?_
  simp only [sub_le_iff_le_add']

/-- A window that matches has a gesture. -/
theorem Matches.hasGesture (h : Matches target window) (horder : InTimeOrder window) :
    HasGesture target window := by
  obtain ⟨event, hevent, hfits⟩ := h
  refine ⟨_, ?_, ⟨List.ne_nil_of_mem (mem_gestureFrom_self hevent), hfits, fun a ha b hb => ?_⟩⟩
  · rw [gestureFrom_eq]
    exact Lists.filter_between horder.fresh _ _
  · have ha := of_decide_eq_true (List.mem_filter.mp ha).2
    have hb := of_decide_eq_true (List.mem_filter.mp hb).2
    linarith [ha.1, hb.2]

theorem HasGesture.of_within (h : HasGesture target window) (hwithin : window <:+: events) :
    HasGesture target events := by
  obtain ⟨gesture, hgesture, hok⟩ := h
  exact ⟨gesture, hgesture.trans (hwithin.filter _), hok⟩

/-- A gesture is what a window of its own matches. -/
theorem IsGesture.matches {gesture : List AcousticNoteEvent} (h : IsGesture target gesture)
    (hfresh : window.filter (isFresh target) = gesture)
    (hsorted : gesture.Pairwise (·.ms ≤ ·.ms)) : Matches target window := by
  obtain ⟨event, rest, rfl⟩ := List.exists_cons_of_ne_nil h.ne_nil
  refine ⟨event, ?_, ?_⟩
  · rw [hfresh]
    exact List.mem_cons_self
  · have hall : gestureFrom (event :: rest) event = event :: rest := by
      refine List.filter_eq_self.mpr fun candidate hcandidate => decide_eq_true ⟨?_, ?_⟩
      · rcases List.mem_cons.mp hcandidate with rfl | hrest
        · exact le_refl _
        · exact (List.pairwise_cons.mp hsorted).1 candidate hrest
      · exact h.coherent event List.mem_cons_self candidate hcandidate
    rw [hfresh, hall]
    exact h.fits

/-- A lone note is found in whatever window it comes. -/
theorem lone_matches (hwithin : window <:+: events) {event : AcousticNoteEvent}
    (hevent : event ∈ window.filter (isFresh target)) (hfits : Fits target [event])
    (hlone : gestureFrom (events.filter (isFresh target)) event = [event]) :
    Matches target window := by
  refine ⟨event, hevent, ?_⟩
  have hsub : (gestureFrom (window.filter (isFresh target)) event).Sublist [event] := by
    rw [← hlone]
    exact (hwithin.sublist.filter _).filter _
  have hmem := mem_gestureFrom_self hevent
  rcases List.sublist_singleton.mp hsub with hnil | hself
  · rw [hnil] at hmem
    exact absurd hmem List.not_mem_nil
  · rw [hself]
    exact hfits

/-! ## Independence of the windows -/

namespace StepCapture

/-- Whether the step is accepted is the same for any two cuttings of the events. -/
def WindowIndependent (capture : StepCapture) (events : List AcousticNoteEvent) : Prop :=
  ∀ windows windows', Cut events windows → Cut events windows' →
    (capture.Accepts windows ↔ capture.Accepts windows')

/-- A gesture that fits the target is accepted, whatever windows its events come in. -/
def AcceptsGestures (capture : StepCapture) (target : StepVerifierTarget)
    (events : List AcousticNoteEvent) : Prop :=
  ∀ gesture, gesture <:+: events.filter (isFresh target) → IsGesture target gesture →
    ∀ windows, Cut events windows → capture.Accepts windows

variable {capture : StepCapture}

theorem Cut.within {windows : List InferenceWindow} (h : Cut events windows)
    {window : InferenceWindow} (hwindow : window ∈ windows) : window.events <:+: events := by
  rw [← h]
  exact List.infix_of_mem_flatten (List.mem_map_of_mem hwindow)

theorem accepts_cut_iff (htarget : capture.runtime.currentTarget = some target)
    (horigin : capture.runtime.timebase.runtimeOriginMs ≠ none)
    (hnew : capture.normalizer.New events) {windows : List InferenceWindow}
    (hcut : Cut events windows) :
    capture.Accepts windows ↔ ∃ window ∈ windows, Matches target window.events := by
  rw [← hcut] at hnew
  exact accepts_iff htarget horigin hnew

/-- The window of a gesture, between those of what comes before and after it. -/
theorem exists_accepting_cut (htarget : capture.runtime.currentTarget = some target)
    (horigin : capture.runtime.timebase.runtimeOriginMs ≠ none)
    (hnew : capture.normalizer.New events) (horder : InTimeOrder events)
    (h : HasGesture target events) : ∃ windows, Cut events windows ∧ capture.Accepts windows := by
  obtain ⟨gesture, ⟨before, after, hwithin⟩, hgesture⟩ := h
  obtain ⟨start, rest, rfl, hstart, -⟩ := List.filter_eq_append_iff.mp hwithin.symm
  obtain ⟨first, window, rfl, -, hwindow⟩ := List.filter_eq_append_iff.mp hstart
  have hcut : Cut (first ++ window ++ rest) [⟨first, 0, 0⟩, ⟨window, 0, 0⟩, ⟨rest, 0, 0⟩] := by
    simp [Cut]
  have hsorted : gesture.Pairwise (·.ms ≤ ·.ms) := by
    rw [← hwindow]
    exact InTimeOrder.fresh (horder.sublist
      ((List.sublist_append_right first window).trans (List.sublist_append_left _ rest)))
  refine ⟨_, hcut, (accepts_cut_iff htarget horigin hnew hcut).mpr ⟨⟨window, 0, 0⟩, by simp, ?_⟩⟩
  exact hgesture.matches hwindow hsorted

/-- Accepted in one window and event by event, the step expects a single note, and
that note is alone. -/
theorem hasLoneNote_of_matches (h : Matches target events)
    (hsingle : ∃ event, Matches target [event]) : HasLoneNote target events := by
  obtain ⟨single, event, hevent, hfits⟩ := hsingle
  have hone : (uniqueSorted target.attackPitches).length = 1 := by
    rw [← hfits.1]
    refine Nat.le_antisymm ?_ (List.length_pos_of_mem (mem_gestureFrom_self hevent))
    exact (List.length_filter_le _ _).trans (List.length_filter_le _ _)
  obtain ⟨event, hevent, hfits⟩ := h
  obtain ⟨other, hother⟩ := List.length_eq_one_iff.mp (hfits.1.trans hone)
  have hself := mem_gestureFrom_self hevent
  rw [hother, List.mem_singleton] at hself
  subst hself
  exact ⟨event, hevent, hother ▸ hfits, hother⟩

/-- Whether a step is accepted does not depend on the windows, and gestures are
accepted, exactly if there is no gesture or a lone note; and where it does not
depend on the windows gestures are accepted. -/
theorem step_windows_iff (htarget : capture.runtime.currentTarget = some target)
    (horigin : capture.runtime.timebase.runtimeOriginMs ≠ none)
    (hnew : capture.normalizer.New events) (horder : InTimeOrder events) :
    (capture.WindowIndependent events ∧ capture.AcceptsGestures target events ↔
      ¬HasGesture target events ∨ HasLoneNote target events) ∧
    (capture.WindowIndependent events → capture.AcceptsGestures target events) := by
  have haccepts := fun windows => @accepts_cut_iff target events capture htarget horigin hnew windows
  have hgestures : capture.WindowIndependent events → capture.AcceptsGestures target events := by
    intro hsame gesture hwithin hgesture windows hcut
    obtain ⟨accepting, hcut', haccepted⟩ :=
      exists_accepting_cut htarget horigin hnew horder ⟨gesture, hwithin, hgesture⟩
    exact (hsame windows accepting hcut hcut').mpr haccepted
  refine ⟨⟨fun ⟨_, hall⟩ => ?_, fun h => ?_⟩, hgestures⟩
  · refine or_iff_not_imp_left.mpr fun hgesture => ?_
    obtain ⟨gesture, hwithin, hgesture⟩ := not_not.mp hgesture
    have hwhole : Cut events [⟨events, 0, 0⟩] := by simp [Cut]
    have hsingles : Cut events (events.map fun event => ⟨[event], 0, 0⟩) := by
      rw [Cut, List.map_map, ← List.flatMap_def]
      exact List.flatMap_singleton' events
    obtain ⟨window, hwindow, hmatches⟩ :=
      (haccepts _ hwhole).mp (hall gesture hwithin hgesture _ hwhole)
    obtain ⟨single, hsingle, hsmatches⟩ :=
      (haccepts _ hsingles).mp (hall gesture hwithin hgesture _ hsingles)
    rw [List.mem_singleton] at hwindow
    subst hwindow
    obtain ⟨event, -, rfl⟩ := List.mem_map.mp hsingle
    exact hasLoneNote_of_matches hmatches ⟨event, hsmatches⟩
  · have hsame : capture.WindowIndependent events := by
      intro windows windows' hcut hcut'
      rcases h with hnone | ⟨event, hevent, hfits, hlone⟩
      · -- No window has a gesture.
        have hno : ∀ windows, Cut events windows → ¬capture.Accepts windows := by
          intro windows hcut haccepted
          obtain ⟨window, hwindow, hmatches⟩ := (haccepts windows hcut).mp haccepted
          have hwithin := hcut.within hwindow
          exact hnone ((hmatches.hasGesture (horder.sublist hwithin.sublist)).of_within hwithin)
        exact iff_of_false (hno windows hcut) (hno windows' hcut')
      · -- The window with the lone note is matched.
        have hyes : ∀ windows, Cut events windows → capture.Accepts windows := by
          intro windows hcut
          have hmem := (List.mem_filter.mp hevent).1
          rw [← hcut] at hmem
          obtain ⟨part, hpart, hmem⟩ := List.mem_flatten.mp hmem
          obtain ⟨window, hwindow, rfl⟩ := List.mem_map.mp hpart
          refine (haccepts windows hcut).mpr ⟨window, hwindow, ?_⟩
          exact lone_matches (hcut.within hwindow)
            (List.mem_filter.mpr ⟨hmem, (List.mem_filter.mp hevent).2⟩) hfits hlone
        exact iff_of_true (hyes windows hcut) (hyes windows' hcut')
    exact ⟨hsame, hgestures hsame⟩

/-! ## A chord -/

def chordArtifact : PracticeScoreArtifact where
  schemaVersion := 1
  scoreId := "score"
  revisionId := "revision"
  artifactId := "artifact"
  expectedPracticeGroups := [⟨"group", 0, ["A4", "C5"], ["A4", "C5"], 1⟩]
  practiceAttackSteps := [⟨"step", 0, ["A4", "C5"], []⟩]
  scoreEndBeat := 1

def chordRuntime : StepPracticeRuntime where
  artifact := chordArtifact
  localSessionId := "session"
  timebase := ⟨"session", some 0⟩
  resolvedScope := ⟨0, 0, 0, 1, none, none⟩
  version := defaultVersion
  inputSource := .microphone
  createdAtMs := some 0
  currentIndex := 0
  activationGeneration := 1
  activationBoundary := ⟨"session", some (-1)⟩
  attempts := []
  completed := false

def chordTarget : StepVerifierTarget := ⟨"step", 1, ⟨"session", some (-1)⟩, ["A4", "C5"], []⟩

def chordCapture : StepCapture := ⟨⟨800, .empty⟩, chordRuntime⟩

/-- The notes of the chord, 20 ms apart. -/
def chordEvents : List AcousticNoteEvent :=
  [⟨"A4", 69, ⟨"session", some 10, some 160⟩, 9 / 10⟩,
    ⟨"C5", 72, ⟨"session", some 30, some 480⟩, 9 / 10⟩]

theorem new_chordEvents : chordCapture.normalizer.New chordEvents where
  sampled := by decide
  spaced := by decide
  later event _ previous h := by
    change none = some previous at h
    cases h

theorem step_windows_iff_chord :
    (chordCapture.WindowIndependent chordEvents ∧
        chordCapture.AcceptsGestures chordTarget chordEvents ↔
      ¬HasGesture chordTarget chordEvents ∨ HasLoneNote chordTarget chordEvents) ∧
    (chordCapture.WindowIndependent chordEvents →
      chordCapture.AcceptsGestures chordTarget chordEvents) :=
  step_windows_iff (by decide) (by decide) new_chordEvents (by unfold InTimeOrder; decide)

/-- A chord in one window is accepted, and the same chord in two windows is not. -/
theorem split_chord_not_accepted :
    let whole : List InferenceWindow := [⟨chordEvents, 1000, 1000⟩]
    let split : List InferenceWindow :=
      chordEvents.map fun event => ⟨[event], 1000, 1000⟩
    StepPracticeRuntime.create chordArtifact
        ⟨none, none, some "session", none, none, "", some 0, some 0⟩ = .ok chordRuntime ∧
      Cut chordEvents whole ∧ Cut chordEvents split ∧
      chordCapture.Accepts whole ∧ ¬chordCapture.Accepts split := by
  intro whole split
  have haccepts := fun windows => @accepts_cut_iff chordTarget chordEvents chordCapture (by decide)
    (by decide) new_chordEvents windows
  refine ⟨by decide +kernel, rfl, rfl, (haccepts whole rfl).mpr ?_, fun h => ?_⟩
  · show ∃ window ∈ [(⟨chordEvents, 1000, 1000⟩ : InferenceWindow)],
      Matches chordTarget window.events
    decide +kernel
  · have hsplit := (haccepts split rfl).mp h
    revert hsplit
    decide +kernel

end StepCapture

end NoteVerse.Acoustic

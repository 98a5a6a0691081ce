import NoteVerse.Lib.Transition
import NoteVerse.Practice.StepRuntime

/-!
# Runs of the step runtime

A run keeps the snapshots that were taken, and goes on with the runtime that is
restored from one of them.

* `observe_cases`, `skip_cases`, `reset_run`, `restore_eq`: all that a call does;
* `StepOk` is what a runtime keeps, and `RunOk` what a run keeps of its runtime and
  its snapshots;
* `FreshOk`: while every restore is from a snapshot of the present activation, an
  activation's generation is never used again.
-/

namespace NoteVerse.Practice

open Js

/-! ## What a call does -/

namespace StepPracticeRuntime

variable {runtime : StepPracticeRuntime}

/-- The runtime after an attempt at the current step, with the next step activated. -/
def advanced (runtime : StepPracticeRuntime) (attempt : LocalPracticeAttempt)
    (activationBoundary : SessionTime) : StepPracticeRuntime :=
  { runtime with
    currentIndex := runtime.currentIndex + 1
    activationGeneration := runtime.activationGeneration + 1
    activationBoundary
    attempts := runtime.attempts ++ [attempt]
    completed :=
      if runtime.currentIndex + 1 > runtime.resolvedScope.endIndex then true else runtime.completed }

/-- If an attempt can be recorded, then the next step can be activated. -/
def ClockOk (runtime : StepPracticeRuntime) (now : ClockReadings) : Prop :=
  ∀ t, runtime.timebase.runtimeToSessionTime now.recorded = .ok t →
    ∃ t', runtime.timebase.runtimeToSessionTime now.activated = .ok t'

/-- The attempt that is recorded for a step. -/
structure AttemptAt (runtime : StepPracticeRuntime) (step : PracticeAttackStep)
    (result : AttemptResult) (attempt : LocalPracticeAttempt) : Prop where
  current : runtime.currentStep = some step
  attemptId : attempt.attemptId = StepPracticeRuntime.attemptId runtime.localSessionId
    (runtime.attempts.length + 1)
  stepId : attempt.stepId = step.stepId
  result : attempt.result = result

theorem currentTarget_eq_some {target : StepVerifierTarget}
    (h : runtime.currentTarget = some target) :
    ∃ step, runtime.currentStep = some step ∧ target.stepId = step.stepId ∧
      target.activationGeneration = runtime.activationGeneration := by
  unfold currentTarget at h
  cases hstep : runtime.currentStep with
  | none =>
    rw [hstep] at h
    cases h
  | some step =>
    rw [hstep] at h
    dsimp only at h
    split_ifs at h
    cases h
    exact ⟨step, rfl, rfl, rfl⟩

theorem currentStep_eq_some {step : PracticeAttackStep} (h : runtime.currentStep = some step) :
    runtime.completed = false ∧ runtime.currentIndex ≤ runtime.resolvedScope.endIndex := by
  unfold currentStep at h
  split_ifs at h with hdone
  rw [not_or, Bool.not_eq_true, not_lt] at hdone
  exact hdone

/-- Recording an attempt and activating the next step. -/
theorem record_advance_run {α : Type} (stepId : String) (result : AttemptResult)
    (pitches : List String) (confidence : ℚ) (now : ClockReadings) (hnow : runtime.ClockOk now)
    (answer : StepPracticeRuntime → α) :
    (∃ error, (do
        recordAttempt stepId result pitches confidence now.recorded
        advanceOne now.activated
        let runtime ← Session.get
        return answer runtime : Session StepPracticeRuntime String α).run runtime =
          (.error error, runtime)) ∨
      ∃ attempt boundary, attempt.attemptId =
          attemptId runtime.localSessionId (runtime.attempts.length + 1) ∧
        attempt.stepId = stepId ∧ attempt.result = result ∧
        (do
          recordAttempt stepId result pitches confidence now.recorded
          advanceOne now.activated
          let runtime ← Session.get
          return answer runtime : Session StepPracticeRuntime String α).run runtime =
            (.ok (answer (runtime.advanced attempt boundary)), runtime.advanced attempt boundary) := by
  cases hrecorded : runtime.timebase.runtimeToSessionTime now.recorded with
  | error e =>
    refine .inl ⟨e, ?_⟩
    unfold recordAttempt
    simp only [bind_assoc, Session.run_get_bind, hrecorded, Session.run_lift_error_bind]
  | ok t =>
    obtain ⟨t', hactivated⟩ := hnow t hrecorded
    refine .inr ⟨{
      attemptId := attemptId runtime.localSessionId (runtime.attempts.length + 1)
      stepId, result, observedAttackPitches := pitches, confidence, sessionTime := t },
      t', rfl, rfl, rfl, ?_⟩
    unfold recordAttempt advanceOne
    simp only [bind_assoc, Session.run_get_bind, hrecorded, Session.run_lift_ok_bind,
      Session.run_modify_bind, hactivated]
    rfl

theorem waitReason_eq_none {target : StepVerifierTarget} {observation : StepVerifierObservation}
    (h : waitReason target observation = none) :
    observation.stepId = target.stepId ∧
      observation.activationGeneration = target.activationGeneration := by
  unfold waitReason at h
  split_ifs at h with hstep hgeneration
  exact ⟨not_not.mp hstep, not_not.mp hgeneration⟩

/-- An observation changes nothing, or it matches the step and the activation it is
stamped with. -/
theorem observe_cases (observation : Option StepVerifierObservation) {now : ClockReadings}
    (hnow : runtime.ClockOk now) :
    ((observe observation now).run runtime).2 = runtime ∧
        (∀ target, ((observe observation now).run runtime).1 ≠ .ok (.match target)) ∨
      ∃ seen step attempt boundary, observation = some seen ∧
        runtime.AttemptAt step .match attempt ∧ seen.stepId = step.stepId ∧
        seen.activationGeneration = runtime.activationGeneration ∧
        (observe observation now).run runtime =
          (.ok (.match (runtime.advanced attempt boundary).currentTarget),
            runtime.advanced attempt boundary) := by
  unfold observe
  simp only [Session.run_get_bind]
  cases htarget : runtime.currentTarget with
  | none => exact .inl ⟨rfl, fun _ h => nomatch h⟩
  | some target =>
    cases observation with
    | none => exact .inl ⟨rfl, fun _ h => nomatch h⟩
    | some seen =>
      dsimp only
      cases hreason : waitReason target seen with
      | some reason => exact .inl ⟨rfl, fun _ h => nomatch h⟩
      | none =>
        obtain ⟨step, hstep, hid, hgeneration⟩ := currentTarget_eq_some htarget
        obtain ⟨hseen, hstamp⟩ := waitReason_eq_none hreason
        rcases record_advance_run target.stepId .match seen.observedAttackPitches seen.confidence
          now hnow (fun runtime => StepRuntimeDecision.match runtime.currentTarget) with
          ⟨error, hrun⟩ | ⟨attempt, boundary, hattempt, hstepId, hresult, hrun⟩
        · refine .inl ⟨congrArg Prod.snd hrun, fun target h => ?_⟩
          exact nomatch (congrArg Prod.fst hrun).symm.trans h
        · exact .inr ⟨seen, step, attempt, boundary, rfl, ⟨hstep, hattempt, hstepId.trans hid, hresult⟩,
            hseen.trans hid, hstamp.trans hgeneration, hrun⟩

theorem skip_cases {now : ClockReadings} (hnow : runtime.ClockOk now) :
    ((skip now).run runtime).2 = runtime ∧
        (∀ target, ((skip now).run runtime).1 ≠ .ok (.skip target)) ∨
      ∃ step attempt boundary, runtime.AttemptAt step .skipped attempt ∧
        (skip now).run runtime = (.ok (.skip (runtime.advanced attempt boundary).currentTarget),
          runtime.advanced attempt boundary) := by
  unfold skip
  simp only [Session.run_get_bind]
  cases htarget : runtime.currentTarget with
  | none => exact .inl ⟨rfl, fun _ h => nomatch h⟩
  | some target =>
    obtain ⟨step, hstep, hid, -⟩ := currentTarget_eq_some htarget
    rcases record_advance_run target.stepId .skipped [] 1 now hnow
      (fun runtime => StepRuntimeDecision.skip runtime.currentTarget) with
      ⟨error, hrun⟩ | ⟨attempt, boundary, hattempt, hstepId, hresult, hrun⟩
    · refine .inl ⟨congrArg Prod.snd hrun, fun target h => ?_⟩
      exact nomatch (congrArg Prod.fst hrun).symm.trans h
    · exact .inr ⟨step, attempt, boundary, ⟨hstep, hattempt, hstepId.trans hid, hresult⟩, hrun⟩

/-- A reset goes back to the first step of the scope, also if the clock has no finite time. -/
theorem reset_run (runtime : StepPracticeRuntime) (nowMs : Option ℚ) :
    ∃ boundary, ((reset nowMs).run runtime).2 = { runtime with
      currentIndex := runtime.resolvedScope.startIndex
      completed := false
      activationGeneration := runtime.activationGeneration + 1
      activationBoundary := boundary } := by
  unfold reset
  simp only [Session.run_modify_bind, Session.run_get_bind]
  cases htime : runtime.timebase.runtimeToSessionTime nowMs with
  | error e =>
    refine ⟨runtime.activationBoundary, ?_⟩
    simp only [Session.run_lift_error_bind]
  | ok boundary =>
    refine ⟨boundary, ?_⟩
    simp only [Session.run_lift_ok_bind, Session.run_modify]

/-! ## What a runtime keeps -/

/-- The ids of the attempts count them. -/
def attemptIds (localSessionId : String) (n : Nat) : List String :=
  (List.range n).map fun i => attemptId localSessionId (i + 1)

theorem attemptId_injective (localSessionId : String) :
    Function.Injective (attemptId localSessionId) := by
  intro m n h
  have hnumber : numberToString m = numberToString n := by
    unfold attemptId at h
    exact (String.append_right_inj _).mp h
  exact Int.ofNat.inj (numberToString_injective hnumber)

theorem attemptIds_nodup (localSessionId : String) (n : Nat) :
    (attemptIds localSessionId n).Nodup :=
  List.nodup_range.map fun _ _ h => Nat.succ.inj (attemptId_injective localSessionId h)

structure StepOk (runtime : StepPracticeRuntime) : Prop where
  scope : runtime.resolvedScope.startIndex ≤ runtime.resolvedScope.endIndex
  start_le : runtime.resolvedScope.startIndex ≤ runtime.currentIndex
  le_end : runtime.currentIndex ≤ runtime.resolvedScope.endIndex + 1
  completed : runtime.completed = true ↔ runtime.currentIndex = runtime.resolvedScope.endIndex + 1
  ids : runtime.attempts.map (·.attemptId) =
    attemptIds runtime.localSessionId runtime.attempts.length

theorem StepOk.advanced {step : PracticeAttackStep} {result : AttemptResult}
    {attempt : LocalPracticeAttempt} (h : StepOk runtime)
    (hattempt : runtime.AttemptAt step result attempt) (boundary : SessionTime) :
    StepOk (runtime.advanced attempt boundary) := by
  obtain ⟨hopen, hle⟩ := currentStep_eq_some hattempt.current
  refine ⟨h.scope, h.start_le.trans (Nat.le_succ _), Nat.succ_le_succ hle, ?_, ?_⟩
  · show (if runtime.currentIndex + 1 > runtime.resolvedScope.endIndex then true
      else runtime.completed) = true ↔
        runtime.currentIndex + 1 = runtime.resolvedScope.endIndex + 1
    rw [hopen]
    split_ifs with hlast
    · simp only [true_iff]
      omega
    · simp only [false_iff]
      omega
  · show (runtime.attempts ++ [attempt]).map (·.attemptId) =
      attemptIds runtime.localSessionId (runtime.attempts ++ [attempt]).length
    unfold attemptIds
    rw [List.map_append, h.ids, List.length_append, List.length_singleton, List.range_succ,
      List.map_append]
    exact congrArg (_ ++ [·]) hattempt.attemptId

theorem StepOk.reset (h : StepOk runtime) (nowMs : Option ℚ) :
    StepOk ((reset nowMs).run runtime).2 := by
  obtain ⟨boundary, hreset⟩ := reset_run runtime nowMs
  rw [hreset]
  refine ⟨h.scope, le_rfl, h.scope.trans (Nat.le_succ _), ?_, h.ids⟩
  have hscope := h.scope
  show false = true ↔ runtime.resolvedScope.startIndex = runtime.resolvedScope.endIndex + 1
  simp only [Bool.false_eq_true, false_iff]
  omega

/-! ## Making a runtime -/

/-- What runtimes of one session have in common. -/
structure Origin where
  artifact : PracticeScoreArtifact
  resolvedScope : ResolvedPracticeScope
  localSessionId : String

def origin (runtime : StepPracticeRuntime) : Origin :=
  ⟨runtime.artifact, runtime.resolvedScope, runtime.localSessionId⟩

/-- The scope that a session's snapshots name is its own. -/
def Origin.Resolved (origin : Origin) : Prop :=
  origin.artifact.resolvePracticeScope
    ⟨origin.resolvedScope.startGroupId, origin.resolvedScope.endGroupId⟩ = .ok origin.resolvedScope

theorem resolvePracticeScope_ok {artifact : PracticeScoreArtifact} {scope : PracticeScope}
    {resolved : ResolvedPracticeScope} (h : artifact.resolvePracticeScope scope = .ok resolved) :
    resolved.startIndex ≤ resolved.endIndex ∧ resolved.startGroupId = scope.startGroupId ∧
      resolved.endGroupId = scope.endGroupId := by
  unfold PracticeScoreArtifact.resolvePracticeScope at h
  obtain ⟨-, -, h⟩ := bind_eq_ok.mp h
  split_ifs at h with hempty
  obtain ⟨startIndex, -, h⟩ := bind_eq_ok.mp h
  obtain ⟨endIndex, -, h⟩ := bind_eq_ok.mp h
  split_ifs at h with horder
  split at h
  · obtain ⟨terminalBeat, -, h⟩ := bind_eq_ok.mp h
    cases h
    exact ⟨not_lt.mp horder, rfl, rfl⟩
  · cases h

theorem create_ok {artifact : PracticeScoreArtifact} {options : StepRuntimeOptions}
    (h : create artifact options = .ok runtime) :
    StepOk runtime ∧ runtime.origin.Resolved ∧ runtime.activationGeneration = 1 := by
  unfold create at h
  obtain ⟨-, -, h⟩ := bind_eq_ok.mp h
  obtain ⟨resolvedScope, hscope, h⟩ := bind_eq_ok.mp h
  obtain ⟨boundary, -, h⟩ := bind_eq_ok.mp h
  cases h
  obtain ⟨hle, hstart, hend⟩ := resolvePracticeScope_ok hscope
  refine ⟨⟨hle, le_rfl, hle.trans (Nat.le_succ _), ?_, rfl⟩, ?_, rfl⟩
  · show false = true ↔ resolvedScope.startIndex = resolvedScope.endIndex + 1
    simp only [Bool.false_eq_true, false_iff]
    omega
  · show artifact.resolvePracticeScope ⟨resolvedScope.startGroupId, resolvedScope.endGroupId⟩ = _
    rw [hstart, hend]
    exact hscope

/-- What is restored from a snapshot of a runtime. -/
structure RestoredFrom (runtime restored : StepPracticeRuntime) : Prop where
  origin : restored.origin = runtime.origin
  currentIndex : restored.currentIndex = runtime.currentIndex
  activationGeneration : restored.activationGeneration = runtime.activationGeneration + 1
  attempts : restored.attempts = runtime.attempts
  completed : restored.completed = runtime.completed

theorem restore_ok {options : StepRuntimeOptions} {restored : StepPracticeRuntime}
    {nowEpochMs : Option ℚ} (hresolved : runtime.origin.Resolved)
    (h : restore runtime.artifact options (runtime.snapshot nowEpochMs) = .ok restored) :
    RestoredFrom runtime restored := by
  unfold restore at h
  obtain ⟨-, -, h⟩ := bind_eq_ok.mp h
  obtain ⟨-, -, h⟩ := bind_eq_ok.mp h
  obtain ⟨resolvedScope, hscope, h⟩ := bind_eq_ok.mp h
  obtain ⟨boundary, -, h⟩ := bind_eq_ok.mp h
  cases h
  have hsame : resolvedScope = runtime.resolvedScope :=
    Except.ok.inj (hscope.symm.trans hresolved)
  subst hsame
  exact ⟨rfl, rfl, rfl, rfl, rfl⟩

theorem RestoredFrom.ok {restored : StepPracticeRuntime} (h : RestoredFrom runtime restored)
    (hok : StepOk runtime) : StepOk restored := by
  have hscope : restored.resolvedScope = runtime.resolvedScope :=
    congrArg Origin.resolvedScope h.origin
  have hid : restored.localSessionId = runtime.localSessionId :=
    congrArg Origin.localSessionId h.origin
  refine ⟨?_, ?_, ?_, ?_, ?_⟩
  · rw [hscope]
    exact hok.scope
  · rw [hscope, h.currentIndex]
    exact hok.start_le
  · rw [hscope, h.currentIndex]
    exact hok.le_end
  · rw [hscope, h.currentIndex, h.completed]
    exact hok.completed
  · rw [hid, h.attempts]
    exact hok.ids

end StepPracticeRuntime

/-! ## Runs -/

open StepPracticeRuntime

inductive StepEvent
  | observe (observation : Option StepVerifierObservation) (now : ClockReadings)
  | skip (now : ClockReadings)
  | reset (nowMs : Option ℚ)
  | snapshot (nowEpochMs : Option ℚ)
  /-- A new runtime from the snapshot with an index. -/
  | restore (index : Nat) (options : StepRuntimeOptions)
  deriving DecidableEq, Repr

structure StepRun where
  runtime : StepPracticeRuntime
  snapshots : List LocalStepSessionSnapshot
  /-- The step and the generation that the accepted observations were stamped with. -/
  accepted : List (String × Nat)
  deriving DecidableEq, Repr

namespace StepRun

/-- The run that has just been started. -/
def start (runtime : StepPracticeRuntime) : StepRun := ⟨runtime, [], []⟩

/-- The stamp of an observation that is accepted. -/
def acceptedStamp (observation : Option StepVerifierObservation)
    (answer : Except String StepRuntimeDecision) : List (String × Nat) :=
  match observation, answer with
  | some seen, .ok (.match _) => [(seen.stepId, seen.activationGeneration)]
  | _, _ => []

/-- A method or a constructor that throws leaves the run with what was written. -/
def step (run : StepRun) : StepEvent → StepRun
  | .observe observation now =>
    let (answer, runtime) := (observe observation now).run run.runtime
    { run with runtime, accepted := run.accepted ++ acceptedStamp observation answer }
  | .skip now => { run with runtime := ((skip now).run run.runtime).2 }
  | .reset nowMs => { run with runtime := ((reset nowMs).run run.runtime).2 }
  | .snapshot nowEpochMs =>
    { run with snapshots := run.snapshots ++ [run.runtime.snapshot nowEpochMs] }
  | .restore index options =>
    match run.snapshots[index]? with
    | none => run
    | some snapshot =>
      match restore run.runtime.artifact options snapshot with
      | .error _ => run
      | .ok runtime => { run with runtime }

/-- The clock of a call can be read to its end. -/
def Timed (run : StepRun) : StepEvent → Prop
  | .observe _ now => run.runtime.ClockOk now
  | .skip now => run.runtime.ClockOk now
  | _ => True

/-- A restore is from a snapshot of the present activation. -/
def Fresh (run : StepRun) : StepEvent → Prop
  | .restore index _ => ∀ snapshot, run.snapshots[index]? = some snapshot →
      snapshot.step.activationGeneration = run.runtime.activationGeneration
  | _ => True

/-- One step further, with an attempt at the step that was current. -/
def Advances (runtime runtime' : StepPracticeRuntime) (result : AttemptResult) : Prop :=
  runtime'.currentIndex = runtime.currentIndex + 1 ∧
    runtime'.activationGeneration = runtime.activationGeneration + 1 ∧
    ∃ step attempt, runtime.currentStep = some step ∧ attempt.stepId = step.stepId ∧
      attempt.result = result ∧ runtime'.attempts = runtime.attempts ++ [attempt]

/-- What an event changes. -/
def Effect (run : StepRun) (event : StepEvent) : Prop :=
  match event with
  | .observe observation now =>
    match ((observe observation now).run run.runtime).1, observation with
    | .ok (.match _), some seen =>
      Advances run.runtime (run.step event).runtime .match ∧
        seen.activationGeneration = run.runtime.activationGeneration ∧
        ∃ step, run.runtime.currentStep = some step ∧ seen.stepId = step.stepId
    | _, _ => (run.step event).runtime = run.runtime
  | .skip now =>
    match ((skip now).run run.runtime).1 with
    | .ok (.skip _) => Advances run.runtime (run.step event).runtime .skipped
    | _ => (run.step event).runtime = run.runtime
  | .reset _ =>
    (run.step event).runtime.currentIndex = run.runtime.resolvedScope.startIndex ∧
      (run.step event).runtime.activationGeneration = run.runtime.activationGeneration + 1 ∧
      (run.step event).runtime.attempts = run.runtime.attempts
  | .snapshot _ => (run.step event).runtime = run.runtime
  | .restore index _ =>
    (run.step event).runtime = run.runtime ∨
      ∃ snapshot, run.snapshots[index]? = some snapshot ∧
        (run.step event).runtime.currentIndex = snapshot.step.currentIndex ∧
        (run.step event).runtime.activationGeneration = snapshot.step.activationGeneration + 1 ∧
        (run.step event).runtime.attempts = snapshot.step.attempts

/-- The snapshots of a run are its own, and its runtime is in order. -/
structure RunOk (origin : Origin) (run : StepRun) : Prop where
  own : run.runtime.origin = origin
  runtime : StepOk run.runtime
  snapshots : ∀ snapshot ∈ run.snapshots, ∃ runtime nowEpochMs, runtime.origin = origin ∧
    StepOk runtime ∧ snapshot = runtime.snapshot nowEpochMs

variable {origin : Origin} {run : StepRun}

/-- A runtime that is restored is one from which the snapshot was taken. -/
theorem RunOk.restored (h : RunOk origin run) (hresolved : origin.Resolved) {index : Nat}
    {options : StepRuntimeOptions} {snapshot : LocalStepSessionSnapshot}
    {restored : StepPracticeRuntime} (hsnapshot : run.snapshots[index]? = some snapshot)
    (hrestore : restore run.runtime.artifact options snapshot = .ok restored) :
    ∃ runtime nowEpochMs, runtime.origin = origin ∧ StepOk runtime ∧
      snapshot = runtime.snapshot nowEpochMs ∧ RestoredFrom runtime restored := by
  obtain ⟨runtime, nowEpochMs, horigin, hok, rfl⟩ :=
    h.snapshots snapshot (List.mem_of_getElem? hsnapshot)
  have hartifact : run.runtime.artifact = runtime.artifact :=
    congrArg Origin.artifact (h.own.trans horigin.symm)
  rw [hartifact] at hrestore
  exact ⟨runtime, nowEpochMs, horigin, hok, rfl, restore_ok (horigin ▸ hresolved) hrestore⟩

/-- What an observation leaves. -/
theorem step_observe (observation : Option StepVerifierObservation) (now : ClockReadings) :
    (run.step (.observe observation now)).runtime =
      ((observe observation now).run run.runtime).2 := rfl

theorem observe_effect (observation : Option StepVerifierObservation) {now : ClockReadings}
    (hnow : run.runtime.ClockOk now) : Effect run (.observe observation now) := by
  unfold Effect
  dsimp only
  rw [step_observe]
  rcases observe_cases observation hnow with ⟨hsame, hne⟩ | ⟨seen, step, attempt, boundary, rfl,
    hattempt, hseen, hstamp, hrun⟩
  · split
    · exact absurd ‹_ = _› (hne _)
    · exact hsame
  · rw [hrun]
    exact ⟨⟨rfl, rfl, step, attempt, hattempt.current, hattempt.stepId, hattempt.result, rfl⟩,
      hstamp, step, hattempt.current, hseen⟩

theorem skip_effect {now : ClockReadings} (hnow : run.runtime.ClockOk now) :
    Effect run (.skip now) := by
  unfold Effect
  show match ((skip now).run run.runtime).1 with
    | .ok (.skip _) => Advances run.runtime ((skip now).run run.runtime).2 .skipped
    | _ => ((skip now).run run.runtime).2 = run.runtime
  rcases skip_cases hnow with ⟨hsame, hne⟩ | ⟨step, attempt, boundary, hattempt, hrun⟩
  · split
    · rename_i target hanswer
      exact absurd hanswer (hne target)
    · exact hsame
  · rw [hrun]
    exact ⟨rfl, rfl, step, attempt, hattempt.current, hattempt.stepId, hattempt.result, rfl⟩

/-- What a restore leaves. -/
theorem step_restore (index : Nat) (options : StepRuntimeOptions) :
    run.step (.restore index options) = run ∨
      ∃ snapshot restored, run.snapshots[index]? = some snapshot ∧
        restore run.runtime.artifact options snapshot = .ok restored ∧
        run.step (.restore index options) = { run with runtime := restored } := by
  unfold step
  dsimp only
  cases hsnapshot : run.snapshots[index]? with
  | none => exact .inl rfl
  | some snapshot =>
    dsimp only
    cases hrestore : restore run.runtime.artifact options snapshot with
    | error e => exact .inl rfl
    | ok restored => exact .inr ⟨snapshot, restored, rfl, hrestore, rfl⟩

theorem step_effect {event : StepEvent} (h : RunOk origin run) (hresolved : origin.Resolved)
    (htimed : Timed run event) : Effect run event := by
  cases event with
  | observe observation now => exact observe_effect observation htimed
  | skip now => exact skip_effect htimed
  | reset nowMs =>
    obtain ⟨boundary, hreset⟩ := reset_run run.runtime nowMs
    show ((reset nowMs).run run.runtime).2.currentIndex = _ ∧
      ((reset nowMs).run run.runtime).2.activationGeneration = _ ∧
      ((reset nowMs).run run.runtime).2.attempts = _
    rw [hreset]
    exact ⟨rfl, rfl, rfl⟩
  | snapshot nowEpochMs => rfl
  | restore index options =>
    rcases step_restore index options with hsame | ⟨snapshot, restored, hsnapshot, hrestore, hstep⟩
    · exact .inl (congrArg StepRun.runtime hsame)
    · obtain ⟨runtime, nowEpochMs, -, -, rfl, hfrom⟩ := h.restored hresolved hsnapshot hrestore
      refine .inr ⟨_, hsnapshot, ?_, ?_, ?_⟩
      · rw [hstep]
        exact hfrom.currentIndex
      · rw [hstep]
        exact hfrom.activationGeneration
      · rw [hstep]
        exact hfrom.attempts

/-- A call that leaves the runtime in order and of the same origin. -/
theorem RunOk.of_runtime {run' : StepRun} (h : RunOk origin run)
    (horigin : run'.runtime.origin = run.runtime.origin) (hok : StepOk run'.runtime)
    (hsnapshots : run'.snapshots = run.snapshots) : RunOk origin run' :=
  ⟨horigin.trans h.own, hok, hsnapshots ▸ h.snapshots⟩

theorem step_ok {event : StepEvent} (h : RunOk origin run) (hresolved : origin.Resolved)
    (htimed : Timed run event) : RunOk origin (run.step event) := by
  cases event with
  | observe observation now =>
    rcases observe_cases observation htimed with ⟨hsame, -⟩ | ⟨seen, step, attempt, boundary, -,
      hattempt, -, -, hrun⟩
    · refine h.of_runtime ?_ ?_ rfl
      · rw [step_observe, hsame]
      · rw [step_observe, hsame]
        exact h.runtime
    · refine h.of_runtime ?_ ?_ rfl
      · rw [step_observe, hrun]
        rfl
      · rw [step_observe, hrun]
        exact h.runtime.advanced hattempt boundary
  | skip now =>
    have hstep : (run.step (.skip now)).runtime = ((skip now).run run.runtime).2 := rfl
    rcases skip_cases htimed with ⟨hsame, -⟩ | ⟨step, attempt, boundary, hattempt, hrun⟩
    · refine h.of_runtime ?_ ?_ rfl
      · rw [hstep, hsame]
      · rw [hstep, hsame]
        exact h.runtime
    · refine h.of_runtime ?_ ?_ rfl
      · rw [hstep, hrun]
        rfl
      · rw [hstep, hrun]
        exact h.runtime.advanced hattempt boundary
  | reset nowMs =>
    obtain ⟨boundary, hreset⟩ := reset_run run.runtime nowMs
    refine h.of_runtime ?_ (h.runtime.reset nowMs) rfl
    show ((reset nowMs).run run.runtime).2.origin = _
    rw [hreset]
    rfl
  | snapshot nowEpochMs =>
    refine ⟨h.own, h.runtime, fun snapshot hsnapshot => ?_⟩
    rcases List.mem_append.mp hsnapshot with hsnapshot | hsnapshot
    · exact h.snapshots snapshot hsnapshot
    · exact ⟨run.runtime, nowEpochMs, h.own, h.runtime, List.mem_singleton.mp hsnapshot⟩
  | restore index options =>
    rcases step_restore index options with hsame | ⟨snapshot, restored, hsnapshot, hrestore, hstep⟩
    · rw [hsame]
      exact h
    · obtain ⟨runtime, nowEpochMs, horigin, hok, -, hfrom⟩ :=
        h.restored hresolved hsnapshot hrestore
      rw [hstep]
      exact ⟨hfrom.origin.trans horigin, hfrom.ok hok, h.snapshots⟩

/-! ## Runs without a stale restore -/

/-- No snapshot is of a later activation, those of the present one agree with it, and
the accepted observations are of earlier activations, each of another. -/
structure FreshOk (run : StepRun) : Prop where
  le : ∀ snapshot ∈ run.snapshots,
    snapshot.step.activationGeneration ≤ run.runtime.activationGeneration
  same : ∀ snapshot ∈ run.snapshots,
    snapshot.step.activationGeneration = run.runtime.activationGeneration →
      snapshot.step.currentIndex = run.runtime.currentIndex ∧
        snapshot.step.attempts = run.runtime.attempts
  sorted : run.accepted.Pairwise (·.2 < ·.2)
  accepted : ∀ stamp ∈ run.accepted, stamp.2 < run.runtime.activationGeneration

/-- A new activation. -/
theorem FreshOk.activate {run' : StepRun} (h : FreshOk run)
    (hgeneration : run'.runtime.activationGeneration = run.runtime.activationGeneration + 1)
    (hsnapshots : run'.snapshots = run.snapshots) (hsorted : run'.accepted.Pairwise (·.2 < ·.2))
    (haccepted : ∀ stamp ∈ run'.accepted, stamp.2 ≤ run.runtime.activationGeneration) :
    FreshOk run' where
  le snapshot hsnapshot := by
    rw [hsnapshots] at hsnapshot
    have hle := h.le snapshot hsnapshot
    omega
  same snapshot hsnapshot heq := by
    rw [hsnapshots] at hsnapshot
    have hle := h.le snapshot hsnapshot
    omega
  sorted := hsorted
  accepted stamp hstamp := by
    have hle := haccepted stamp hstamp
    omega

theorem FreshOk.accepted_le (h : FreshOk run) :
    ∀ stamp ∈ run.accepted, stamp.2 ≤ run.runtime.activationGeneration :=
  fun stamp hstamp => (h.accepted stamp hstamp).le

theorem acceptedStamp_of_ne {observation : Option StepVerifierObservation}
    {answer : Except String StepRuntimeDecision} (h : ∀ target, answer ≠ .ok (.match target)) :
    acceptedStamp observation answer = [] := by
  unfold acceptedStamp
  split
  · exact absurd rfl (h _)
  · rfl

/-- What a restore leaves that is from a snapshot of the present activation. -/
theorem restore_fresh {index : Nat} {options : StepRuntimeOptions} (h : RunOk origin run)
    (hresolved : origin.Resolved) (hfresh : FreshOk run)
    (hrestore : Fresh run (.restore index options)) :
    run.step (.restore index options) = run ∨
      ∃ restored, run.step (.restore index options) = { run with runtime := restored } ∧
        restored.activationGeneration = run.runtime.activationGeneration + 1 ∧
        restored.currentIndex = run.runtime.currentIndex ∧
        restored.attempts = run.runtime.attempts := by
  rcases step_restore index options with hsame | ⟨snapshot, restored, hsnapshot, hmade, hstep⟩
  · exact .inl hsame
  · obtain ⟨runtime, nowEpochMs, -, -, rfl, hfrom⟩ := h.restored hresolved hsnapshot hmade
    have hgeneration := hrestore _ hsnapshot
    obtain ⟨hindex, hattempts⟩ := hfresh.same _ (List.mem_of_getElem? hsnapshot) hgeneration
    exact .inr ⟨restored, hstep, hfrom.activationGeneration.trans (congrArg (· + 1) hgeneration),
      hfrom.currentIndex.trans hindex, hfrom.attempts.trans hattempts⟩

theorem step_fresh {event : StepEvent} (h : RunOk origin run) (hresolved : origin.Resolved)
    (hfresh : FreshOk run) (htimed : Timed run event) (hrestore : Fresh run event) :
    FreshOk (run.step event) := by
  cases event with
  | observe observation now =>
    have haccepted : (run.step (.observe observation now)).accepted = run.accepted ++
        acceptedStamp observation ((observe observation now).run run.runtime).1 := rfl
    rcases observe_cases observation htimed with ⟨hsame, hne⟩ | ⟨seen, step, attempt, boundary,
      rfl, -, -, hstamp, hrun⟩
    · have hstep : run.step (.observe observation now) = run := by
        unfold StepRun.step
        dsimp only
        rw [hsame, acceptedStamp_of_ne hne, List.append_nil]
      rw [hstep]
      exact hfresh
    · have hstamps : acceptedStamp (some seen) ((observe (some seen) now).run run.runtime).1 =
          [(seen.stepId, seen.activationGeneration)] := by
        rw [hrun]
        rfl
      rw [hstamps] at haccepted
      refine hfresh.activate ?_ rfl ?_ ?_
      · rw [step_observe, hrun]
        rfl
      · rw [haccepted, List.pairwise_append]
        refine ⟨hfresh.sorted, List.pairwise_singleton _ _, fun stamp hstamps stamp' hstamp' => ?_⟩
        rw [List.mem_singleton.mp hstamp']
        exact hstamp ▸ hfresh.accepted stamp hstamps
      · rw [haccepted]
        intro stamp hstamps
        rcases List.mem_append.mp hstamps with hstamps | hstamps
        · exact hfresh.accepted_le stamp hstamps
        · rw [List.mem_singleton.mp hstamps]
          exact hstamp.le
  | skip now =>
    rcases skip_cases htimed with ⟨hsame, -⟩ | ⟨step, attempt, boundary, -, hrun⟩
    · have hstep : run.step (.skip now) = run := by
        unfold StepRun.step
        dsimp only
        rw [hsame]
      rw [hstep]
      exact hfresh
    · refine hfresh.activate ?_ rfl hfresh.sorted hfresh.accepted_le
      show ((skip now).run run.runtime).2.activationGeneration = _
      rw [hrun]
      rfl
  | reset nowMs =>
    obtain ⟨boundary, hreset⟩ := reset_run run.runtime nowMs
    refine hfresh.activate ?_ rfl hfresh.sorted hfresh.accepted_le
    show ((reset nowMs).run run.runtime).2.activationGeneration = _
    rw [hreset]
  | snapshot nowEpochMs =>
    refine ⟨fun snapshot hsnapshot => ?_, fun snapshot hsnapshot heq => ?_, hfresh.sorted,
      hfresh.accepted⟩
    · rcases List.mem_append.mp hsnapshot with hsnapshot | hsnapshot
      · exact hfresh.le snapshot hsnapshot
      · rw [List.mem_singleton.mp hsnapshot]
        exact le_refl run.runtime.activationGeneration
    · rcases List.mem_append.mp hsnapshot with hsnapshot | hsnapshot
      · exact hfresh.same snapshot hsnapshot heq
      · rw [List.mem_singleton.mp hsnapshot]
        exact ⟨rfl, rfl⟩
  | restore index options =>
    rcases restore_fresh h hresolved hfresh hrestore with hsame | ⟨restored, hstep, hgeneration, -, -⟩
    · rw [hsame]
      exact hfresh
    · rw [hstep]
      exact hfresh.activate hgeneration rfl hfresh.sorted hfresh.accepted_le

/-- The steps of a run. -/
def Step (run : StepRun) (event : StepEvent) (run' : StepRun) : Prop := run' = run.step event

theorem start_ok {artifact : PracticeScoreArtifact} {options : StepRuntimeOptions}
    {runtime : StepPracticeRuntime} (h : create artifact options = .ok runtime) :
    RunOk runtime.origin (start runtime) :=
  ⟨rfl, (create_ok h).1, fun _ hsnapshot => nomatch hsnapshot⟩

theorem start_fresh (runtime : StepPracticeRuntime) : FreshOk (start runtime) :=
  ⟨fun _ h => (nomatch h), fun _ h => (nomatch h), .nil, fun _ h => (nomatch h)⟩

/-- Every run keeps the position in the scope and the ids of its attempts, and each
event changes what it should; and while every restore is from a snapshot of the present
activation, no generation comes back, so that no observation is accepted twice. -/
theorem step_practice (artifact : PracticeScoreArtifact) (options : StepRuntimeOptions)
    (runtime : StepPracticeRuntime) (h : create artifact options = .ok runtime) :
    (∀ run, Transition.Reachable (· = start runtime) (Transition.guarded Timed Step) run →
      run.runtime.resolvedScope.startIndex ≤ run.runtime.currentIndex ∧
      run.runtime.currentIndex ≤ run.runtime.resolvedScope.endIndex + 1 ∧
      (run.runtime.completed = true ↔
        run.runtime.currentIndex = run.runtime.resolvedScope.endIndex + 1) ∧
      (run.runtime.attempts.map (·.attemptId)).Nodup ∧
      ∀ event, Timed run event → Effect run event) ∧
    (∀ run, Transition.Reachable (· = start runtime)
        (Transition.guarded (fun run event => Timed run event ∧ Fresh run event) Step) run →
      run.accepted.Pairwise (·.2 < ·.2) ∧
      ∀ index options, Fresh run (.restore index options) →
        run.step (.restore index options) = run ∨
          ∃ restored, run.step (.restore index options) = { run with runtime := restored } ∧
            restored.activationGeneration = run.runtime.activationGeneration + 1 ∧
            restored.currentIndex = run.runtime.currentIndex ∧
            restored.attempts = run.runtime.attempts) := by
  obtain ⟨-, hresolved, -⟩ := create_ok h
  refine ⟨fun run hrun => ?_, fun run hrun => ?_⟩
  · have hok : RunOk runtime.origin run := by
      refine hrun.invariant (p := RunOk runtime.origin) ?_ ?_
      · rintro _ rfl
        exact start_ok h
      · rintro run event _ hok ⟨htimed, rfl⟩
        exact step_ok hok hresolved htimed
    refine ⟨hok.runtime.start_le, hok.runtime.le_end, hok.runtime.completed, ?_,
      fun event htimed => step_effect hok hresolved htimed⟩
    rw [hok.runtime.ids]
    exact attemptIds_nodup _ _
  · have hok : RunOk runtime.origin run ∧ FreshOk run := by
      refine hrun.invariant (p := fun run => RunOk runtime.origin run ∧ FreshOk run) ?_ ?_
      · rintro _ rfl
        exact ⟨start_ok h, start_fresh runtime⟩
      · rintro run event _ ⟨hok, hfresh⟩ ⟨⟨htimed, hrestore⟩, rfl⟩
        exact ⟨step_ok hok hresolved htimed, step_fresh hok hresolved hfresh htimed hrestore⟩
    exact ⟨hok.2.sorted, fun index options hrestore => restore_fresh hok.1 hresolved hok.2 hrestore⟩

/-- A score of one note. -/
def oneNote : PracticeScoreArtifact where
  schemaVersion := 1
  scoreId := "score"
  revisionId := "revision"
  artifactId := "artifact"
  expectedPracticeGroups := [⟨"group", 0, ["C4"], ["C4"], 1⟩]
  practiceAttackSteps := [⟨"step", 0, ["C4"], []⟩]
  scoreEndBeat := 1

def defaultOptions : StepRuntimeOptions where
  scope := none
  inputSource := none
  localSessionId := none
  timebase := none
  version := none
  newSessionId := "session"
  nowMs := some 0
  nowEpochMs := some 0

/-- The runtime of the score of one note. -/
def oneNoteRuntime : StepPracticeRuntime where
  artifact := oneNote
  localSessionId := "session"
  timebase := ⟨"session", some 0⟩
  resolvedScope := ⟨0, 0, 0, 1, none, none⟩
  version := defaultVersion
  inputSource := .microphone
  createdAtMs := some 0
  currentIndex := 0
  activationGeneration := 1
  activationBoundary := ⟨"session", some (-1)⟩
  attempts := []
  completed := false

theorem create_oneNote : create oneNote defaultOptions = .ok oneNoteRuntime := by
  decide +kernel

theorem step_practice_oneNote :
    (∀ run, Transition.Reachable (· = start oneNoteRuntime) (Transition.guarded Timed Step) run →
      run.runtime.resolvedScope.startIndex ≤ run.runtime.currentIndex ∧
      run.runtime.currentIndex ≤ run.runtime.resolvedScope.endIndex + 1 ∧
      (run.runtime.completed = true ↔
        run.runtime.currentIndex = run.runtime.resolvedScope.endIndex + 1) ∧
      (run.runtime.attempts.map (·.attemptId)).Nodup ∧
      ∀ event, Timed run event → Effect run event) ∧
    (∀ run, Transition.Reachable (· = start oneNoteRuntime)
        (Transition.guarded (fun run event => Timed run event ∧ Fresh run event) Step) run →
      run.accepted.Pairwise (·.2 < ·.2) ∧
      ∀ index options, Fresh run (.restore index options) →
        run.step (.restore index options) = run ∨
          ∃ restored, run.step (.restore index options) = { run with runtime := restored } ∧
            restored.activationGeneration = run.runtime.activationGeneration + 1 ∧
            restored.currentIndex = run.runtime.currentIndex ∧
            restored.attempts = run.runtime.attempts) :=
  step_practice oneNote defaultOptions oneNoteRuntime create_oneNote

/-- The events of a run in which one observation is accepted twice: the snapshot of the
first activation is restored again after the match. -/
def replayed : List StepEvent :=
  let seen : StepVerifierObservation := ⟨"step", 2, ⟨"session", some 5⟩, ["C4"], 1⟩
  [.snapshot (some 0), .restore 0 defaultOptions, .observe (some seen) ⟨some 6, some 6⟩,
    .restore 0 defaultOptions, .observe (some seen) ⟨some 6, some 6⟩]

theorem reachable_foldl {runtime : StepPracticeRuntime} (events : List StepEvent) :
    Transition.Reachable (· = start runtime) Step (events.foldl step (start runtime)) := by
  induction events using List.reverseRecOn with
  | nil => exact .start rfl
  | append_singleton events event ih =>
    rw [List.foldl_append]
    exact .step ih rfl

theorem accepted_twice : ¬∀ (artifact : PracticeScoreArtifact) (options : StepRuntimeOptions)
    (runtime : StepPracticeRuntime), create artifact options = .ok runtime →
      ∀ run, Transition.Reachable (· = start runtime) Step run → run.accepted.Nodup := by
  intro hclaim
  have hrun := hclaim oneNote defaultOptions oneNoteRuntime create_oneNote _
    (reachable_foldl replayed)
  revert hrun
  decide +kernel

end StepRun

end NoteVerse.Practice

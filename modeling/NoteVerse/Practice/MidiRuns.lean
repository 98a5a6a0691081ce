import NoteVerse.Practice.MidiEngine

/-!
# Runs of the MIDI engine

Any calls, in any order, after `create`. A call that raises leaves the engine as it
is, and only an event out of range raises (`midiRun_ok`).
-/

namespace NoteVerse.Practice.ServerSteps

open ScoreTimeline

inductive MidiCall
  | ingestMidiEvent (eventType : MidiEventType) (noteNumber velocity timestampMs : Int)
  | skipCurrentExpectedGroup
  | resetInputBuffer
  | finalizePendingPracticeAttempt (reason : AlignmentReason)
  | drainResolvedPracticeAttempts
  deriving DecidableEq, Repr

namespace MidiCall

/-- The engine after the call, and the attempts that the call hands out. -/
def apply (uuid4 : Nat → String) (engine : MidiPracticeEngine) :
    MidiCall → Except EngineError (MidiPracticeEngine × List ResolvedPracticeAttempt)
  | ingestMidiEvent eventType noteNumber velocity timestampMs =>
    (engine.ingestMidiEvent uuid4 eventType noteNumber velocity timestampMs).map (·.1, [])
  | skipCurrentExpectedGroup => (engine.skipCurrentExpectedGroup uuid4).map (·.1, [])
  | resetInputBuffer => .ok (engine.resetInputBuffer, [])
  | finalizePendingPracticeAttempt reason => .ok (engine.finalizePendingPracticeAttempt reason)
  | drainResolvedPracticeAttempts => .ok engine.drain

/-- The call is an event with a number that MIDI does not have. -/
def OutOfRange : MidiCall → Prop
  | ingestMidiEvent _ noteNumber velocity _ => MidiPracticeEngine.Rejected noteNumber velocity
  | _ => False

/-- The call is a match or the skip of a group. -/
def Passes (engine : MidiPracticeEngine) : MidiCall → Prop
  | ingestMidiEvent eventType noteNumber velocity _ =>
    ¬MidiPracticeEngine.Rejected noteNumber velocity ∧
      MidiPracticeEngine.Strikes engine eventType noteNumber velocity
  | skipCurrentExpectedGroup => engine.followPolicy.currentExpectedGroup.isSome = true
  | _ => False

instance (engine : MidiPracticeEngine) : (call : MidiCall) → Decidable (call.Passes engine)
  | ingestMidiEvent _ _ _ _ => inferInstanceAs (Decidable (_ ∧ _))
  | skipCurrentExpectedGroup => inferInstanceAs (Decidable (_ = true))
  | resetInputBuffer | finalizePendingPracticeAttempt _ | drainResolvedPracticeAttempts =>
    inferInstanceAs (Decidable False)

end MidiCall

/-- An engine, and the attempts that were drained from it. -/
structure MidiRun where
  engine : MidiPracticeEngine
  recorded : List ResolvedPracticeAttempt
  deriving DecidableEq, Repr

namespace MidiRun

/-- All attempts that were recorded as resolved. -/
def attempts (run : MidiRun) : List ResolvedPracticeAttempt :=
  run.recorded ++ run.engine.resolvedAttempts

def step (uuid4 : Nat → String) (run : MidiRun) (call : MidiCall) : MidiRun :=
  match call.apply uuid4 run.engine with
  | .error _ => run
  | .ok (next, drained) => ⟨next, run.recorded ++ drained⟩

def after (uuid4 : Nat → String) (engine : MidiPracticeEngine) (calls : List MidiCall) : MidiRun :=
  calls.foldl (step uuid4) ⟨engine, []⟩

variable {uuid4 : Nat → String} {run : MidiRun}

/-- What holds between the calls of a run. -/
structure RunOk (uuid4 : Nat → String) (run : MidiRun) : Prop where
  engine : run.engine.EngineOk uuid4 run.recorded
  resolved : ∀ attempt ∈ run.attempts, attempt.outcome.snapshot.state = .resolved

/-- What a call does to the attempts and to the policy. -/
structure StepOk (uuid4 : Nat → String) (run : MidiRun) (call : MidiCall) : Prop where
  error : ∀ error, call.apply uuid4 run.engine = .error error →
    call.OutOfRange ∧ ∃ message, error = .runtimeError message
  attempts : ∃ new : Option ResolvedPracticeAttempt,
    (run.step uuid4 call).attempts = run.attempts ++ new.toList ∧
      (∀ attempt ∈ new, RecordedAt run.engine.followPolicy attempt) ∧
      (call.Passes run.engine → new ≠ none)
  policy : (run.step uuid4 call).engine.followPolicy =
    if call.Passes run.engine then run.engine.followPolicy.advance else run.engine.followPolicy

theorem step_of_ok {call : MidiCall} {next : MidiPracticeEngine}
    {drained : List ResolvedPracticeAttempt}
    (hok : call.apply uuid4 run.engine = .ok (next, drained)) :
    run.step uuid4 call = ⟨next, run.recorded ++ drained⟩ := by
  unfold step
  rw [hok]

/-- A call that hands out nothing and has the effect that its kind has. -/
theorem stepOk_of_effect {call : MidiCall} {next : MidiPracticeEngine}
    (hok : call.apply uuid4 run.engine = .ok (next, []))
    (heffect : run.engine.Effect next (call.Passes run.engine)) : StepOk uuid4 run call := by
  obtain ⟨new, hnew, hrecorded, hsome⟩ := heffect.resolved
  refine ⟨fun error herror => ?_, ⟨new, ?_, hrecorded, hsome⟩, ?_⟩
  · rw [hok] at herror
    exact nomatch herror
  · rw [step_of_ok hok]
    unfold attempts
    rw [hnew, List.append_nil, List.append_assoc]
  · rw [step_of_ok hok]
    exact heffect.policy

/-- Draining moves attempts that were recorded before. -/
theorem attempts_drain (engine : MidiPracticeEngine) (recorded : List ResolvedPracticeAttempt) :
    attempts ⟨engine.drain.1, recorded ++ engine.drain.2⟩ = attempts ⟨engine, recorded⟩ :=
  List.append_nil _

/-- A call does what its kind does, and keeps the engine as it should be. -/
theorem step_ok (h : RunOk uuid4 run) (call : MidiCall) :
    StepOk uuid4 run call ∧
      (run.step uuid4 call).engine.EngineOk uuid4 (run.step uuid4 call).recorded := by
  cases call with
  | ingestMidiEvent eventType noteNumber velocity timestampMs =>
    by_cases hrejected : MidiPracticeEngine.Rejected noteNumber velocity
    · obtain ⟨message, herror⟩ := @MidiPracticeEngine.ingest_rejected uuid4 run.engine _ _
        hrejected eventType timestampMs
      let call := MidiCall.ingestMidiEvent eventType noteNumber velocity timestampMs
      have happly : call.apply uuid4 run.engine = .error (.runtimeError message) := by
        show (run.engine.ingestMidiEvent uuid4 eventType noteNumber velocity timestampMs).map _ = _
        rw [herror]
        rfl
      have hsame : run.step uuid4 call = run := by
        unfold step
        rw [happly]
      have hpasses : ¬call.Passes run.engine := fun hp => hp.1 hrejected
      show StepOk uuid4 run call ∧ (run.step uuid4 call).engine.EngineOk uuid4 _
      rw [hsame]
      refine ⟨⟨fun error he => ?_, ⟨none, ?_, fun _ ho => (nomatch ho), fun hp => absurd hp hpasses⟩,
        ?_⟩, h.engine⟩
      · rw [happly] at he
        exact ⟨hrejected, message, (Except.error.inj he).symm⟩
      · rw [hsame]
        exact (List.append_nil _).symm
      · rw [hsame, if_neg hpasses]
    · obtain ⟨next, update, hok, hnext, heffect⟩ :=
        MidiPracticeEngine.ingest_ok h.engine hrejected eventType timestampMs
      let call := MidiCall.ingestMidiEvent eventType noteNumber velocity timestampMs
      have happly : call.apply uuid4 run.engine = .ok (next, []) := by
        show (run.engine.ingestMidiEvent uuid4 eventType noteNumber velocity timestampMs).map _ = _
        rw [hok]
        rfl
      have hiff : call.Passes run.engine ↔
          MidiPracticeEngine.Strikes run.engine eventType noteNumber velocity :=
        ⟨fun hp => hp.2, fun hs => ⟨hrejected, hs⟩⟩
      obtain ⟨new, hnew, hrecorded, hsome⟩ := heffect.resolved
      refine ⟨stepOk_of_effect happly ⟨?_, new, hnew, hrecorded, fun hp => hsome (hiff.mp hp)⟩, ?_⟩
      · rw [heffect.policy]
        exact if_congr hiff.symm rfl rfl
      · rw [step_of_ok happly, List.append_nil]
        exact hnext
  | skipCurrentExpectedGroup =>
    obtain ⟨next, update, hok, hnext, heffect⟩ := MidiPracticeEngine.skip_ok h.engine
    have happly : MidiCall.skipCurrentExpectedGroup.apply uuid4 run.engine = .ok (next, []) := by
      show (run.engine.skipCurrentExpectedGroup uuid4).map _ = _
      rw [hok]
      rfl
    refine ⟨stepOk_of_effect happly ⟨heffect.policy, heffect.resolved⟩, ?_⟩
    rw [step_of_ok happly, List.append_nil]
    exact hnext
  | resetInputBuffer =>
    refine ⟨stepOk_of_effect rfl (MidiPracticeEngine.Effect.none rfl rfl), ?_⟩
    rw [step_of_ok rfl, List.append_nil]
    exact h.engine.resetInputBuffer
  | finalizePendingPracticeAttempt reason =>
    obtain ⟨hnext, heffect⟩ := MidiPracticeEngine.finalizePending_ok h.engine reason
    obtain ⟨new, hnew, hrecorded, hsome⟩ := heffect.resolved
    have happly : (MidiCall.finalizePendingPracticeAttempt reason).apply uuid4 run.engine =
      .ok (run.engine.finalizePending reason).drain := rfl
    refine ⟨⟨fun error he => (nomatch he), ⟨new, ?_, hrecorded, hsome⟩, heffect.policy⟩,
      hnext.drain⟩
    rw [step_of_ok happly]
    refine (attempts_drain _ _).trans ?_
    unfold attempts
    rw [hnew, List.append_assoc]
  | drainResolvedPracticeAttempts =>
    refine ⟨⟨fun error he => (nomatch he), ⟨none, ?_, fun _ ho => (nomatch ho), False.elim⟩, rfl⟩,
      h.engine.drain⟩
    rw [step_of_ok rfl]
    exact (attempts_drain _ _).trans (List.append_nil _).symm

theorem RunOk.step (h : RunOk uuid4 run) (call : MidiCall) : RunOk uuid4 (run.step uuid4 call) := by
  obtain ⟨hstep, hengine⟩ := step_ok h call
  obtain ⟨new, hnew, hrecorded, -⟩ := hstep.attempts
  refine ⟨hengine, fun attempt ha => ?_⟩
  rw [hnew] at ha
  rcases List.mem_append.mp ha with ha | ha
  · exact h.resolved attempt ha
  · obtain ⟨group, -, -, -, hresolved⟩ := hrecorded attempt (Option.mem_toList.mp ha)
    exact hresolved

theorem runOk_after {engine : MidiPracticeEngine} (h : engine.EngineOk uuid4 [])
    (hfirst : engine.resolvedAttempts = []) (calls : List MidiCall) :
    RunOk uuid4 (after uuid4 engine calls) := by
  have hinit : RunOk uuid4 ⟨engine, []⟩ := by
    refine ⟨h, fun attempt ha => ?_⟩
    unfold attempts at ha
    rw [hfirst] at ha
    exact absurd ha List.not_mem_nil
  unfold after
  generalize (⟨engine, []⟩ : MidiRun) = run at hinit ⊢
  induction calls generalizing run with
  | nil => exact hinit
  | cons call calls ih => exact ih (run.step uuid4 call) (hinit.step call)

end MidiRun

/-- In any run of a created engine, active notes have a pending attempt at the group
that is expected, the attempts that were recorded come once each and in order, and a
call passes a group exactly if it is a match or a skip. -/
theorem midiRun_ok (sha1 : String → String) (uuid4 : Nat → String)
    (timeline : PracticeScoreTimeline) (startId endId : Option String)
    (engine : MidiPracticeEngine)
    (hcreate : MidiPracticeEngine.create sha1 timeline startId endId = .ok engine)
    (calls : List MidiCall) (call : MidiCall) :
    let run := MidiRun.after uuid4 engine calls
    (run.engine.activeNotes ≠ [] → ∃ snapshot group,
      run.engine.attempts.current = some snapshot ∧ snapshot.state = .pending ∧
        run.engine.followPolicy.currentExpectedGroup = some group ∧
        snapshot.expectedGroupId = group.groupId) ∧
      run.attempts.Pairwise (·.sequence < ·.sequence) ∧
      (∀ attempt ∈ run.attempts, attempt.outcome.snapshot.state = .resolved ∧
        Issued uuid4 run.engine.attempts attempt.outcome.snapshot) ∧
      MidiRun.StepOk uuid4 run call ∧
      (run.step uuid4 call).engine.followPolicy.currentIndex =
        run.engine.followPolicy.currentIndex + if call.Passes run.engine then 1 else 0 := by
  obtain ⟨hok, hfirst, -⟩ := @MidiPracticeEngine.create_ok uuid4 _ _ _ _ _ hcreate
  have hrun := MidiRun.runOk_after hok hfirst calls
  obtain ⟨hstep, -⟩ := MidiRun.step_ok hrun call
  refine ⟨fun hactive => ?_, hrun.engine.log.sorted,
    fun attempt ha => ⟨hrun.resolved attempt ha, hrun.engine.log.issued attempt ha⟩, hstep, ?_⟩
  · obtain ⟨snapshot, hcurrent, hstate⟩ := isPending_iff.mp (hrun.engine.active hactive)
    obtain ⟨group, hgroup, hid⟩ := hrun.engine.openAt snapshot hcurrent hstate
    exact ⟨snapshot, group, hcurrent, hstate, hgroup, hid⟩
  · rw [hstep.policy]
    split_ifs
    · rfl
    · rfl

theorem create_midi_twoNotes :
    ∃ engine, MidiPracticeEngine.create (fun _ => "0") twoNotes none none = .ok engine := by
  obtain ⟨policy, hpolicy⟩ := create_twoNotes
  unfold MidiPracticeEngine.create
  rw [if_neg (by decide), hpolicy]
  exact ⟨_, rfl⟩

theorem midiRun_ok_twoNotes :
    ∃ engine, MidiPracticeEngine.create (fun _ => "0") twoNotes none none = .ok engine ∧
      (MidiRun.after toString engine [.ingestMidiEvent .noteOn 60 90 10,
        .skipCurrentExpectedGroup]).attempts.Pairwise (·.sequence < ·.sequence) := by
  obtain ⟨engine, hcreate⟩ := create_midi_twoNotes
  exact ⟨engine, hcreate, (midiRun_ok _ toString _ _ _ _ hcreate _ .resetInputBuffer).2.1⟩

end NoteVerse.Practice.ServerSteps

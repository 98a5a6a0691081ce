import NoteVerse.Practice.StepPolicy

/-!
# The MIDI engine

`MidiPracticeEngine` of `midi_live.py`, until it is closed.

* `noteOn_ok`, `noteOff_ok`, `skip_ok`, `finalize_ok`: what each call does;
* `EngineOk`: active notes have a pending attempt for the group that is expected.
-/

namespace NoteVerse.Practice.ServerSteps

open ScoreTimeline

structure MidiPracticeEngine where
  scoreEndBeat : ℚ
  followPolicy : WaitForNoteFollowPolicy
  activeNotes : List Int
  attempts : PracticeAttemptLifecycle
  pendingAttemptOutcome : Option PracticeAttemptOutcome
  pendingAttemptUpdate : Option AlignmentUpdate
  resolvedAttempts : List ResolvedPracticeAttempt
  lastTimestampMs : Int
  deriving DecidableEq, Repr

inductive MidiEventType
  | noteOn | noteOff
  deriving DecidableEq, Repr

namespace MidiPracticeEngine

/-- The engine of a timeline and a scope. -/
def create (sha1 : String → String) (scoreTimeline : PracticeScoreTimeline)
    (startExpectedGroupId endExpectedGroupId : Option String) :
    Except EngineError MidiPracticeEngine :=
  if scoreTimeline.firstPlayableBeat = none then
    .error (.runtimeError "Practice score timeline contains no playable events.")
  else
    match WaitForNoteFollowPolicy.create sha1 scoreTimeline startExpectedGroupId
      endExpectedGroupId with
    | .error message => .error (.valueError message)
    | .ok followPolicy => .ok {
        scoreEndBeat := scoreTimeline.endBeat
        followPolicy
        activeNotes := []
        attempts := .initial
        pendingAttemptOutcome := none
        pendingAttemptUpdate := none
        resolvedAttempts := []
        lastTimestampMs := 0 }

variable (uuid4 : Nat → String) (engine : MidiPracticeEngine)

/-- `_completed_update` -/
def completedUpdate : AlignmentUpdate where
  beatPosition := Rounding.round 3 engine.scoreEndBeat
  confidence := 1
  timestampMs := engine.lastTimestampMs
  scopeCompleted := true
  validationConfidence := 1
  inputPolicyConfidence := 1
  decision := engine.followPolicy.decideMatched

/-- The decision of an attempt that something else than a match resolves. -/
def interrupted (reason : Option AlignmentReason) (decision : AlignmentDecision) :
    AlignmentDecision :=
  match reason with
  | none => decision
  | some reason => { decision with action := .hold, reason }

/-- `_resolved_attempt_update` -/
def resolvedAttemptUpdate (update : AlignmentUpdate) (timestampMs : Int)
    (reason : Option AlignmentReason) : MidiPracticeEngine × AlignmentUpdate :=
  let attempts := engine.pendingAttemptOutcome.elim engine.attempts
    fun _ => engine.attempts.resolve timestampMs
  let outcome := engine.pendingAttemptOutcome.bind fun pending =>
    attempts.outcome pending.evaluation
  let resolved := { update with
    timestampMs
    decision := attachAttemptOutcome (interrupted reason update.decision) outcome }
  let resolvedAttempts := engine.followPolicy.currentExpectedGroup.elim engine.resolvedAttempts
    fun group => appendForExpectedGroup engine.resolvedAttempts outcome group resolved
  ({ engine with attempts, resolvedAttempts }, resolved)

/-- `active_notes.add(note_number)` -/
def addNote (noteNumber : Int) (notes : List Int) : List Int :=
  if noteNumber ∈ notes then notes else notes ++ [noteNumber]

/-- What the active notes are evidence of. -/
def midiEvidence (notes : List Int) : EvaluatorEvidence :=
  ⟨(notes.insertionSort (· ≤ ·)).map midiPitchName, 1⟩

/-- The update of a note that was struck. -/
def noteUpdate (policy : WaitForNoteFollowPolicy) (group : ScoreTimeline.ExpectedPracticeGroup)
    (evaluation : PracticeEventEvaluation) (decision : AlignmentDecision) (timestampMs : Int) :
    AlignmentUpdate where
  beatPosition :=
    Rounding.round 3 (decision.displayAnchor.elim group.onsetBeat PracticeDisplayAnchor.beat)
  confidence := Rounding.round 3 evaluation.confidence
  timestampMs
  scopeCompleted := policy.currentExpectedGroup.isNone
  validationConfidence := Rounding.round 3 evaluation.confidence
  inputPolicyConfidence := 1
  decision

/-- The attempt that a note belongs to. -/
def attemptOfNote (group : ScoreTimeline.ExpectedPracticeGroup) (timestampMs : Int) :
    PracticeAttemptLifecycle :=
  if engine.activeNotes = [] then engine.attempts.begin uuid4 group.groupId timestampMs
  else engine.attempts

/-- `ingest_midi_event` of a note that is struck. -/
def noteOn (noteNumber timestampMs : Int) :
    Except EngineError (MidiPracticeEngine × Option AlignmentUpdate) :=
  match engine.followPolicy.currentExpectedGroup with
  | none => .ok (engine, some engine.completedUpdate)
  | some group => do
    let activeNotes := addNote noteNumber engine.activeNotes
    let evaluation ← engine.followPolicy.evaluateEvidence (midiEvidence activeNotes)
    let attempts :=
      if evaluation.result = .match then
        (engine.attemptOfNote uuid4 group timestampMs).resolve timestampMs
      else engine.attemptOfNote uuid4 group timestampMs
    let outcome := attempts.outcome evaluation
    let decided ← engine.followPolicy.decideEvaluation evaluation
    let advances := decided.2.action = .advance
    let decision := attachAttemptOutcome decided.2 outcome
    let update := noteUpdate decided.1 group evaluation decision timestampMs
    match decision.attemptState with
    | none => .error (.keyError "attempt_state")
    | some state => .ok ({ engine with
        followPolicy := decided.1
        activeNotes := if advances then [] else activeNotes
        attempts
        pendingAttemptOutcome :=
          if state = .pending then outcome
          else if advances then none
          else engine.pendingAttemptOutcome
        pendingAttemptUpdate :=
          if state = .pending then some update
          else if advances then none
          else engine.pendingAttemptUpdate
        resolvedAttempts := appendForExpectedGroup engine.resolvedAttempts outcome group update },
      some update)

/-- `active_notes.discard(note_number)` -/
def release (noteNumber : Int) : MidiPracticeEngine :=
  { engine with activeNotes := engine.activeNotes.filter (· ≠ noteNumber) }

/-- `ingest_midi_event` of a note that is released. -/
def noteOff (noteNumber timestampMs : Int) : MidiPracticeEngine × Option AlignmentUpdate :=
  let released := engine.release noteNumber
  match engine.pendingAttemptUpdate with
  | none => (released, none)
  | some update =>
    if released.activeNotes = [] then
      let resolved := released.resolvedAttemptUpdate update timestampMs none
      ({ resolved.1 with pendingAttemptUpdate := none }, some resolved.2)
    else (released, none)

/-- `ingest_midi_event` -/
def ingestMidiEvent (eventType : MidiEventType) (noteNumber velocity timestampMs : Int) :
    Except EngineError (MidiPracticeEngine × Option AlignmentUpdate) :=
  if noteNumber < 0 ∨ 127 < noteNumber then
    .error (.runtimeError "MIDI note_number must be between 0 and 127.")
  else if velocity < 0 ∨ 127 < velocity then
    .error (.runtimeError "MIDI velocity must be between 0 and 127.")
  else
    let engine := { engine with lastTimestampMs := timestampMs }
    if eventType = .noteOff ∨ velocity = 0 then .ok (engine.noteOff noteNumber timestampMs)
    else engine.noteOn uuid4 noteNumber timestampMs

/-- `reset_input_buffer` -/
def resetInputBuffer : MidiPracticeEngine :=
  { engine with
    activeNotes := []
    attempts := engine.attempts.clearCurrent
    pendingAttemptOutcome := none
    pendingAttemptUpdate := none }

/-- The update of a group that the user skips. -/
def skipUpdate (policy : WaitForNoteFollowPolicy) (group : ScoreTimeline.ExpectedPracticeGroup)
    (decision : AlignmentDecision) (timestampMs : Int) : AlignmentUpdate where
  beatPosition :=
    Rounding.round 3 (decision.displayAnchor.elim group.onsetBeat PracticeDisplayAnchor.beat)
  confidence := 1
  timestampMs
  scopeCompleted := policy.currentExpectedGroup.isNone
  validationConfidence := 1
  inputPolicyConfidence := 1
  decision

/-- The attempt of a group that the user skips. -/
def skipAttempts (group : ScoreTimeline.ExpectedPracticeGroup) : PracticeAttemptLifecycle :=
  (engine.resetInputBuffer.attempts.begin uuid4 group.groupId engine.lastTimestampMs).resolve
    engine.lastTimestampMs

/-- `skip_current_expected_group` -/
def skipCurrentExpectedGroup :
    Except EngineError (MidiPracticeEngine × Option AlignmentUpdate) :=
  match engine.followPolicy.currentExpectedGroup with
  | none => .ok (engine, some engine.completedUpdate)
  | some group => do
    let attempts := engine.skipAttempts uuid4 group
    let outcome := attempts.outcome (skipEvaluation group)
    let decided ← engine.followPolicy.skipCurrentGroup
    let decision := attachAttemptOutcome decided.2 outcome
    let update := skipUpdate decided.1 group decision engine.lastTimestampMs
    return ({ engine.resetInputBuffer with
      followPolicy := decided.1
      attempts
      resolvedAttempts := appendForExpectedGroup engine.resolvedAttempts outcome group update },
      some update)

/-- `drain_resolved_practice_attempts` -/
def drain : MidiPracticeEngine × List ResolvedPracticeAttempt :=
  ({ engine with resolvedAttempts := [] }, engine.resolvedAttempts)

/-- `finalize_pending_practice_attempt`, before it drains. -/
def finalizePending (reason : AlignmentReason) : MidiPracticeEngine :=
  match engine.pendingAttemptUpdate with
  | none => engine.resetInputBuffer
  | some update =>
    (engine.resolvedAttemptUpdate update engine.lastTimestampMs (some reason)).1.resetInputBuffer

/-- `finalize_pending_practice_attempt` -/
def finalizePendingPracticeAttempt (reason : AlignmentReason) :
    MidiPracticeEngine × List ResolvedPracticeAttempt :=
  (engine.finalizePending reason).drain

/-! ## What a call does -/

variable {uuid4 engine} {recorded : List ResolvedPracticeAttempt}

/-- What holds between the calls, once the attempts in `recorded` were drained. -/
structure EngineOk (uuid4 : Nat → String) (recorded : List ResolvedPracticeAttempt)
    (engine : MidiPracticeEngine) : Prop where
  policy : engine.followPolicy.Ok
  log : Log uuid4 engine.attempts (recorded ++ engine.resolvedAttempts)
  active : engine.activeNotes ≠ [] → engine.attempts.isPending = true
  pendingUpdate : engine.pendingAttemptUpdate ≠ none → engine.attempts.isPending = true
  openAt : OpenAt engine.followPolicy engine.attempts

/-- A call passes the group or not, and records an attempt of it or none. -/
structure Effect (engine next : MidiPracticeEngine) (passes : Prop) [Decidable passes] : Prop where
  policy : next.followPolicy = if passes then engine.followPolicy.advance else engine.followPolicy
  resolved : ∃ new : Option ResolvedPracticeAttempt,
    next.resolvedAttempts = engine.resolvedAttempts ++ new.toList ∧
      (∀ attempt ∈ new, RecordedAt engine.followPolicy attempt) ∧ (passes → new ≠ none)

theorem EngineOk.resetInputBuffer (h : EngineOk uuid4 recorded engine) :
    EngineOk uuid4 recorded engine.resetInputBuffer where
  policy := h.policy
  log := h.log.clearCurrent
  active hne := absurd rfl hne
  pendingUpdate hne := absurd rfl hne
  openAt := OpenAt.clearCurrent _ _

/-! ### Notes -/

/-- How the active notes and one more are evaluated. -/
def noteEvaluation (engine : MidiPracticeEngine) (group : ScoreTimeline.ExpectedPracticeGroup)
    (noteNumber : Int) : PracticeEventEvaluation :=
  evaluate WaitForNoteFollowPolicy.confidenceThreshold group
    (midiEvidence (addNote noteNumber engine.activeNotes))

/-- The note completes the group. -/
def Matches (engine : MidiPracticeEngine) (noteNumber : Int) : Prop :=
  ∃ group ∈ engine.followPolicy.currentExpectedGroup,
    (engine.noteEvaluation group noteNumber).result = .match

instance (noteNumber : Int) : Decidable (Matches engine noteNumber) :=
  inferInstanceAs (Decidable (∃ group ∈ engine.followPolicy.currentExpectedGroup, _ = _))

theorem attemptOfNote_pending (h : EngineOk uuid4 recorded engine)
    (group : ScoreTimeline.ExpectedPracticeGroup)
    (timestampMs : Int) : (engine.attemptOfNote uuid4 group timestampMs).isPending = true := by
  unfold attemptOfNote
  split_ifs with hactive
  · exact isPending_begin _ _
  · exact h.active hactive

theorem attemptOfNote_log (h : EngineOk uuid4 recorded engine)
    (group : ScoreTimeline.ExpectedPracticeGroup)
    (timestampMs : Int) :
    Log uuid4 (engine.attemptOfNote uuid4 group timestampMs)
      (recorded ++ engine.resolvedAttempts) := by
  unfold attemptOfNote
  split_ifs
  · exact h.log.begin _ _
  · exact h.log

variable {group : ScoreTimeline.ExpectedPracticeGroup} {noteNumber : Int}

theorem attemptOfNote_openAt (h : EngineOk uuid4 recorded engine)
    (hgroup : engine.followPolicy.currentExpectedGroup = some group) (timestampMs : Int) :
    OpenAt engine.followPolicy (engine.attemptOfNote uuid4 group timestampMs) := by
  unfold attemptOfNote
  split_ifs
  · exact h.openAt.begin hgroup timestampMs
  · exact h.openAt

theorem matches_iff (hgroup : engine.followPolicy.currentExpectedGroup = some group)
    (noteNumber : Int) :
    Matches engine noteNumber ↔ (engine.noteEvaluation group noteNumber).result = .match := by
  unfold Matches
  rw [hgroup]
  constructor
  · rintro ⟨group', hmem, hresult⟩
    obtain rfl := Option.some.inj hmem
    exact hresult
  · exact fun hresult => ⟨group, rfl, hresult⟩

/-- Without a group to expect, a note changes nothing. -/
theorem noteOn_completed (hgroup : engine.followPolicy.currentExpectedGroup = none)
    (noteNumber timestampMs : Int) :
    engine.noteOn uuid4 noteNumber timestampMs = .ok (engine, some engine.completedUpdate) ∧
      ¬Matches engine noteNumber := by
  refine ⟨?_, ?_⟩
  · unfold noteOn
    rw [hgroup]
  · unfold Matches
    rw [hgroup]
    exact fun ⟨_, hmem, _⟩ => nomatch hmem

theorem evaluateEvidence_eq (hgroup : engine.followPolicy.currentExpectedGroup = some group)
    (noteNumber : Int) :
    engine.followPolicy.evaluateEvidence (midiEvidence (addNote noteNumber engine.activeNotes)) =
      .ok (engine.noteEvaluation group noteNumber) := by
  unfold WaitForNoteFollowPolicy.evaluateEvidence
  rw [hgroup]
  rfl

/-- A note that does not complete the group leaves its attempt open. -/
theorem noteOn_pending (h : EngineOk uuid4 recorded engine)
    (hgroup : engine.followPolicy.currentExpectedGroup = some group)
    (hmatch : ¬Matches engine noteNumber) (timestampMs : Int) :
    ∃ next update, engine.noteOn uuid4 noteNumber timestampMs = .ok (next, some update) ∧
      EngineOk uuid4 recorded next ∧ Effect engine next False := by
  have hresult := (matches_iff hgroup noteNumber).not.mp hmatch
  have hpending := attemptOfNote_pending h group timestampMs
  obtain ⟨decision, hdecide, haction, -⟩ :=
    WaitForNoteFollowPolicy.decideEvaluation_ok hgroup (engine.noteEvaluation group noteNumber)
  rw [if_neg hresult] at hdecide
  obtain ⟨⟨outcome, houtcome, hstate⟩, -⟩ :=
    outcome_of_pending hpending (engine.noteEvaluation group noteNumber) timestampMs
  have hnone : ∀ update, resolvedAttemptFromOutcome (some outcome) group update = none := by
    intro update
    rw [← houtcome]
    exact resolvedAttempt_of_not_resolved hpending _ group update
  have hsame : ∀ update, appendForExpectedGroup engine.resolvedAttempts (some outcome) group
      update = engine.resolvedAttempts := by
    intro update
    unfold appendForExpectedGroup
    rw [hnone, Option.toList_none, List.append_nil]
  unfold noteOn
  rw [hgroup]
  dsimp only
  rw [evaluateEvidence_eq hgroup, Python.ok_bind, if_neg hresult, hdecide, Python.ok_bind, houtcome]
  refine ⟨_, _, rfl, ⟨h.policy, ?_, fun _ => hpending, fun _ => hpending,
    attemptOfNote_openAt h hgroup timestampMs⟩, ?_, none, ?_, fun _ ho => (nomatch ho), False.elim⟩
  · show Log _ _ (recorded ++ appendForExpectedGroup _ _ _ _)
    rw [hsame]
    exact attemptOfNote_log h group timestampMs
  · rfl
  · rw [Option.toList_none, List.append_nil]
    exact hsame _

/-- A note that completes the group resolves its attempt and passes the group. -/
theorem noteOn_match (h : EngineOk uuid4 recorded engine)
    (hgroup : engine.followPolicy.currentExpectedGroup = some group)
    (hmatch : Matches engine noteNumber) (timestampMs : Int) :
    ∃ next update, engine.noteOn uuid4 noteNumber timestampMs = .ok (next, some update) ∧
      EngineOk uuid4 recorded next ∧ Effect engine next True := by
  have hresult := (matches_iff hgroup noteNumber).mp hmatch
  have hpending := attemptOfNote_pending h group timestampMs
  obtain ⟨decision, hdecide, haction, -⟩ := WaitForNoteFollowPolicy.decideEvaluation_ok hgroup
    (engine.noteEvaluation group noteNumber)
  rw [if_pos hresult] at hdecide
  have hadvance : decision.action = .advance := haction.mpr hresult
  obtain ⟨-, outcome, houtcome, hstate⟩ := outcome_of_pending hpending
    (engine.noteEvaluation group noteNumber) timestampMs
  unfold noteOn
  rw [hgroup]
  dsimp only
  rw [evaluateEvidence_eq hgroup, Python.ok_bind, if_pos hresult, hdecide, Python.ok_bind, houtcome]
  refine ⟨_, _, rfl, ⟨?_, ?_, ?_, ?_, OpenAt.resolve _ _ _⟩, ?_, ?_⟩
  · exact h.policy.advance (by rw [hgroup]; exact Option.some_ne_none group)
  · have hlog := (attemptOfNote_log h group timestampMs).resolve hpending timestampMs
      (engine.noteEvaluation group noteNumber) group
      (noteUpdate engine.followPolicy.advance group
        (engine.noteEvaluation group noteNumber)
        (attachAttemptOutcome decision (some outcome)) timestampMs)
    rw [houtcome] at hlog
    show Log _ _ (recorded ++ appendForExpectedGroup _ _ _ _)
    rw [append_appendForExpectedGroup]
    exact hlog
  · exact fun hne => absurd (if_pos hadvance) hne
  · have hresolved : ¬outcome.snapshot.state = .pending := by
      rw [hstate]
      decide
    exact fun hne => absurd ((if_neg hresolved).trans (if_pos hadvance)) hne
  · rfl
  · obtain ⟨attempt, hattempt, hrecorded⟩ := recordedAt_of_resolve hpending
      (attemptOfNote_openAt h hgroup timestampMs) hgroup timestampMs
      (engine.noteEvaluation group noteNumber)
      (noteUpdate engine.followPolicy.advance group
        (engine.noteEvaluation group noteNumber)
        (attachAttemptOutcome decision (some outcome)) timestampMs)
    rw [houtcome] at hattempt
    refine ⟨some attempt, ?_, fun other ho => ?_, fun _ => Option.some_ne_none attempt⟩
    · exact congrArg (engine.resolvedAttempts ++ Option.toList ·) hattempt
    · obtain rfl := Option.some.inj ho
      exact hrecorded

theorem noteOn_ok (h : EngineOk uuid4 recorded engine) (noteNumber timestampMs : Int) :
    ∃ next update, engine.noteOn uuid4 noteNumber timestampMs = .ok (next, some update) ∧
      EngineOk uuid4 recorded next ∧ Effect engine next (Matches engine noteNumber) := by
  cases hgroup : engine.followPolicy.currentExpectedGroup with
  | none =>
    obtain ⟨hok, hmatch⟩ := noteOn_completed hgroup noteNumber timestampMs
    refine ⟨_, _, hok, h, (if_neg hmatch).symm, none, ?_, fun _ ho => (nomatch ho), ?_⟩
    · exact (List.append_nil _).symm
    · exact fun hm => absurd hm hmatch
  | some group =>
    by_cases hmatch : Matches engine noteNumber
    · obtain ⟨next, update, hok, hnext, heffect⟩ := noteOn_match h hgroup hmatch timestampMs
      obtain ⟨new, hnew, hrecorded, hsome⟩ := heffect.resolved
      refine ⟨next, update, hok, hnext, ?_, new, hnew, hrecorded, fun _ => hsome trivial⟩
      rw [heffect.policy, if_pos trivial, if_pos hmatch]
    · obtain ⟨next, update, hok, hnext, heffect⟩ := noteOn_pending h hgroup hmatch timestampMs
      obtain ⟨new, hnew, hrecorded, -⟩ := heffect.resolved
      refine ⟨next, update, hok, hnext, ?_, new, hnew, hrecorded, fun hm => absurd hm hmatch⟩
      rw [heffect.policy, if_neg not_false, if_neg hmatch]

/-- The attempt that is pending is resolved without a match. -/
theorem resolvedAttemptUpdate_ok (h : EngineOk uuid4 recorded engine)
    (hpending : engine.attempts.isPending = true) (update : AlignmentUpdate) (timestampMs : Int)
    (reason : Option AlignmentReason) :
    Log uuid4 (engine.resolvedAttemptUpdate update timestampMs reason).1.attempts
        (recorded ++ (engine.resolvedAttemptUpdate update timestampMs reason).1.resolvedAttempts) ∧
      OpenAt engine.followPolicy
        (engine.resolvedAttemptUpdate update timestampMs reason).1.attempts ∧
      Effect engine (engine.resolvedAttemptUpdate update timestampMs reason).1 False := by
  obtain ⟨snapshot, hcurrent, hstate⟩ := isPending_iff.mp hpending
  obtain ⟨group, hgroup, -⟩ := h.openAt snapshot hcurrent hstate
  unfold resolvedAttemptUpdate
  rw [hgroup]
  cases hpendingOutcome : engine.pendingAttemptOutcome with
  | none =>
    have hsame : ∀ update, appendForExpectedGroup engine.resolvedAttempts none group update =
        engine.resolvedAttempts := fun _ => List.append_nil _
    refine ⟨?_, h.openAt, rfl, none, ?_, fun _ ho => (nomatch ho), False.elim⟩
    · show Log _ _ (recorded ++ appendForExpectedGroup _ none _ _)
      rw [hsame]
      exact h.log
    · exact (hsame _).trans (List.append_nil _).symm
  | some pending =>
    refine ⟨?_, OpenAt.resolve _ _ _, rfl, ?_⟩
    · show Log _ _ (recorded ++ appendForExpectedGroup _ _ _ _)
      rw [append_appendForExpectedGroup]
      exact h.log.resolve hpending timestampMs pending.evaluation group _
    · obtain ⟨attempt, hattempt, hrecorded⟩ := recordedAt_of_resolve hpending h.openAt hgroup
        timestampMs pending.evaluation { update with
          timestampMs
          decision := attachAttemptOutcome (interrupted reason update.decision)
            ((engine.attempts.resolve timestampMs).outcome pending.evaluation) }
      refine ⟨some attempt, ?_, fun other ho => ?_, False.elim⟩
      · exact congrArg (engine.resolvedAttempts ++ Option.toList ·) hattempt
      · obtain rfl := Option.some.inj ho
        exact hrecorded

/-- A call that neither passes the group nor records an attempt. -/
theorem Effect.none {next : MidiPracticeEngine} (hpolicy : next.followPolicy = engine.followPolicy)
    (hresolved : next.resolvedAttempts = engine.resolvedAttempts) : Effect engine next False :=
  ⟨hpolicy, .none, by rw [hresolved, Option.toList_none, List.append_nil],
    fun _ ho => (nomatch ho), False.elim⟩

theorem EngineOk.release (h : EngineOk uuid4 recorded engine) (noteNumber : Int) :
    EngineOk uuid4 recorded (engine.release noteNumber) := by
  refine ⟨h.policy, h.log, fun hne => h.active fun hnil => hne ?_, h.pendingUpdate, h.openAt⟩
  show engine.activeNotes.filter _ = []
  rw [hnil]
  rfl

theorem noteOff_ok (h : EngineOk uuid4 recorded engine) (noteNumber timestampMs : Int) :
    EngineOk uuid4 recorded (engine.noteOff noteNumber timestampMs).1 ∧
      Effect engine (engine.noteOff noteNumber timestampMs).1 False := by
  have hreleased := h.release noteNumber
  unfold noteOff
  cases hupdate : engine.pendingAttemptUpdate with
  | none => exact ⟨hreleased, Effect.none rfl rfl⟩
  | some update =>
    dsimp only
    split_ifs with hnil
    · obtain ⟨hlog, hopen, heffect⟩ := resolvedAttemptUpdate_ok hreleased
        (h.pendingUpdate (by rw [hupdate]; exact Option.some_ne_none update)) update timestampMs
        .none
      exact ⟨⟨h.policy, hlog, fun hne => absurd hnil hne, fun hne => absurd rfl hne, hopen⟩,
        heffect.policy, heffect.resolved⟩
    · exact ⟨hreleased, Effect.none rfl rfl⟩

/-! ### Skips -/

/-- The attempt of a skip is begun in a buffer that was reset, and resolved. -/
theorem skip_ok_of_group (h : EngineOk uuid4 recorded engine)
    (hgroup : engine.followPolicy.currentExpectedGroup = some group) :
    ∃ next update, engine.skipCurrentExpectedGroup uuid4 = .ok (next, some update) ∧
      EngineOk uuid4 recorded next ∧ Effect engine next True := by
  have hreset := h.resetInputBuffer
  have hpending : (engine.resetInputBuffer.attempts.begin uuid4 group.groupId
      engine.lastTimestampMs).isPending = true := isPending_begin _ _
  obtain ⟨decision, hdecide, -⟩ := WaitForNoteFollowPolicy.skipCurrentGroup_ok hgroup
  let update := skipUpdate engine.followPolicy.advance group (attachAttemptOutcome decision
    ((engine.skipAttempts uuid4 group).outcome (skipEvaluation group))) engine.lastTimestampMs
  unfold skipCurrentExpectedGroup
  rw [hgroup]
  dsimp only
  rw [hdecide, Python.ok_bind]
  refine ⟨_, _, rfl, ⟨?_, ?_, ?_, ?_, OpenAt.resolve _ _ _⟩, rfl, ?_⟩
  · exact h.policy.advance (by rw [hgroup]; exact Option.some_ne_none group)
  · have hlog := (hreset.log.begin group.groupId engine.lastTimestampMs).resolve hpending
      engine.lastTimestampMs (skipEvaluation group) group update
    show Log _ _ (recorded ++ appendForExpectedGroup _ _ _ _)
    rw [append_appendForExpectedGroup]
    exact hlog
  · exact fun hne => absurd rfl hne
  · exact fun hne => absurd rfl hne
  · obtain ⟨attempt, hattempt, hrecorded⟩ := recordedAt_of_resolve hpending
      (hreset.openAt.begin hgroup engine.lastTimestampMs) hgroup engine.lastTimestampMs
      (skipEvaluation group) update
    refine ⟨some attempt, ?_, fun other ho => ?_, fun _ => Option.some_ne_none attempt⟩
    · exact congrArg (engine.resolvedAttempts ++ Option.toList ·) hattempt
    · obtain rfl := Option.some.inj ho
      exact hrecorded

theorem skip_ok (h : EngineOk uuid4 recorded engine) :
    ∃ next update, engine.skipCurrentExpectedGroup uuid4 = .ok (next, some update) ∧
      EngineOk uuid4 recorded next ∧
      Effect engine next (engine.followPolicy.currentExpectedGroup.isSome = true) := by
  cases hgroup : engine.followPolicy.currentExpectedGroup with
  | none =>
    refine ⟨engine, engine.completedUpdate, ?_, h, rfl, none, (List.append_nil _).symm,
      fun _ ho => (nomatch ho), fun hsome => (nomatch hsome)⟩
    unfold skipCurrentExpectedGroup
    rw [hgroup]
  | some group =>
    obtain ⟨next, update, hok, hnext, heffect⟩ := skip_ok_of_group h hgroup
    obtain ⟨new, hnew, hrecorded, hsome⟩ := heffect.resolved
    exact ⟨next, update, hok, hnext, heffect.policy, new, hnew, hrecorded, fun _ => hsome trivial⟩

/-! ### The end of an attempt that is open -/

theorem finalizePending_ok (h : EngineOk uuid4 recorded engine) (reason : AlignmentReason) :
    EngineOk uuid4 recorded (engine.finalizePending reason) ∧
      Effect engine (engine.finalizePending reason) False := by
  unfold finalizePending
  cases hupdate : engine.pendingAttemptUpdate with
  | none => exact ⟨h.resetInputBuffer, Effect.none rfl rfl⟩
  | some update =>
    obtain ⟨hlog, -, heffect⟩ := resolvedAttemptUpdate_ok h
      (h.pendingUpdate (by rw [hupdate]; exact Option.some_ne_none update)) update
      engine.lastTimestampMs (some reason)
    refine ⟨⟨h.policy, hlog.clearCurrent, fun hne => absurd rfl hne, fun hne => absurd rfl hne,
      OpenAt.clearCurrent _ _⟩, heffect.policy, heffect.resolved⟩

/-- What is drained is recorded. -/
theorem EngineOk.drain (h : EngineOk uuid4 recorded engine) :
    EngineOk uuid4 (recorded ++ engine.drain.2) engine.drain.1 where
  policy := h.policy
  log := by
    show Log uuid4 engine.attempts (recorded ++ engine.resolvedAttempts ++ [])
    rw [List.append_nil]
    exact h.log
  active := h.active
  pendingUpdate := h.pendingUpdate
  openAt := h.openAt

/-! ### Events -/

/-- The event has a number or a velocity that MIDI does not have. -/
def Rejected (noteNumber velocity : Int) : Prop :=
  (noteNumber < 0 ∨ 127 < noteNumber) ∨ velocity < 0 ∨ 127 < velocity

instance (noteNumber velocity : Int) : Decidable (Rejected noteNumber velocity) :=
  inferInstanceAs (Decidable (_ ∨ _))

/-- The event strikes a note that completes the group. -/
def Strikes (engine : MidiPracticeEngine) (eventType : MidiEventType) (noteNumber velocity : Int) :
    Prop :=
  eventType = .noteOn ∧ velocity ≠ 0 ∧ Matches engine noteNumber

instance (eventType : MidiEventType) (noteNumber velocity : Int) :
    Decidable (Strikes engine eventType noteNumber velocity) :=
  inferInstanceAs (Decidable (_ ∧ _))

theorem ingest_rejected {velocity : Int} (hrejected : Rejected noteNumber velocity)
    (eventType : MidiEventType) (timestampMs : Int) :
    ∃ message, engine.ingestMidiEvent uuid4 eventType noteNumber velocity timestampMs =
      .error (.runtimeError message) := by
  unfold ingestMidiEvent
  rcases hrejected with hnote | hvelocity
  · rw [if_pos hnote]
    exact ⟨_, rfl⟩
  · split_ifs
    · exact ⟨_, rfl⟩
    · exact ⟨_, rfl⟩

/-- The time of the last event bears on nothing else. -/
theorem EngineOk.setTimestamp (h : EngineOk uuid4 recorded engine) (timestampMs : Int) :
    EngineOk uuid4 recorded { engine with lastTimestampMs := timestampMs } :=
  ⟨h.policy, h.log, h.active, h.pendingUpdate, h.openAt⟩

theorem ingest_ok (h : EngineOk uuid4 recorded engine) {velocity : Int}
    (hrange : ¬Rejected noteNumber velocity) (eventType : MidiEventType) (timestampMs : Int) :
    ∃ next update, engine.ingestMidiEvent uuid4 eventType noteNumber velocity timestampMs =
        .ok (next, update) ∧
      EngineOk uuid4 recorded next ∧
      Effect engine next (Strikes engine eventType noteNumber velocity) := by
  obtain ⟨hnote, hvelocity⟩ := not_or.mp hrange
  have htimed := h.setTimestamp timestampMs
  unfold ingestMidiEvent
  rw [if_neg hnote, if_neg hvelocity]
  dsimp only
  by_cases hoff : eventType = .noteOff ∨ velocity = 0
  · have hquiet : ¬Strikes engine eventType noteNumber velocity := by
      rintro ⟨rfl, hloud, -⟩
      exact hoff.elim (fun heq => nomatch heq) hloud
    obtain ⟨hnext, heffect⟩ := noteOff_ok htimed noteNumber timestampMs
    obtain ⟨new, hnew, hrecorded, -⟩ := heffect.resolved
    rw [if_pos hoff]
    refine ⟨_, _, rfl, hnext, ?_, new, hnew, hrecorded, fun hs => absurd hs hquiet⟩
    rw [if_neg hquiet]
    exact heffect.policy
  · obtain ⟨hon, hloud⟩ := not_or.mp hoff
    have hstruck : eventType = .noteOn := by
      cases eventType
      · rfl
      · exact absurd rfl hon
    have hiff : Strikes engine eventType noteNumber velocity ↔
        Matches { engine with lastTimestampMs := timestampMs } noteNumber :=
      ⟨fun hs => hs.2.2, fun hm => ⟨hstruck, hloud, hm⟩⟩
    obtain ⟨next, update, hok, hnext, heffect⟩ := noteOn_ok htimed noteNumber timestampMs
    obtain ⟨new, hnew, hrecorded, hsome⟩ := heffect.resolved
    rw [if_neg hoff]
    refine ⟨next, some update, hok, hnext, ?_, new, hnew, hrecorded, fun hs => hsome (hiff.mp hs)⟩
    rw [heffect.policy]
    exact if_congr hiff.symm rfl rfl

/-- A created engine stands at the start of its scope and has recorded nothing. -/
theorem create_ok {sha1 : String → String} {timeline : PracticeScoreTimeline}
    {startId endId : Option String} (h : create sha1 timeline startId endId = .ok engine) :
    EngineOk uuid4 [] engine ∧ engine.resolvedAttempts = [] ∧
      engine.followPolicy.currentIndex = engine.followPolicy.startIndexValue := by
  unfold create at h
  split_ifs at h
  split at h
  · exact nomatch h
  · rename_i policy hpolicy
    obtain rfl := Except.ok.inj h
    obtain ⟨hok, hstart⟩ := WaitForNoteFollowPolicy.create_ok hpolicy
    exact ⟨⟨hok, log_initial, fun hne => absurd rfl hne, fun hne => absurd rfl hne,
      fun _ hs => nomatch hs⟩, rfl, hstart⟩

end MidiPracticeEngine

end NoteVerse.Practice.ServerSteps

import NoteVerse.Lib.Rounding
import NoteVerse.Practice.ScoreTimeline

/-!
# Attempts of a step session

`attempt_lifecycle.py` and `attempt_assembler.py`: the identity of an attempt, its
outcome, and the attempts that wait to be persisted. `uuid4 n` is what the `n`-th
call of `uuid4` returns.

`Log` says that attempts come in the order of their sequence numbers, each begun
once.
-/

namespace NoteVerse.Practice.ServerSteps

open ScoreTimeline

inductive EvaluationResult
  | «match» | partialMatch | mismatch | uncertain | skipped
  deriving DecidableEq, Repr

structure PracticeEventEvaluation where
  expectedGroupId : String
  result : EvaluationResult
  matchedPitches : List String
  missingPitches : List String
  extraPitches : List String
  confidence : ℚ
  evaluatorVersion : String
  deriving DecidableEq, Repr

inductive AttemptLifecycleState
  | pending | resolved
  deriving DecidableEq, Repr

structure PracticeAttemptSnapshot where
  attemptId : String
  attemptSequence : Nat
  expectedGroupId : String
  startedAtMs : Int
  state : AttemptLifecycleState
  resolvedAtMs : Option Int
  deriving DecidableEq, Repr

structure PracticeAttemptOutcome where
  snapshot : PracticeAttemptSnapshot
  evaluation : PracticeEventEvaluation
  policyProfileVersion : String
  deriving DecidableEq, Repr

structure PracticeAttemptLifecycle where
  nextSequence : Nat
  current : Option PracticeAttemptSnapshot
  /-- How often `uuid4` was called; nothing resets it. -/
  drawn : Nat
  deriving DecidableEq, Repr

namespace PracticeAttemptLifecycle

def initial : PracticeAttemptLifecycle := ⟨1, none, 0⟩

variable (uuid4 : Nat → String) (lifecycle : PracticeAttemptLifecycle)

def isPending : Bool := lifecycle.current.any (·.state = .pending)

/-- `begin` -/
def «begin» (expectedGroupId : String) (timestampMs : Int) : PracticeAttemptLifecycle :=
  if lifecycle.isPending then lifecycle
  else
    { nextSequence := lifecycle.nextSequence + 1
      current := some {
        attemptId := uuid4 lifecycle.drawn
        attemptSequence := lifecycle.nextSequence
        expectedGroupId
        startedAtMs := timestampMs
        state := .pending
        resolvedAtMs := none }
      drawn := lifecycle.drawn + 1 }

/-- A snapshot that is resolved stays as it is. -/
def resolveSnapshot (timestampMs : Int) (snapshot : PracticeAttemptSnapshot) :
    PracticeAttemptSnapshot :=
  if snapshot.state = .resolved then snapshot
  else { snapshot with state := .resolved, resolvedAtMs := some timestampMs }

/-- `resolve` -/
def resolve (timestampMs : Int) : PracticeAttemptLifecycle :=
  { lifecycle with current := lifecycle.current.map (resolveSnapshot timestampMs) }

/-- `clear_current` -/
def clearCurrent : PracticeAttemptLifecycle := { lifecycle with current := none }

/-- `reset` -/
def reset : PracticeAttemptLifecycle := { lifecycle with nextSequence := 1, current := none }

/-- `PracticeAttemptAssembler.pending`, and the outcome of its `resolve` after the lifecycle's. -/
def outcome (evaluation : PracticeEventEvaluation) : Option PracticeAttemptOutcome :=
  lifecycle.current.map fun snapshot => ⟨snapshot, evaluation, "wait-for-note-v1"⟩

end PracticeAttemptLifecycle

/-! ## Resolved attempts -/

inductive AlignmentAction
  | advance | hold | wait | skip
  deriving DecidableEq, Repr

inductive AlignmentReason
  | stableMatch | partialMatch | insufficientInput | entryMismatch | lowAlignmentConfidence
  | practicePaused | practiceFinished | connectionClosed | userSkipped
  deriving DecidableEq, Repr

inductive PracticeExperienceState
  | following | partiallyMatched | heardButUncertain | possibleWrongNote | listening | skipped
  deriving DecidableEq, Repr

structure PracticeDisplayAnchor where
  beat : ℚ
  eventId : String
  groupId : String
  renderNoteIds : List String
  deriving DecidableEq, Repr

/-- A decision, with the outcome that `attach_attempt_outcome` attached, if any. -/
structure AlignmentDecision where
  action : AlignmentAction
  reason : AlignmentReason
  experienceState : PracticeExperienceState
  displayAnchor : Option PracticeDisplayAnchor
  attempt : Option PracticeAttemptOutcome
  deriving DecidableEq, Repr

/-- `attach_attempt_outcome` -/
def attachAttemptOutcome (decision : AlignmentDecision) (outcome : Option PracticeAttemptOutcome) :
    AlignmentDecision :=
  match outcome with
  | none => decision
  | some outcome => { decision with attempt := some outcome }

/-- `decision["attempt_state"]`; without an attempt it raises `KeyError`. -/
def AlignmentDecision.attemptState (decision : AlignmentDecision) :
    Option AttemptLifecycleState :=
  decision.attempt.map (·.snapshot.state)

/-- An update, but for what it says of the sound. -/
structure AlignmentUpdate where
  beatPosition : ℚ
  confidence : ℚ
  timestampMs : Int
  scopeCompleted : Bool
  validationConfidence : ℚ
  inputPolicyConfidence : ℚ
  decision : AlignmentDecision
  deriving DecidableEq, Repr

structure ResolvedPracticeAttempt where
  outcome : PracticeAttemptOutcome
  action : AlignmentAction
  resolutionReason : AlignmentReason
  experienceState : PracticeExperienceState
  displayAnchor : PracticeDisplayAnchor
  measureNumbers : List String
  beatPosition : ℚ
  confidence : ℚ
  timestampMs : Int
  validationConfidence : ℚ
  inputPolicyConfidence : ℚ
  deriving DecidableEq, Repr

def ResolvedPracticeAttempt.sequence (attempt : ResolvedPracticeAttempt) : Nat :=
  attempt.outcome.snapshot.attemptSequence

def ResolvedPracticeAttempt.attemptId (attempt : ResolvedPracticeAttempt) : String :=
  attempt.outcome.snapshot.attemptId

/-- `display_anchor_for_expected_group` -/
def displayAnchorForExpectedGroup (group : ScoreTimeline.ExpectedPracticeGroup) :
    PracticeDisplayAnchor where
  beat := Rounding.round 3 group.onsetBeat
  eventId := group.eventIds.head?.getD group.groupId
  groupId := group.groupId
  renderNoteIds := group.renderNoteIds

/-- `resolved_attempt_from_outcome` -/
def resolvedAttemptFromOutcome (outcome : Option PracticeAttemptOutcome)
    (group : ScoreTimeline.ExpectedPracticeGroup) (update : AlignmentUpdate) :
    Option ResolvedPracticeAttempt :=
  match outcome with
  | none => none
  | some outcome =>
    if outcome.snapshot.state ≠ .resolved then none
    else some {
      outcome
      action := update.decision.action
      resolutionReason := update.decision.reason
      experienceState := update.decision.experienceState
      displayAnchor := displayAnchorForExpectedGroup group
      measureNumbers := group.measureNumbers
      beatPosition := (displayAnchorForExpectedGroup group).beat
      confidence := update.confidence
      timestampMs := update.timestampMs
      validationConfidence := update.validationConfidence
      inputPolicyConfidence := update.inputPolicyConfidence }

/-- `ResolvedPracticeAttemptBuffer.append_for_expected_group` -/
def appendForExpectedGroup (attempts : List ResolvedPracticeAttempt)
    (outcome : Option PracticeAttemptOutcome) (group : ScoreTimeline.ExpectedPracticeGroup)
    (update : AlignmentUpdate) : List ResolvedPracticeAttempt :=
  attempts ++ (resolvedAttemptFromOutcome outcome group update).toList

/-! ## Attempts in order -/

section

variable {uuid4 : Nat → String} {lifecycle : PracticeAttemptLifecycle}
  {attempts : List ResolvedPracticeAttempt}

/-- A snapshot that the lifecycle gave out, with the id that goes with its number. -/
structure Issued (uuid4 : Nat → String) (lifecycle : PracticeAttemptLifecycle)
    (snapshot : PracticeAttemptSnapshot) : Prop where
  positive : 0 < snapshot.attemptSequence
  lt : snapshot.attemptSequence < lifecycle.nextSequence
  attemptId : snapshot.attemptId = uuid4 (snapshot.attemptSequence - 1)

/-- Attempts of a lifecycle whose numbers were never reset. -/
structure Log (uuid4 : Nat → String) (lifecycle : PracticeAttemptLifecycle)
    (attempts : List ResolvedPracticeAttempt) : Prop where
  drawn : lifecycle.nextSequence = lifecycle.drawn + 1
  issued : ∀ attempt ∈ attempts, Issued uuid4 lifecycle attempt.outcome.snapshot
  sorted : attempts.Pairwise (·.sequence < ·.sequence)
  current : ∀ snapshot ∈ lifecycle.current, Issued uuid4 lifecycle snapshot
  pending : ∀ snapshot ∈ lifecycle.current, snapshot.state = .pending →
    ∀ attempt ∈ attempts, attempt.sequence < snapshot.attemptSequence

theorem log_initial : Log uuid4 .initial [] where
  drawn := rfl
  issued _ h := absurd h List.not_mem_nil
  sorted := .nil
  current _ h := nomatch h
  pending _ h := nomatch h

theorem Issued.mono {later : PracticeAttemptLifecycle} {snapshot : PracticeAttemptSnapshot}
    (h : Issued uuid4 lifecycle snapshot) (hle : lifecycle.nextSequence ≤ later.nextSequence) :
    Issued uuid4 later snapshot :=
  ⟨h.positive, h.lt.trans_le hle, h.attemptId⟩

theorem Log.clearCurrent (h : Log uuid4 lifecycle attempts) :
    Log uuid4 lifecycle.clearCurrent attempts where
  drawn := h.drawn
  issued attempt ha := (h.issued attempt ha).mono le_rfl
  sorted := h.sorted
  current _ hs := nomatch hs
  pending _ hs := nomatch hs

theorem Log.begin (h : Log uuid4 lifecycle attempts) (expectedGroupId : String)
    (timestampMs : Int) :
    Log uuid4 (lifecycle.begin uuid4 expectedGroupId timestampMs) attempts := by
  unfold PracticeAttemptLifecycle.begin
  split_ifs
  · exact h
  · refine ⟨by rw [h.drawn], fun attempt ha => (h.issued attempt ha).mono (Nat.le_succ _),
      h.sorted, fun snapshot hs => ?_, fun snapshot hs _ attempt ha => ?_⟩
    · obtain rfl := Option.some.inj hs
      refine ⟨?_, Nat.lt_succ_self _, ?_⟩
      · show 0 < lifecycle.nextSequence
        rw [h.drawn]
        omega
      · show uuid4 lifecycle.drawn = uuid4 (lifecycle.nextSequence - 1)
        rw [h.drawn]
        rfl
    · obtain rfl := Option.some.inj hs
      exact (h.issued attempt ha).lt

theorem isPending_iff : lifecycle.isPending = true ↔
    ∃ snapshot, lifecycle.current = some snapshot ∧ snapshot.state = .pending := by
  unfold PracticeAttemptLifecycle.isPending
  rw [Option.any_eq_true_iff_get]
  constructor
  · rintro ⟨hsome, hstate⟩
    exact ⟨_, (Option.some_get hsome).symm, of_decide_eq_true hstate⟩
  · rintro ⟨snapshot, hcurrent, hstate⟩
    simp [hcurrent, hstate]

theorem isPending_begin (expectedGroupId : String) (timestampMs : Int) :
    (lifecycle.begin uuid4 expectedGroupId timestampMs).isPending = true := by
  unfold PracticeAttemptLifecycle.begin
  split_ifs with h
  · exact h
  · rfl

/-- The attempt that is pending, once it is resolved. -/
theorem resolvedAttempt_of_pending {snapshot : PracticeAttemptSnapshot}
    (hcurrent : lifecycle.current = some snapshot) (hstate : snapshot.state = .pending)
    (timestampMs : Int) (evaluation : PracticeEventEvaluation)
    (group : ScoreTimeline.ExpectedPracticeGroup)
    (update : AlignmentUpdate) :
    (lifecycle.resolve timestampMs).current =
        some { snapshot with state := .resolved, resolvedAtMs := some timestampMs } ∧
      ∃ attempt, resolvedAttemptFromOutcome ((lifecycle.resolve timestampMs).outcome evaluation)
          group update = some attempt ∧
        attempt.outcome.snapshot =
          { snapshot with state := .resolved, resolvedAtMs := some timestampMs } ∧
        attempt.displayAnchor = displayAnchorForExpectedGroup group ∧
        attempt.outcome.evaluation = evaluation := by
  have hresolved : (lifecycle.resolve timestampMs).current =
      some { snapshot with state := .resolved, resolvedAtMs := some timestampMs } := by
    unfold PracticeAttemptLifecycle.resolve PracticeAttemptLifecycle.resolveSnapshot
    rw [hcurrent, Option.map_some, if_neg (by rw [hstate]; decide)]
  refine ⟨hresolved, ?_⟩
  unfold PracticeAttemptLifecycle.outcome
  rw [hresolved]
  exact ⟨_, rfl, rfl, rfl, rfl⟩

/-- An outcome that is pending is not kept. -/
theorem resolvedAttempt_of_not_resolved (hpending : lifecycle.isPending = true)
    (evaluation : PracticeEventEvaluation) (group : ScoreTimeline.ExpectedPracticeGroup)
    (update : AlignmentUpdate) :
    resolvedAttemptFromOutcome (lifecycle.outcome evaluation) group update = none := by
  obtain ⟨snapshot, hcurrent, hstate⟩ := isPending_iff.mp hpending
  unfold PracticeAttemptLifecycle.outcome
  rw [hcurrent]
  exact if_pos (by rw [hstate]; decide)

/-- The attempt that is pending is resolved and comes last. -/
theorem Log.resolve (h : Log uuid4 lifecycle attempts) (hpending : lifecycle.isPending = true)
    (timestampMs : Int) (evaluation : PracticeEventEvaluation)
    (group : ScoreTimeline.ExpectedPracticeGroup)
    (update : AlignmentUpdate) :
    Log uuid4 (lifecycle.resolve timestampMs)
      (appendForExpectedGroup attempts ((lifecycle.resolve timestampMs).outcome evaluation) group
        update) := by
  obtain ⟨snapshot, hcurrent, hstate⟩ := isPending_iff.mp hpending
  have hsnapshot : Issued uuid4 lifecycle snapshot := h.current snapshot hcurrent
  obtain ⟨hresolved, last, hlast, hlastSnapshot, -⟩ :=
    resolvedAttempt_of_pending hcurrent hstate timestampMs evaluation group update
  have hissued : Issued uuid4 (lifecycle.resolve timestampMs)
      { snapshot with state := .resolved, resolvedAtMs := some timestampMs } :=
    ⟨hsnapshot.positive, hsnapshot.lt, hsnapshot.attemptId⟩
  unfold appendForExpectedGroup
  rw [hlast, Option.toList_some]
  refine ⟨h.drawn, fun attempt ha => ?_, ?_, fun current hc => ?_, fun current hc hp => ?_⟩
  · rcases List.mem_append.mp ha with ha | ha
    · exact (h.issued attempt ha).mono le_rfl
    · rw [List.mem_singleton.mp ha, hlastSnapshot]
      exact hissued
  · rw [List.pairwise_append]
    refine ⟨h.sorted, List.pairwise_singleton _ _, fun attempt ha other ho => ?_⟩
    rw [List.mem_singleton.mp ho]
    have hlt := h.pending snapshot hcurrent hstate attempt ha
    unfold ResolvedPracticeAttempt.sequence at hlt ⊢
    rw [hlastSnapshot]
    exact hlt
  · rw [hresolved] at hc
    obtain rfl := Option.some.inj hc
    exact hissued
  · rw [hresolved] at hc
    obtain rfl := Option.some.inj hc
    exact nomatch hp

end

end NoteVerse.Practice.ServerSteps

import NoteVerse.Practice.Attempts
import NoteVerse.Practice.FollowPolicy

/-!
# What the policy decides

`ExpectedEventEvaluator`, and the decisions of `WaitForNoteFollowPolicy`. An
evaluation that matches and a skip pass the group that is expected; nothing else
does (`decideEvaluation_ok`, `skipCurrentGroup_ok`).
-/

namespace NoteVerse.Practice.ServerSteps

open ScoreTimeline

/-- What a call of an engine may raise. -/
inductive EngineError
  | runtimeError (message : String)
  | valueError (message : String)
  | keyError (key : String)
  deriving DecidableEq, Repr

/-- What the evaluator reads of an `EvaluatorEvidence`. -/
structure EvaluatorEvidence where
  observedPitches : List String
  confidence : ℚ
  deriving DecidableEq, Repr

/-- `ExpectedEventEvaluator.evaluate` -/
def evaluate (confidenceThreshold : ℚ) (expectedGroup : ScoreTimeline.ExpectedPracticeGroup)
    (evidence : EvaluatorEvidence) : PracticeEventEvaluation :=
  let expectedPitches := expectedGroup.pitches.eraseDups
  let observedPitches := evidence.observedPitches.eraseDups
  if expectedPitches = [] ∨ observedPitches = [] ∨ evidence.confidence < confidenceThreshold then
    ⟨expectedGroup.groupId, .uncertain, [], expectedPitches, [], evidence.confidence,
      "expected-event-v1"⟩
  else
    let matched := expectedPitches.filter observedPitches.contains
    let missing := expectedPitches.filter fun pitch => !observedPitches.contains pitch
    let extra := observedPitches.filter fun pitch => !expectedPitches.contains pitch
    let result :=
      if missing = [] ∧ extra = [] then .match
      else if matched ≠ [] ∧ extra = [] then .partialMatch
      else .mismatch
    ⟨expectedGroup.groupId, result, matched, missing, extra, evidence.confidence,
      "expected-event-v1"⟩

/-- The evaluation of a group that the user skips. -/
def skipEvaluation (expectedGroup : ScoreTimeline.ExpectedPracticeGroup) :
    PracticeEventEvaluation :=
  ⟨expectedGroup.groupId, .skipped, [], expectedGroup.pitches, [], 1, "user-skip-v1"⟩

def noRemainingGroups : EngineError :=
  .valueError "Wait For Note policy has no remaining expected groups."

end NoteVerse.Practice.ServerSteps

namespace NoteVerse.Practice.WaitForNoteFollowPolicy

open ServerSteps

variable (policy : WaitForNoteFollowPolicy)

/-- `confidence_threshold` of `WAIT_FOR_NOTE_POLICY_PROFILE` -/
def confidenceThreshold : ℚ := 3 / 4

/-- The anchor of the next group, or else of the one that was passed. -/
def anchorAfter (passed : ScoreTimeline.ExpectedPracticeGroup) : PracticeDisplayAnchor :=
  displayAnchorForExpectedGroup (policy.currentExpectedGroup.getD passed)

/-- `decide` on an update that says that the input is active and matched. -/
def decideMatched : AlignmentDecision :=
  match policy.currentExpectedGroup with
  | none => ⟨.hold, .stableMatch, .following, none, none⟩
  | some group =>
    ⟨.wait, .insufficientInput, .listening, some (displayAnchorForExpectedGroup group), none⟩

/-- `evaluate_evidence` -/
def evaluateEvidence (evidence : EvaluatorEvidence) : Except EngineError PracticeEventEvaluation :=
  match policy.currentExpectedGroup with
  | none => .error noRemainingGroups
  | some group => .ok (evaluate confidenceThreshold group evidence)

/-- `decide_evaluation` -/
def decideEvaluation (evaluation : PracticeEventEvaluation) :
    Except EngineError (WaitForNoteFollowPolicy × AlignmentDecision) :=
  match policy.currentExpectedGroup with
  | none => .error noRemainingGroups
  | some group =>
    let anchor := some (displayAnchorForExpectedGroup group)
    match evaluation.result with
    | .match =>
      .ok (policy.advance,
        ⟨.advance, .stableMatch, .following, some (policy.advance.anchorAfter group), none⟩)
    | .uncertain => .ok (policy, ⟨.wait, .lowAlignmentConfidence, .heardButUncertain, anchor, none⟩)
    | .partialMatch => .ok (policy, ⟨.wait, .partialMatch, .partiallyMatched, anchor, none⟩)
    | .mismatch => .ok (policy, ⟨.hold, .entryMismatch, .possibleWrongNote, anchor, none⟩)
    | .skipped => .ok (policy, ⟨.hold, .entryMismatch, .possibleWrongNote, anchor, none⟩)

/-- `skip_current_group` -/
def skipCurrentGroup : Except EngineError (WaitForNoteFollowPolicy × AlignmentDecision) :=
  match policy.currentExpectedGroup with
  | none => .error noRemainingGroups
  | some group =>
    .ok (policy.advance,
      ⟨.skip, .userSkipped, .skipped, some (policy.advance.anchorAfter group), none⟩)

/-! ## The place of a policy -/

/-- What `create` has made sure of, and what passing groups keeps. -/
structure Ok : Prop where
  lengths : policy.expectedGroups.length = policy.attackSteps.length
  start_le : policy.startIndexValue ≤ policy.currentIndex
  start_le_end : (policy.startIndexValue : Int) ≤ policy.endIndexValue
  end_lt : policy.endIndexValue < policy.expectedGroups.length
  le_end : (policy.currentIndex : Int) ≤ policy.endIndexValue + 1

/-- The last group of the scope has been passed. -/
def Completed : Prop := policy.endIndexValue < policy.currentIndex

variable {policy}

theorem Ok.currentExpectedGroup_eq_none_iff (h : policy.Ok) :
    policy.currentExpectedGroup = none ↔ policy.Completed := by
  have hend := h.end_lt
  unfold currentExpectedGroup Completed
  split_ifs with hpassed
  · exact ⟨fun _ => hpassed, fun _ => rfl⟩
  · rw [List.getElem?_eq_none_iff]
    omega

/-- The group and the step that are expected have one index. -/
theorem Ok.current_pair (h : policy.Ok) :
    (policy.currentExpectedGroup = none ∧ policy.currentAttackStep = none) ∨
      ∃ group step, policy.currentExpectedGroup = some group ∧
        policy.currentAttackStep = some step ∧
        policy.expectedGroups[policy.currentIndex]? = some group ∧
        policy.attackSteps[policy.currentIndex]? = some step := by
  have hend := h.end_lt
  have hlengths := h.lengths
  unfold currentExpectedGroup currentAttackStep
  split_ifs with hpassed
  · exact .inl ⟨rfl, rfl⟩
  · have hgroup : policy.currentIndex < policy.expectedGroups.length := by omega
    have hstep : policy.currentIndex < policy.attackSteps.length := by omega
    rw [List.getElem?_eq_getElem hgroup, List.getElem?_eq_getElem hstep]
    exact .inr ⟨_, _, rfl, rfl, rfl, rfl⟩

theorem Ok.advance (h : policy.Ok) (hcurrent : policy.currentExpectedGroup ≠ none) :
    policy.advance.Ok := by
  have hopen : ¬policy.Completed := fun hc => hcurrent (h.currentExpectedGroup_eq_none_iff.mpr hc)
  have hstart := h.start_le
  unfold Completed at hopen
  refine ⟨h.lengths, ?_, h.start_le_end, h.end_lt, ?_⟩
  · show policy.startIndexValue ≤ policy.currentIndex + 1
    omega
  · show ((policy.currentIndex + 1 : Nat) : Int) ≤ policy.endIndexValue + 1
    omega

theorem Ok.reset (h : policy.Ok) : policy.reset.Ok := by
  have hstart := h.start_le_end
  refine ⟨h.lengths, le_rfl, h.start_le_end, h.end_lt, ?_⟩
  show (policy.startIndexValue : Int) ≤ policy.endIndexValue + 1
  omega

variable {groups : List ScoreTimeline.ExpectedPracticeGroup}

theorem groupIndex_lt {id : String} {index : Nat} (h : groupIndex groups id = .ok index) :
    index < groups.length := by
  unfold groupIndex at h
  split at h
  · rename_i found hfound
    obtain rfl := Except.ok.inj h
    exact (List.findIdx?_eq_some_iff_findIdx_eq.mp hfound).1
  · exact nomatch h

/-- The last index of a scope is one of its groups', or there are none. -/
theorem endIndex_lt {id : Option String} {index : Int} (h : endIndex groups id = .ok index) :
    index < groups.length := by
  unfold endIndex at h
  cases id with
  | none =>
    obtain rfl := Except.ok.inj h
    omega
  | some id =>
    obtain ⟨found, hfound, rfl⟩ := Python.map_eq_ok.mp h
    exact Int.ofNat_lt.mpr (groupIndex_lt hfound)

theorem length_eq_of_validated {steps : List ScoreTimeline.PracticeAttackStep}
    (h : validateAttackStepPairing groups steps = .ok ()) : groups.length = steps.length := by
  unfold validateAttackStepPairing at h
  split_ifs at h with hlength
  exact not_not.mp hlength

/-- A policy that was created stands at the start of its scope. -/
theorem create_ok {sha1 : String → String} {timeline : ScoreTimeline.PracticeScoreTimeline}
    {startId endId : Option String} (h : create sha1 timeline startId endId = .ok policy) :
    policy.Ok ∧ policy.currentIndex = policy.startIndexValue := by
  obtain ⟨groups, -, h⟩ := Python.bind_eq_ok.mp h
  obtain ⟨steps, -, h⟩ := Python.bind_eq_ok.mp h
  obtain ⟨_, hvalid, h⟩ := Python.bind_eq_ok.mp h
  obtain ⟨first, -, h⟩ := Python.bind_eq_ok.mp h
  obtain ⟨last, hlast, h⟩ := Python.bind_eq_ok.mp h
  split_ifs at h with horder
  obtain rfl := Except.ok.inj h
  refine ⟨⟨length_eq_of_validated hvalid, le_rfl, not_lt.mp horder, endIndex_lt hlast, ?_⟩, rfl⟩
  have hle := not_lt.mp horder
  show (first : Int) ≤ last + 1
  omega

/-- A decision passes the group exactly if the evaluation matches. -/
theorem decideEvaluation_ok {group : ScoreTimeline.ExpectedPracticeGroup}
    (h : policy.currentExpectedGroup = some group) (evaluation : PracticeEventEvaluation) :
    ∃ decision, policy.decideEvaluation evaluation =
        .ok (if evaluation.result = .match then policy.advance else policy, decision) ∧
      (decision.action = .advance ↔ evaluation.result = .match) ∧ decision.attempt = none := by
  unfold decideEvaluation
  rw [h]
  cases hresult : evaluation.result
  all_goals exact ⟨_, rfl, by simp, rfl⟩

theorem skipCurrentGroup_ok {group : ScoreTimeline.ExpectedPracticeGroup}
    (h : policy.currentExpectedGroup = some group) :
    ∃ decision, policy.skipCurrentGroup = .ok (policy.advance, decision) ∧
      decision.action = .skip := by
  unfold skipCurrentGroup
  rw [h]
  exact ⟨_, rfl, rfl⟩

end NoteVerse.Practice.WaitForNoteFollowPolicy

namespace NoteVerse.Practice.ServerSteps

open ScoreTimeline Js

/-! ## Attempts at the group that is expected -/

section

variable {uuid4 : Nat → String}

/-- The attempt that is open is one at the group that is expected. -/
def OpenAt (policy : WaitForNoteFollowPolicy) (attempts : PracticeAttemptLifecycle) : Prop :=
  ∀ snapshot ∈ attempts.current, snapshot.state = .pending →
    ∃ group, policy.currentExpectedGroup = some group ∧ snapshot.expectedGroupId = group.groupId

/-- An attempt that is recorded is one of the group that was expected. -/
def RecordedAt (policy : WaitForNoteFollowPolicy) (attempt : ResolvedPracticeAttempt) : Prop :=
  ∃ group, policy.currentExpectedGroup = some group ∧
    attempt.displayAnchor.groupId = group.groupId ∧
    attempt.outcome.snapshot.expectedGroupId = group.groupId ∧
    attempt.outcome.snapshot.state = .resolved

theorem append_appendForExpectedGroup (recorded attempts : List ResolvedPracticeAttempt)
    (outcome : Option PracticeAttemptOutcome) (group : ScoreTimeline.ExpectedPracticeGroup)
    (update : AlignmentUpdate) :
    recorded ++ appendForExpectedGroup attempts outcome group update =
      appendForExpectedGroup (recorded ++ attempts) outcome group update :=
  (List.append_assoc _ _ _).symm

theorem OpenAt.clearCurrent (policy : WaitForNoteFollowPolicy)
    (attempts : PracticeAttemptLifecycle) : OpenAt policy attempts.clearCurrent :=
  fun _ hs => nomatch hs

theorem OpenAt.resolve (policy : WaitForNoteFollowPolicy) (attempts : PracticeAttemptLifecycle)
    (timestampMs : Int) : OpenAt policy (attempts.resolve timestampMs) := by
  intro snapshot hs hstate
  obtain ⟨before, -, rfl⟩ := Option.map_eq_some_iff.mp hs
  unfold PracticeAttemptLifecycle.resolveSnapshot at hstate
  split_ifs at hstate with hresolved
  exact absurd (hresolved.symm.trans hstate) (by decide)

variable {attempts : PracticeAttemptLifecycle}

theorem OpenAt.begin {policy : WaitForNoteFollowPolicy} (h : OpenAt policy attempts)
    {group : ScoreTimeline.ExpectedPracticeGroup}
    (hgroup : policy.currentExpectedGroup = some group)
    (timestampMs : Int) : OpenAt policy (attempts.begin uuid4 group.groupId timestampMs) := by
  unfold PracticeAttemptLifecycle.begin
  split_ifs
  · exact h
  · intro snapshot hs _
    obtain rfl := Option.some.inj hs
    exact ⟨group, hgroup, rfl⟩

/-- What was resolved is recorded, at the group that is expected. -/
theorem recordedAt_of_resolve {policy : WaitForNoteFollowPolicy}
    (hpending : attempts.isPending = true) (hopen : OpenAt policy attempts)
    {group : ScoreTimeline.ExpectedPracticeGroup}
    (hgroup : policy.currentExpectedGroup = some group)
    (timestampMs : Int) (evaluation : PracticeEventEvaluation) (update : AlignmentUpdate) :
    ∃ attempt, resolvedAttemptFromOutcome ((attempts.resolve timestampMs).outcome evaluation)
      group update = some attempt ∧ RecordedAt policy attempt := by
  obtain ⟨snapshot, hcurrent, hstate⟩ := isPending_iff.mp hpending
  obtain ⟨-, attempt, hattempt, hsnapshot, hanchor, -⟩ :=
    resolvedAttempt_of_pending hcurrent hstate timestampMs evaluation group update
  obtain ⟨group', hgroup', hid⟩ := hopen snapshot hcurrent hstate
  obtain rfl := Option.some.inj (hgroup.symm.trans hgroup')
  refine ⟨attempt, hattempt, group, hgroup, ?_, ?_, ?_⟩
  · rw [hanchor]
    rfl
  · rw [hsnapshot]
    exact hid
  · rw [hsnapshot]

/-- The outcome of an attempt that is pending, resolved or not. -/
theorem outcome_of_pending (hpending : attempts.isPending = true)
    (evaluation : PracticeEventEvaluation) (timestampMs : Int) :
    (∃ outcome, attempts.outcome evaluation = some outcome ∧
      outcome.snapshot.state = .pending) ∧
    ∃ outcome, (attempts.resolve timestampMs).outcome evaluation = some outcome ∧
      outcome.snapshot.state = .resolved := by
  obtain ⟨snapshot, hcurrent, hstate⟩ := isPending_iff.mp hpending
  unfold PracticeAttemptLifecycle.outcome PracticeAttemptLifecycle.resolve
  rw [hcurrent]
  refine ⟨⟨_, rfl, hstate⟩, _, rfl, ?_⟩
  unfold PracticeAttemptLifecycle.resolveSnapshot
  rw [if_neg (by rw [hstate]; decide)]

end

/-! ## A scope of two groups -/

/-- An event of one note that is struck. -/
def noteEvent (eventId pitch : String) (onsetBeat : ℚ) : PracticeScoreEvent :=
  ⟨eventId, onsetBeat, 1, [pitch], [eventId], ["1"], ["1"], ["1"], [], true, true⟩

/-- Middle C, and then D. -/
def twoNotes : PracticeScoreTimeline where
  events := [noteEvent "n1" "C4" 0, noteEvent "n2" "D4" 1]
  entryGroups := [⟨"g1", 0, ["n1"], ["n1"], true⟩, ⟨"g2", 1, ["n2"], ["n2"], true⟩]
  firstPlayableEventId := some "n1"
  firstPlayableBeat := some 0
  endBeat := 2

theorem attackStepAt_single (sha1 : String → String) (eventId pitch : String) (onsetBeat : ℚ) :
    attackStepAt sha1 onsetBeat [noteEvent eventId pitch onsetBeat] =
      .ok (some (attackStep sha1 onsetBeat [noteEvent eventId pitch onsetBeat]
        [stepNote (noteEvent eventId pitch onsetBeat) (pitch, eventId)] [])) := by
  unfold attackStepAt
  rw [List.mergeSort_singleton]
  rfl

/-- The steps of the two notes. -/
def twoSteps (sha1 : String → String) : List ScoreTimeline.PracticeAttackStep :=
  [attackStep sha1 0 [noteEvent "n1" "C4" 0] [stepNote (noteEvent "n1" "C4" 0) ("C4", "n1")] [],
    attackStep sha1 1 [noteEvent "n2" "D4" 1] [stepNote (noteEvent "n2" "D4" 1) ("D4", "n2")] []]

theorem practiceAttackSteps_twoNotes (sha1 : String → String) :
    twoNotes.practiceAttackSteps sha1 = .ok (twoSteps sha1) := by
  have honsets : sortedOnsets (JsMap.groupBy PracticeScoreEvent.onsetBeat twoNotes.events) =
      [0, 1] := by
    have hkeys : (JsMap.groupBy PracticeScoreEvent.onsetBeat twoNotes.events).keys = [0, 1] := by
      decide
    unfold sortedOnsets
    rw [hkeys]
    exact List.mergeSort_of_pairwise (by decide)
  have hfirst : ((JsMap.groupBy PracticeScoreEvent.onsetBeat twoNotes.events).get 0).getD [] =
      [noteEvent "n1" "C4" 0] := by decide
  have hsecond : ((JsMap.groupBy PracticeScoreEvent.onsetBeat twoNotes.events).get 1).getD [] =
      [noteEvent "n2" "D4" 1] := by decide
  unfold PracticeScoreTimeline.practiceAttackSteps buildPracticeAttackSteps
  dsimp only
  rw [honsets]
  simp only [List.mapM_cons, List.mapM_nil, hfirst, hsecond, attackStepAt_single]
  rfl

theorem create_twoNotes : ∃ policy,
    WaitForNoteFollowPolicy.create (fun _ => "0") twoNotes none none = .ok policy := by
  unfold WaitForNoteFollowPolicy.create
  rw [practiceAttackSteps_twoNotes]
  exact ⟨_, rfl⟩

end NoteVerse.Practice.ServerSteps

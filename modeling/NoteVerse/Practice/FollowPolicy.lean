import NoteVerse.Practice.ScoreTimeline

/-!
# The policy that waits for a note

`WaitForNoteFollowPolicy` of `follow_policy.py`: the checks that it makes of a
timeline and of the bounds of a scope, and the group that it expects. What it tells
the display is left out.
-/

namespace NoteVerse.Practice

open ScoreTimeline

structure WaitForNoteFollowPolicy where
  expectedGroups : List ScoreTimeline.ExpectedPracticeGroup
  attackSteps : List ScoreTimeline.PracticeAttackStep
  startIndexValue : Nat
  /-- Minus one if there are no groups and no bound is given. -/
  endIndexValue : Int
  currentIndex : Nat
  deriving DecidableEq, Repr

namespace WaitForNoteFollowPolicy

/-- A list of the names of pitches, which have no quotes, as it is printed. -/
def pitchesText (pitches : List String) : String :=
  "[" ++ ", ".intercalate ((pitches.eraseDups.mergeSort (· ≤ ·)).map fun p => "'" ++ p ++ "'") ++ "]"

/-- Whether two sets, given as lists, are the same. -/
def sameSet (xs ys : List String) : Bool := xs.all ys.contains && ys.all xs.contains

/-- The checks of a group and its step. -/
def validatePair (group : ScoreTimeline.ExpectedPracticeGroup)
    (step : ScoreTimeline.PracticeAttackStep) : Except String Unit :=
  let groupPitches := group.pitches
  let attackPitches := step.attackTargets.map (·.pitch)
  if group.onsetBeat ≠ step.onsetBeat then
    .error <| "Expected practice group and practice attack step onset mismatch: " ++
      s!"group_id={group.groupId} group_onset={Python.floatStr group.onsetBeat} " ++
      s!"step_id={step.stepId} step_onset={Python.floatStr step.onsetBeat}"
  else if sameSet groupPitches attackPitches = false then
    .error <| "Expected practice group pitches and practice attack target pitches mismatch: " ++
      s!"group_id={group.groupId} expected={pitchesText groupPitches} " ++
      s!"actual={pitchesText attackPitches}"
  else .ok ()

/-- `_validate_attack_step_pairing` -/
def validateAttackStepPairing (expectedGroups : List ScoreTimeline.ExpectedPracticeGroup)
    (attackSteps : List ScoreTimeline.PracticeAttackStep) : Except String Unit :=
  if expectedGroups.length ≠ attackSteps.length then
    .error "Expected practice groups and practice attack steps must have the same length."
  else (expectedGroups.zip attackSteps).forM fun pair => validatePair pair.1 pair.2

/-- `_group_index` -/
def groupIndex (expectedGroups : List ScoreTimeline.ExpectedPracticeGroup)
    (expectedGroupId : String) : Except String Nat :=
  match expectedGroups.findIdx? (·.groupId = expectedGroupId) with
  | some index => .ok index
  | none => .error s!"Unknown scoped practice start expected group: {expectedGroupId}"

/-- `_start_index` -/
def startIndex (expectedGroups : List ScoreTimeline.ExpectedPracticeGroup)
    (expectedGroupId : Option String) : Except String Nat :=
  match expectedGroupId with
  | none => .ok 0
  | some expectedGroupId => groupIndex expectedGroups expectedGroupId

/-- `_end_index` -/
def endIndex (expectedGroups : List ScoreTimeline.ExpectedPracticeGroup)
    (expectedGroupId : Option String) : Except String Int :=
  match expectedGroupId with
  | none => .ok (expectedGroups.length - 1)
  | some expectedGroupId => (groupIndex expectedGroups expectedGroupId).map Int.ofNat

/-- The policy of a timeline and the bounds of a scope. -/
def create (sha1 : String → String) (scoreTimeline : PracticeScoreTimeline)
    (startExpectedGroupId endExpectedGroupId : Option String) :
    Except String WaitForNoteFollowPolicy := do
  let expectedGroups ← scoreTimeline.expectedPracticeGroups
  let attackSteps ← scoreTimeline.practiceAttackSteps sha1
  validateAttackStepPairing expectedGroups attackSteps
  let startIndexValue ← startIndex expectedGroups startExpectedGroupId
  let endIndexValue ← endIndex expectedGroups endExpectedGroupId
  if endIndexValue < startIndexValue then
    .error "Scoped practice end target must not be before the start target."
  else
    return { expectedGroups, attackSteps, startIndexValue, endIndexValue
             currentIndex := startIndexValue }

variable (policy : WaitForNoteFollowPolicy)

/-- `current_expected_group` -/
def currentExpectedGroup : Option ScoreTimeline.ExpectedPracticeGroup :=
  if policy.endIndexValue < policy.currentIndex then none
  else policy.expectedGroups[policy.currentIndex]?

/-- `current_attack_step` -/
def currentAttackStep : Option ScoreTimeline.PracticeAttackStep :=
  if policy.endIndexValue < policy.currentIndex then none
  else policy.attackSteps[policy.currentIndex]?

/-- What `decide_evaluation` and `skip_current_group` do to the index. -/
def advance : WaitForNoteFollowPolicy := { policy with currentIndex := policy.currentIndex + 1 }

/-- `reset` -/
def reset : WaitForNoteFollowPolicy := { policy with currentIndex := policy.startIndexValue }

/-! ## Pairs that are accepted -/

variable {policy} {group : ScoreTimeline.ExpectedPracticeGroup}
  {step : ScoreTimeline.PracticeAttackStep}
  {groups : List ScoreTimeline.ExpectedPracticeGroup}
  {steps : List ScoreTimeline.PracticeAttackStep}

theorem sameSet_eq_true {xs ys : List String} (h : ∀ x, x ∈ xs ↔ x ∈ ys) :
    sameSet xs ys = true := by
  unfold sameSet
  simp only [Bool.and_eq_true, List.all_eq_true, List.contains_eq_mem, decide_eq_true_eq]
  exact ⟨fun x hx => (h x).mp hx, fun x hx => (h x).mpr hx⟩

theorem validatePair_ok (honset : group.onsetBeat = step.onsetBeat)
    (hpitches : ∀ pitch, pitch ∈ group.pitches ↔ pitch ∈ step.attackTargets.map (·.pitch)) :
    validatePair group step = .ok () := by
  unfold validatePair
  rw [if_neg (not_not.mpr honset), if_neg (by rw [sameSet_eq_true hpitches]; decide)]

theorem forM_zip_ok (h : List.Forall₂ (fun group step => validatePair group step = .ok ())
    groups steps) : (groups.zip steps).forM (fun pair => validatePair pair.1 pair.2) = .ok () := by
  induction h with
  | nil => rfl
  | @cons group step groups steps hpair _ ih =>
    show (validatePair group step >>= fun _ => (groups.zip steps).forM _) = _
    rw [hpair]
    exact ih

theorem validateAttackStepPairing_ok
    (h : List.Forall₂ (fun group step => validatePair group step = .ok ()) groups steps) :
    validateAttackStepPairing groups steps = .ok () := by
  unfold validateAttackStepPairing
  rw [if_neg (not_not.mpr h.length_eq)]
  exact forM_zip_ok h

end WaitForNoteFollowPolicy

end NoteVerse.Practice

import NoteVerse.Lib.JsNumber

/-!
# The practice artifact of the browser

The parts of `PracticeScoreArtifact` in `local-core/artifact.ts` that its checks
and the runtimes read, with the checks and the scopes.
-/

namespace NoteVerse.Practice

open Js

/-- `roundBeat` -/
def roundBeatJs (value : ℚ) : ℚ := (⌊value * 1000000 + 1 / 2⌋ : ℚ) / 1000000

structure ExpectedPracticeGroup where
  groupId : String
  onsetBeat : ℚ
  pitches : List String
  /-- The pitches of its strike targets. -/
  strikeTargets : List String
  canonicalEndBeat : ℚ
  deriving DecidableEq, Repr

structure PracticeAttackStep where
  stepId : String
  onsetBeat : ℚ
  /-- The pitches of its attack targets. -/
  attackTargets : List String
  /-- The pitches of its continuation. -/
  continuation : List String
  deriving DecidableEq, Repr

structure PracticeScoreArtifact where
  schemaVersion : Nat
  scoreId : String
  revisionId : String
  artifactId : String
  expectedPracticeGroups : List ExpectedPracticeGroup
  practiceAttackSteps : List PracticeAttackStep
  scoreEndBeat : ℚ
  deriving DecidableEq, Repr

structure PracticeScope where
  startGroupId : Option String
  endGroupId : Option String
  deriving DecidableEq, Repr

structure ResolvedPracticeScope where
  startIndex : Nat
  endIndex : Nat
  startBeat : ℚ
  terminalBeat : ℚ
  startGroupId : Option String
  endGroupId : Option String
  deriving DecidableEq, Repr

/-- `uniqueSorted`, and `normalizePitchSet` of `evidence.ts`. -/
def uniqueSorted (values : List String) : List String := sortStrings values.eraseDups

/-- `uniqueSorted(values).join('\u001f')` -/
def joinedSet (values : List String) : String := "\u001f".intercalate (uniqueSorted values)

def attackPitchesForStep (step : PracticeAttackStep) : List String := step.attackTargets

def continuationPitchesForStep (step : PracticeAttackStep) : List String :=
  step.continuation.eraseDups

namespace PracticeScoreArtifact

/-- The checks of the step and the group at an index. -/
def assertPair (step : PracticeAttackStep) (group : ExpectedPracticeGroup) (index : Nat) :
    Throws Unit :=
  if roundBeatJs step.onsetBeat ≠ roundBeatJs group.onsetBeat then
    .error s!"PracticeScoreArtifact step/group onset mismatch at index {index}."
  else if joinedSet group.pitches ≠ joinedSet step.attackTargets then
    .error s!"PracticeScoreArtifact step/group attack pitch mismatch at index {index}."
  else if joinedSet group.pitches ≠ joinedSet group.strikeTargets then
    .error s!"PracticeScoreArtifact group strike target mismatch at index {index}."
  else if roundBeatJs group.canonicalEndBeat < roundBeatJs group.onsetBeat then
    .error s!"PracticeScoreArtifact group canonical end precedes onset at index {index}."
  else .ok ()

def assertPairs : List PracticeAttackStep → List ExpectedPracticeGroup → Nat → Throws Unit
  | step :: steps, group :: groups, index => do
    assertPair step group index
    assertPairs steps groups (index + 1)
  | _, _, _ => .ok ()

/-- `assertPracticeScoreArtifact` -/
def assertOk (artifact : PracticeScoreArtifact) : Throws Unit :=
  if artifact.schemaVersion ≠ 1 then
    .error s!"Unsupported PracticeScoreArtifact schema: {artifact.schemaVersion}"
  else if artifact.scoreId = "" ∨ artifact.revisionId = "" ∨ artifact.artifactId = "" then
    .error "PracticeScoreArtifact requires stable score, revision, and artifact identity."
  else if artifact.practiceAttackSteps.length ≠ artifact.expectedPracticeGroups.length then
    .error "PracticeScoreArtifact requires 1:1 attack steps and expected groups."
  else assertPairs artifact.practiceAttackSteps artifact.expectedPracticeGroups 0

variable (artifact : PracticeScoreArtifact)

def groupIndex (groupId : String) : Throws Nat :=
  match artifact.expectedPracticeGroups.findIdx? (·.groupId = groupId) with
  | none => .error s!"Practice scope target not found: {groupId}"
  | some index => .ok index

def entryGroupEndBeat (groupId : String) : Throws ℚ :=
  match artifact.expectedPracticeGroups.find? (·.groupId = groupId) with
  | none => .error s!"Practice scope target not found: {groupId}"
  | some group => .ok (roundBeatJs group.canonicalEndBeat)

/-- The index that a bound of a scope names; the default if it names none. -/
def boundIndex (groupId : Option String) (default : Nat) : Throws Nat :=
  match groupId with
  | none => .ok default
  | some id => if id = "" then .ok default else artifact.groupIndex id

/-- The `terminalBeat` of a scope. -/
def terminalBeat (scope : PracticeScope) (endGroup : ExpectedPracticeGroup) : Throws ℚ :=
  if truthy scope.endGroupId then artifact.entryGroupEndBeat endGroup.groupId
  else .ok artifact.scoreEndBeat

/-- `resolvePracticeScope` -/
def resolvePracticeScope (scope : PracticeScope) : Throws ResolvedPracticeScope := do
  artifact.assertOk
  if artifact.expectedPracticeGroups.length = 0 then
    .error "Practice scope requires at least one expected group."
  else do
    let startIndex ← artifact.boundIndex scope.startGroupId 0
    let endIndex ← artifact.boundIndex scope.endGroupId (artifact.expectedPracticeGroups.length - 1)
    if endIndex < startIndex then .error "Practice scope end must not be before its start."
    else
      match artifact.expectedPracticeGroups[startIndex]?,
        artifact.expectedPracticeGroups[endIndex]? with
      | some startGroup, some endGroup => do
        let terminalBeat ← artifact.terminalBeat scope endGroup
        return {
          startIndex, endIndex, terminalBeat
          startBeat := startGroup.onsetBeat
          startGroupId := scope.startGroupId
          endGroupId := scope.endGroupId }
      | _, _ => .error "Cannot read properties of undefined (reading 'onsetBeat')"

end PracticeScoreArtifact

end NoteVerse.Practice

import NoteVerse.Practice.Artifact
import NoteVerse.Practice.ScoreTimeline

/-!
# The practice artifact of a timeline

`practice_score_artifact_from_timeline` of `practice_score_artifact.py`, as far as
the checks of the browser read it. The digest of its id is a parameter.
-/

namespace NoteVerse.Practice.ScoreTimeline

/-- A group in the artifact. To `roundBeat` of the browser `null` is zero. -/
def browserGroup (timeline : PracticeScoreTimeline) (group : ExpectedPracticeGroup) :
    Practice.ExpectedPracticeGroup where
  groupId := group.groupId
  onsetBeat := group.onsetBeat
  pitches := group.pitches
  strikeTargets := group.strikeTargets.map (·.pitch)
  canonicalEndBeat := (timeline.entryGroupEndBeat group.groupId).getD 0

/-- A step in the artifact. -/
def browserStep (step : PracticeAttackStep) : Practice.PracticeAttackStep where
  stepId := step.stepId
  onsetBeat := step.onsetBeat
  attackTargets := step.attackTargets.map (·.pitch)
  continuation := step.continuation.map (·.pitch)

/-- `practice_score_artifact_from_timeline` -/
def practiceScoreArtifactFromTimeline (sha1 : String → String) (timeline : PracticeScoreTimeline)
    (scoreId revisionId digest : String) : Except String PracticeScoreArtifact := do
  let groups ← timeline.expectedPracticeGroups
  let steps ← timeline.practiceAttackSteps sha1
  return {
    schemaVersion := 1
    scoreId
    revisionId
    artifactId := "practice-score-artifact-v1:" ++ digest
    expectedPracticeGroups := groups.map (browserGroup timeline)
    practiceAttackSteps := steps.map browserStep
    scoreEndBeat := timeline.endBeat }

end NoteVerse.Practice.ScoreTimeline

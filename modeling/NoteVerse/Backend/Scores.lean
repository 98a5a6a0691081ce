import NoteVerse.Lib.Table

/-!
# Scores and their revisions

The rows of `db/models/score.py` and the lookups of `scores/repository.py`.
A score points to its head revision; each revision names the one it replaced
and has its document as a source in the object storage.

Times and the columns of the deletion are left out: nothing here reads them.
-/

namespace NoteVerse.Backend

open Table

abbrev ScoreId := Nat
abbrev RevisionId := Nat
abbrev ImportJobId := Nat

inductive ScoreDeletionStatus
  | active | deleting | deleted
  deriving DecidableEq, Repr

inductive RevisionOrigin
  | omr | edit | imported
  deriving DecidableEq, Repr

inductive RevisionSourceFormat
  | musicxml
  deriving DecidableEq, Repr

structure Score where
  id : ScoreId
  scoreUuid : String
  ownerUserId : Int
  title : String
  headRevisionId : Option RevisionId
  originatingJobId : Option ImportJobId
  version : Nat
  deletionStatus : ScoreDeletionStatus
  deriving DecidableEq, Repr

structure ScoreRevision where
  id : RevisionId
  revisionUuid : String
  scoreId : ScoreId
  revisionNumber : Nat
  parentRevisionId : Option RevisionId
  baseRevisionId : Option RevisionId
  contentHash : String
  idempotencyKey : Option String
  origin : RevisionOrigin
  createdByUserId : Option Int
  createdByJobId : Option ImportJobId
  deriving DecidableEq, Repr

structure ScoreRevisionSource where
  sourceUuid : String
  revisionId : RevisionId
  format : RevisionSourceFormat
  storageKey : String
  mimeType : String
  sizeBytes : Nat
  sha256 : String
  generator : String
  generatorVersion : String
  deriving DecidableEq, Repr

/-- The unique constraints of `score_revisions`: the uuid, and for one score
the number and the idempotency key, if there is one. -/
def ScoreRevision.Clashes (revision row : ScoreRevision) : Prop :=
  row.revisionUuid = revision.revisionUuid ∨
    row.scoreId = revision.scoreId ∧ (row.revisionNumber = revision.revisionNumber ∨
      revision.idempotencyKey.isSome ∧ row.idempotencyKey = revision.idempotencyKey)

instance (revision row : ScoreRevision) : Decidable (revision.Clashes row) :=
  inferInstanceAs (Decidable (_ ∨ _))

/-- The unique constraints of `scores`: the uuid and the originating job. -/
def Score.Clashes (score row : Score) : Prop :=
  row.scoreUuid = score.scoreUuid ∨
    score.originatingJobId.isSome ∧ row.originatingJobId = score.originatingJobId

instance (score row : Score) : Decidable (score.Clashes row) :=
  inferInstanceAs (Decidable (_ ∨ _))

/-- The tables. The next ids are those that the sequences give. -/
structure ScoreTables where
  scores : List Score
  revisions : List ScoreRevision
  sources : List ScoreRevisionSource
  nextScoreId : ScoreId
  nextRevisionId : RevisionId
  deriving DecidableEq, Repr

namespace ScoreTables

variable (tables : ScoreTables)

/-- `repository.get`: the score of a uuid, if it is active. -/
def activeScore (scoreUuid : String) : Option Score :=
  tables.scores.find? fun score =>
    score.scoreUuid = scoreUuid ∧ score.deletionStatus = .active

/-- `db.get(ScoreRevision, revision_id)` -/
def revisionById (revisionId : RevisionId) : Option ScoreRevision :=
  find ScoreRevision.id revisionId tables.revisions

/-- `repository.revision` -/
def revision (revisionUuid : String) : Option ScoreRevision :=
  find ScoreRevision.revisionUuid revisionUuid tables.revisions

/-- The revision that a score points to. -/
def head (score : Score) : Option ScoreRevision :=
  score.headRevisionId.bind tables.revisionById

/-- The revisions of a score, oldest row first. -/
def revisionsOf (scoreId : ScoreId) : List ScoreRevision :=
  tables.revisions.filter (·.scoreId = scoreId)

/-- `asset_repository.canonical_source` -/
def canonicalSource (revisionId : RevisionId) : Option ScoreRevisionSource :=
  tables.sources.find? fun source =>
    source.revisionId = revisionId ∧ source.format = .musicxml

/-- The flush of a new revision, which checks the constraints. -/
def addRevision (revision : ScoreRevision) : Option ScoreTables :=
  if ∃ row ∈ tables.revisions, revision.Clashes row then none
  else some { tables with
    revisions := tables.revisions ++ [revision]
    nextRevisionId := tables.nextRevisionId + 1 }

/-- The flush of a new score, which checks the constraints. -/
def addScore (score : Score) : Option ScoreTables :=
  if ∃ row ∈ tables.scores, score.Clashes row then none
  else some { tables with
    scores := tables.scores ++ [score]
    nextScoreId := tables.nextScoreId + 1 }

def addSource (source : ScoreRevisionSource) : ScoreTables :=
  { tables with sources := tables.sources ++ [source] }

/-- The changed columns of a score, written under its id. -/
def saveScore (scoreId : ScoreId) (f : Score → Score) : ScoreTables :=
  { tables with scores := update Score.id scoreId f tables.scores }

end ScoreTables

end NoteVerse.Backend

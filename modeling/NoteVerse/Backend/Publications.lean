import NoteVerse.Backend.Revisions
import NoteVerse.Backend.ScoreAssets

/-!
# Publications

`publications/service.py`. A publication points to the revision that was
published; `publish`, `getForScore` and `unpublish` answer with that one.
`publicDetail` answers with the revision that the access policy selects for the
viewer.

`PublicationAction` is what the requests of users and the workers do to the
tables: revisions are made by the transaction of `revisions/service.py`. The
times and the publisher of a publication are left out, since they are only
copied.
-/

namespace NoteVerse.Backend

open Table Transition

/-- What the service calls of other libraries: the hash of a share token, and
`str.lower`. -/
structure PublicationService where
  sha256 : String → String
  lower : String → String

structure PublicationUpsertRequest where
  revisionId : Option String
  publicSlug : Option String
  allowDownload : Bool
  allowPractice : Bool
  deriving DecidableEq, Repr

structure PublicationRead where
  publicSlug : String
  scoreId : String
  revisionId : String
  status : PublicationStatus
  allowDownload : Bool
  allowPractice : Bool
  deriving DecidableEq, Repr

structure ScoreTaxonomyTagRead where
  category : String
  code : String
  source : String
  confidence : Option ℚ
  deriving DecidableEq, Repr

structure MetadataRead where
  revisionId : String
  projection : MetadataProjection
  deriving DecidableEq, Repr

structure PublicScoreRead where
  publication : PublicationRead
  title : String
  taxonomyTags : List ScoreTaxonomyTagRead
  metadata : Option MetadataRead
  derivedAssets : ScoreDerivedAssetsRead
  revisionAssets : ScoreRevisionAssetsRead
  capabilities : ScoreCapabilities
  deriving DecidableEq, Repr

inductive PublicationError
  | access (error : AccessError)
  /-- A constraint is violated, such as that on the slugs. -/
  | rolledBack
  deriving DecidableEq, Repr

/-- `_read` -/
def ScorePublication.read (publication : ScorePublication) (score : Score)
    (revisionUuid : String) : PublicationRead where
  publicSlug := publication.publicSlug
  scoreId := score.scoreUuid
  revisionId := revisionUuid
  status := publication.status
  allowDownload := publication.allowDownload
  allowPractice := publication.allowPractice

/-- `MetadataProjectionService.to_read` -/
def ScoreRevisionMetadata.toRead (revision : ScoreRevision) (metadata : ScoreRevisionMetadata) :
    MetadataRead where
  revisionId := revision.revisionUuid
  projection := metadata.projection

def ScoreTaxonomyTag.toRead (tag : ScoreTaxonomyTag) : ScoreTaxonomyTagRead where
  category := tag.category
  code := tag.code
  source := tag.source
  confidence := tag.confidence

namespace AssetTables

variable (tables : AssetTables)

/-- `repository.by_score` -/
def publicationByScore (scoreId : ScoreId) : Option ScorePublication :=
  find ScorePublication.scoreId scoreId tables.access.publications

/-- `repository.by_slug` -/
def publicationBySlug (slug : String) : Option ScorePublication :=
  find ScorePublication.publicSlug slug tables.access.publications

def withPublications (publications : List ScorePublication) : AssetTables :=
  { tables with access := { tables.access with publications } }

/-- The flush of publications, which checks the constraints: no slug is there
twice, and what is published is a revision of the score. -/
def savePublications (publications : List ScorePublication) : Option AssetTables :=
  if (publications.map (·.publicSlug)).Nodup ∧ ∀ publication ∈ publications,
      ∃ revision ∈ tables.revisions, revision.id = publication.publishedRevisionId ∧
        revision.scoreId = publication.scoreId
  then some (tables.withPublications publications)
  else none

end AssetTables

namespace PublicationService

variable (service : PublicationService)

/-- `_default_slug`: the runs of other characters become one hyphen each, and
none is left at the ends. -/
def defaultSlug (score : Score) : String :=
  let slugChar := fun c : Char => c.isLower || c.isDigit
  let words := ((service.lower score.title).toList.splitOnP fun c => !slugChar c).filter (· ≠ [])
  let base := "-".intercalate (words.map String.ofList)
  (if base = "" then "score" else base) ++ "-" ++ Python.sliceTo 8 score.scoreUuid

/-- `publish`; a new publication gets the id `publicationId`. -/
def publish (tables : AssetTables) (scoreUuid : String) (userId : Int)
    (request : PublicationUpsertRequest) (publicationId : Nat) (now : Int) :
    Except PublicationError (PublicationRead × AssetTables) :=
  match tables.access.authorize service.sha256 scoreUuid .publish
      ⟨some userId, request.revisionId, none, none⟩ now with
  | .error error => .error (.access error)
  | .ok access =>
    let publication : ScorePublication :=
      match tables.publicationByScore access.score.id with
      | some publication => { publication with
          publicSlug := (truthy request.publicSlug).getD publication.publicSlug
          publishedRevisionId := access.revision.id
          status := .published
          allowDownload := request.allowDownload
          allowPractice := request.allowPractice }
      | none =>
        { id := publicationId, scoreId := access.score.id
          publicSlug := (truthy request.publicSlug).getD (service.defaultSlug access.score)
          publishedRevisionId := access.revision.id, status := .published
          allowDownload := request.allowDownload, allowPractice := request.allowPractice }
    let publications :=
      match tables.publicationByScore access.score.id with
      | some _ => update ScorePublication.scoreId access.score.id (fun _ => publication)
          tables.access.publications
      | none => tables.access.publications ++ [publication]
    match tables.savePublications publications with
    | none => .error .rolledBack
    | some tables => .ok (publication.read access.score access.revision.revisionUuid, tables)

/-- `get_for_score` -/
def getForScore (tables : AssetTables) (scoreUuid : String) (userId : Int) (now : Int) :
    Except AccessError (Option PublicationRead) :=
  (tables.access.authorize service.sha256 scoreUuid .view ⟨some userId, none, none, none⟩ now).map
    fun access =>
      (tables.publicationByScore access.score.id).bind fun publication =>
        (tables.revisionById publication.publishedRevisionId).map fun revision =>
          publication.read access.score revision.revisionUuid

/-- `unpublish` -/
def unpublish (tables : AssetTables) (scoreUuid : String) (userId : Int) (now : Int) :
    Except AccessError (PublicationRead × AssetTables) :=
  (tables.access.authorize service.sha256 scoreUuid .publish ⟨some userId, none, none, none⟩
    now).bind fun access =>
      match tables.publicationByScore access.score.id with
      | none => .error (.resourceNotFound "publication" scoreUuid "resource_not_found")
      | some publication =>
        let revision := (tables.revisionById publication.publishedRevisionId).getD access.revision
        .ok ({ publication with status := .unpublished }.read access.score revision.revisionUuid,
          tables.withPublications (update ScorePublication.scoreId access.score.id
            ({ · with status := .unpublished }) tables.access.publications))

/-- `public_detail`. The policy is asked twice, the second time for the revision
that it has selected, at the time `later`. -/
def publicDetail (tables : AssetTables) (slug : String) (userId : Option Int) (now later : Int) :
    Except AccessError PublicScoreRead :=
  match (tables.publicationBySlug slug).filter (·.status = .published) with
  | none => .error (.resourceNotFound "publication" slug "resource_not_found")
  | some publication =>
    match find Score.id publication.scoreId tables.access.scores.scores with
    | none => .error (.resourceNotFound "score" slug "score_not_found")
    | some score =>
      (tables.access.authorize service.sha256 score.scoreUuid .view
        ⟨userId, none, none, some slug⟩ now).bind fun access =>
      (tables.listRevisionAssets service.sha256 score.scoreUuid
        ⟨userId, some access.revision.revisionUuid, none, some slug⟩ publication.allowDownload
        later).map fun revisionAssets =>
      { publication := publication.read score access.revision.revisionUuid
        title := score.title
        taxonomyTags := (tables.tags.filter (·.scoreId = score.id)).map (·.toRead)
        metadata := (find ScoreRevisionMetadata.revisionId access.revision.id tables.metadata).map
          (·.toRead access.revision)
        derivedAssets := tables.scoreDerivedAssets score.id access.revision
        revisionAssets
        capabilities := access.capabilities }

end PublicationService

/-! ## The system -/

/-- What can happen to the tables. -/
inductive PublicationAction
  | publish (scoreUuid : String) (userId : Int) (request : PublicationUpsertRequest)
    (publicationId : Nat) (now : Int)
  | unpublish (scoreUuid : String) (userId : Int) (now : Int)
  /-- A new score with its first revision. -/
  | create (score : Score) (revision : ScoreRevision) (source : ScoreRevisionSource)
  /-- A revision is made, and the head moves. -/
  | revise (draft : RevisionDraft) (sourceUuid : String)
  | editScore (scoreId : ScoreId) (title : String) (deletionStatus : ScoreDeletionStatus)
  /-- The members of scores, the grants and who has redeemed them. -/
  | share (memberships : List ScoreMembership) (grants : List ScoreShareGrant)
    (redemptions : List ShareGrantRedemption)
  /-- What the workers make of revisions, and the tags. -/
  | derive (renderAssets : List RenderAssetRow) (playbackAssets : List PlaybackAssetRow)
    (metadata : List ScoreRevisionMetadata) (tags : List ScoreTaxonomyTag)
    (renderOutbox : List RenderOutboxRow) (playbackOutbox : List PlaybackOutboxRow)
    (objects : List String)
  deriving DecidableEq, Repr

namespace AssetTables

def withScores (tables : AssetTables) (scores : ScoreTables) : AssetTables :=
  { tables with access := { tables.access with scores } }

/-- A score is flushed without a head, and its first revision under it. -/
def createScore (tables : ScoreTables) (score : Score) (revision : ScoreRevision)
    (source : ScoreRevisionSource) : Option ScoreTables :=
  let scoreId := tables.nextScoreId
  let revisionId := tables.nextRevisionId
  (tables.addScore { score with id := scoreId, headRevisionId := none }).bind fun tables =>
    (tables.addRevision { revision with id := revisionId, scoreId }).map fun tables =>
      (tables.addSource { source with revisionId }).saveScore scoreId
        ({ · with headRevisionId := some revisionId })

/-- The tables after an action, if its transaction commits. -/
def next (service : PublicationService) (tables : AssetTables) :
    PublicationAction → Option AssetTables
  | .publish scoreUuid userId request publicationId now =>
    match service.publish tables scoreUuid userId request publicationId now with
    | .error _ => none
    | .ok (_, tables) => some tables
  | .unpublish scoreUuid userId now =>
    match service.unpublish tables scoreUuid userId now with
    | .error _ => none
    | .ok (_, tables) => some tables
  -- the uuids are drawn, and no text that is drawn is empty
  | .create score revision source =>
    if revision.revisionUuid = "" then none
    else (createScore tables.access.scores score revision source).map tables.withScores
  | .revise draft sourceUuid =>
    if draft.revisionUuid = "" then none
    else (draft.commit tables.access.scores sourceUuid).map tables.withScores
  | .editScore scoreId title deletionStatus =>
    some (tables.withScores (tables.access.scores.saveScore scoreId
      ({ · with title, deletionStatus })))
  | .share memberships grants redemptions =>
    some { tables with access := { tables.access with memberships, grants, redemptions } }
  | .derive renderAssets playbackAssets metadata tags renderOutbox playbackOutbox objects =>
    some { tables with
      renderAssets, playbackAssets, metadata, tags, renderOutbox, playbackOutbox, objects }

end AssetTables

end NoteVerse.Backend

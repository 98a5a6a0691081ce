import NoteVerse.Backend.Scores

/-!
# Who may do what with a score

`ScoreAccessPolicy` of `score_access/policy.py`, with the rows of
`db/models/score_access.py` that it reads. A request is answered by the first of
its sources that applies: ownership, a membership, a redeemed grant, the share
token, the public slug.

The unique constraints of the tables say that the queries for one row find at
most one. Of redemptions at the same time the first row of the table comes
first; the database may give them in any order.
-/

namespace NoteVerse.Backend

open Table

inductive MembershipRole
  | editor | viewer
  deriving DecidableEq, Repr

inductive PublicationStatus
  | published | unpublished
  deriving DecidableEq, Repr

inductive AccessOrigin
  | owner | membership | share | publication
  deriving DecidableEq, Repr

structure ScoreMembership where
  id : Nat
  scoreId : ScoreId
  userId : Int
  role : MembershipRole
  revokedAt : Option Int
  deriving DecidableEq, Repr

structure ScoreShareGrant where
  id : Nat
  scoreId : ScoreId
  tokenHash : String
  allowDownload : Bool
  allowPractice : Bool
  expiresAt : Option Int
  revokedAt : Option Int
  deriving DecidableEq, Repr

structure ShareGrantRedemption where
  grantId : Nat
  userId : Int
  createdAt : Int
  deriving DecidableEq, Repr

structure ScorePublication where
  id : Nat
  scoreId : ScoreId
  publicSlug : String
  publishedRevisionId : RevisionId
  status : PublicationStatus
  allowDownload : Bool
  allowPractice : Bool
  deriving DecidableEq, Repr

structure AccessTables where
  scores : ScoreTables
  memberships : List ScoreMembership
  grants : List ScoreShareGrant
  redemptions : List ShareGrantRedemption
  publications : List ScorePublication
  deriving DecidableEq, Repr

structure ScoreCapabilities where
  canView : Bool
  canEdit : Bool
  canDelete : Bool
  canManageSharing : Bool
  canManageMembers : Bool
  canDownload : Bool
  canPractice : Bool
  canPublish : Bool
  deriving DecidableEq, Repr

inductive ScoreAction
  | view | edit | delete | manageSharing | manageMembers | download | practice | publish
  deriving DecidableEq, Repr

structure ScoreAccessContext where
  score : Score
  revision : ScoreRevision
  origin : AccessOrigin
  capabilities : ScoreCapabilities
  membership : Option ScoreMembership
  grant : Option ScoreShareGrant
  publication : Option ScorePublication
  deriving DecidableEq, Repr

inductive AccessError
  | resourceNotFound (resource id code : String)
  | unauthorized (code : String) (action : Option ScoreAction)
  deriving DecidableEq, Repr

/-- Who asks for what. -/
structure AccessRequest where
  userId : Option Int
  revisionUuid : Option String
  shareToken : Option String
  publicSlug : Option String
  deriving DecidableEq, Repr

/-- Whether an optional string counts as given. -/
def truthy : Option String → Option String
  | none => none
  | some value => if value = "" then none else some value

/-! ## Lookups -/

namespace AccessTables

variable (sha256 : String → String) (tables : AccessTables) (score : Score)

/-- `_revision` -/
def revision (revisionUuid : Option String) : Except AccessError ScoreRevision :=
  match truthy revisionUuid with
  | some revisionUuid =>
    match tables.scores.revisions.find? fun revision =>
        revision.revisionUuid = revisionUuid ∧ revision.scoreId = score.id with
    | none => .error (.resourceNotFound "revision" revisionUuid "revision_not_found")
    | some revision => .ok revision
  | none =>
    match tables.scores.head score with
    | none => .error (.resourceNotFound "revision" "head" "revision_not_found")
    | some revision => .ok revision

/-- The membership of a user that is not revoked. -/
def membership (userId : Int) : Option ScoreMembership :=
  tables.memberships.find? fun membership =>
    membership.scoreId = score.id ∧ membership.userId = userId ∧ membership.revokedAt = none

end AccessTables

/-- A grant has not expired. -/
def ScoreShareGrant.current (grant : ScoreShareGrant) (now : Int) : Bool :=
  match grant.expiresAt with
  | none => true
  | some expiresAt => expiresAt > now

namespace AccessTables

variable (sha256 : String → String) (tables : AccessTables) (score : Score)

/-- `_valid_grant` -/
def validGrant (token : String) (now : Int) : Option ScoreShareGrant :=
  (tables.grants.find? fun grant =>
    grant.scoreId = score.id ∧ grant.tokenHash = sha256 token).filter fun grant =>
      grant.revokedAt = none ∧ grant.current now

/-- The redemptions of a user, joined with their grants of a score that are not
revoked, the latest one first. -/
def redeemedGrants (userId : Int) : List ScoreShareGrant :=
  ((tables.redemptions.insertionSort fun a b => b.createdAt ≤ a.createdAt).filter
    (·.userId = userId)).filterMap fun redemption =>
      (find ScoreShareGrant.id redemption.grantId tables.grants).filter fun grant =>
        grant.scoreId = score.id ∧ grant.revokedAt = none

/-- `_valid_redeemed_grant` -/
def validRedeemedGrant (userId : Int) (now : Int) : Option ScoreShareGrant :=
  (tables.redeemedGrants score userId).find? (·.current now)

/-- The publication of a slug. -/
def publication (publicSlug : String) : Option ScorePublication :=
  tables.publications.find? fun publication =>
    publication.scoreId = score.id ∧ publication.publicSlug = publicSlug ∧
      publication.status = .published

/-- `_grant_revision` -/
def grantRevision : Except AccessError ScoreRevision :=
  match tables.scores.head score with
  | none => .error (.unauthorized "no_access" none)
  | some revision =>
    if revision.scoreId ≠ score.id then .error (.unauthorized "no_access" none) else .ok revision

end AccessTables

/-! ## The sources -/

def ScoreCapabilities.owner : ScoreCapabilities :=
  ⟨true, true, true, true, true, true, true, true⟩

/-- An editor may edit. -/
def ScoreCapabilities.member (editor : Bool) : ScoreCapabilities :=
  ⟨true, editor, false, false, false, true, true, false⟩

/-- What a grant or a publication allows. -/
def ScoreCapabilities.link (allowDownload allowPractice : Bool) : ScoreCapabilities :=
  ⟨true, false, false, false, false, allowDownload, allowPractice, false⟩

namespace AccessTables

variable (sha256 : String → String) (tables : AccessTables) (score : Score)

/-- The access that a grant gives to a request, if it applies to the revision
that is asked for. -/
def shareAccess (requestedRevision : ScoreRevision) (revisionUuid : Option String)
    (grant : ScoreShareGrant) : Option (Except AccessError ScoreAccessContext) :=
  match tables.grantRevision score with
  | .error error => some (.error error)
  | .ok targetRevision =>
    if revisionUuid = none ∨ targetRevision.id = requestedRevision.id then
      some (.ok {
        score, revision := targetRevision, origin := .share
        capabilities := .link grant.allowDownload grant.allowPractice
        membership := none, grant := some grant, publication := none })
    else none

/-- The access that a publication gives. -/
def publicationAccess (requestedRevision : ScoreRevision) (revisionUuid : Option String)
    (publication : ScorePublication) : Option (Except AccessError ScoreAccessContext) :=
  if revisionUuid = none ∨ publication.publishedRevisionId = requestedRevision.id then
    some <|
      match tables.scores.revisionById publication.publishedRevisionId with
      | none => .error (.unauthorized "no_access" none)
      | some publishedRevision =>
        .ok {
          score, revision := publishedRevision, origin := .publication
          capabilities := .link publication.allowDownload publication.allowPractice
          membership := none, grant := none, publication := some publication }
  else none

/-- `resolve`, once neither ownership nor a membership applies. -/
def resolveLinks (request : AccessRequest) (now : Int) (requestedRevision : ScoreRevision) :
    Except AccessError ScoreAccessContext :=
  let redeemed := request.userId.bind fun userId => tables.validRedeemedGrant score userId now
  match redeemed.bind (tables.shareAccess score requestedRevision request.revisionUuid) with
  | some access => access
  | none =>
    let grant := (truthy request.shareToken).bind fun token =>
      tables.validGrant sha256 score token now
    match grant.bind (tables.shareAccess score requestedRevision request.revisionUuid) with
    | some access => access
    | none =>
      let publication := (truthy request.publicSlug).bind fun publicSlug =>
        tables.publication score publicSlug
      match publication.bind
          (tables.publicationAccess score requestedRevision request.revisionUuid) with
      | some access => access
      | none => .error (.unauthorized "no_access" none)

/-- `resolve` -/
def resolve (scoreUuid : String) (request : AccessRequest) (now : Int) :
    Except AccessError ScoreAccessContext :=
  match tables.scores.activeScore scoreUuid with
  | none => .error (.resourceNotFound "score" scoreUuid "score_not_found")
  | some score =>
    (tables.revision score request.revisionUuid).bind fun requestedRevision =>
      if request.userId = some score.ownerUserId then
        .ok {
          score, revision := requestedRevision, origin := .owner
          capabilities := .owner, membership := none, grant := none, publication := none }
      else
        match request.userId.bind (tables.membership score) with
        | some membership =>
          .ok {
            score, revision := requestedRevision, origin := .membership
            capabilities := .member (membership.role = .editor)
            membership := some membership, grant := none, publication := none }
        | none => tables.resolveLinks sha256 score request now requestedRevision

end AccessTables

/-! ## Actions -/

def ScoreCapabilities.allows (capabilities : ScoreCapabilities) : ScoreAction → Bool
  | .view => capabilities.canView
  | .edit => capabilities.canEdit
  | .delete => capabilities.canDelete
  | .manageSharing => capabilities.canManageSharing
  | .manageMembers => capabilities.canManageMembers
  | .download => capabilities.canDownload
  | .practice => capabilities.canPractice
  | .publish => capabilities.canPublish

/-- `_denial_code` -/
def denialCode : ScoreAction → String
  | .edit => "no_edit_access"
  | .delete => "no_delete_access"
  | .manageSharing => "no_share_access"
  | .download => "no_download_access"
  | .practice => "no_practice_access"
  | _ => "no_access"

/-- `authorize` -/
def AccessTables.authorize (sha256 : String → String) (tables : AccessTables) (scoreUuid : String)
    (action : ScoreAction) (request : AccessRequest) (now : Int) :
    Except AccessError ScoreAccessContext :=
  (tables.resolve sha256 scoreUuid request now).bind fun access =>
    if access.capabilities.allows action then .ok access
    else .error (.unauthorized (denialCode action) (some action))

end NoteVerse.Backend

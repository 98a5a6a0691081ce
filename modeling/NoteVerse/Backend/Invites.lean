import NoteVerse.Backend.AccessPolicy
import NoteVerse.Lib.Transition

/-!
# Invites to a score

`score_invites/service.py` and `score_invites/rules.py`. An invite is to an
email, for a role; who has this email accepts it with its token or from the
list of pending invites, and becomes a member. A membership that is revoked
stays in the table. Mails and notifications are left out.

`InviteAction` is what can happen: the requests of the service, and changes by
others to scores, users and grants. Each request is atomic, at one time.
-/

namespace NoteVerse.Backend

open Table Transition

inductive InviteStatus
  | pending | accepted | revoked | expired | declined
  deriving DecidableEq, Repr

structure ScoreInvite where
  inviteUuid : String
  scoreId : ScoreId
  tokenHash : String
  email : Option String
  role : MembershipRole
  status : InviteStatus
  createdByUserId : Int
  acceptedByUserId : Option Int
  expiresAt : Option Int
  acceptedAt : Option Int
  revokedAt : Option Int
  declinedAt : Option Int
  deriving DecidableEq, Repr

structure InviteUser where
  id : Int
  email : String
  deriving DecidableEq, Repr

/-- The tables, the uuids and token hashes of invites that have been drawn, and
the time. -/
structure InviteTables where
  access : AccessTables
  invites : List ScoreInvite
  users : List InviteUser
  nextMembershipId : Nat
  issued : List (String × String)
  now : Int
  deriving DecidableEq, Repr

/-- What the service calls of other libraries: the hash of a token, and
`str.lower`. -/
structure InviteService where
  sha256 : String → String
  lower : String → String

structure InviteCreateRequest where
  email : String
  role : MembershipRole
  expiresAt : Option Int
  deriving DecidableEq, Repr

structure InviteAcceptRead where
  scoreId : String
  role : MembershipRole
  membershipId : Option Nat
  deriving DecidableEq, Repr

inductive InviteError
  | access (error : AccessError)
  | resourceNotFound (resource : String) (id : Option String) (code : String)
  | unauthorized (code : String)
  | validation (code field : String)
  deriving DecidableEq, Repr

/-! ## Rules -/

/-- `ROLE_RANK` -/
def MembershipRole.rank : MembershipRole → Nat
  | viewer => 1
  | editor => 2

/-- `display_invite_status` -/
def ScoreInvite.displayStatus (invite : ScoreInvite) (now : Int) : InviteStatus :=
  match invite.status, invite.expiresAt with
  | .pending, some expiresAt => if expiresAt ≤ now then .expired else .pending
  | status, _ => status

/-- `can_user_accept_invite` -/
def InviteService.canUserAcceptInvite (service : InviteService) (invite : ScoreInvite)
    (user : InviteUser) (now : Int) : Bool :=
  invite.displayStatus now = .pending ∧ invite.email = some (service.lower user.email)

/-! ## Rows -/

namespace InviteTables

variable (tables : InviteTables)

abbrev memberships : List ScoreMembership := tables.access.memberships

/-- `repository.invite_by_token_hash` -/
def inviteByTokenHash (tokenHash : String) : Option ScoreInvite :=
  find ScoreInvite.tokenHash tokenHash tables.invites

/-- `repository.invite_by_uuid` -/
def inviteByUuid (inviteUuid : String) : Option ScoreInvite :=
  find ScoreInvite.inviteUuid inviteUuid tables.invites

/-- `db.get(User, user_id)` -/
def user (userId : Int) : Option InviteUser := find InviteUser.id userId tables.users

/-- `db.get(Score, score_id)` -/
def score (scoreId : ScoreId) : Option Score := find Score.id scoreId tables.access.scores.scores

/-- `repository.membership`: revoked or not. -/
def membershipRow (scoreId : ScoreId) (userId : Int) : Option ScoreMembership :=
  tables.memberships.find? fun membership =>
    membership.scoreId = scoreId ∧ membership.userId = userId

def saveInvite (inviteUuid : String) (f : ScoreInvite → ScoreInvite) : InviteTables :=
  { tables with invites := update ScoreInvite.inviteUuid inviteUuid f tables.invites }

def saveMembership (membershipId : Nat) (f : ScoreMembership → ScoreMembership) : InviteTables :=
  { tables with
    access := { tables.access with
      memberships := update ScoreMembership.id membershipId f tables.memberships } }

def addMembership (scoreId : ScoreId) (userId : Int) (role : MembershipRole) : InviteTables :=
  { tables with
    access := { tables.access with
      memberships := tables.memberships ++
        [⟨tables.nextMembershipId, scoreId, userId, role, none⟩] }
    nextMembershipId := tables.nextMembershipId + 1 }

end InviteTables

/-! ## Requests -/

/-- What a request answers, and the tables after it. A request that raises has
written what it has committed before. -/
abbrev InviteAnswer (α : Type) := Except InviteError α × InviteTables

namespace InviteService

variable (service : InviteService) (tables : InviteTables)

/-- `authorize` for the action `MANAGE_MEMBERS` -/
def authorizeManage (scoreUuid : String) (userId : Int) : Except InviteError ScoreAccessContext :=
  match tables.access.authorize service.sha256 scoreUuid .manageMembers
      ⟨some userId, none, none, none⟩ tables.now with
  | .error error => .error (.access error)
  | .ok access => .ok access

/-- `create_invite`. The uuid and the token are drawn. -/
def createInvite (scoreUuid : String) (userId : Int) (request : InviteCreateRequest)
    (inviteUuid token : String) : InviteAnswer ScoreInvite :=
  match service.authorizeManage tables scoreUuid userId with
  | .error error => (.error error, tables)
  | .ok access =>
    let invite : ScoreInvite :=
      { inviteUuid, scoreId := access.score.id, tokenHash := service.sha256 token
        email := some request.email, role := request.role, status := .pending
        createdByUserId := userId, acceptedByUserId := none, expiresAt := request.expiresAt
        acceptedAt := none, revokedAt := none, declinedAt := none }
    (.ok invite, { tables with
      invites := tables.invites ++ [invite]
      issued := tables.issued ++ [(inviteUuid, service.sha256 token)] })

/-- `_managed_invite` -/
def managedInvite (scoreUuid inviteUuid : String) (userId : Int) :
    Except InviteError ScoreInvite :=
  (service.authorizeManage tables scoreUuid userId).bind fun access =>
    match tables.inviteByUuid inviteUuid with
    | none => .error (.resourceNotFound "invite" (some inviteUuid) "invite_not_found")
    | some invite =>
      if invite.scoreId ≠ access.score.id then
        .error (.resourceNotFound "invite" (some inviteUuid) "invite_not_found")
      else .ok invite

/-- `revoke_invite` -/
def revokeInvite (scoreUuid inviteUuid : String) (userId : Int) : InviteAnswer Unit :=
  match service.managedInvite tables scoreUuid inviteUuid userId with
  | .error error => (.error error, tables)
  | .ok invite =>
    if invite.status = .pending then
      (.ok (), tables.saveInvite inviteUuid
        ({ · with status := .revoked, revokedAt := some tables.now }))
    else (.ok (), tables)

/-- `delete_invite` -/
def deleteInvite (scoreUuid inviteUuid : String) (userId : Int) : InviteAnswer Unit :=
  match service.managedInvite tables scoreUuid inviteUuid userId with
  | .error error => (.error error, tables)
  | .ok _ => (.ok (), { tables with
      invites := delete ScoreInvite.inviteUuid inviteUuid tables.invites })

/-- What `_invite_by_token` and `_invite_by_uuid` do with the invite that they
find. -/
def openInvite (invite : ScoreInvite) (field : String) : InviteAnswer ScoreInvite :=
  match invite.displayStatus tables.now with
  | .expired => (.error (.validation "invite_expired" field),
      tables.saveInvite invite.inviteUuid ({ · with status := .expired }))
  | .revoked => (.error (.validation "invite_revoked" field), tables)
  | .accepted => (.error (.validation "invite_already_accepted" field), tables)
  | .declined => (.error (.validation "invite_declined" field), tables)
  | .pending => (.ok invite, tables)

/-- `_invite_by_token` -/
def inviteByToken (token : String) : InviteAnswer ScoreInvite :=
  match tables.inviteByTokenHash (service.sha256 token) with
  | none => (.error (.resourceNotFound "invite" none "invite_not_found"), tables)
  | some invite => openInvite tables invite "token"

/-- `_invite_by_uuid` -/
def inviteByUuid (inviteUuid : String) : InviteAnswer ScoreInvite :=
  match tables.inviteByUuid inviteUuid with
  | none => (.error (.resourceNotFound "invite" (some inviteUuid) "invite_not_found"), tables)
  | some invite => openInvite tables invite "invite_id"

/-- `_ensure_invite_target_user` -/
def ensureInviteTargetUser (invite : ScoreInvite) (userId : Int) : Except InviteError InviteUser :=
  match tables.user userId with
  | none => .error (.unauthorized "no_access")
  | some user =>
    if service.canUserAcceptInvite invite user tables.now then .ok user
    else .error (.validation "invite_email_mismatch" "email")

/-- The invite is accepted by a user. -/
def markAccepted (inviteUuid : String) (userId : Int) : InviteTables :=
  tables.saveInvite inviteUuid ({ · with
    status := .accepted, acceptedByUserId := some userId, acceptedAt := some tables.now })

/-- `_accept_invite_record` -/
def acceptInviteRecord (invite : ScoreInvite) (userId : Int) : InviteAnswer InviteAcceptRead :=
  match service.ensureInviteTargetUser tables invite userId with
  | .error error => (.error error, tables)
  | .ok _ =>
    match tables.score invite.scoreId with
    | none => (.error (.resourceNotFound "score" none "score_not_found"), tables)
    | some score =>
      if score.ownerUserId = userId then
        (.ok ⟨score.scoreUuid, .editor, none⟩, markAccepted tables invite.inviteUuid userId)
      else
        match tables.membershipRow invite.scoreId userId with
        | some membership =>
          let role := if invite.role.rank > membership.role.rank then invite.role
            else membership.role
          (.ok ⟨score.scoreUuid, role, some membership.id⟩,
            markAccepted (tables.saveMembership membership.id
              ({ · with revokedAt := none, role })) invite.inviteUuid userId)
        | none =>
          (.ok ⟨score.scoreUuid, invite.role, some tables.nextMembershipId⟩,
            markAccepted (tables.addMembership invite.scoreId userId invite.role)
              invite.inviteUuid userId)

/-- `accept_invite` -/
def acceptInvite (token : String) (userId : Int) : InviteAnswer InviteAcceptRead :=
  match service.inviteByToken tables token with
  | (.error error, tables) => (.error error, tables)
  | (.ok invite, tables) => service.acceptInviteRecord tables invite userId

/-- `accept_pending_invite` -/
def acceptPendingInvite (inviteUuid : String) (userId : Int) : InviteAnswer InviteAcceptRead :=
  match inviteByUuid tables inviteUuid with
  | (.error error, tables) => (.error error, tables)
  | (.ok invite, tables) =>
    match service.ensureInviteTargetUser tables invite userId with
    | .error error => (.error error, tables)
    | .ok _ => service.acceptInviteRecord tables invite userId

/-- `decline_pending_invite` -/
def declinePendingInvite (inviteUuid : String) (userId : Int) : InviteAnswer Unit :=
  match inviteByUuid tables inviteUuid with
  | (.error error, tables) => (.error error, tables)
  | (.ok invite, tables) =>
    match service.ensureInviteTargetUser tables invite userId with
    | .error error => (.error error, tables)
    | .ok _ => (.ok (), tables.saveInvite invite.inviteUuid
        ({ · with status := .declined, declinedAt := some tables.now }))

/-- `_membership_for_score` -/
def membershipForScore (score : Score) (membershipId : Nat) :
    Except InviteError ScoreMembership :=
  let notFound := InviteError.resourceNotFound "score_membership" (some (toString membershipId))
    "membership_not_found"
  match find ScoreMembership.id membershipId tables.memberships with
  | none => .error notFound
  | some membership => if membership.scoreId ≠ score.id then .error notFound else .ok membership

/-- `update_member` -/
def updateMember (scoreUuid : String) (membershipId : Nat) (userId : Int) (role : MembershipRole) :
    InviteAnswer Unit :=
  match (service.authorizeManage tables scoreUuid userId).bind fun access =>
      membershipForScore tables access.score membershipId with
  | .error error => (.error error, tables)
  | .ok membership =>
    (.ok (), tables.saveMembership membership.id ({ · with role, revokedAt := none }))

/-- `remove_member` -/
def removeMember (scoreUuid : String) (membershipId : Nat) (userId : Int) : InviteAnswer Unit :=
  match (service.authorizeManage tables scoreUuid userId).bind fun access =>
      (membershipForScore tables access.score membershipId).bind fun membership =>
        if membership.userId = access.score.ownerUserId then
          .error (.validation "validation_error" "membership_id")
        else .ok membership with
  | .error error => (.error error, tables)
  | .ok membership =>
    (.ok (), tables.saveMembership membership.id ({ · with revokedAt := some tables.now }))

end InviteService

/-! ## The system -/

/-- What can happen next. -/
inductive InviteAction
  | createInvite (scoreUuid : String) (userId : Int) (request : InviteCreateRequest)
    (inviteUuid token : String)
  | revokeInvite (scoreUuid inviteUuid : String) (userId : Int)
  | deleteInvite (scoreUuid inviteUuid : String) (userId : Int)
  | acceptInvite (token : String) (userId : Int)
  | acceptPendingInvite (inviteUuid : String) (userId : Int)
  | declinePendingInvite (inviteUuid : String) (userId : Int)
  | updateMember (scoreUuid : String) (membershipId : Nat) (userId : Int) (role : MembershipRole)
  | removeMember (scoreUuid : String) (membershipId : Nat) (userId : Int)
  /-- The score goes, and with it what refers to it. -/
  | deleteScore (scoreId : ScoreId)
  /-- What other services change: scores, grants, publications and users. -/
  | others (scores : ScoreTables) (grants : List ScoreShareGrant)
    (redemptions : List ShareGrantRedemption) (publications : List ScorePublication)
    (users : List InviteUser)
  | pass (seconds : Nat)
  deriving DecidableEq, Repr

namespace InviteTables

/-- The tables after an action. A uuid and a token that are drawn are new. -/
def next (service : InviteService) (tables : InviteTables) : InviteAction → Option InviteTables
  | .createInvite scoreUuid userId request inviteUuid token =>
    if ∃ drawn ∈ tables.issued, drawn.1 = inviteUuid ∨ drawn.2 = service.sha256 token then none
    else some (service.createInvite tables scoreUuid userId request inviteUuid token).2
  | .revokeInvite scoreUuid inviteUuid userId =>
    some (service.revokeInvite tables scoreUuid inviteUuid userId).2
  | .deleteInvite scoreUuid inviteUuid userId =>
    some (service.deleteInvite tables scoreUuid inviteUuid userId).2
  | .acceptInvite token userId => some (service.acceptInvite tables token userId).2
  | .acceptPendingInvite inviteUuid userId =>
    some (service.acceptPendingInvite tables inviteUuid userId).2
  | .declinePendingInvite inviteUuid userId =>
    some (service.declinePendingInvite tables inviteUuid userId).2
  | .updateMember scoreUuid membershipId userId role =>
    some (service.updateMember tables scoreUuid membershipId userId role).2
  | .removeMember scoreUuid membershipId userId =>
    some (service.removeMember tables scoreUuid membershipId userId).2
  | .deleteScore scoreId => some { tables with
      access := { tables.access with
        scores := { tables.access.scores with
          scores := delete Score.id scoreId tables.access.scores.scores }
        memberships := tables.memberships.filter (·.scoreId ≠ scoreId) }
      invites := tables.invites.filter (·.scoreId ≠ scoreId) }
  | .others scores grants redemptions publications users => some { tables with
      access := { scores, memberships := tables.memberships, grants, redemptions, publications }
      users }
  | .pass seconds => some { tables with now := tables.now + seconds }

def Step (service : InviteService) (tables : InviteTables) (action : InviteAction)
    (tables' : InviteTables) : Prop :=
  tables.next service action = some tables'

end InviteTables

end NoteVerse.Backend

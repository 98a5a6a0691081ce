import NoteVerse.Backend.Invites

/-!
# What accepting an invite does

A request keeps the keys of the rows, opens no invite again and lends no uuid
twice (`Follows`, `follows_next`); so an invite that is closed stays closed
(`Spent.mono`). What an acceptance does to the user's standing is a look at the
membership row that the table has for the user (`accept_standing_iff`): one that
is revoked still lends its role. `invite_acceptance` says both of every run.
-/

namespace NoteVerse.Backend

open Table Transition

theorem ScoreInvite.displayStatus_eq_pending {invite : ScoreInvite} {now : Int} :
    invite.displayStatus now = .pending ↔
      invite.status = .pending ∧
        ∀ expiresAt, invite.expiresAt = some expiresAt → now < expiresAt := by
  unfold ScoreInvite.displayStatus
  split
  · rename_i expiresAt hstatus hexpires
    rw [hstatus, hexpires]
    constructor
    · intro h
      split_ifs at h with hpast
      refine ⟨rfl, fun other hother => ?_⟩
      rw [← Option.some_inj.mp hother]
      exact not_le.mp hpast
    · rintro ⟨-, h⟩
      exact if_neg (not_le.mpr (h expiresAt rfl))
  · rename_i hother
    refine ⟨fun h => ⟨h, fun expiresAt hexpires => ?_⟩, fun h => h.1⟩
    exact absurd hexpires (hother expiresAt h)

namespace InviteTables

/-! ## What every request keeps -/

/-- What the keys of the tables say. -/
structure Constrained (tables : InviteTables) : Prop where
  invites : (tables.invites.map (·.inviteUuid)).Nodup
  drawn : ∀ invite ∈ tables.invites, ∃ drawn ∈ tables.issued, drawn.1 = invite.inviteUuid
  members : (tables.memberships.map fun membership =>
    (membership.scoreId, membership.userId)).Nodup
  memberIds : (tables.memberships.map (·.id)).Nodup
  membersBelow : ∀ membership ∈ tables.memberships, membership.id < tables.nextMembershipId

/-- Tables that come after others: an invite that is pending was pending before,
with the same expiry, or its uuid has been drawn since. -/
structure Follows (tables tables' : InviteTables) : Prop where
  constrained : tables.Constrained → tables'.Constrained
  issued : ∀ drawn ∈ tables.issued, drawn ∈ tables'.issued
  now : tables.now ≤ tables'.now
  invites : ∀ invite' ∈ tables'.invites,
    (∃ invite ∈ tables.invites, invite.inviteUuid = invite'.inviteUuid ∧
      invite.expiresAt = invite'.expiresAt ∧
      (invite'.status = .pending → invite.status = .pending)) ∨
    ∀ drawn ∈ tables.issued, drawn.1 ≠ invite'.inviteUuid

variable {service : InviteService} {tables tables' tables'' : InviteTables}

theorem Follows.refl (tables : InviteTables) : tables.Follows tables where
  constrained := id
  issued := fun _ h => h
  now := le_rfl
  invites := fun invite h => .inl ⟨invite, h, rfl, rfl, id⟩

theorem Follows.trans (h : tables.Follows tables') (h' : tables'.Follows tables'') :
    tables.Follows tables'' where
  constrained := fun hc => h'.constrained (h.constrained hc)
  issued := fun drawn hdrawn => h'.issued drawn (h.issued drawn hdrawn)
  now := h.now.trans h'.now
  invites := fun invite'' hmem => by
    obtain ⟨invite', hmem', huuid', hexpires', hstatus'⟩ | hfresh := h'.invites invite'' hmem
    · obtain ⟨invite, hmem, huuid, hexpires, hstatus⟩ | hfresh := h.invites invite' hmem'
      · exact .inl ⟨invite, hmem, huuid.trans huuid', hexpires.trans hexpires',
          fun hpending => hstatus (hstatus' hpending)⟩
      · rw [huuid'] at hfresh
        exact .inr hfresh
    · exact .inr fun drawn hdrawn => hfresh drawn (h.issued drawn hdrawn)

/-- The rows of invites change, but for their uuids and expiries, and none gets
pending. -/
theorem follows_saveInvite (inviteUuid : String) {f : ScoreInvite → ScoreInvite}
    (huuid : ∀ invite, (f invite).inviteUuid = invite.inviteUuid)
    (hexpires : ∀ invite, (f invite).expiresAt = invite.expiresAt)
    (hstatus : ∀ invite, (f invite).status ≠ .pending) :
    tables.Follows (tables.saveInvite inviteUuid f) where
  constrained := fun hc => { hc with
    invites := by
      have hkeep : (update ScoreInvite.inviteUuid inviteUuid f tables.invites).map (·.inviteUuid) =
          tables.invites.map (·.inviteUuid) := map_update huuid
      exact hkeep ▸ hc.invites
    drawn := fun invite hmem => by
      obtain ⟨hmem, -⟩ | ⟨old, hold, -, rfl⟩ := mem_update hmem
      · exact hc.drawn invite hmem
      · rw [huuid]
        exact hc.drawn old hold }
  issued := fun _ h => h
  now := le_rfl
  invites := fun invite hmem => by
    obtain ⟨hmem, -⟩ | ⟨old, hold, -, rfl⟩ := mem_update hmem
    · exact .inl ⟨invite, hmem, rfl, rfl, id⟩
    · exact .inl ⟨old, hold, (huuid old).symm, (hexpires old).symm,
        fun hpending => absurd hpending (hstatus old)⟩

/-- Rows are deleted. -/
theorem follows_filter (keep : ScoreInvite → Bool) (keepMember : ScoreMembership → Bool)
    (scores : ScoreTables) :
    tables.Follows { tables with
      access := { tables.access with
        scores, memberships := tables.memberships.filter keepMember }
      invites := tables.invites.filter keep } where
  constrained := fun hc => {
    invites := hc.invites.sublist (List.filter_sublist.map _)
    drawn := fun invite hmem => hc.drawn invite (List.mem_of_mem_filter hmem)
    members := hc.members.sublist (List.filter_sublist.map _)
    memberIds := hc.memberIds.sublist (List.filter_sublist.map _)
    membersBelow := fun membership hmem =>
      hc.membersBelow membership (List.mem_of_mem_filter hmem) }
  issued := fun _ h => h
  now := le_rfl
  invites := fun invite hmem => .inl ⟨invite, List.mem_of_mem_filter hmem, rfl, rfl, id⟩

theorem follows_delete (inviteUuid : String) :
    tables.Follows { tables with
      invites := delete ScoreInvite.inviteUuid inviteUuid tables.invites } := by
  have hfilter : tables.Follows _ := follows_filter
    (fun invite => invite.inviteUuid ≠ inviteUuid) (fun _ => true) tables.access.scores
  rw [List.filter_true] at hfilter
  exact hfilter

theorem follows_saveMembership (membershipId : Nat) {f : ScoreMembership → ScoreMembership}
    (hid : ∀ membership, (f membership).id = membership.id)
    (hscore : ∀ membership, (f membership).scoreId = membership.scoreId)
    (huser : ∀ membership, (f membership).userId = membership.userId) :
    tables.Follows (tables.saveMembership membershipId f) where
  constrained := fun hc => { hc with
    members := by
      have hkeep : (update ScoreMembership.id membershipId f tables.memberships).map
          (fun membership => (membership.scoreId, membership.userId)) =
          tables.memberships.map fun membership => (membership.scoreId, membership.userId) :=
        map_update fun membership => by rw [hscore, huser]
      exact hkeep ▸ hc.members
    memberIds := by
      have hkeep : (update ScoreMembership.id membershipId f tables.memberships).map (·.id) =
          tables.memberships.map (·.id) := map_update hid
      exact hkeep ▸ hc.memberIds
    membersBelow := fun membership hmem => by
      obtain ⟨hmem, -⟩ | ⟨old, hold, -, rfl⟩ := mem_update hmem
      · exact hc.membersBelow membership hmem
      · rw [hid]
        exact hc.membersBelow old hold }
  issued := fun _ h => h
  now := le_rfl
  invites := fun invite hmem => .inl ⟨invite, hmem, rfl, rfl, id⟩

theorem follows_addMembership {scoreId : ScoreId} {userId : Int} (role : MembershipRole)
    (hnone : tables.membershipRow scoreId userId = none) :
    tables.Follows (tables.addMembership scoreId userId role) where
  constrained := fun hc => { hc with
    members := by
      show ((tables.memberships ++ [_]).map _).Nodup
      rw [List.map_append, List.map_singleton, List.nodup_append]
      refine ⟨hc.members, List.nodup_singleton _, fun pair hpair other hother => ?_⟩
      obtain ⟨membership, hmem, rfl⟩ := List.mem_map.mp hpair
      rw [List.mem_singleton.mp hother]
      intro heq
      obtain ⟨hscore, huser⟩ := Prod.mk.inj heq
      exact List.find?_eq_none.mp hnone membership hmem (decide_eq_true ⟨hscore, huser⟩)
    memberIds := by
      show ((tables.memberships ++ [_]).map _).Nodup
      rw [List.map_append, List.map_singleton, List.nodup_append]
      refine ⟨hc.memberIds, List.nodup_singleton _, fun membershipId hid other hother => ?_⟩
      obtain ⟨membership, hmem, rfl⟩ := List.mem_map.mp hid
      rw [List.mem_singleton.mp hother]
      exact (hc.membersBelow membership hmem).ne
    membersBelow := fun membership hmem => by
      obtain hmem | hmem := List.mem_append.mp hmem
      · exact Nat.lt_succ_of_lt (hc.membersBelow membership hmem)
      · rw [List.mem_singleton.mp hmem]
        exact Nat.lt_succ_self _ }
  issued := fun _ h => h
  now := le_rfl
  invites := fun invite hmem => .inl ⟨invite, hmem, rfl, rfl, id⟩

/-! ## Requests -/

theorem follows_openInvite (invite : ScoreInvite) (field : String) :
    tables.Follows (InviteService.openInvite tables invite field).2 := by
  unfold InviteService.openInvite
  split
  · exact follows_saveInvite _ (fun _ => rfl) (fun _ => rfl) fun _ => by simp
  all_goals exact .refl _

theorem openInvite_ok {invite found : ScoreInvite} {field : String}
    (h : InviteService.openInvite tables invite field = (.ok found, tables')) :
    found = invite ∧ tables' = tables ∧ invite.displayStatus tables.now = .pending := by
  unfold InviteService.openInvite at h
  split at h
  all_goals first
    | cases h
      exact ⟨rfl, rfl, ‹_›⟩
    | simp at h

theorem follows_inviteByToken (service : InviteService) (tables : InviteTables) (token : String) :
    tables.Follows (service.inviteByToken tables token).2 := by
  unfold InviteService.inviteByToken
  split
  · exact .refl _
  · exact follows_openInvite _ _

theorem follows_inviteByUuid (tables : InviteTables) (inviteUuid : String) :
    tables.Follows (InviteService.inviteByUuid tables inviteUuid).2 := by
  unfold InviteService.inviteByUuid
  split
  · exact .refl _
  · exact follows_openInvite _ _

theorem follows_markAccepted (inviteUuid : String) (userId : Int) :
    tables.Follows (InviteService.markAccepted tables inviteUuid userId) :=
  follows_saveInvite _ (fun _ => rfl) (fun _ => rfl) fun _ => by simp

theorem follows_acceptInviteRecord (invite : ScoreInvite) (userId : Int) :
    tables.Follows (service.acceptInviteRecord tables invite userId).2 := by
  unfold InviteService.acceptInviteRecord
  split
  · exact .refl _
  · split
    · exact .refl _
    · split_ifs
      · exact follows_markAccepted _ _
      · split
        · rename_i membership _
          have hsave : tables.Follows (tables.saveMembership membership.id ({ · with
              revokedAt := none
              role := if invite.role.rank > membership.role.rank then invite.role
                else membership.role })) :=
            follows_saveMembership _ (fun _ => rfl) (fun _ => rfl) fun _ => rfl
          exact hsave.trans (follows_markAccepted _ _)
        · rename_i hnone
          exact (follows_addMembership _ hnone).trans (follows_markAccepted _ _)

theorem follows_createInvite (scoreUuid : String) (userId : Int) (request : InviteCreateRequest)
    {inviteUuid token : String} (hnew : ∀ drawn ∈ tables.issued, drawn.1 ≠ inviteUuid) :
    tables.Follows (service.createInvite tables scoreUuid userId request inviteUuid token).2 := by
  unfold InviteService.createInvite
  split
  · exact .refl _
  · exact {
      constrained := fun hc => { hc with
        invites := by
          rw [List.map_append, List.map_singleton, List.nodup_append]
          refine ⟨hc.invites, List.nodup_singleton _, fun uuid huuid other hother => ?_⟩
          obtain ⟨invite, hmem, rfl⟩ := List.mem_map.mp huuid
          obtain ⟨drawn, hdrawn, hsame⟩ := hc.drawn invite hmem
          rw [List.mem_singleton.mp hother, ← hsame]
          exact hnew drawn hdrawn
        drawn := fun invite hmem => by
          obtain hmem | hmem := List.mem_append.mp hmem
          · obtain ⟨drawn, hdrawn, hsame⟩ := hc.drawn invite hmem
            exact ⟨drawn, List.mem_append_left _ hdrawn, hsame⟩
          · rw [List.mem_singleton.mp hmem]
            exact ⟨_, List.mem_append_right _ (List.mem_singleton_self _), rfl⟩ }
      issued := fun drawn hdrawn => List.mem_append_left _ hdrawn
      now := le_rfl
      invites := fun invite hmem => by
        obtain hmem | hmem := List.mem_append.mp hmem
        · exact .inl ⟨invite, hmem, rfl, rfl, id⟩
        · rw [List.mem_singleton.mp hmem]
          exact .inr hnew }

/-- Every action keeps the constraints and opens no invite again. -/
theorem follows_next {action : InviteAction} (h : tables.next service action = some tables') :
    tables.Follows tables' := by
  cases action with
  | createInvite scoreUuid userId request inviteUuid token =>
    simp only [next] at h
    split_ifs at h with hdrawn
    cases h
    exact follows_createInvite _ _ _ fun drawn hmem heq => hdrawn ⟨drawn, hmem, .inl heq⟩
  | revokeInvite scoreUuid inviteUuid userId =>
    cases h
    unfold InviteService.revokeInvite
    split
    · exact .refl _
    · split_ifs
      · exact follows_saveInvite _ (fun _ => rfl) (fun _ => rfl) fun _ => by simp
      · exact .refl _
  | deleteInvite scoreUuid inviteUuid userId =>
    cases h
    unfold InviteService.deleteInvite
    split
    · exact .refl _
    · exact follows_delete _
  | acceptInvite token userId =>
    cases h
    have hfound := follows_inviteByToken service tables token
    unfold InviteService.acceptInvite
    split
    · rename_i heq
      rw [heq] at hfound
      exact hfound
    · rename_i heq
      rw [heq] at hfound
      exact hfound.trans (follows_acceptInviteRecord _ _)
  | acceptPendingInvite inviteUuid userId =>
    cases h
    have hfound := follows_inviteByUuid tables inviteUuid
    unfold InviteService.acceptPendingInvite
    split
    · rename_i heq
      rw [heq] at hfound
      exact hfound
    · rename_i heq
      rw [heq] at hfound
      split
      · exact hfound
      · exact hfound.trans (follows_acceptInviteRecord _ _)
  | declinePendingInvite inviteUuid userId =>
    cases h
    have hfound := follows_inviteByUuid tables inviteUuid
    unfold InviteService.declinePendingInvite
    split
    · rename_i heq
      rw [heq] at hfound
      exact hfound
    · rename_i heq
      rw [heq] at hfound
      split
      · exact hfound
      · exact hfound.trans
          (follows_saveInvite _ (fun _ => rfl) (fun _ => rfl) fun _ => by simp)
  | updateMember scoreUuid membershipId userId role =>
    cases h
    unfold InviteService.updateMember
    split
    · exact .refl _
    · exact follows_saveMembership _ (fun _ => rfl) (fun _ => rfl) fun _ => rfl
  | removeMember scoreUuid membershipId userId =>
    cases h
    unfold InviteService.removeMember
    split
    · exact .refl _
    · exact follows_saveMembership _ (fun _ => rfl) (fun _ => rfl) fun _ => rfl
  | deleteScore scoreId =>
    cases h
    exact follows_filter _ _ _
  | others scores grants redemptions publications users =>
    cases h
    exact ⟨fun hc => ⟨hc.invites, hc.drawn, hc.members, hc.memberIds, hc.membersBelow⟩,
      fun _ h => h, le_rfl, fun invite hmem => .inl ⟨invite, hmem, rfl, rfl, id⟩⟩
  | pass seconds =>
    cases h
    exact ⟨fun hc => ⟨hc.invites, hc.drawn, hc.members, hc.memberIds, hc.membersBelow⟩,
      fun _ h => h, by show tables.now ≤ tables.now + seconds; omega,
      fun invite hmem => .inl ⟨invite, hmem, rfl, rfl, id⟩⟩

/-! ## Closed invites -/

/-- A uuid has been drawn, and no invite of this uuid is pending. -/
def Spent (inviteUuid : String) (tables : InviteTables) : Prop :=
  (∃ drawn ∈ tables.issued, drawn.1 = inviteUuid) ∧
    ∀ invite ∈ tables.invites, invite.inviteUuid = inviteUuid →
      invite.displayStatus tables.now ≠ .pending

theorem Spent.mono {inviteUuid : String} (hf : tables.Follows tables')
    (h : tables.Spent inviteUuid) : tables'.Spent inviteUuid := by
  obtain ⟨⟨drawn, hdrawn, hsame⟩, hclosed⟩ := h
  refine ⟨⟨drawn, hf.issued drawn hdrawn, hsame⟩, fun invite' hmem' huuid' hpending => ?_⟩
  obtain ⟨hstatus', hexpires'⟩ := ScoreInvite.displayStatus_eq_pending.mp hpending
  obtain ⟨invite, hmem, huuid, hexpires, hstatus⟩ | hfresh := hf.invites invite' hmem'
  · refine hclosed invite hmem (huuid.trans huuid') ?_
    refine ScoreInvite.displayStatus_eq_pending.mpr ⟨hstatus hstatus', fun expiresAt h => ?_⟩
    exact hf.now.trans_lt (hexpires' expiresAt (hexpires ▸ h))
  · exact hfresh drawn hdrawn (hsame.trans huuid'.symm)

theorem spent_of_closed (hc : tables.Constrained) {invite : ScoreInvite}
    (hmem : invite ∈ tables.invites) (hclosed : invite.displayStatus tables.now ≠ .pending) :
    tables.Spent invite.inviteUuid := by
  refine ⟨hc.drawn invite hmem, fun other hother huuid => ?_⟩
  rw [List.inj_on_of_nodup_map hc.invites hother hmem huuid]
  exact hclosed

/-- The states that come after. -/
def Later (service : InviteService) (tables : InviteTables) : InviteTables → Prop :=
  Reachable (· = tables) (Step service)

theorem follows_later (h : tables.Later service tables') : tables.Follows tables' := by
  refine h.invariant (p := tables.Follows) ?_ fun _ _ _ hf hs => hf.trans (follows_next hs)
  rintro _ rfl
  exact .refl _

/-! ## Acceptances -/

/-- A user accepts an invite, with its token or from the list of pending ones. -/
def Accepts (service : InviteService) (tables : InviteTables) (invite : ScoreInvite) (userId : Int)
    (answer : InviteAcceptRead) (tables' : InviteTables) : Prop :=
  (∃ token, tables.inviteByTokenHash (service.sha256 token) = some invite ∧
      service.acceptInvite tables token userId = (.ok answer, tables')) ∨
    tables.inviteByUuid invite.inviteUuid = some invite ∧
      service.acceptPendingInvite tables invite.inviteUuid userId = (.ok answer, tables')

variable {invite : ScoreInvite} {userId : Int} {answer : InviteAcceptRead}

/-- Only a pending invite is accepted. -/
theorem accepts_cases (h : Accepts service tables invite userId answer tables') :
    invite ∈ tables.invites ∧ invite.displayStatus tables.now = .pending ∧
      service.acceptInviteRecord tables invite userId = (.ok answer, tables') := by
  obtain ⟨token, hfind, haccept⟩ | ⟨hfind, haccept⟩ := h
  · unfold InviteService.acceptInvite InviteService.inviteByToken at haccept
    rw [hfind] at haccept
    dsimp only at haccept
    split at haccept
    · simp at haccept
    · rename_i found tables₁ hopen
      obtain ⟨rfl, rfl, hpending⟩ := openInvite_ok hopen
      exact ⟨find_mem hfind, hpending, haccept⟩
  · unfold InviteService.acceptPendingInvite InviteService.inviteByUuid at haccept
    rw [hfind] at haccept
    dsimp only at haccept
    split at haccept
    · simp at haccept
    · rename_i found tables₁ hopen
      obtain ⟨rfl, rfl, hpending⟩ := openInvite_ok hopen
      split at haccept
      · simp at haccept
      · exact ⟨find_mem hfind, hpending, haccept⟩

/-- Three ways to accept: as the owner, with a membership row, and with none. -/
theorem acceptInviteRecord_cases
    (h : service.acceptInviteRecord tables invite userId = (.ok answer, tables')) :
    ∃ score, tables.score invite.scoreId = some score ∧
      (score.ownerUserId = userId ∧ answer.role = .editor ∧
          tables' = InviteService.markAccepted tables invite.inviteUuid userId ∨
        score.ownerUserId ≠ userId ∧
          ((∃ membership, tables.membershipRow invite.scoreId userId = some membership ∧
              answer.role = (if invite.role.rank > membership.role.rank then invite.role
                else membership.role) ∧
              tables' = InviteService.markAccepted (tables.saveMembership membership.id
                ({ · with revokedAt := none, role := answer.role })) invite.inviteUuid userId) ∨
            tables.membershipRow invite.scoreId userId = none ∧ answer.role = invite.role ∧
              tables' = InviteService.markAccepted
                (tables.addMembership invite.scoreId userId invite.role) invite.inviteUuid
                userId)) := by
  unfold InviteService.acceptInviteRecord at h
  split at h
  · simp at h
  · split at h
    · simp at h
    · rename_i score hscore
      refine ⟨score, hscore, ?_⟩
      split_ifs at h with howner
      · obtain ⟨hanswer, rfl⟩ := Prod.mk.inj h
        cases hanswer
        exact .inl ⟨howner, rfl, rfl⟩
      · refine .inr ⟨howner, ?_⟩
        split at h
        · rename_i membership hrow
          obtain ⟨hanswer, rfl⟩ := Prod.mk.inj h
          cases hanswer
          exact .inl ⟨membership, hrow, rfl, rfl⟩
        · rename_i hrow
          obtain ⟨hanswer, rfl⟩ := Prod.mk.inj h
          cases hanswer
          exact .inr ⟨hrow, rfl, rfl⟩

/-! ## The user's standing -/

/-- The role that a user has: the owner may do what an editor may, and else it is
the role of a membership that is not revoked. -/
def standing (tables : InviteTables) (score : Score) (userId : Int) : Option MembershipRole :=
  if score.ownerUserId = userId then some .editor
  else (tables.access.membership score userId).map (·.role)

end InviteTables

/-- The higher of a role and one that there may be. -/
def MembershipRole.higher (role : MembershipRole) : Option MembershipRole → MembershipRole
  | none => role
  | some other => if role.rank > other.rank then role else other

theorem MembershipRole.eq_of_rank_le {role other : MembershipRole} (h : role.rank ≤ other.rank)
    (h' : ¬other.rank > role.rank) : role = other := by
  cases role with
  | viewer => cases other with
    | viewer => rfl
    | editor => exact absurd (by decide) h'
  | editor => cases other with
    | viewer => exact absurd h (by decide)
    | editor => rfl

namespace InviteTables

/-- The user has the higher of the invited role and the one that the user had, and
is told so. -/
def GivesHigher (tables : InviteTables) (score : Score) (invite : ScoreInvite) (userId : Int)
    (answer : InviteAcceptRead) (tables' : InviteTables) : Prop :=
  tables'.standing score userId = some (invite.role.higher (tables.standing score userId)) ∧
    answer.role = invite.role.higher (tables.standing score userId)

/-- No revoked membership of the user has a role above the invited one. -/
def NoStaleRole (tables : InviteTables) (score : Score) (invite : ScoreInvite) (userId : Int) :
    Prop :=
  score.ownerUserId ≠ userId → ∀ membership ∈ tables.memberships,
    membership.scoreId = score.id → membership.userId = userId → membership.revokedAt ≠ none →
      membership.role.rank ≤ invite.role.rank

variable {service : InviteService} {tables tables' : InviteTables} {score : Score}
  {invite : ScoreInvite} {userId : Int} {answer : InviteAcceptRead} {membership : ScoreMembership}

theorem Constrained.membership_eq (hc : tables.Constrained) {other : ScoreMembership}
    (hm : membership ∈ tables.memberships) (ho : other ∈ tables.memberships)
    (hscore : membership.scoreId = other.scoreId) (huser : membership.userId = other.userId) :
    membership = other :=
  List.inj_on_of_nodup_map hc.members hm ho (by simp only [hscore, huser])

theorem membershipRow_cases {scoreId : ScoreId}
    (h : tables.membershipRow scoreId userId = some membership) :
    membership ∈ tables.memberships ∧ membership.scoreId = scoreId ∧
      membership.userId = userId := by
  unfold membershipRow at h
  have hfound := List.find?_some h
  obtain ⟨hscore, huser⟩ := of_decide_eq_true hfound
  exact ⟨List.mem_of_find?_eq_some h, hscore, huser⟩

/-- The row that a user has for a score is the membership if it is not revoked. -/
theorem membership_of_mem (hc : tables.Constrained) (hm : membership ∈ tables.memberships)
    (hscore : membership.scoreId = score.id) (huser : membership.userId = userId) :
    tables.access.membership score userId =
      if membership.revokedAt = none then some membership else none := by
  unfold AccessTables.membership
  cases hfind : tables.access.memberships.find? fun membership =>
      membership.scoreId = score.id ∧ membership.userId = userId ∧ membership.revokedAt = none with
  | none =>
    rw [if_neg]
    intro hactive
    exact List.find?_eq_none.mp hfind membership hm (decide_eq_true ⟨hscore, huser, hactive⟩)
  | some other =>
    have hfound := List.find?_some hfind
    obtain ⟨hscore', huser', hactive⟩ := of_decide_eq_true hfound
    obtain rfl := hc.membership_eq hm (List.mem_of_find?_eq_some hfind)
      (hscore.trans hscore'.symm) (huser.trans huser'.symm)
    rw [if_pos hactive]

theorem membership_of_no_row (hnone : tables.membershipRow score.id userId = none) :
    tables.access.membership score userId = none := by
  refine List.find?_eq_none.mpr fun membership hmem hsame => ?_
  obtain ⟨hscore, huser, -⟩ := of_decide_eq_true hsame
  exact List.find?_eq_none.mp hnone membership hmem (decide_eq_true ⟨hscore, huser⟩)

/-- A user with a membership row gets the higher of its role and the invited one,
revoked or not. -/
theorem givesHigher_of_row (hc : tables.Constrained) (howner : score.ownerUserId ≠ userId)
    (hrow : tables.membershipRow score.id userId = some membership)
    (hrole : answer.role =
      if invite.role.rank > membership.role.rank then invite.role else membership.role)
    (htables : tables' = InviteService.markAccepted (tables.saveMembership membership.id
      ({ · with revokedAt := none, role := answer.role })) invite.inviteUuid userId) :
    GivesHigher tables score invite userId answer tables' ↔
      NoStaleRole tables score invite userId := by
  obtain ⟨hm, hscore, huser⟩ := membershipRow_cases hrow
  have hafter : tables'.standing score userId = some answer.role := by
    have hfollows : tables.Follows tables' := by
      have hsave : tables.Follows (tables.saveMembership membership.id
          ({ · with revokedAt := none, role := answer.role })) :=
        follows_saveMembership _ (fun _ => rfl) (fun _ => rfl) fun _ => rfl
      rw [htables]
      exact hsave.trans (follows_markAccepted _ _)
    have hmem : { membership with revokedAt := none, role := answer.role } ∈
        tables'.memberships := by
      rw [htables]
      exact List.mem_map.mpr ⟨membership, hm, if_pos rfl⟩
    rw [standing, if_neg howner, membership_of_mem (hfollows.constrained hc) hmem hscore huser]
    rfl
  have hbefore : tables.standing score userId =
      if membership.revokedAt = none then some membership.role else none := by
    rw [standing, if_neg howner, membership_of_mem hc hm hscore huser]
    split_ifs
    · rfl
    · rfl
  rw [GivesHigher, hafter, Option.some_inj, and_self, hbefore]
  by_cases hactive : membership.revokedAt = none
  · rw [if_pos hactive]
    refine ⟨fun _ _ other hother hscore' huser' hrevoked => ?_, fun _ => hrole⟩
    obtain rfl := hc.membership_eq hm hother (hscore.trans hscore'.symm)
      (huser.trans huser'.symm)
    exact absurd hactive hrevoked
  · rw [if_neg hactive]
    show answer.role = invite.role ↔ _
    constructor
    · intro hinvited _ other hother hscore' huser' _
      obtain rfl := hc.membership_eq hm hother (hscore.trans hscore'.symm)
        (huser.trans huser'.symm)
      rw [hrole] at hinvited
      split_ifs at hinvited with hhigher
      · exact hhigher.le
      · rw [hinvited]
    · intro hstale
      have hle := hstale howner membership hm hscore huser hactive
      rw [hrole]
      split_ifs with hhigher
      · rfl
      · exact MembershipRole.eq_of_rank_le hle hhigher

/-- An acceptance gives the higher of the invited role and the one that the user
had exactly if no revoked membership of the user has a role above. -/
theorem accept_standing_iff (hc : tables.Constrained)
    (h : Accepts service tables invite userId answer tables') :
    ∃ score, tables.score invite.scoreId = some score ∧
      (GivesHigher tables score invite userId answer tables' ↔
        NoStaleRole tables score invite userId) := by
  obtain ⟨hmem, -, haccept⟩ := accepts_cases h
  obtain ⟨score, hscore, hcases⟩ := acceptInviteRecord_cases haccept
  have hid : score.id = invite.scoreId := find_key hscore
  refine ⟨score, hscore, ?_⟩
  obtain ⟨howner, hrole, rfl⟩ | ⟨howner, hrow | ⟨hnone, hrole, rfl⟩⟩ := hcases
  · -- the owner stays what the owner is
    refine ⟨fun _ hother => absurd howner hother, fun _ => ?_⟩
    have hhigher : invite.role.higher (some .editor) = .editor := by
      cases invite.role <;> rfl
    rw [GivesHigher, standing, standing, if_pos howner, if_pos howner, hhigher]
    exact ⟨rfl, hrole⟩
  · obtain ⟨membership, hrow, hrole, htables⟩ := hrow
    rw [← hid] at hrow
    exact givesHigher_of_row hc howner hrow hrole htables
  · rw [← hid] at hnone
    have hbefore : tables.standing score userId = none := by
      rw [standing, if_neg howner, membership_of_no_row hnone]
      rfl
    refine ⟨fun _ _ membership hm hscore' huser _ => ?_, fun _ => ?_⟩
    · exact absurd (decide_eq_true ⟨hscore', huser⟩)
        (List.find?_eq_none.mp hnone membership hm)
    · have hfollows := (follows_addMembership invite.role (hid ▸ hnone)).trans
        (follows_markAccepted invite.inviteUuid userId)
      have hadded : (⟨tables.nextMembershipId, invite.scoreId, userId, invite.role, none⟩ :
          ScoreMembership) ∈ (InviteService.markAccepted
            (tables.addMembership invite.scoreId userId invite.role) invite.inviteUuid
            userId).memberships :=
        List.mem_append_right _ (List.mem_singleton_self _)
      refine ⟨?_, by rw [hrole, hbefore]; rfl⟩
      rw [hbefore, standing, if_neg howner,
        membership_of_mem (hfollows.constrained hc) hadded hid.symm rfl]
      rfl

/-! ## Runs -/

/-- An invite of this uuid is not accepted any more. -/
def NeverAgain (service : InviteService) (tables : InviteTables) (inviteUuid : String) : Prop :=
  ∀ tables', tables.Later service tables' → ∀ invite userId answer tables'',
    invite.inviteUuid = inviteUuid → ¬Accepts service tables' invite userId answer tables''

theorem neverAgain_of_spent {inviteUuid : String} (h : tables.Spent inviteUuid) :
    tables.NeverAgain service inviteUuid := by
  intro tables' hlater invite userId answer tables'' huuid haccepts
  obtain ⟨hmem, hpending, -⟩ := accepts_cases haccepts
  exact (h.mono (follows_later hlater)).2 invite hmem huuid hpending

theorem spent_of_accepts (hc : tables.Constrained)
    (h : Accepts service tables invite userId answer tables') :
    tables'.Spent invite.inviteUuid := by
  obtain ⟨hmem, -, haccept⟩ := accepts_cases h
  obtain ⟨drawn, hdrawn, hsame⟩ := hc.drawn invite hmem
  have hfollows : tables.Follows (service.acceptInviteRecord tables invite userId).2 :=
    follows_acceptInviteRecord invite userId
  rw [haccept] at hfollows
  refine ⟨⟨drawn, hfollows.issued drawn hdrawn, hsame⟩, fun other hother huuid hpending => ?_⟩
  have hinvites : tables'.invites = update ScoreInvite.inviteUuid invite.inviteUuid ({ · with
      status := .accepted, acceptedByUserId := some userId, acceptedAt := some tables.now })
      tables.invites := by
    obtain ⟨score, -, ⟨-, -, rfl⟩ | ⟨-, ⟨membership, -, -, rfl⟩ | ⟨-, -, rfl⟩⟩⟩ :=
      acceptInviteRecord_cases haccept
    · rfl
    · rfl
    · rfl
  rw [hinvites] at hother
  obtain ⟨-, hne⟩ | ⟨old, -, -, rfl⟩ := mem_update hother
  · exact hne huuid
  · have hstatus := (ScoreInvite.displayStatus_eq_pending.mp hpending).1
    simp at hstatus

/-- In every run: an acceptance gives the higher of the invited role and the one
that the user had exactly if no revoked membership of the user has a role above
the invited one; and an invite that is accepted, declined, revoked or expired is
never accepted again. -/
theorem invite_acceptance (service : InviteService) {start tables : InviteTables}
    (hstart : start.Constrained) (hlater : start.Later service tables) :
    (∀ invite userId answer tables', Accepts service tables invite userId answer tables' →
      (∃ score, tables.score invite.scoreId = some score ∧
        (GivesHigher tables score invite userId answer tables' ↔
          NoStaleRole tables score invite userId)) ∧
      tables'.NeverAgain service invite.inviteUuid) ∧
    ∀ invite ∈ tables.invites, invite.displayStatus tables.now ≠ .pending →
      tables.NeverAgain service invite.inviteUuid := by
  have hc := (follows_later hlater).constrained hstart
  refine ⟨fun invite userId answer tables' haccepts => ⟨accept_standing_iff hc haccepts, ?_⟩,
    fun invite hmem hclosed => neverAgain_of_spent (spent_of_closed hc hmem hclosed)⟩
  exact neverAgain_of_spent (spent_of_accepts hc haccepts)

def plainInvites : InviteService := ⟨id, id⟩

/-- A score of user 1, and user 2. -/
def uninvited : InviteTables where
  access := {
    scores := {
      scores := [⟨1, "score", 1, "Etude", some 1, none, 1, .active⟩]
      revisions := [⟨1, "first", 1, 1, none, none, "", none, .imported, none, none⟩]
      sources := [], nextScoreId := 2, nextRevisionId := 2 }
    memberships := [], grants := [], redemptions := [], publications := [] }
  invites := []
  users := [⟨1, "owner@example.com"⟩, ⟨2, "guest@example.com"⟩]
  nextMembershipId := 1
  issued := []
  now := 0

theorem uninvited_constrained : uninvited.Constrained where
  invites := by decide
  drawn := fun _ h => nomatch h
  members := by decide
  memberIds := by decide
  membersBelow := fun _ h => nomatch h

/-- The guest is invited as an editor. -/
def invited : InviteTables :=
  (plainInvites.createInvite uninvited "score" 1 ⟨"guest@example.com", .editor, none⟩
    "first-invite" "first").2

def editorInvite : ScoreInvite :=
  ⟨"first-invite", 1, "first", some "guest@example.com", .editor, .pending, 1, none, none, none,
    none, none⟩

theorem invited_later : uninvited.Later plainInvites invited :=
  .step (a := .createInvite "score" 1 ⟨"guest@example.com", .editor, none⟩ "first-invite" "first")
    (.start rfl) rfl

/-- The guest accepts and gets the role of an editor. -/
theorem invite_acceptance_editor :
    ∃ answer tables', Accepts plainInvites invited editorInvite 2 answer tables' ∧
      tables'.NeverAgain plainInvites "first-invite" ∧
      ∃ score, invited.score 1 = some score ∧
        GivesHigher invited score editorInvite 2 answer tables' := by
  have haccepts : Accepts plainInvites invited editorInvite 2 ⟨"score", .editor, some 1⟩
      (plainInvites.acceptInvite invited "first" 2).2 :=
    .inl ⟨"first", by decide, by decide⟩
  obtain ⟨⟨score, hscore, hgives⟩, hnever⟩ :=
    (invite_acceptance plainInvites uninvited_constrained invited_later).1 _ _ _ _ haccepts
  refine ⟨_, _, haccepts, hnever, score, hscore, hgives.mpr fun _ membership hmem => ?_⟩
  exact absurd hmem (List.not_mem_nil)

/-- The guest accepts, is removed, and is invited again as a viewer. -/
def joined : InviteTables := (plainInvites.acceptInvite invited "first" 2).2

def removed : InviteTables := (plainInvites.removeMember joined "score" 1 1).2

def reinvited : InviteTables :=
  (plainInvites.createInvite removed "score" 1 ⟨"guest@example.com", .viewer, none⟩
    "second-invite" "second").2

def viewerInvite : ScoreInvite :=
  ⟨"second-invite", 1, "second", some "guest@example.com", .viewer, .pending, 1, none, none, none,
    none, none⟩

theorem reinvited_later : uninvited.Later plainInvites reinvited := by
  have hjoined : uninvited.Later plainInvites joined :=
    .step (a := .acceptInvite "first" 2) invited_later rfl
  have hremoved : uninvited.Later plainInvites removed :=
    .step (a := .removeMember "score" 1 1) hjoined rfl
  refine .step (a := .createInvite "score" 1 ⟨"guest@example.com", .viewer, none⟩ "second-invite"
    "second") hremoved ?_
  show removed.next plainInvites _ = some reinvited
  decide

/-- The role of a revoked membership comes back: the guest is invited as a viewer
and gets the role of an editor. -/
theorem revoked_role_comes_back :
    ∃ tables, uninvited.Later plainInvites tables ∧ ∃ answer tables',
      Accepts plainInvites tables viewerInvite 2 answer tables' ∧
      ∃ score, tables.score viewerInvite.scoreId = some score ∧
        tables.standing score 2 = none ∧ tables'.standing score 2 = some .editor ∧
        ¬GivesHigher tables score viewerInvite 2 answer tables' := by
  refine ⟨reinvited, reinvited_later, ⟨"score", .editor, some 1⟩,
    (plainInvites.acceptInvite reinvited "second" 2).2,
    .inl ⟨"second", by decide, by decide⟩,
    ⟨1, "score", 1, "Etude", some 1, none, 1, .active⟩, by decide, by decide,
    by decide, fun hgives => ?_⟩
  exact absurd hgives.2 (by decide)

end InviteTables

end NoteVerse.Backend

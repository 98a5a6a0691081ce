import NoteVerse.Backend.ScoreAccess
import NoteVerse.Lib.Lists
import NoteVerse.Lib.Python

/-!
# What the access policy gives

Every access comes from a source that is in force, and edit capability from
ownership or an editor's membership only (`access_sound`). A source more does
not always give more: the first one that applies answers alone, so a grant takes
away what a grant or a publication after it would have given
(`access_policy` says exactly when; `weak_grant_shadows` are such requests).
-/

namespace NoteVerse.Backend

open Table

namespace AccessTables

variable {sha256 : String → String} {tables : AccessTables} {scoreUuid : String}
  {request : AccessRequest} {now : Int} {score : Score} {requestedRevision : ScoreRevision}
  {grant : ScoreShareGrant}

/-- A grant is in force. -/
structure InForce (tables : AccessTables) (score : Score) (now : Int) (grant : ScoreShareGrant) :
    Prop where
  mem : grant ∈ tables.grants
  score : grant.scoreId = score.id
  notRevoked : grant.revokedAt = none
  current : grant.current now

theorem validGrant_inForce {token : String}
    (h : tables.validGrant sha256 score token now = some grant) :
    InForce tables score now grant ∧ grant.tokenHash = sha256 token := by
  obtain ⟨hfind, hvalid⟩ := Option.filter_eq_some_iff.mp h
  have hfound := List.find?_some hfind
  obtain ⟨hscore, hhash⟩ := of_decide_eq_true hfound
  obtain ⟨hrevoked, hcurrent⟩ := of_decide_eq_true hvalid
  exact ⟨⟨List.mem_of_find?_eq_some hfind, hscore, hrevoked, hcurrent⟩, hhash⟩

theorem mem_redeemedGrants {userId : Int} (h : grant ∈ tables.redeemedGrants score userId) :
    grant ∈ tables.grants ∧ grant.scoreId = score.id ∧ grant.revokedAt = none ∧
      ∃ redemption ∈ tables.redemptions, redemption.userId = userId ∧
        redemption.grantId = grant.id := by
  obtain ⟨redemption, hmem, h⟩ := List.mem_filterMap.mp h
  obtain ⟨hmem, huser⟩ := List.mem_filter.mp hmem
  obtain ⟨hfind, hvalid⟩ := Option.filter_eq_some_iff.mp h
  obtain ⟨hscore, hrevoked⟩ := of_decide_eq_true hvalid
  exact ⟨find_mem hfind, hscore, hrevoked, redemption, (List.mem_insertionSort _).mp hmem,
    of_decide_eq_true huser, (find_key hfind).symm⟩

theorem validRedeemedGrant_inForce {userId : Int}
    (h : tables.validRedeemedGrant score userId now = some grant) :
    InForce tables score now grant ∧ ∃ redemption ∈ tables.redemptions,
      redemption.userId = userId ∧ redemption.grantId = grant.id := by
  obtain ⟨hmem, hscore, hrevoked, hredemption⟩ :=
    mem_redeemedGrants (List.mem_of_find?_eq_some h)
  unfold validRedeemedGrant at h
  have hcurrent := List.find?_some h
  exact ⟨⟨hmem, hscore, hrevoked, hcurrent⟩, hredemption⟩

/-! ## Soundness -/

/-- Where an access comes from. -/
structure AccessSound (sha256 : String → String) (tables : AccessTables) (request : AccessRequest)
    (now : Int) (access : ScoreAccessContext) : Prop where
  edit : access.capabilities.canEdit → request.userId = some access.score.ownerUserId ∨
    ∃ membership ∈ tables.memberships, membership.scoreId = access.score.id ∧
      request.userId = some membership.userId ∧ membership.role = .editor ∧
      membership.revokedAt = none
  owner : access.origin = .owner → request.userId = some access.score.ownerUserId
  membership : access.origin = .membership →
    ∃ membership ∈ tables.memberships, membership.scoreId = access.score.id ∧
      request.userId = some membership.userId ∧ membership.revokedAt = none
  share : access.origin = .share →
    (∃ grant, InForce tables access.score now grant ∧
      ((∃ redemption ∈ tables.redemptions, request.userId = some redemption.userId ∧
        redemption.grantId = grant.id) ∨
      ∃ token, truthy request.shareToken = some token ∧ grant.tokenHash = sha256 token) ∧
      access.capabilities = .link grant.allowDownload grant.allowPractice) ∧
    tables.scores.head access.score = some access.revision
  publication : access.origin = .publication →
    ∃ publication ∈ tables.publications, publication.scoreId = access.score.id ∧
      truthy request.publicSlug = some publication.publicSlug ∧
      publication.status = .published ∧
      access.capabilities = .link publication.allowDownload publication.allowPractice ∧
      access.revision.id = publication.publishedRevisionId
  /-- If a revision is asked for, it is the one that is given. -/
  revision : ∀ requested, request.revisionUuid ≠ none →
    tables.revision access.score request.revisionUuid = .ok requested →
      access.revision.id = requested.id

theorem grantRevision_head {revision : ScoreRevision}
    (h : tables.grantRevision score = .ok revision) : tables.scores.head score = some revision := by
  unfold grantRevision at h
  split at h
  · cases h
  · rename_i head hhead
    split_ifs at h
    cases h
    exact hhead

variable {access : ScoreAccessContext}

theorem shareAccess_sound
    (hrequested : tables.revision score request.revisionUuid = .ok requestedRevision)
    (hs : tables.shareAccess score requestedRevision request.revisionUuid grant = some (.ok access))
    (hforce : InForce tables score now grant)
    (hsource : (∃ redemption ∈ tables.redemptions, request.userId = some redemption.userId ∧
        redemption.grantId = grant.id) ∨
      ∃ token, truthy request.shareToken = some token ∧ grant.tokenHash = sha256 token) :
    AccessSound sha256 tables request now access := by
  unfold shareAccess at hs
  split at hs
  · cases hs
  · rename_i target htarget
    split_ifs at hs with happlies
    cases hs
    exact {
      edit := fun h => absurd h Bool.false_ne_true
      owner := fun h => nomatch h
      membership := fun h => nomatch h
      share := fun _ => ⟨⟨grant, hforce, hsource, rfl⟩, grantRevision_head htarget⟩
      publication := fun h => nomatch h
      revision := fun requested hne hrev => by
        rw [hrequested] at hrev
        cases hrev
        exact happlies.resolve_left hne }

theorem resolveLinks_sound
    (hrequested : tables.revision score request.revisionUuid = .ok requestedRevision)
    (hs : tables.resolveLinks sha256 score request now requestedRevision = .ok access) :
    AccessSound sha256 tables request now access := by
  unfold resolveLinks at hs
  simp only at hs
  split at hs
  · rename_i result hoffer
    subst hs
    obtain ⟨grant, hgrant, hshare⟩ := Option.bind_eq_some_iff.mp hoffer
    obtain ⟨userId, huser, hredeemed⟩ := Option.bind_eq_some_iff.mp hgrant
    obtain ⟨hforce, redemption, hmem, hredemptionUser, hid⟩ := validRedeemedGrant_inForce hredeemed
    exact shareAccess_sound hrequested hshare hforce
      (.inl ⟨redemption, hmem, hredemptionUser ▸ huser, hid⟩)
  · split at hs
    · rename_i result hoffer
      subst hs
      obtain ⟨grant, hgrant, hshare⟩ := Option.bind_eq_some_iff.mp hoffer
      obtain ⟨token, htoken, hvalid⟩ := Option.bind_eq_some_iff.mp hgrant
      obtain ⟨hforce, hhash⟩ := validGrant_inForce hvalid
      exact shareAccess_sound hrequested hshare hforce (.inr ⟨token, htoken, hhash⟩)
    · split at hs
      · rename_i result hoffer
        subst hs
        obtain ⟨publication, hpublication, hoffer⟩ := Option.bind_eq_some_iff.mp hoffer
        obtain ⟨slug, hslug, hfind⟩ := Option.bind_eq_some_iff.mp hpublication
        unfold AccessTables.publication at hfind
        have hfound := List.find?_some hfind
        obtain ⟨hscore, hsame, hstatus⟩ := of_decide_eq_true hfound
        unfold publicationAccess at hoffer
        split_ifs at hoffer with happlies
        have hoffer := Option.some_inj.mp hoffer
        split at hoffer
        · cases hoffer
        · rename_i revision hrevision
          cases hoffer
          have hid : revision.id = publication.publishedRevisionId := find_key hrevision
          exact {
            edit := fun h => absurd h Bool.false_ne_true
            owner := fun h => nomatch h
            membership := fun h => nomatch h
            share := fun h => nomatch h
            publication := fun _ => ⟨publication, List.mem_of_find?_eq_some hfind, hscore,
              hsame ▸ hslug, hstatus, rfl, hid⟩
            revision := fun requested hne hrev => by
              rw [hrequested] at hrev
              cases hrev
              exact hid.trans (happlies.resolve_left hne) }
      · cases hs

theorem access_sound (hs : tables.resolve sha256 scoreUuid request now = .ok access) :
    AccessSound sha256 tables request now access := by
  unfold resolve at hs
  split at hs
  · cases hs
  · rename_i score hscore
    obtain ⟨requestedRevision, hrequested, hs⟩ := Python.bind_eq_ok.mp hs
    have hrevision : ∀ requested, request.revisionUuid ≠ none →
        tables.revision score request.revisionUuid = .ok requested →
          requestedRevision.id = requested.id := by
      intro requested _ hrev
      rw [hrequested] at hrev
      cases hrev
      rfl
    split_ifs at hs with howner
    · cases hs
      exact {
        edit := fun _ => .inl howner
        owner := fun _ => howner
        membership := fun h => nomatch h
        share := fun h => nomatch h
        publication := fun h => nomatch h
        revision := hrevision }
    · split at hs
      · rename_i membership hmembership
        cases hs
        obtain ⟨userId, huser, hfind⟩ := Option.bind_eq_some_iff.mp hmembership
        unfold AccessTables.membership at hfind
        have hfound := List.find?_some hfind
        obtain ⟨hsame, hmember, hrevoked⟩ := of_decide_eq_true hfound
        have hmem := List.mem_of_find?_eq_some hfind
        rw [← hmember] at huser
        exact {
          edit := fun hedit => .inr ⟨membership, hmem, hsame, huser, of_decide_eq_true hedit, hrevoked⟩
          owner := fun h => nomatch h
          membership := fun _ => ⟨membership, hmem, hsame, huser, hrevoked⟩
          share := fun h => nomatch h
          publication := fun h => nomatch h
          revision := hrevision }
      · exact resolveLinks_sound hrequested hs

/-! ## Sources in their order -/

/-- An action is allowed by what a request gets. -/
def Grants (result : Except AccessError ScoreAccessContext) (action : ScoreAction) : Prop :=
  ∃ access, result = .ok access ∧ access.capabilities.allows action

/-- All that is allowed by one result is allowed by another. -/
def Keeps (before after : Except AccessError ScoreAccessContext) : Prop :=
  ∀ action, Grants before action → Grants after action

/-- What is allowed is what `authorize` lets through. -/
theorem grants_iff {action : ScoreAction} :
    Grants (tables.resolve sha256 scoreUuid request now) action ↔
      ∃ access, tables.authorize sha256 scoreUuid action request now = .ok access := by
  unfold authorize Grants
  constructor
  · rintro ⟨access, haccess, hallows⟩
    refine ⟨access, ?_⟩
    rw [haccess]
    exact if_pos hallows
  · rintro ⟨access, h⟩
    obtain ⟨access', haccess, h⟩ := Python.bind_eq_ok.mp h
    split_ifs at h with hallows
    exact ⟨access', haccess, hallows⟩

theorem Keeps.refl (result : Except AccessError ScoreAccessContext) : Keeps result result :=
  fun _ h => h

theorem keeps_error (error : AccessError) (after : Except AccessError ScoreAccessContext) :
    Keeps (.error error) after := by
  rintro action ⟨access, h, -⟩
  cases h

/-- What one link allows, another one does. -/
def LinkLe (allowDownload allowPractice allowDownload' allowPractice' : Bool) : Prop :=
  (allowDownload → allowDownload') ∧ (allowPractice → allowPractice')

theorem keeps_link_iff {access' : ScoreAccessContext} {d p d' p' : Bool}
    (h : access.capabilities = .link d p) (h' : access'.capabilities = .link d' p') :
    Keeps (.ok access) (.ok access') ↔ LinkLe d p d' p' := by
  have hgrants : ∀ action, Grants (.ok access) action ↔
      (ScoreCapabilities.link d p).allows action := by
    intro action
    rw [← h]
    exact ⟨fun ⟨_, e, ha⟩ => Except.ok.inj e ▸ ha, fun ha => ⟨access, rfl, ha⟩⟩
  have hgrants' : ∀ action, Grants (.ok access') action ↔
      (ScoreCapabilities.link d' p').allows action := by
    intro action
    rw [← h']
    exact ⟨fun ⟨_, e, ha⟩ => Except.ok.inj e ▸ ha, fun ha => ⟨access', rfl, ha⟩⟩
  simp only [Keeps, hgrants, hgrants']
  constructor
  · intro hk
    exact ⟨hk .download, hk .practice⟩
  · rintro ⟨hd, hp⟩ action ha
    cases action with
    | view => rfl
    | download => exact hd ha
    | practice => exact hp ha
    | _ => exact absurd ha Bool.false_ne_true

theorem not_keeps_link_error {d p : Bool} (h : access.capabilities = .link d p)
    (error : AccessError) : ¬Keeps (.ok access) (.error error) := by
  intro hk
  obtain ⟨access', he, -⟩ := hk .view ⟨access, rfl, by rw [h]; rfl⟩
  cases he

/-- The first source that applies. -/
def firstAccess : List (Option (Except AccessError ScoreAccessContext)) →
    Except AccessError ScoreAccessContext
  | [] => .error (.unauthorized "no_access" none)
  | some access :: _ => access
  | none :: rest => firstAccess rest

/-- The grants and the publication that a request comes with. -/
def redeemedOf (tables : AccessTables) (score : Score) (request : AccessRequest) (now : Int) :
    Option ScoreShareGrant :=
  request.userId.bind fun userId => tables.validRedeemedGrant score userId now

def tokenGrantOf (sha256 : String → String) (tables : AccessTables) (score : Score)
    (request : AccessRequest) (now : Int) : Option ScoreShareGrant :=
  (truthy request.shareToken).bind fun token => tables.validGrant sha256 score token now

def publicationOf (tables : AccessTables) (score : Score) (request : AccessRequest) :
    Option ScorePublication :=
  (truthy request.publicSlug).bind fun publicSlug => tables.publication score publicSlug

theorem resolveLinks_eq : tables.resolveLinks sha256 score request now requestedRevision =
    firstAccess [
      (tables.redeemedOf score request now).bind
        (tables.shareAccess score requestedRevision request.revisionUuid),
      (tables.tokenGrantOf sha256 score request now).bind
        (tables.shareAccess score requestedRevision request.revisionUuid),
      (tables.publicationOf score request).bind
        (tables.publicationAccess score requestedRevision request.revisionUuid)] := by
  simp only [resolveLinks, redeemedOf, tokenGrantOf, publicationOf]
  split
  · rename_i access h
    rw [h, firstAccess]
  · rename_i h
    rw [h, firstAccess]
    split
    · rename_i access h
      rw [h, firstAccess]
    · rename_i h
      rw [h, firstAccess]
      split
      · rename_i access h
        rw [h, firstAccess]
      · rename_i h
        rw [h, firstAccess]
        rfl

/-! ## A grant before other sources -/

/-- A source that is for one revision applies to a request. -/
def Applies (revisionUuid : Option String) (requestedRevision : ScoreRevision)
    (revisionId : RevisionId) : Prop :=
  revisionUuid = none ∨ revisionId = requestedRevision.id

/-- A grant allows all that another one does, if grants apply. -/
def CoversGrant (tables : AccessTables) (score : Score) (revisionUuid : Option String)
    (requestedRevision : ScoreRevision) (grant other : ScoreShareGrant) : Prop :=
  ∀ head, tables.grantRevision score = .ok head →
    Applies revisionUuid requestedRevision head.id →
    LinkLe other.allowDownload other.allowPractice grant.allowDownload grant.allowPractice

/-- A grant allows all that a publication does, if the publication applies: the
score has a head then, and the grant allows it or does not apply to what is
asked for. -/
def CoversPublication (tables : AccessTables) (score : Score) (revisionUuid : Option String)
    (requestedRevision : ScoreRevision) (grant : ScoreShareGrant)
    (publication : ScorePublication) : Prop :=
  Applies revisionUuid requestedRevision publication.publishedRevisionId →
    (tables.scores.revisionById publication.publishedRevisionId).isSome →
    ∃ head, tables.grantRevision score = .ok head ∧
      (Applies revisionUuid requestedRevision head.id →
        LinkLe publication.allowDownload publication.allowPractice grant.allowDownload
          grant.allowPractice)

theorem publicationAccess_of_applies {revisionUuid : Option String} {row : ScorePublication}
    (happlies : Applies revisionUuid requestedRevision row.publishedRevisionId) :
    tables.publicationAccess score requestedRevision revisionUuid row =
      some (match tables.scores.revisionById row.publishedRevisionId with
        | none => .error (.unauthorized "no_access" none)
        | some publishedRevision =>
          .ok {
            score, revision := publishedRevision, origin := .publication
            capabilities := .link row.allowDownload row.allowPractice
            membership := none, grant := none, publication := some row }) :=
  if_pos happlies

theorem publicationAccess_of_not_applies {revisionUuid : Option String} {row : ScorePublication}
    (hnot : ¬Applies revisionUuid requestedRevision row.publishedRevisionId) :
    tables.publicationAccess score requestedRevision revisionUuid row = none :=
  if_neg hnot

section

variable {revisionUuid : Option String} {other : ScoreShareGrant}
  {rest : List (Option (Except AccessError ScoreAccessContext))}

/-- All grants of a score fail, or none applies, or all apply. -/
theorem shareAccess_cases (tables : AccessTables) (score : Score)
    (requestedRevision : ScoreRevision) (revisionUuid : Option String) :
    (∃ error, tables.grantRevision score = .error error ∧ ∀ grant,
      tables.shareAccess score requestedRevision revisionUuid grant = some (.error error)) ∨
    ∃ head, tables.grantRevision score = .ok head ∧
      ((¬Applies revisionUuid requestedRevision head.id ∧ ∀ grant,
        tables.shareAccess score requestedRevision revisionUuid grant = none) ∨
      (Applies revisionUuid requestedRevision head.id ∧ ∀ grant, ∃ access,
        tables.shareAccess score requestedRevision revisionUuid grant = some (.ok access) ∧
          access.capabilities = .link grant.allowDownload grant.allowPractice)) := by
  simp only [shareAccess]
  cases hhead : tables.grantRevision score with
  | error error => exact .inl ⟨error, rfl, fun _ => rfl⟩
  | ok head =>
    refine .inr ⟨head, rfl, ?_⟩
    by_cases ha : Applies revisionUuid requestedRevision head.id
    · exact .inr ⟨ha, fun _ => ⟨_, if_pos ha, rfl⟩⟩
    · exact .inl ⟨ha, fun _ => if_neg ha⟩

theorem coversGrant_refl : tables.CoversGrant score revisionUuid requestedRevision grant grant :=
  fun _ _ _ => ⟨id, id⟩

/-- A grant before another one, which stays after it or goes. -/
theorem keeps_grant_iff {rest' : List (Option (Except AccessError ScoreAccessContext))}
    (hrest : rest' = rest ∨
      rest' = tables.shareAccess score requestedRevision revisionUuid other :: rest) :
    Keeps (firstAccess (tables.shareAccess score requestedRevision revisionUuid other :: rest))
      (firstAccess (tables.shareAccess score requestedRevision revisionUuid grant :: rest')) ↔
    tables.CoversGrant score revisionUuid requestedRevision grant other := by
  rcases shareAccess_cases tables score requestedRevision revisionUuid with
    ⟨error, hhead, hshare⟩ | ⟨head, hhead, ⟨hnot, hshare⟩ | ⟨happlies, hshare⟩⟩
  · rw [hshare, hshare, firstAccess, firstAccess]
    refine ⟨fun _ head' hhead' => ?_, fun _ => keeps_error _ _⟩
    rw [hhead] at hhead'
    cases hhead'
  · have hsame : firstAccess rest' = firstAccess rest := by
      rcases hrest with rfl | rfl
      · rfl
      · rw [hshare, firstAccess]
    rw [hshare, hshare, firstAccess, firstAccess, hsame]
    refine ⟨fun _ head' hhead' ha => ?_, fun _ => .refl _⟩
    rw [hhead] at hhead'
    cases hhead'
    exact absurd ha hnot
  · obtain ⟨access, haccess, hlink⟩ := hshare other
    obtain ⟨access', haccess', hlink'⟩ := hshare grant
    rw [haccess, haccess', firstAccess, firstAccess, keeps_link_iff hlink hlink']
    refine ⟨fun hle _ _ _ => hle, fun hcovers => hcovers head hhead happlies⟩

/-- A grant before a publication. -/
theorem keeps_publication_iff {publication : Option ScorePublication} :
    Keeps
      (firstAccess [publication.bind
        (tables.publicationAccess score requestedRevision revisionUuid)])
      (firstAccess [tables.shareAccess score requestedRevision revisionUuid grant,
        publication.bind (tables.publicationAccess score requestedRevision revisionUuid)]) ↔
    ∀ row, publication = some row →
      tables.CoversPublication score revisionUuid requestedRevision grant row := by
  cases publication with
  | none =>
    refine ⟨fun _ row h => ?_, fun _ => keeps_error _ _⟩
    cases h
  | some row =>
    simp only [Option.bind_some, Option.some_inj, forall_eq']
    by_cases happlies : Applies revisionUuid requestedRevision row.publishedRevisionId
    · cases hrevision : tables.scores.revisionById row.publishedRevisionId with
      | none =>
        have hbase : tables.publicationAccess score requestedRevision revisionUuid row =
            some (.error (.unauthorized "no_access" none)) := by
          rw [publicationAccess_of_applies happlies, hrevision]
        rw [hbase, firstAccess]
        refine ⟨fun _ _ hsome => ?_, fun _ => keeps_error _ _⟩
        rw [hrevision] at hsome
        cases hsome
      | some published =>
        obtain ⟨access, hbase, hlink⟩ : ∃ access,
            tables.publicationAccess score requestedRevision revisionUuid row =
              some (.ok access) ∧
            access.capabilities = .link row.allowDownload row.allowPractice := by
          rw [publicationAccess_of_applies happlies, hrevision]
          exact ⟨_, rfl, rfl⟩
        have hcovers : tables.CoversPublication score revisionUuid requestedRevision grant row ↔
            ∃ head, tables.grantRevision score = .ok head ∧
              (Applies revisionUuid requestedRevision head.id →
                LinkLe row.allowDownload row.allowPractice grant.allowDownload
                  grant.allowPractice) :=
          ⟨fun h => h happlies (Option.isSome_of_eq_some hrevision), fun h _ _ => h⟩
        rw [hbase, firstAccess, hcovers]
        rcases shareAccess_cases tables score requestedRevision revisionUuid with
          ⟨error, hhead, hshare⟩ | ⟨head, hhead, ⟨hnot, hshare⟩ | ⟨ha, hshare⟩⟩
        · rw [hshare, firstAccess]
          refine ⟨fun hk => absurd hk (not_keeps_link_error hlink error), ?_⟩
          rintro ⟨head, hhead', -⟩
          rw [hhead] at hhead'
          cases hhead'
        · rw [hshare, firstAccess, firstAccess]
          exact ⟨fun _ => ⟨head, hhead, fun ha => absurd ha hnot⟩, fun _ => .refl _⟩
        · obtain ⟨access', haccess', hlink'⟩ := hshare grant
          rw [haccess', firstAccess, keeps_link_iff hlink hlink']
          refine ⟨fun hle => ⟨head, hhead, fun _ => hle⟩, ?_⟩
          rintro ⟨head', hhead', hle⟩
          rw [hhead] at hhead'
          cases hhead'
          exact hle ha
    · rw [publicationAccess_of_not_applies happlies, firstAccess]
      exact ⟨fun _ h => absurd h happlies, fun _ => keeps_error _ _⟩

end

/-! ## A source more -/

theorem resolve_of_revision (hscore : tables.scores.activeScore scoreUuid = some score)
    (hrevision : tables.revision score request.revisionUuid = .ok requestedRevision) :
    tables.resolve sha256 scoreUuid request now =
      if request.userId = some score.ownerUserId then
        .ok {
          score, revision := requestedRevision, origin := .owner
          capabilities := .owner, membership := none, grant := none, publication := none }
      else
        match request.userId.bind (tables.membership score) with
        | some membership =>
          .ok {
            score, revision := requestedRevision, origin := .membership
            capabilities := .member (membership.role = .editor)
            membership := some membership, grant := none, publication := none }
        | none => tables.resolveLinks sha256 score request now requestedRevision := by
  unfold resolve
  rw [hscore]
  show (tables.revision score request.revisionUuid).bind _ = _
  rw [hrevision]
  rfl

/-- A request gets as far as its links. -/
structure ReachesLinks (tables : AccessTables) (scoreUuid : String) (request : AccessRequest)
    (score : Score) (requestedRevision : ScoreRevision) : Prop where
  active : tables.scores.activeScore scoreUuid = some score
  requested : tables.revision score request.revisionUuid = .ok requestedRevision
  notOwner : request.userId ≠ some score.ownerUserId
  notMember : request.userId.bind (tables.membership score) = none

theorem ReachesLinks.resolve_eq
    (h : ReachesLinks tables scoreUuid request score requestedRevision) :
    tables.resolve sha256 scoreUuid request now =
      tables.resolveLinks sha256 score request now requestedRevision := by
  rw [resolve_of_revision h.active h.requested, if_neg h.notOwner, h.notMember]

/-- Links count only for the requests that get as far. -/
theorem keeps_resolve_iff {redemptions : List ShareGrantRedemption}
    {shareToken publicSlug : Option String} :
    Keeps (tables.resolve sha256 scoreUuid request now)
      ({ tables with redemptions }.resolve sha256 scoreUuid
        { request with shareToken, publicSlug } now) ↔
    ∀ score requestedRevision, ReachesLinks tables scoreUuid request score requestedRevision →
      Keeps (tables.resolveLinks sha256 score request now requestedRevision)
        ({ tables with redemptions }.resolveLinks sha256 score
          { request with shareToken, publicSlug } now requestedRevision) := by
  have hreaches : ∀ {score requestedRevision},
      ReachesLinks tables scoreUuid request score requestedRevision →
      ReachesLinks { tables with redemptions } scoreUuid
        { request with shareToken, publicSlug } score requestedRevision :=
    fun h => ⟨h.active, h.requested, h.notOwner, h.notMember⟩
  constructor
  · intro hk score requestedRevision h
    rwa [h.resolve_eq, (hreaches h).resolve_eq] at hk
  · intro hk
    cases hscore : tables.scores.activeScore scoreUuid with
    | none =>
      unfold resolve
      rw [hscore]
      exact keeps_error _ _
    | some score =>
      cases hrevision : tables.revision score request.revisionUuid with
      | error error =>
        unfold resolve
        rw [hscore]
        show Keeps ((tables.revision score request.revisionUuid).bind _) _
        rw [hrevision]
        exact keeps_error _ _
      | ok requestedRevision =>
        have hrevision' : { tables with redemptions }.revision score
            { request with shareToken, publicSlug }.revisionUuid = .ok requestedRevision :=
          hrevision
        have hscore' : { tables with redemptions }.scores.activeScore scoreUuid = some score :=
          hscore
        by_cases howner : request.userId = some score.ownerUserId
        · rw [resolve_of_revision hscore hrevision, resolve_of_revision hscore' hrevision',
            if_pos howner, if_pos howner]
          exact .refl _
        · cases hmember : request.userId.bind (tables.membership score) with
          | some membership =>
            have hmember' : { request with shareToken, publicSlug }.userId.bind
                ({ tables with redemptions }.membership score) = some membership := hmember
            rw [resolve_of_revision hscore hrevision, resolve_of_revision hscore' hrevision',
              if_neg howner, if_neg howner, hmember, hmember']
            exact .refl _
          | none =>
            have h : ReachesLinks tables scoreUuid request score requestedRevision :=
              ⟨hscore, hrevision, howner, hmember⟩
            rw [h.resolve_eq, (hreaches h).resolve_eq]
            exact hk score requestedRevision h

section

variable {rest rest' : List (Option (Except AccessError ScoreAccessContext))}

/-- A grant after another grant is not asked. -/
theorem firstAccess_grants {redeemed : ScoreShareGrant} {token : Option ScoreShareGrant}
    {revisionUuid : Option String} :
    firstAccess (tables.shareAccess score requestedRevision revisionUuid redeemed ::
        token.bind (tables.shareAccess score requestedRevision revisionUuid) :: rest) =
      firstAccess (tables.shareAccess score requestedRevision revisionUuid redeemed :: rest) := by
  rcases shareAccess_cases tables score requestedRevision revisionUuid with
    ⟨error, -, hshare⟩ | ⟨head, -, ⟨-, hshare⟩ | ⟨-, hshare⟩⟩
  · rw [hshare, firstAccess, firstAccess]
  · rw [hshare, firstAccess, firstAccess]
    cases token with
    | none => rfl
    | some grant => rw [Option.bind_some, hshare, firstAccess]
  · obtain ⟨access, haccess, -⟩ := hshare redeemed
    rw [haccess, firstAccess, firstAccess]

end

/-- A grant allows all that a request gets without it: from the grant after it,
or from its publication. -/
def CoversRest (tables : AccessTables) (score : Score) (request : AccessRequest)
    (requestedRevision : ScoreRevision) (next : Option ScoreShareGrant)
    (grant : ScoreShareGrant) : Prop :=
  match next with
  | some other => tables.CoversGrant score request.revisionUuid requestedRevision grant other
  | none =>
    ∀ publication, tables.publicationOf score request = some publication →
      tables.CoversPublication score request.revisionUuid requestedRevision grant publication

theorem keeps_token_iff {token : String} (hnone : request.shareToken = none) :
    Keeps (tables.resolveLinks sha256 score request now requestedRevision)
      (tables.resolveLinks sha256 score { request with shareToken := some token } now
        requestedRevision) ↔
    ∀ grant,
      tables.tokenGrantOf sha256 score { request with shareToken := some token } now = some grant →
      tables.redeemedOf score request now = none →
      tables.CoversRest score request requestedRevision none grant := by
  have hbefore : tables.tokenGrantOf sha256 score request now = none := by
    unfold tokenGrantOf
    rw [hnone]
    rfl
  have hredeemed : tables.redeemedOf score { request with shareToken := some token } now =
      tables.redeemedOf score request now := rfl
  have hpublication : tables.publicationOf score { request with shareToken := some token } =
      tables.publicationOf score request := rfl
  rw [resolveLinks_eq, resolveLinks_eq, hredeemed, hpublication, hbefore]
  cases tables.redeemedOf score request now with
  | some redeemed =>
    rw [Option.bind_some, firstAccess_grants, firstAccess_grants]
    exact ⟨fun _ _ _ h => (nomatch h), fun _ => .refl _⟩
  | none =>
    cases tables.tokenGrantOf sha256 score { request with shareToken := some token } now with
    | none => exact ⟨fun _ _ h => (nomatch h), fun _ => .refl _⟩
    | some grant =>
      simp only [Option.bind_none, Option.bind_some, firstAccess, Option.some_inj, forall_eq',
        forall_const]
      exact keeps_publication_iff

/-- A slug is asked last. -/
theorem keeps_slug {slug : String} (hnone : request.publicSlug = none) :
    Keeps (tables.resolveLinks sha256 score request now requestedRevision)
      (tables.resolveLinks sha256 score { request with publicSlug := some slug } now
        requestedRevision) := by
  have hbefore : tables.publicationOf score request = none := by
    unfold publicationOf
    rw [hnone]
    rfl
  have hredeemed : tables.redeemedOf score { request with publicSlug := some slug } now =
      tables.redeemedOf score request now := rfl
  have htoken : tables.tokenGrantOf sha256 score { request with publicSlug := some slug } now =
      tables.tokenGrantOf sha256 score request now := rfl
  rw [resolveLinks_eq, resolveLinks_eq, hredeemed, htoken, hbefore]
  show Keeps (firstAccess [_, _, none]) (firstAccess [_, _, _])
  cases (tables.redeemedOf score request now).bind
      (tables.shareAccess score requestedRevision request.revisionUuid) with
  | some access => exact .refl _
  | none =>
    cases (tables.tokenGrantOf sha256 score request now).bind
        (tables.shareAccess score requestedRevision request.revisionUuid) with
    | some access => exact .refl _
    | none => exact keeps_error _ _

/-- A redemption more, if it counts, is before the other redemptions that count. -/
theorem redeemedOf_insert (score : Score) (request : AccessRequest) (now : Int)
    {before after : List ShareGrantRedemption}
    (h : tables.redemptions = before ++ after) (redemption : ShareGrantRedemption) :
    { tables with redemptions := before ++ redemption :: after }.redeemedOf score request now =
      tables.redeemedOf score request now ∨
    ∃ grant, { tables with redemptions := before ++ redemption :: after }.redeemedOf score request
      now = some grant := by
  unfold redeemedOf
  cases request.userId with
  | none => exact .inl rfl
  | some userId =>
    simp only [Option.bind_some]
    cases hafter : { tables with redemptions := before ++ redemption :: after }.validRedeemedGrant
        score userId now with
    | some grant => exact .inr ⟨grant, rfl⟩
    | none =>
      refine .inl (List.find?_eq_none.mpr fun grant hgrant => ?_).symm
      apply List.find?_eq_none.mp hafter
      obtain ⟨redeemed, hmem, hjoin⟩ := List.mem_filterMap.mp hgrant
      obtain ⟨hmem, huser⟩ := List.mem_filter.mp hmem
      refine List.mem_filterMap.mpr ⟨redeemed, List.mem_filter.mpr ⟨?_, huser⟩, hjoin⟩
      have hmem := (List.mem_insertionSort _).mp hmem
      rw [h] at hmem
      exact (List.mem_insertionSort _).mpr ((List.sublist_cons_self redemption after).append_left
        before |>.mem hmem)

theorem keeps_redemption_iff {before after : List ShareGrantRedemption}
    (h : tables.redemptions = before ++ after) (redemption : ShareGrantRedemption) :
    Keeps (tables.resolveLinks sha256 score request now requestedRevision)
      ({ tables with redemptions := before ++ redemption :: after }.resolveLinks sha256 score
        request now requestedRevision) ↔
    ∀ grant,
      { tables with redemptions := before ++ redemption :: after }.redeemedOf score request now =
        some grant →
      tables.redeemedOf score request now ≠ some grant →
      tables.CoversRest score request requestedRevision
        (tables.redeemedOf score request now <|> tables.tokenGrantOf sha256 score request now)
        grant := by
  have hinsert := redeemedOf_insert score request now h redemption
  have hlinks : { tables with redemptions := before ++ redemption :: after }.resolveLinks sha256
      score request now requestedRevision = firstAccess [
        ({ tables with redemptions := before ++ redemption :: after }.redeemedOf score request
          now).bind (tables.shareAccess score requestedRevision request.revisionUuid),
        (tables.tokenGrantOf sha256 score request now).bind
          (tables.shareAccess score requestedRevision request.revisionUuid),
        (tables.publicationOf score request).bind
          (tables.publicationAccess score requestedRevision request.revisionUuid)] :=
    resolveLinks_eq
  rw [hlinks, resolveLinks_eq]
  obtain hsame | ⟨grant, hgrant⟩ := hinsert
  · rw [hsame]
    exact ⟨fun _ grant h hne => absurd h hne, fun _ => .refl _⟩
  · rw [hgrant, Option.bind_some, firstAccess_grants]
    cases hredeemed : tables.redeemedOf score request now with
    | some other =>
      rw [Option.bind_some, firstAccess_grants, keeps_grant_iff (.inl rfl)]
      constructor
      · intro hcovers grant' hgrant' _
        cases hgrant'
        exact hcovers
      · intro hcovers
        by_cases heq : other = grant
        · subst heq
          exact coversGrant_refl
        · exact hcovers grant rfl fun h => heq (Option.some_inj.mp h)
    | none =>
      have hall : ∀ {P : ScoreShareGrant → Prop},
          (∀ grant', some grant = some grant' → none ≠ some grant' → P grant') ↔ P grant :=
        ⟨fun h => h grant rfl (by simp), fun h _ heq _ => Option.some_inj.mp heq ▸ h⟩
      rw [hall]
      cases tables.tokenGrantOf sha256 score request now with
      | some other => exact keeps_grant_iff (.inl rfl)
      | none => exact keeps_publication_iff

/-! ## The policy -/

/-- What a request gets is sound. It gets no less with a slug more. It gets no
less with a token or a redemption more exactly if the grant that it then goes by
allows all that it got before. -/
theorem access_policy (sha256 : String → String) (tables : AccessTables) (scoreUuid : String)
    (request : AccessRequest) (now : Int) :
    (∀ access, tables.resolve sha256 scoreUuid request now = .ok access →
      AccessSound sha256 tables request now access) ∧
    (∀ slug, request.publicSlug = none →
      Keeps (tables.resolve sha256 scoreUuid request now)
        (tables.resolve sha256 scoreUuid { request with publicSlug := some slug } now)) ∧
    (∀ token, request.shareToken = none →
      (Keeps (tables.resolve sha256 scoreUuid request now)
        (tables.resolve sha256 scoreUuid { request with shareToken := some token } now) ↔
      ∀ score requestedRevision, ReachesLinks tables scoreUuid request score requestedRevision →
        ∀ grant,
          tables.tokenGrantOf sha256 score { request with shareToken := some token } now =
            some grant →
          tables.redeemedOf score request now = none →
          tables.CoversRest score request requestedRevision none grant)) ∧
    ∀ before redemption after, tables.redemptions = before ++ after →
      (Keeps (tables.resolve sha256 scoreUuid request now)
        ({ tables with redemptions := before ++ redemption :: after }.resolve sha256 scoreUuid
          request now) ↔
      ∀ score requestedRevision, ReachesLinks tables scoreUuid request score requestedRevision →
        ∀ grant,
          { tables with redemptions := before ++ redemption :: after }.redeemedOf score request
            now = some grant →
          tables.redeemedOf score request now ≠ some grant →
          tables.CoversRest score request requestedRevision
            (tables.redeemedOf score request now <|>
              tables.tokenGrantOf sha256 score request now) grant) := by
  refine ⟨fun access => access_sound, fun slug hnone => ?_, fun token hnone => ?_,
    fun before redemption after h => ?_⟩
  · exact keeps_resolve_iff.mpr fun _ _ _ => keeps_slug hnone
  · refine keeps_resolve_iff.trans ?_
    exact forall_congr' fun _ => forall_congr' fun _ => forall_congr' fun _ =>
      keeps_token_iff hnone
  · refine keeps_resolve_iff.trans ?_
    exact forall_congr' fun _ => forall_congr' fun _ => forall_congr' fun _ =>
      keeps_redemption_iff h redemption

/-- A published score of user 1, with two grants: user 2 has redeemed both, the
one without the download later. -/
def sharedTables : AccessTables where
  scores := {
    scores := [⟨1, "score", 1, "", some 1, none, 1, .active⟩]
    revisions := [⟨1, "revision", 1, 1, none, none, "", none, .imported, some 1, none⟩]
    sources := [], nextScoreId := 2, nextRevisionId := 2 }
  memberships := []
  grants := [⟨1, 1, "strong", true, true, none, none⟩, ⟨2, 1, "weak", false, false, none, none⟩]
  redemptions := [⟨1, 2, 10⟩, ⟨2, 2, 20⟩]
  publications := [⟨1, 1, "slug", 1, .published, true, true⟩]

/-- The same without the later redemption. -/
def sharedTablesBefore : AccessTables :=
  { sharedTables with redemptions := [⟨1, 2, 10⟩] }

theorem not_keeps_of_denied {tables' : AccessTables} {request' : AccessRequest}
    {error : AccessError}
    (action : ScoreAction)
    (hbefore : ∃ access, tables.authorize sha256 scoreUuid action request now = .ok access)
    (hafter : tables'.authorize sha256 scoreUuid action request' now = .error error) :
    ¬Keeps (tables.resolve sha256 scoreUuid request now)
      (tables'.resolve sha256 scoreUuid request' now) := by
  intro hk
  obtain ⟨access, h⟩ := grants_iff.mp (hk action (grants_iff.mpr hbefore))
  rw [hafter] at h
  cases h

/-- A grant takes the download away: from the user who redeems it, and from a
visitor of the published score who presents its token. -/
theorem weak_grant_shadows :
    ¬Keeps (sharedTablesBefore.resolve id "score" ⟨some 2, none, none, none⟩ 30)
      (sharedTables.resolve id "score" ⟨some 2, none, none, none⟩ 30) ∧
    ¬Keeps (sharedTables.resolve id "score" ⟨none, none, none, some "slug"⟩ 30)
      (sharedTables.resolve id "score" ⟨none, none, some "weak", some "slug"⟩ 30) :=
  ⟨not_keeps_of_denied .download ⟨_, rfl⟩ rfl, not_keeps_of_denied .download ⟨_, rfl⟩ rfl⟩

/-- The token of the other grant takes nothing away, and what the visitor gets
is sound. -/
theorem access_policy_shared :
    Keeps (sharedTables.resolve id "score" ⟨none, none, none, some "slug"⟩ 30)
      (sharedTables.resolve id "score" ⟨none, none, some "strong", some "slug"⟩ 30) ∧
    ∃ access, sharedTables.resolve id "score" ⟨none, none, some "strong", some "slug"⟩ 30 =
      .ok access ∧
      AccessSound id sharedTables ⟨none, none, some "strong", some "slug"⟩ 30 access := by
  constructor
  · have h := (access_policy id sharedTables "score" ⟨none, none, none, some "slug"⟩ 30).2.2.1
      "strong" rfl
    apply h.mpr
    intro score requestedRevision hreaches grant hgrant _ publication hpublication happlies _
    have hactive := hreaches.active
    cases hactive
    cases hgrant
    exact ⟨_, rfl, fun _ => ⟨fun _ => rfl, fun _ => rfl⟩⟩
  · have h := (access_policy id sharedTables "score"
      ⟨none, none, some "strong", some "slug"⟩ 30).1
    exact ⟨_, rfl, h _ rfl⟩

end AccessTables

end NoteVerse.Backend

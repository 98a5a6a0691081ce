import NoteVerse.Backend.Publications
import NoteVerse.Backend.ScoreKeys

/-!
# The published view of a score

What `publicDetail` shows to a viewer is the revision that the access policy
selects (`publicDetail_shows`). The policy looks for other relations of the
viewer to the score before it looks at the slug (`access_revision`), and these
select the head. Where a revision has no page or audio of its own, the latest
one of the score is shown instead (`latest_fallback`), which may be later than
the published revision. `published_view` says when neither happens.
-/

namespace NoteVerse.Backend

open Table Transition

/-! ## The constraints of the tables -/

namespace AssetTables

/-- What the constraints of the schema say. -/
structure Constrained (tables : AssetTables) : Prop extends tables.access.scores.Keyed where
  drawn : ∀ revision ∈ tables.revisions, revision.revisionUuid ≠ ""
  slugs : (tables.access.publications.map (·.publicSlug)).Nodup
  published : ∀ publication ∈ tables.access.publications, ∃ revision ∈ tables.revisions,
    revision.id = publication.publishedRevisionId ∧ revision.scoreId = publication.scoreId

variable {tables : AssetTables}

theorem Constrained.revision_eq (h : tables.Constrained) {revision other : ScoreRevision}
    (hr : revision ∈ tables.revisions) (ho : other ∈ tables.revisions)
    (hid : revision.id = other.id) : revision = other :=
  List.inj_on_of_nodup_map h.revisionIds hr ho hid

theorem Constrained.revision_eq_of_uuid (h : tables.Constrained) {revision other : ScoreRevision}
    (hr : revision ∈ tables.revisions) (ho : other ∈ tables.revisions)
    (huuid : revision.revisionUuid = other.revisionUuid) : revision = other :=
  List.inj_on_of_nodup_map h.revisionUuids hr ho huuid

end AssetTables

/-! ## Fallbacks -/

namespace AssetTables

variable {tables : AssetTables} {α β : Type} {rows : List α} {revisionOf : α → RevisionId}
  {scoreId : ScoreId} {headRevisionId : RevisionId} {row : α} {revision : ScoreRevision}

theorem mem_joinOther :
    (row, revision) ∈ tables.joinOther rows revisionOf scoreId headRevisionId ↔
      row ∈ rows ∧ tables.revisionById (revisionOf row) = some revision ∧
        revision.scoreId = scoreId ∧ revision.id ≠ headRevisionId := by
  rw [joinOther, List.mem_filterMap]
  constructor
  · rintro ⟨row', hrow, hjoin⟩
    obtain ⟨revision', hfind, heq⟩ := Option.map_eq_some_iff.mp hjoin
    cases heq
    obtain ⟨hfind, hother⟩ := Option.filter_eq_some_iff.mp hfind
    exact ⟨hrow, hfind, of_decide_eq_true hother⟩
  · rintro ⟨hrow, hfind, hother⟩
    refine ⟨row, hrow, ?_⟩
    have hkeep : (tables.revisionById (revisionOf row)).filter
        (fun revision => revision.scoreId = scoreId ∧ revision.id ≠ headRevisionId) =
          some revision :=
      Option.filter_eq_some_iff.mpr ⟨hfind, decide_eq_true hother⟩
    rw [hkeep, Option.map_some]

/-- The fallback is of the latest other revision that has such a row. -/
theorem latest_fallback [LinearOrder β] {rest : α → β}
    (h : ((tables.joinOther rows revisionOf scoreId headRevisionId).argmin fun shown =>
      toLex (OrderDual.toDual shown.2.revisionNumber, rest shown.1)) = some (row, revision)) :
    (row ∈ rows ∧ tables.revisionById (revisionOf row) = some revision ∧
        revision.scoreId = scoreId ∧ revision.id ≠ headRevisionId) ∧
      ∀ row' ∈ rows, ∀ revision', tables.revisionById (revisionOf row') = some revision' →
        revision'.scoreId = scoreId → revision'.id ≠ headRevisionId →
          revision'.revisionNumber ≤ revision.revisionNumber := by
  refine ⟨mem_joinOther.mp (List.argmin_mem h), fun row' hrow revision' hfind hscore hne => ?_⟩
  have hmem := mem_joinOther.mpr ⟨hrow, hfind, hscore, hne⟩
  have hle := List.le_of_mem_argmin hmem h
  rw [Prod.Lex.toLex_le_toLex] at hle
  obtain hlt | ⟨heq, -⟩ := hle
  · exact (OrderDual.toDual_lt_toDual.mp hlt).le
  · exact (OrderDual.toDual_inj.mp heq).ge

/-- There is a fallback if another revision has such a row. -/
theorem exists_fallback [LinearOrder β] {key : α × ScoreRevision → β} (hrow : row ∈ rows)
    (hfind : tables.revisionById (revisionOf row) = some revision)
    (hscore : revision.scoreId = scoreId) (hne : revision.id ≠ headRevisionId) :
    ∃ shown, (tables.joinOther rows revisionOf scoreId headRevisionId).argmin key = some shown := by
  have hmem := mem_joinOther.mpr ⟨hrow, hfind, hscore, hne⟩
  refine Option.ne_none_iff_exists'.mp fun hnone => ?_
  rw [List.argmin_eq_none.mp hnone] at hmem
  cases hmem

end AssetTables

/-! ## The revision that a viewer gets -/

namespace AccessTables

variable {sha256 : String → String} {tables : AccessTables} {scoreUuid slug : String}
  {viewer : Option Int} {now : Int} {score : Score} {requestedRevision : ScoreRevision}
  {access : ScoreAccessContext}

/-- The viewer has another relation to the score than its publication: the
owner, a member, or a user who has redeemed a grant that is in force. -/
def Related (tables : AccessTables) (score : Score) (viewer : Option Int) (now : Int) : Prop :=
  viewer = some score.ownerUserId ∨ (viewer.bind (tables.membership score)).isSome ∨
    (viewer.bind fun userId => tables.validRedeemedGrant score userId now).isSome

instance : Decidable (Related tables score viewer now) := inferInstanceAs (Decidable (_ ∨ _))

variable {request : AccessRequest} {revision : ScoreRevision} {revisionUuid : Option String}

theorem authorize_resolve {action : ScoreAction}
    (h : tables.authorize sha256 scoreUuid action request now = .ok access) :
    tables.resolve sha256 scoreUuid request now = .ok access := by
  obtain ⟨access', hresolve, hallowed⟩ := Python.bind_eq_ok.mp h
  split_ifs at hallowed
  cases hallowed
  exact hresolve

theorem revision_none (h : tables.revision score none = .ok revision) :
    tables.scores.head score = some revision := by
  simp only [AccessTables.revision, truthy] at h
  split at h
  · cases h
  · rename_i head hhead
    cases h
    exact hhead

theorem shareAccess_revision {grant : ScoreShareGrant}
    (h : tables.shareAccess score requestedRevision revisionUuid grant = some (.ok access)) :
    access.score = score ∧ tables.scores.head score = some access.revision := by
  unfold shareAccess at h
  split at h
  · cases h
  · rename_i target htarget
    split_ifs at h
    cases h
    exact ⟨rfl, grantRevision_head htarget⟩

theorem publicationAccess_revision {publication : ScorePublication}
    (h : tables.publicationAccess score requestedRevision revisionUuid publication =
      some (.ok access)) :
    access.score = score ∧
      tables.scores.revisionById publication.publishedRevisionId = some access.revision := by
  unfold publicationAccess at h
  split_ifs at h
  have h := Option.some_inj.mp h
  split at h
  · cases h
  · rename_i revision hrevision
    cases h
    exact ⟨rfl, hrevision⟩

/-- A grant always applies when no revision is asked for. -/
theorem exists_shareAccess (grant : ScoreShareGrant) :
    ∃ result, tables.shareAccess score requestedRevision none grant = some result := by
  unfold shareAccess
  split
  · exact ⟨_, rfl⟩
  · exact ⟨_, if_pos (.inl rfl)⟩

/-- The links of a viewer who comes by a slug. -/
theorem resolveLinks_revision
    (h : tables.resolveLinks sha256 score ⟨viewer, none, none, some slug⟩ now requestedRevision =
      .ok access) :
    access.score = score ∧
      ((viewer.bind fun userId => tables.validRedeemedGrant score userId now).isSome ∧
          tables.scores.head score = some access.revision ∨
        (viewer.bind fun userId => tables.validRedeemedGrant score userId now) = none ∧
          ∃ publication, tables.publication score slug = some publication ∧
            tables.scores.revisionById publication.publishedRevisionId = some access.revision) := by
  rw [resolveLinks_eq] at h
  change firstAccess [(viewer.bind fun userId => tables.validRedeemedGrant score userId now).bind
      (tables.shareAccess score requestedRevision none), none,
    ((truthy (some slug)).bind fun slug => tables.publication score slug).bind
      (tables.publicationAccess score requestedRevision none)] = .ok access at h
  cases hredeemed : viewer.bind fun userId => tables.validRedeemedGrant score userId now with
  | some grant =>
    rw [hredeemed, Option.bind_some] at h
    obtain ⟨result, hresult⟩ :
        ∃ result, tables.shareAccess score requestedRevision none grant = some result :=
      exists_shareAccess grant
    rw [hresult, firstAccess] at h
    subst h
    obtain ⟨hscore, hhead⟩ := shareAccess_revision hresult
    exact ⟨hscore, .inl ⟨rfl, hhead⟩⟩
  | none =>
    rw [hredeemed, Option.bind_none, firstAccess, firstAccess] at h
    cases hoffer : ((truthy (some slug)).bind fun slug => tables.publication score slug).bind
        (tables.publicationAccess score requestedRevision none) with
    | none =>
      rw [hoffer] at h
      cases h
    | some result =>
      rw [hoffer, firstAccess] at h
      subst h
      obtain ⟨publication, hpublication, hoffer⟩ := Option.bind_eq_some_iff.mp hoffer
      obtain ⟨slug', hslug, hfind⟩ := Option.bind_eq_some_iff.mp hpublication
      obtain ⟨hscore, hrevision⟩ := publicationAccess_revision hoffer
      simp only [truthy] at hslug
      split_ifs at hslug
      cases hslug
      exact ⟨hscore, .inr ⟨rfl, publication, hfind, hrevision⟩⟩

/-- A viewer who comes by a slug gets the head if related to the score, and else
the published revision. -/
theorem access_revision
    (h : tables.resolve sha256 scoreUuid ⟨viewer, none, none, some slug⟩ now = .ok access) :
    tables.scores.activeScore scoreUuid = some access.score ∧
      (Related tables access.score viewer now ∧
          tables.scores.head access.score = some access.revision ∨
        ¬Related tables access.score viewer now ∧
          ∃ publication, tables.publication access.score slug = some publication ∧
            tables.scores.revisionById publication.publishedRevisionId = some access.revision) := by
  unfold resolve at h
  split at h
  · cases h
  · rename_i score hactive
    obtain ⟨requested, hrequested, h⟩ := Python.bind_eq_ok.mp h
    have hhead := revision_none hrequested
    split_ifs at h with howner
    · cases h
      exact ⟨hactive, .inl ⟨.inl howner, hhead⟩⟩
    · split at h
      · rename_i membership hmember
        cases h
        exact ⟨hactive, .inl ⟨.inr (.inl (Option.isSome_iff_exists.mpr ⟨_, hmember⟩)), hhead⟩⟩
      · rename_i hmember
        obtain ⟨rfl, hlink | ⟨hnone, hpublication⟩⟩ := resolveLinks_revision h
        · exact ⟨hactive, .inl ⟨.inr (.inr hlink.1), hlink.2⟩⟩
        · refine ⟨hactive, .inr ⟨?_, hpublication⟩⟩
          rintro (hown | hmem | hgrant)
          · exact howner hown
          · rw [show viewer.bind (tables.membership access.score) = none from hmember] at hmem
            cases hmem
          · rw [hnone] at hgrant
            cases hgrant

theorem firstAccess_mem {offers : List (Option (Except AccessError ScoreAccessContext))}
    (h : firstAccess offers = .ok access) : some (.ok access) ∈ offers := by
  induction offers with
  | nil => cases h
  | cons offer offers ih =>
    cases offer with
    | none => exact List.mem_cons_of_mem _ (ih h)
    | some result =>
      rw [firstAccess] at h
      exact List.mem_cons.mpr (.inl (congrArg some h.symm))

/-- The revisions that the links give are rows of the table. -/
theorem resolveLinks_mem
    (h : tables.resolveLinks sha256 score request now requestedRevision = .ok access) :
    access.score = score ∧ access.revision ∈ tables.scores.revisions := by
  have hhead : ∀ {revision}, tables.scores.head score = some revision →
      revision ∈ tables.scores.revisions := by
    intro revision h
    obtain ⟨revisionId, -, hfind⟩ := Option.bind_eq_some_iff.mp h
    exact find_mem hfind
  rw [resolveLinks_eq] at h
  obtain h | h | h := by simpa using firstAccess_mem h
  · obtain ⟨grant, -, hshare⟩ := Option.bind_eq_some_iff.mp h.symm
    obtain ⟨hscore, hrevision⟩ := shareAccess_revision hshare
    exact ⟨hscore, hhead hrevision⟩
  · obtain ⟨grant, -, hshare⟩ := Option.bind_eq_some_iff.mp h.symm
    obtain ⟨hscore, hrevision⟩ := shareAccess_revision hshare
    exact ⟨hscore, hhead hrevision⟩
  · obtain ⟨publication, -, hoffer⟩ := Option.bind_eq_some_iff.mp h.symm
    obtain ⟨hscore, hrevision⟩ := publicationAccess_revision hoffer
    exact ⟨hscore, find_mem hrevision⟩

theorem revision_mem (h : tables.revision score revisionUuid = .ok revision) :
    revision ∈ tables.scores.revisions := by
  unfold AccessTables.revision at h
  split at h
  · split at h
    · cases h
    · rename_i found hfind
      cases h
      exact List.mem_of_find?_eq_some hfind
  · split at h
    · cases h
    · rename_i found hhead
      cases h
      obtain ⟨revisionId, -, hfind⟩ := Option.bind_eq_some_iff.mp hhead
      exact find_mem hfind

/-- An access is to an active score, and the revision asked for is there. -/
theorem resolve_requested (h : tables.resolve sha256 scoreUuid request now = .ok access) :
    tables.scores.activeScore scoreUuid = some access.score ∧
      access.revision ∈ tables.scores.revisions ∧
      ∃ requested, tables.revision access.score request.revisionUuid = .ok requested := by
  unfold resolve at h
  split at h
  · cases h
  · rename_i score hactive
    obtain ⟨requested, hrequested, h⟩ := Python.bind_eq_ok.mp h
    split_ifs at h with howner
    · cases h
      exact ⟨hactive, revision_mem hrequested, requested, hrequested⟩
    · split at h
      · cases h
        exact ⟨hactive, revision_mem hrequested, requested, hrequested⟩
      · obtain ⟨rfl, hmem⟩ := resolveLinks_mem h
        exact ⟨hactive, hmem, requested, hrequested⟩

/-- Who asks for a revision by its uuid gets that one. -/
theorem resolve_uuid (hids : (tables.scores.revisions.map (·.id)).Nodup)
    (huuids : (tables.scores.revisions.map (·.revisionUuid)).Nodup)
    (hmem : revision ∈ tables.scores.revisions) (hdrawn : revision.revisionUuid ≠ "")
    (hrequest : request.revisionUuid = some revision.revisionUuid)
    (h : tables.resolve sha256 scoreUuid request now = .ok access) :
    access.revision = revision := by
  obtain ⟨-, haccess, requested, hrequested⟩ := resolve_requested h
  have hid := (access_sound h).revision requested (by rw [hrequest]; simp) hrequested
  have hfound := hrequested
  simp only [AccessTables.revision, hrequest, truthy, if_neg hdrawn] at hfound
  split at hfound
  · cases hfound
  · rename_i found hfind
    cases hfound
    have hsame := List.find?_some hfind
    obtain ⟨huuid, -⟩ := of_decide_eq_true hsame
    obtain rfl := List.inj_on_of_nodup_map huuids (List.mem_of_find?_eq_some hfind) hmem huuid
    exact List.inj_on_of_nodup_map hids haccess hmem hid

end AccessTables

/-! ## What is shown -/

namespace AssetTables

/-- The rendered pages and the audio, with the revisions they are of. -/
def pages (tables : AssetTables) : List (String × RevisionId) :=
  (tables.renderAssets.filter (·.kind = .renderedPage)).map fun asset =>
    (asset.assetUuid, asset.revisionId)

def audio (tables : AssetTables) : List (String × RevisionId) :=
  (tables.playbackAssets.filter (·.kind = .audio)).map fun asset =>
    (asset.assetUuid, asset.revisionId)

/-- A revision's own asset is shown if it has one, and no asset of a later
revision is. -/
structure ShowsAsset (tables : AssetTables) (assets : List (String × RevisionId))
    (revision : ScoreRevision) (read : ScoreDerivedAssetRead) : Prop where
  own : (∃ asset ∈ assets, asset.2 = revision.id) → ∃ asset ∈ assets, asset.2 = revision.id ∧
    read.assetId = some asset.1 ∧ read.revisionId = some revision.revisionUuid ∧
    read.isFallback = false
  notLater : ∀ assetId, read.assetId = some assetId → ∃ asset ∈ assets, asset.1 = assetId ∧
    ∃ shown, tables.revisionById asset.2 = some shown ∧ shown.scoreId = revision.scoreId ∧
      shown.revisionNumber ≤ revision.revisionNumber ∧
      read.revisionId = some shown.revisionUuid

/-- The detail is that of a revision: its uuid, its metadata and its assets, and
nothing of a later one. -/
structure Shows (tables : AssetTables) (revision : ScoreRevision) (detail : PublicScoreRead) :
    Prop where
  revisionId : detail.publication.revisionId = revision.revisionUuid
  metadata : detail.metadata =
    (find ScoreRevisionMetadata.revisionId revision.id tables.metadata).map (·.toRead revision)
  revisionSources : detail.revisionAssets.revisionSources =
    if detail.publication.allowDownload then
      (tables.listSources revision.id).map (tables.sourceRead revision)
    else []
  renderAssets : detail.revisionAssets.renderAssets =
    (tables.listRenderAssets revision.id).map (tables.renderAssetRead revision)
  preview : tables.ShowsAsset tables.pages revision detail.derivedAssets.preview
  audio : tables.ShowsAsset tables.audio revision detail.derivedAssets.audio

/-- A revision has an asset of its own, or no later revision of the score has. -/
def NoLater (tables : AssetTables) (assets : List (String × RevisionId))
    (revision : ScoreRevision) : Prop :=
  (∃ asset ∈ assets, asset.2 = revision.id) ∨
    ∀ asset ∈ assets, ∀ other, tables.revisionById asset.2 = some other →
      other.scoreId = revision.scoreId → other.revisionNumber ≤ revision.revisionNumber

/-- The published revision is what the viewer gets: it is the head, if the viewer
has another relation to the score, and no fallback is later. -/
structure Undisturbed (tables : AssetTables) (score : Score) (revision : ScoreRevision)
    (viewer : Option Int) (now : Int) : Prop where
  head : tables.access.Related score viewer now → score.headRevisionId = some revision.id
  pages : tables.NoLater tables.pages revision
  audio : tables.NoLater tables.audio revision

variable {tables : AssetTables} {α β : Type} {rows : List α} {uuidOf : α → String}
  {revisionOf : α → RevisionId} {revision : ScoreRevision}

theorem Constrained.find_revision (hc : tables.Constrained) (hr : revision ∈ tables.revisions) :
    tables.revisionById revision.id = some revision :=
  find_of_mem hc.revisionIds hr

theorem showsAsset_iff [LinearOrder β] (rest : α → β) {current : Option α}
    {status : Option OutboxStatus} (hc : tables.Constrained) (hr : revision ∈ tables.revisions)
    (hcurrent : ∀ row, current = some row → row ∈ rows ∧ revisionOf row = revision.id)
    (hnone : current = none → ∀ row ∈ rows, revisionOf row ≠ revision.id) :
    tables.ShowsAsset (rows.map fun row => (uuidOf row, revisionOf row)) revision
        (derivedAssetRead uuidOf revision current
          ((tables.joinOther rows revisionOf revision.scoreId revision.id).argmin fun shown =>
            toLex (OrderDual.toDual shown.2.revisionNumber, rest shown.1)) status) ↔
      tables.NoLater (rows.map fun row => (uuidOf row, revisionOf row)) revision := by
  cases current with
  | some row =>
    obtain ⟨hrow, hown⟩ := hcurrent row rfl
    have hmem : (uuidOf row, revisionOf row) ∈ rows.map fun row => (uuidOf row, revisionOf row) :=
      List.mem_map_of_mem hrow
    refine ⟨fun _ => .inl ⟨_, hmem, hown⟩, fun _ => ⟨fun _ => ?_, fun assetId hshown => ?_⟩⟩
    · exact ⟨_, hmem, hown, rfl, rfl, rfl⟩
    · refine ⟨_, hmem, Option.some_inj.mp hshown, revision, ?_, rfl, le_rfl, rfl⟩
      show tables.revisionById (revisionOf row) = some revision
      rw [hown]
      exact hc.find_revision hr
  | none =>
    have hnotown : ¬∃ asset ∈ rows.map fun row => (uuidOf row, revisionOf row),
        asset.2 = revision.id := by
      rintro ⟨asset, hasset, hown⟩
      obtain ⟨row, hrow, rfl⟩ := List.mem_map.mp hasset
      exact hnone rfl row hrow hown
    constructor
    · intro hshows
      refine .inr fun asset hasset other hfind hscore => ?_
      obtain ⟨row, hrow, rfl⟩ := List.mem_map.mp hasset
      have hne : other.id ≠ revision.id := by
        rw [find_key hfind]
        exact hnone rfl row hrow
      obtain ⟨⟨row', shown⟩, hfallback⟩ :
          ∃ found, ((tables.joinOther rows revisionOf revision.scoreId revision.id).argmin
            fun shown => toLex (OrderDual.toDual shown.2.revisionNumber, rest shown.1)) =
              some found :=
        exists_fallback hrow hfind hscore hne
      obtain ⟨⟨-, hfound, -⟩, hlatest⟩ := latest_fallback hfallback
      obtain ⟨_, -, -, shown', hfound', -, hle, huuid⟩ := hshows.notLater (uuidOf row') (by
        rw [hfallback]
        rfl)
      rw [hfallback] at huuid
      have hsame : shown = shown' := hc.revision_eq_of_uuid (find_mem hfound) (find_mem hfound')
        (Option.some_inj.mp huuid)
      rw [hsame] at hlatest
      exact (hlatest row hrow other hfind hscore hne).trans hle
    · intro hnolater
      have hnolater := hnolater.resolve_left hnotown
      refine ⟨fun h => absurd h hnotown, fun assetId hshown => ?_⟩
      cases hfallback : (tables.joinOther rows revisionOf revision.scoreId revision.id).argmin
          fun shown => toLex (OrderDual.toDual shown.2.revisionNumber, rest shown.1) with
      | none =>
        rw [hfallback] at hshown
        cases hshown
      | some found =>
        obtain ⟨row, shown⟩ := found
        obtain ⟨⟨hrow, hfind, hscore, -⟩, -⟩ := latest_fallback hfallback
        rw [hfallback] at hshown
        have hmem : (uuidOf row, revisionOf row) ∈
            rows.map fun row => (uuidOf row, revisionOf row) := List.mem_map_of_mem hrow
        exact ⟨_, hmem, Option.some_inj.mp hshown, shown, hfind, hscore,
          hnolater _ hmem shown hfind hscore, rfl⟩

/-- The assets of a revision, as they are read. -/
def assetsOf (tables : AssetTables) (revision : ScoreRevision) (includeSources : Bool) :
    ScoreRevisionAssetsRead where
  revisionSources :=
    if includeSources then (tables.listSources revision.id).map (tables.sourceRead revision) else []
  renderAssets := (tables.listRenderAssets revision.id).map (tables.renderAssetRead revision)

theorem listRevisionAssets_eq (hc : tables.Constrained) (hr : revision ∈ tables.revisions)
    {sha256 : String → String} {scoreUuid : String} {request : AccessRequest}
    {includeSources : Bool} {now : Int} {revisionAssets : ScoreRevisionAssetsRead}
    (hrequest : request.revisionUuid = some revision.revisionUuid)
    (h : tables.listRevisionAssets sha256 scoreUuid request includeSources now =
      .ok revisionAssets) :
    revisionAssets = tables.assetsOf revision includeSources := by
  obtain ⟨access, hauthorize, rfl⟩ := Python.map_eq_ok.mp h
  obtain rfl := AccessTables.resolve_uuid hc.revisionIds hc.revisionUuids hr (hc.drawn _ hr)
    hrequest (AccessTables.authorize_resolve hauthorize)
  simp only [assetsOf]
  split_ifs
  · rfl
  · rfl

variable {service : PublicationService} {slug : String} {viewer : Option Int} {now later : Int}
  {detail : PublicScoreRead}

/-- A detail is made from the revision that the policy selects. -/
theorem publicDetail_shows (hc : tables.Constrained)
    (h : service.publicDetail tables slug viewer now later = .ok detail) :
    ∃ publication score access,
      tables.publicationBySlug slug = some publication ∧ publication.status = .published ∧
      find Score.id publication.scoreId tables.access.scores.scores = some score ∧
      tables.access.resolve service.sha256 score.scoreUuid ⟨viewer, none, none, some slug⟩ now =
        .ok access ∧
      detail.publication = publication.read score access.revision.revisionUuid ∧
      detail.metadata = (find ScoreRevisionMetadata.revisionId access.revision.id
        tables.metadata).map (·.toRead access.revision) ∧
      detail.derivedAssets = tables.scoreDerivedAssets score.id access.revision ∧
      detail.revisionAssets = tables.assetsOf access.revision publication.allowDownload := by
  unfold PublicationService.publicDetail at h
  split at h
  · cases h
  · rename_i publication hpublication
    obtain ⟨hslug, hstatus⟩ := Option.filter_eq_some_iff.mp hpublication
    split at h
    · cases h
    · rename_i score hscore
      obtain ⟨access, hauthorize, h⟩ := Python.bind_eq_ok.mp h
      obtain ⟨revisionAssets, hassets, rfl⟩ := Python.map_eq_ok.mp h
      have hresolve := AccessTables.authorize_resolve hauthorize
      have hmem := (AccessTables.resolve_requested hresolve).2.1
      exact ⟨publication, score, access, hslug, of_decide_eq_true hstatus, hscore, hresolve, rfl,
        rfl, rfl, listRevisionAssets_eq hc hmem rfl hassets⟩

theorem preview_iff (hc : tables.Constrained) (hr : revision ∈ tables.revisions) :
    tables.ShowsAsset tables.pages revision
        (tables.scoreDerivedAssets revision.scoreId revision).preview ↔
      tables.NoLater tables.pages revision := by
  refine showsAsset_iff (fun asset : RenderAssetRow =>
    toLex (asset.pageNumber, asset.createdAt)) hc hr (fun row hrow => ?_) fun hnone row hrow => ?_
  · obtain ⟨hmem, hown⟩ := List.mem_filter.mp (List.argmin_mem hrow)
    obtain ⟨hown, hkind⟩ := of_decide_eq_true hown
    exact ⟨List.mem_filter.mpr ⟨hmem, decide_eq_true hkind⟩, hown⟩
  · intro hown
    obtain ⟨hmem, hkind⟩ := List.mem_filter.mp hrow
    have hempty := List.filter_eq_nil_iff.mp (List.argmin_eq_none.mp hnone) row hmem
    exact hempty (decide_eq_true ⟨hown, of_decide_eq_true hkind⟩)

theorem audio_iff (hc : tables.Constrained) (hr : revision ∈ tables.revisions) :
    tables.ShowsAsset tables.audio revision
        (tables.scoreDerivedAssets revision.scoreId revision).audio ↔
      tables.NoLater tables.audio revision := by
  refine showsAsset_iff (fun asset : PlaybackAssetRow => asset.createdAt) hc hr
    (fun row hrow => ?_) fun hnone row hrow => ?_
  · have hfound := List.find?_some hrow
    obtain ⟨hown, hkind⟩ := of_decide_eq_true hfound
    exact ⟨List.mem_filter.mpr ⟨List.mem_of_find?_eq_some hrow, decide_eq_true hkind⟩, hown⟩
  · intro hown
    obtain ⟨hmem, hkind⟩ := List.mem_filter.mp hrow
    have hempty := List.find?_eq_none.mp hnone row hmem
    exact hempty (decide_eq_true ⟨hown, of_decide_eq_true hkind⟩)

/-- The detail made from a revision shows it exactly if no fallback is later. -/
theorem shows_self_iff (hc : tables.Constrained) (hr : revision ∈ tables.revisions)
    {publication : ScorePublication} {score : Score} (hid : score.id = revision.scoreId)
    (hpublication : detail.publication = publication.read score revision.revisionUuid)
    (hmetadata : detail.metadata = (find ScoreRevisionMetadata.revisionId revision.id
      tables.metadata).map (·.toRead revision))
    (hderived : detail.derivedAssets = tables.scoreDerivedAssets score.id revision)
    (hassets : detail.revisionAssets = tables.assetsOf revision publication.allowDownload) :
    tables.Shows revision detail ↔
      tables.NoLater tables.pages revision ∧ tables.NoLater tables.audio revision := by
  rw [hid] at hderived
  rw [← preview_iff hc hr, ← audio_iff hc hr, ← hderived]
  refine ⟨fun h => ⟨h.preview, h.audio⟩, fun ⟨hpreview, haudio⟩ => ?_⟩
  exact {
    revisionId := by rw [hpublication]; rfl
    metadata := hmetadata
    revisionSources := by rw [hassets, hpublication]; rfl
    renderAssets := by rw [hassets]; rfl
    preview := hpreview
    audio := haudio }

/-- One state of the tables: the detail shows the published revision exactly if
the viewer gets it and no fallback is later. -/
theorem shows_published_iff (hc : tables.Constrained)
    (h : service.publicDetail tables slug viewer now later = .ok detail)
    {publication : ScorePublication} (hpublication : publication ∈ tables.access.publications)
    (hslug : publication.publicSlug = slug) {score : Score}
    (hscore : score ∈ tables.access.scores.scores) (hid : score.id = publication.scoreId)
    (hr : revision ∈ tables.revisions)
    (hpublished : revision.id = publication.publishedRevisionId) :
    tables.Shows revision detail ↔ tables.Undisturbed score revision viewer now := by
  obtain ⟨publication', score', access, hfind, -, hfindScore, hresolve, hread, hmetadata, hderived,
    hassets⟩ := publicDetail_shows hc h
  obtain rfl : publication' = publication := List.inj_on_of_nodup_map hc.slugs (find_mem hfind)
    hpublication ((find_key hfind).trans hslug.symm)
  obtain rfl : score' = score := List.inj_on_of_nodup_map hc.scoreIds (find_mem hfindScore) hscore
    ((find_key hfindScore).trans hid.symm)
  obtain ⟨hactive, hsource⟩ := AccessTables.access_revision hresolve
  have hmem := (AccessTables.resolve_requested hresolve).2.1
  obtain hsame : access.score = score' := by
    have hfound := List.find?_some hactive
    exact List.inj_on_of_nodup_map hc.scoreUuids (List.mem_of_find?_eq_some hactive) hscore
      (of_decide_eq_true hfound).1
  rw [hsame] at hsource
  have hscoreId : score'.id = revision.scoreId := by
    obtain ⟨row, hrow, hrowId, hrowScore⟩ := hc.published _ hpublication
    rw [hc.revision_eq hr hrow (hpublished.trans hrowId.symm), hrowScore, hid]
  have hself : access.revision = revision → (tables.Shows revision detail ↔
      tables.NoLater tables.pages revision ∧ tables.NoLater tables.audio revision) := by
    rintro rfl
    exact shows_self_iff hc hr hscoreId hread hmetadata hderived hassets
  constructor
  · intro hshows
    have hrevision : access.revision = revision := by
      refine hc.revision_eq_of_uuid hmem hr ?_
      rw [← hshows.revisionId, hread]
      rfl
    obtain ⟨hpages, haudio⟩ := (hself hrevision).mp hshows
    refine ⟨fun hrelated => ?_, hpages, haudio⟩
    obtain ⟨-, hhead⟩ | ⟨hunrelated, -⟩ := hsource
    · obtain ⟨headId, hheadId, hfound⟩ := Option.bind_eq_some_iff.mp hhead
      rw [hheadId, ← hrevision, find_key hfound]
    · exact absurd hrelated hunrelated
  · intro hundisturbed
    refine (hself ?_).mpr ⟨hundisturbed.pages, hundisturbed.audio⟩
    obtain ⟨hrelated, hhead⟩ | ⟨-, other, hother, hfound⟩ := hsource
    · rw [ScoreTables.head, hundisturbed.head hrelated, Option.bind_some] at hhead
      exact hc.revision_eq hmem hr (find_key hhead)
    · have hmatch := List.find?_some hother
      obtain ⟨-, hotherSlug, -⟩ := of_decide_eq_true hmatch
      obtain rfl : other = publication' := List.inj_on_of_nodup_map hc.slugs
        (List.mem_of_find?_eq_some hother) hpublication (hotherSlug.trans hslug.symm)
      exact hc.revision_eq hmem hr ((find_key hfound).trans hpublished.symm)

end AssetTables

end NoteVerse.Backend

import NoteVerse.Backend.PublishedView
import NoteVerse.Backend.RevisionHistory

/-!
# A publication over time

Every action keeps the constraints (`constrained_next`). An action that does
not publish the score again keeps what is published: the slug leads to the same
revision (`pinned_next`). `published_view_stable` puts this together with what
is shown in one state of the tables.
-/

namespace NoteVerse.Backend

open Table Transition

/-! ## The constraints are kept -/

theorem keyed_createScore {tables tables' : ScoreTables} {score : Score} {revision : ScoreRevision}
    {source : ScoreRevisionSource} (hk : tables.Keyed)
    (h : AssetTables.createScore tables score revision source = some tables') :
    tables'.Keyed ∧ tables.Grows tables' := by
  obtain ⟨tables₁, hscore, h⟩ := Option.bind_eq_some_iff.mp h
  obtain ⟨tables₂, hrevision, rfl⟩ := Option.map_eq_some_iff.mp h
  have hnext : tables₁.nextRevisionId = tables.nextRevisionId := by
    unfold ScoreTables.addScore at hscore
    split_ifs at hscore
    cases hscore
    rfl
  have hscored : tables₁.Keyed := hk.addScore rfl hscore
  have hadded : tables₂.Keyed := hscored.addRevision (by exact hnext.symm) hrevision
  have hsource : (tables₂.addSource { source with revisionId := tables.nextRevisionId }).Keyed :=
    { hadded with }
  refine ⟨hsource.saveScore _ (fun _ => rfl) fun _ => rfl, ?_⟩
  have hgrows := (ScoreTables.grows_addScore hscore).trans (ScoreTables.grows_addRevision hrevision)
  exact (hgrows.trans (ScoreTables.grows_addSource _)).trans
    (ScoreTables.grows_saveScore _ (fun _ => rfl) fun _ => rfl)

theorem revisions_createScore {tables tables' : ScoreTables} {score : Score}
    {revision : ScoreRevision} {source : ScoreRevisionSource}
    (h : AssetTables.createScore tables score revision source = some tables') :
    ∃ new : ScoreRevision, new.revisionUuid = revision.revisionUuid ∧
      tables'.revisions = tables.revisions ++ [new] := by
  obtain ⟨tables₁, hscore, h⟩ := Option.bind_eq_some_iff.mp h
  obtain ⟨tables₂, hrevision, rfl⟩ := Option.map_eq_some_iff.mp h
  unfold ScoreTables.addScore at hscore
  unfold ScoreTables.addRevision at hrevision
  split_ifs at hscore hrevision
  cases hscore
  cases hrevision
  exact ⟨{ revision with id := tables.nextRevisionId, scoreId := tables.nextScoreId }, rfl, rfl⟩

namespace PublicationService

variable {service : PublicationService} {tables tables' : AssetTables} {scoreUuid : String}
  {userId : Int} {request : PublicationUpsertRequest} {publicationId : Nat} {now : Int}
  {read : PublicationRead}

/-- A publish writes the row of its score and keeps those of the others. -/
theorem publish_cases
    (h : service.publish tables scoreUuid userId request publicationId now = .ok (read, tables')) :
    ∃ access publication publications,
      tables.access.resolve service.sha256 scoreUuid
        ⟨some userId, request.revisionId, none, none⟩ now = .ok access ∧
      read = publication.read access.score access.revision.revisionUuid ∧
      publication.scoreId = access.score.id ∧
      publication.publishedRevisionId = access.revision.id ∧ publication ∈ publications ∧
      (∀ other ∈ tables.access.publications, other.scoreId ≠ access.score.id →
        other ∈ publications) ∧
      tables.savePublications publications = some tables' := by
  unfold PublicationService.publish at h
  split at h
  · cases h
  · rename_i access hauthorize
    have hresolve := AccessTables.authorize_resolve hauthorize
    cases hfind : tables.publicationByScore access.score.id with
    | none =>
      simp only [hfind] at h
      split at h
      · cases h
      · rename_i saved hsave
        cases h
        exact ⟨access, _, _, hresolve, rfl, rfl, rfl,
          List.mem_append_right _ (List.mem_singleton_self _),
          fun other hother _ => List.mem_append_left _ hother, hsave⟩
    | some old =>
      have hold : old.scoreId = access.score.id := find_key hfind
      simp only [hfind] at h
      split at h
      · cases h
      · rename_i saved hsave
        cases h
        refine ⟨access, _, _, hresolve, rfl, hold, rfl, ?_, fun other hother hne => ?_, hsave⟩
        · exact List.mem_map.mpr ⟨old, find_mem hfind, if_pos hold⟩
        · exact mem_update_of_ne hother hne

end PublicationService

/-- The action publishes the score. -/
def PublicationAction.Publishes (scoreUuid : String) : PublicationAction → Prop
  | .publish scoreUuid' _ _ _ _ => scoreUuid = scoreUuid'
  | _ => False

namespace AssetTables

variable {service : PublicationService} {tables tables' : AssetTables}
  {action : PublicationAction}

/-- What an action changes: the publications, the scores, or what neither is. -/
theorem next_cases (hk : tables.access.scores.Keyed)
    (h : tables.next service action = some tables') :
    (∃ scoreUuid userId request publicationId now read,
        action = .publish scoreUuid userId request publicationId now ∧
        service.publish tables scoreUuid userId request publicationId now = .ok (read, tables')) ∨
      (∃ scoreId, tables' = tables.withPublications (update ScorePublication.scoreId scoreId
        ({ · with status := .unpublished }) tables.access.publications)) ∨
      (tables'.access.scores.Keyed ∧ tables.access.scores.Grows tables'.access.scores ∧
        (∀ revision ∈ tables'.revisions, revision ∈ tables.revisions ∨
          revision.revisionUuid ≠ "") ∧
        tables'.access.publications = tables.access.publications) := by
  cases action with
  | publish scoreUuid userId request publicationId now =>
    simp only [next] at h
    split at h
    · cases h
    · rename_i read saved hpublish
      cases h
      exact .inl ⟨scoreUuid, userId, request, publicationId, now, read, rfl, hpublish⟩
  | unpublish scoreUuid userId now =>
    simp only [next] at h
    split at h
    · cases h
    · rename_i read saved hunpublish
      cases h
      obtain ⟨access, -, hunpublish⟩ := Python.bind_eq_ok.mp hunpublish
      split at hunpublish
      · cases hunpublish
      · cases hunpublish
        exact .inr (.inl ⟨access.score.id, rfl⟩)
  | create score revision source =>
    simp only [next] at h
    split_ifs at h with hdrawn
    obtain ⟨scores, hcreate, rfl⟩ := Option.map_eq_some_iff.mp h
    obtain ⟨hkeyed, hgrows⟩ := keyed_createScore hk hcreate
    refine .inr (.inr ⟨hkeyed, hgrows, fun row hrow => ?_, rfl⟩)
    obtain ⟨new, huuid, hrevisions⟩ := revisions_createScore hcreate
    have hrow : row ∈ scores.revisions := hrow
    rw [hrevisions] at hrow
    obtain hrow | hrow := List.mem_append.mp hrow
    · exact .inl hrow
    · rw [List.mem_singleton.mp hrow, huuid]
      exact .inr hdrawn
  | revise draft sourceUuid =>
    simp only [next] at h
    split_ifs at h with hdrawn
    obtain ⟨scores, hcommit, rfl⟩ := Option.map_eq_some_iff.mp h
    obtain ⟨hkeyed, hgrows⟩ := keyed_commit hk hcommit
    refine .inr (.inr ⟨hkeyed, hgrows, fun row hrow => ?_, rfl⟩)
    have hrow : row ∈ scores.revisions := hrow
    rw [(RevisionWorld.commit_cases hcommit).2.1] at hrow
    obtain hrow | hrow := List.mem_append.mp hrow
    · exact .inl hrow
    · rw [List.mem_singleton.mp hrow]
      exact .inr hdrawn
  | editScore scoreId title deletionStatus =>
    cases h
    exact .inr (.inr ⟨hk.saveScore _ (fun _ => rfl) fun _ => rfl,
      ScoreTables.grows_saveScore _ (fun _ => rfl) fun _ => rfl, fun _ => .inl, rfl⟩)
  | share memberships grants redemptions =>
    cases h
    exact .inr (.inr ⟨hk, .refl _, fun _ => .inl, rfl⟩)
  | derive renderAssets playbackAssets metadata tags renderOutbox playbackOutbox objects =>
    cases h
    exact .inr (.inr ⟨hk, .refl _, fun _ => .inl, rfl⟩)

theorem savePublications_cases {publications : List ScorePublication}
    (h : tables.savePublications publications = some tables') :
    tables' = tables.withPublications publications ∧
      (publications.map (·.publicSlug)).Nodup ∧ ∀ publication ∈ publications,
        ∃ revision ∈ tables.revisions, revision.id = publication.publishedRevisionId ∧
          revision.scoreId = publication.scoreId := by
  unfold savePublications at h
  split_ifs at h with hok
  exact ⟨(Option.some_inj.mp h).symm, hok⟩

theorem constrained_next (hc : tables.Constrained) (h : tables.next service action = some tables') :
    tables'.Constrained := by
  obtain ⟨scoreUuid, userId, request, publicationId, now, read, -, hpublish⟩ | ⟨scoreId, rfl⟩ |
    ⟨hkeyed, hgrows, hdrawn, hsame⟩ := next_cases hc.toKeyed h
  · obtain ⟨-, -, publications, -, -, -, -, -, -, hsave⟩ :=
      PublicationService.publish_cases hpublish
    obtain ⟨rfl, hslugs, hpublished⟩ := savePublications_cases hsave
    exact { hc.toKeyed with drawn := hc.drawn, slugs := hslugs, published := hpublished }
  · refine { hc.toKeyed with
      drawn := hc.drawn, slugs := ?_, published := fun publication hmem => ?_ }
    · have hkeep : (update ScorePublication.scoreId scoreId ({ · with status := .unpublished })
          tables.access.publications).map (·.publicSlug) =
          tables.access.publications.map (·.publicSlug) := map_update fun _ => rfl
      exact hkeep ▸ hc.slugs
    · obtain ⟨hmem, -⟩ | ⟨old, hold, -, rfl⟩ := mem_update hmem
      · exact hc.published publication hmem
      · exact hc.published old hold
  · refine { hkeyed with
      drawn := fun revision hrevision => ?_
      slugs := ?_, published := fun publication hmem => ?_ }
    · obtain hold | hnew := hdrawn revision hrevision
      · exact hc.drawn revision hold
      · exact hnew
    · rw [hsame]
      exact hc.slugs
    · rw [hsame] at hmem
      obtain ⟨revision, hrevision, hid, hscore⟩ := hc.published publication hmem
      exact ⟨revision, hgrows.revisions _ hrevision, hid, hscore⟩

/-! ## What is published stays -/

/-- The slug leads to a revision of the score. -/
def Pinned (scoreUuid slug : String) (revision : ScoreRevision) (tables : AssetTables) : Prop :=
  revision ∈ tables.revisions ∧ ∃ score ∈ tables.access.scores.scores,
    score.scoreUuid = scoreUuid ∧ ∃ publication ∈ tables.access.publications,
      publication.scoreId = score.id ∧ publication.publicSlug = slug ∧
      publication.publishedRevisionId = revision.id

theorem pinned_of_publish {scoreUuid : String} {userId : Int}
    {request : PublicationUpsertRequest} {publicationId : Nat} {now : Int} {read : PublicationRead}
    (h : service.publish tables scoreUuid userId request publicationId now = .ok (read, tables')) :
    ∃ revision, revision.revisionUuid = read.revisionId ∧
      tables'.Pinned scoreUuid read.publicSlug revision := by
  obtain ⟨access, publication, publications, hresolve, rfl, hscore, hpublished, hmem, -, hsave⟩ :=
    PublicationService.publish_cases h
  obtain ⟨rfl, -, -⟩ := savePublications_cases hsave
  obtain ⟨hactive, hrevision, -⟩ := AccessTables.resolve_requested hresolve
  have hfound := List.find?_some hactive
  exact ⟨access.revision, rfl, hrevision, access.score, List.mem_of_find?_eq_some hactive,
    (of_decide_eq_true hfound).1, publication, hmem, hscore, rfl, hpublished⟩

theorem pinned_next (hc : tables.Constrained) {scoreUuid slug : String} {revision : ScoreRevision}
    (hp : tables.Pinned scoreUuid slug revision) (hother : ¬action.Publishes scoreUuid)
    (h : tables.next service action = some tables') : tables'.Pinned scoreUuid slug revision := by
  obtain ⟨hrevision, score, hscore, huuid, publication, hmem, hid, hslug, hpublished⟩ := hp
  obtain ⟨scoreUuid', userId, request, publicationId, now, read, rfl, hpublish⟩ | ⟨scoreId, rfl⟩ |
    ⟨-, hgrows, -, hsame⟩ := next_cases hc.toKeyed h
  · obtain ⟨access, -, publications, hresolve, -, -, -, -, hkept, hsave⟩ :=
      PublicationService.publish_cases hpublish
    obtain ⟨rfl, -, -⟩ := savePublications_cases hsave
    have hactive := (AccessTables.resolve_requested hresolve).1
    have hfound := List.find?_some hactive
    -- the score that is published is another one, so its row is another row
    have hne : publication.scoreId ≠ access.score.id := by
      intro heq
      have hsame := List.inj_on_of_nodup_map hc.scoreIds hscore
        (List.mem_of_find?_eq_some hactive) (hid.symm.trans heq)
      rw [← hsame] at hfound
      exact hother (huuid.symm.trans (of_decide_eq_true hfound).1)
    exact ⟨hrevision, score, hscore, huuid, publication, hkept publication hmem hne, hid, hslug,
      hpublished⟩
  · refine ⟨hrevision, score, hscore, huuid, ?_⟩
    by_cases hk : publication.scoreId = scoreId
    · exact ⟨_, List.mem_map.mpr ⟨publication, hmem, if_pos hk⟩, hid, hslug, hpublished⟩
    · exact ⟨publication, mem_update_of_ne hmem hk, hid, hslug, hpublished⟩
  · obtain ⟨score', hscore', hid', huuid'⟩ := hgrows.scores score hscore
    refine ⟨hgrows.revisions _ hrevision, score', hscore', huuid'.trans huuid, publication, ?_,
      hid.trans hid'.symm, hslug, hpublished⟩
    rw [hsame]
    exact hmem

/-! ## The published view -/

/-- The later states of the tables, while the score is not published again. -/
def Later (service : PublicationService) (scoreUuid : String) (tables : AssetTables) :
    AssetTables → Prop :=
  Reachable (· = tables) (guarded (fun _ action => ¬action.Publishes scoreUuid)
    fun tables action tables' => tables.next service action = some tables')

theorem pinned_later (hc : tables.Constrained) {scoreUuid slug : String} {revision : ScoreRevision}
    (hp : tables.Pinned scoreUuid slug revision) (h : tables.Later service scoreUuid tables') :
    tables'.Constrained ∧ tables'.Pinned scoreUuid slug revision := by
  refine h.invariant (p := fun tables => tables.Constrained ∧
    tables.Pinned scoreUuid slug revision) ?_ ?_
  · rintro _ rfl
    exact ⟨hc, hp⟩
  · rintro tables action tables' ⟨hc, hp⟩ ⟨hother, hnext⟩
    exact ⟨constrained_next hc hnext, pinned_next hc hp hother hnext⟩

/-- Once a revision is published, a viewer is shown this revision, at any later
time until the score is published again, exactly if the viewer has no other
relation to the score or the revision is still the head, and no page or audio of
a later revision takes the place of one that it does not have. -/
theorem published_view_stable (service : PublicationService) {start tables tables' : AssetTables}
    (hstart : start.Constrained) {scoreUuid : String} {userId : Int}
    {request : PublicationUpsertRequest} {publicationId : Nat} {now : Int}
    {published : PublicationRead}
    (hpublish : service.publish start scoreUuid userId request publicationId now =
      .ok (published, tables))
    (hlater : tables.Later service scoreUuid tables') :
    ∃ revision ∈ tables'.revisions, revision.revisionUuid = published.revisionId ∧
      ∃ score ∈ tables'.access.scores.scores, score.scoreUuid = scoreUuid ∧
        ∀ viewer now later detail,
          service.publicDetail tables' published.publicSlug viewer now later = .ok detail →
            (tables'.Shows revision detail ↔ tables'.Undisturbed score revision viewer now) := by
  obtain ⟨revision, huuid, hpinned⟩ := pinned_of_publish hpublish
  have hconstrained : tables.Constrained :=
    @constrained_next service _ _ (.publish scoreUuid userId request publicationId now) hstart
      (by rw [next, hpublish])
  obtain ⟨hc, hrevision, score, hscore, hscoreUuid, publication, hmem, hid, hslug, hpublished⟩ :=
    pinned_later hconstrained hpinned hlater
  refine ⟨revision, hrevision, huuid, score, hscore, hscoreUuid,
    fun viewer now later detail hdetail => ?_⟩
  exact shows_published_iff hc hdetail hmem hslug hscore hid.symm hrevision hpublished.symm

/-- A score of user 1 with one revision. -/
def oneRevision : AssetTables where
  access := {
    scores := {
      scores := [⟨1, "score", 1, "Etude", some 1, none, 1, .active⟩]
      revisions := [⟨1, "first", 1, 1, none, none, "", none, .imported, none, none⟩]
      sources := [], nextScoreId := 2, nextRevisionId := 2 }
    memberships := [], grants := [], redemptions := [], publications := [] }
  renderAssets := []
  playbackAssets := []
  metadata := []
  tags := []
  renderOutbox := []
  playbackOutbox := []
  objects := []

theorem oneRevision_constrained : oneRevision.Constrained where
  scoreIds := by decide
  scoreUuids := by decide
  scoresBelow := by decide
  revisionIds := by decide
  revisionUuids := by decide
  revisionsBelow := by decide
  keys := by decide
  drawn := by decide
  slugs := by decide
  published := fun _ h => nomatch h

/-- The owner's next revision. -/
def secondDraft : RevisionDraft where
  score := ⟨1, "score", 1, "Etude", some 1, none, 1, .active⟩
  userId := 1
  revisionUuid := "second"
  revisionNumber := 2
  parentRevisionId := 1
  baseRevisionId := 1
  contentHash := "edited"
  idempotencyKey := none
  origin := .edit
  content := ""
  mimeType := ""
  generator := "editor"
  reason := ""

def plainPublications : PublicationService := ⟨id, id⟩

/-- The first revision is published, the second one made, and its audio. -/
def firstPublished : PublicationRead := ⟨"etude", "score", "first", .published, false, true⟩

def publishedTables : AssetTables :=
  oneRevision.withPublications [⟨1, 1, "etude", 1, .published, false, true⟩]

def revisedTables : AssetTables :=
  (publishedTables.next plainPublications (.revise secondDraft "source")).getD publishedTables

def soundingTables : AssetTables :=
  { revisedTables with playbackAssets := [⟨"audio", 2, .audio, "audio.mp3", 0⟩] }

theorem publish_oneRevision : plainPublications.publish oneRevision "score" 1
    ⟨none, some "etude", false, true⟩ 1 0 = .ok (firstPublished, publishedTables) := by
  decide

theorem revised_later :
    publishedTables.Later plainPublications "score" revisedTables ∧
      publishedTables.Later plainPublications "score" soundingTables := by
  have hrevised : publishedTables.Later plainPublications "score" revisedTables :=
    .step (a := .revise secondDraft "source") (.start rfl) ⟨id, by decide⟩
  refine ⟨hrevised, .step (a := .derive [] [⟨"audio", 2, .audio, "audio.mp3", 0⟩] [] [] [] [] [])
    hrevised ⟨id, ?_⟩⟩
  decide

/-- After the second revision a visitor of the publication still sees the first. -/
theorem published_view_stable_visitor :
    ∃ revision, revision.revisionUuid = "first" ∧ ∃ detail,
      plainPublications.publicDetail revisedTables "etude" none 0 0 = .ok detail ∧
        revisedTables.Shows revision detail := by
  obtain ⟨revision, -, huuid, score, -, -, hshows⟩ := published_view_stable plainPublications
    oneRevision_constrained publish_oneRevision revised_later.1
  refine ⟨revision, huuid, _, rfl, (hshows none 0 0 _ rfl).mpr ⟨fun hrelated => ?_, ?_, ?_⟩⟩
  · simp [AccessTables.Related] at hrelated
  · exact .inr fun asset hasset => nomatch hasset
  · exact .inr fun asset hasset => nomatch hasset

/-- The owner is shown the second revision under the slug of the first one, and
a visitor its audio. -/
theorem published_view_moves :
    ∃ published tables, plainPublications.publish oneRevision "score" 1
        ⟨none, some "etude", false, true⟩ 1 0 = .ok (published, tables) ∧
      (∃ tables', tables.Later plainPublications "score" tables' ∧ ∃ detail,
        plainPublications.publicDetail tables' "etude" (some 1) 0 0 = .ok detail ∧
        ∀ revision, revision.revisionUuid = published.revisionId →
          ¬tables'.Shows revision detail) ∧
      ∃ tables', tables.Later plainPublications "score" tables' ∧ ∃ detail,
        plainPublications.publicDetail tables' "etude" none 0 0 = .ok detail ∧
        detail.derivedAssets.audio.revisionId = some "second" := by
  refine ⟨firstPublished, publishedTables, publish_oneRevision,
    ⟨revisedTables, revised_later.1, _, rfl, fun revision huuid hshows => ?_⟩,
    soundingTables, revised_later.2, _, rfl, ?_⟩
  · have hshown := hshows.revisionId
    rw [huuid] at hshown
    exact absurd hshown (by decide)
  · decide

end AssetTables

end NoteVerse.Backend

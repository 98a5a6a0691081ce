import NoteVerse.Backend.AccessPolicy
import NoteVerse.Backend.Outbox

/-!
# What a viewer is shown of a revision

The rows of rendered pages, audio and metadata, the queries of
`score_assets/repository.py`, `score_derived_assets` and
`list_revision_assets`. Where a revision has no page or audio of its own,
`score_derived_assets` shows the one of another revision of the score, the
latest that has one (`fallbackRenderedPageAsset_eq_some`).

A query for the first row in an order is `argmin` of the order's key. A
revision has at most one record in each outbox, so the latest one is that one.
Times and file names that are only copied to the answer are left out.
-/

namespace NoteVerse.Backend

open Table

/-! ## Rows -/

inductive RenderAssetKind
  | renderedPage
  deriving DecidableEq, Repr

/-- A row of `score_render_assets`. A rendered page has a profile and a page number. -/
structure RenderAssetRow where
  assetUuid : String
  revisionId : RevisionId
  kind : RenderAssetKind
  storageKey : String
  filename : String
  mimeType : String
  sizeBytes : Option Nat
  sha256 : String
  pageNumber : Int
  renderProfile : String
  createdAt : Int
  deriving DecidableEq, Repr

structure PlaybackAssetRow where
  assetUuid : String
  revisionId : RevisionId
  kind : PlaybackAssetKind
  storageKey : String
  createdAt : Int
  deriving DecidableEq, Repr

inductive MetadataStatus
  | pending | ready | failed
  deriving DecidableEq, Repr

/-- An event of a projection, with its values as texts. -/
abbrev MetadataEvent := List (String × String)

/-- What is known of the music of a revision. -/
structure MetadataProjection where
  status : MetadataStatus
  measureCount : Option Int
  playbackDurationMs : Option Int
  partCount : Option Int
  primaryKeyFifths : Option Int
  primaryMode : Option String
  keySignatureEvents : List MetadataEvent
  timeSignatureEvents : List MetadataEvent
  tempoEvents : List MetadataEvent
  computedAt : Option Int
  deriving DecidableEq, Repr

structure ScoreRevisionMetadata where
  revisionId : RevisionId
  projection : MetadataProjection
  deriving DecidableEq, Repr

/-- A tag of a score, joined with its category. -/
structure ScoreTaxonomyTag where
  scoreId : ScoreId
  category : String
  code : String
  source : String
  confidence : Option ℚ
  deriving DecidableEq, Repr

/-- What the outboxes say of a revision. -/
structure RenderOutboxRow where
  revisionId : RevisionId
  renderProfile : String
  status : OutboxStatus
  deriving DecidableEq, Repr

structure PlaybackOutboxRow where
  revisionId : RevisionId
  assetKind : PlaybackAssetKind
  status : OutboxStatus
  deriving DecidableEq, Repr

/-- The tables, with the tags in the order of their categories, and the keys
of the stored objects. -/
structure AssetTables where
  access : AccessTables
  renderAssets : List RenderAssetRow
  playbackAssets : List PlaybackAssetRow
  metadata : List ScoreRevisionMetadata
  tags : List ScoreTaxonomyTag
  renderOutbox : List RenderOutboxRow
  playbackOutbox : List PlaybackOutboxRow
  objects : List String
  deriving DecidableEq, Repr

namespace AssetTables

variable (tables : AssetTables)

abbrev revisions : List ScoreRevision := tables.access.scores.revisions

abbrev revisionById (revisionId : RevisionId) : Option ScoreRevision :=
  tables.access.scores.revisionById revisionId

/-! ## Queries -/

def listSources (revisionId : RevisionId) : List ScoreRevisionSource :=
  tables.access.scores.sources.filter (·.revisionId = revisionId)

def listRenderAssets (revisionId : RevisionId) : List RenderAssetRow :=
  (tables.renderAssets.filter (·.revisionId = revisionId)).insertionSort
    fun a b => a.pageNumber ≤ b.pageNumber

def firstRenderedPageAsset (revisionId : RevisionId) : Option RenderAssetRow :=
  (tables.renderAssets.filter fun asset =>
    asset.revisionId = revisionId ∧ asset.kind = .renderedPage).argmin fun asset =>
      toLex (asset.pageNumber, asset.createdAt)

def latestRenderOutbox (revisionId : RevisionId) : Option RenderOutboxRow :=
  tables.renderOutbox.find? fun outbox =>
    outbox.revisionId = revisionId ∧ outbox.renderProfile = "default"

def playbackAsset (revisionId : RevisionId) : Option PlaybackAssetRow :=
  tables.playbackAssets.find? fun asset => asset.revisionId = revisionId ∧ asset.kind = .audio

def latestPlaybackOutbox (revisionId : RevisionId) : Option PlaybackOutboxRow :=
  tables.playbackOutbox.find? fun outbox =>
    outbox.revisionId = revisionId ∧ outbox.assetKind = .audio

/-- Rows joined with their revisions of a score, one revision left out. -/
def joinOther {α : Type} (rows : List α) (revisionOf : α → RevisionId) (scoreId : ScoreId)
    (headRevisionId : RevisionId) : List (α × ScoreRevision) :=
  rows.filterMap fun row =>
    ((tables.revisionById (revisionOf row)).filter fun revision =>
      revision.scoreId = scoreId ∧ revision.id ≠ headRevisionId).map (row, ·)

def fallbackRenderedPageAsset (scoreId : ScoreId) (headRevisionId : RevisionId) :
    Option (RenderAssetRow × ScoreRevision) :=
  (tables.joinOther (tables.renderAssets.filter (·.kind = .renderedPage))
    RenderAssetRow.revisionId scoreId headRevisionId).argmin fun (asset, revision) =>
      toLex (OrderDual.toDual revision.revisionNumber, toLex (asset.pageNumber, asset.createdAt))

def fallbackPlaybackAsset (scoreId : ScoreId) (headRevisionId : RevisionId) :
    Option (PlaybackAssetRow × ScoreRevision) :=
  (tables.joinOther (tables.playbackAssets.filter (·.kind = .audio))
    PlaybackAssetRow.revisionId scoreId headRevisionId).argmin fun (asset, revision) =>
      toLex (OrderDual.toDual revision.revisionNumber, asset.createdAt)

end AssetTables

/-! ## Derived assets -/

inductive DerivedAssetStatus
  | pending | processing | ready | unavailable
  deriving DecidableEq, Repr

/-- `derived_asset_status` -/
def derivedAssetStatus (hasCurrentAsset : Bool) (outboxStatus : Option OutboxStatus) :
    DerivedAssetStatus :=
  if hasCurrentAsset then .ready
  else
    match outboxStatus with
    | some .pending | some .dispatched | some .processing => .processing
    | some .failed => .unavailable
    | _ => .pending

structure ScoreDerivedAssetRead where
  status : DerivedAssetStatus
  assetId : Option String
  revisionId : Option String
  isFallback : Bool
  deriving DecidableEq, Repr

structure ScoreDerivedAssetsRead where
  preview : ScoreDerivedAssetRead
  audio : ScoreDerivedAssetRead
  deriving DecidableEq, Repr

/-- What is shown for one kind of asset: the current one, else the fallback. -/
def derivedAssetRead {α : Type} (assetUuid : α → String) (revision : ScoreRevision)
    (current : Option α) (fallback : Option (α × ScoreRevision))
    (outboxStatus : Option OutboxStatus) : ScoreDerivedAssetRead :=
  let displayed := match current with
    | some asset => some (asset, revision)
    | none => fallback
  { status := derivedAssetStatus current.isSome outboxStatus
    assetId := displayed.map fun shown => assetUuid shown.1
    revisionId := displayed.map fun shown => shown.2.revisionUuid
    isFallback := current.isNone && fallback.isSome }

/-- `score_derived_assets` -/
def AssetTables.scoreDerivedAssets (tables : AssetTables) (scoreId : ScoreId)
    (revision : ScoreRevision) : ScoreDerivedAssetsRead where
  preview := derivedAssetRead (·.assetUuid) revision (tables.firstRenderedPageAsset revision.id)
    (tables.fallbackRenderedPageAsset scoreId revision.id)
    ((tables.latestRenderOutbox revision.id).map (·.status))
  audio := derivedAssetRead (·.assetUuid) revision (tables.playbackAsset revision.id)
    (tables.fallbackPlaybackAsset scoreId revision.id)
    ((tables.latestPlaybackOutbox revision.id).map (·.status))

/-! ## The assets of a revision -/

structure RevisionSourceRead where
  sourceId : String
  revisionId : String
  format : RevisionSourceFormat
  mimeType : String
  sizeBytes : Nat
  available : Bool
  deriving DecidableEq, Repr

structure RenderAssetRead where
  renderAssetId : String
  revisionId : String
  kind : RenderAssetKind
  filename : String
  mimeType : String
  sizeBytes : Option Nat
  pageNumber : Int
  available : Bool
  deriving DecidableEq, Repr

structure ScoreRevisionAssetsRead where
  revisionSources : List RevisionSourceRead
  renderAssets : List RenderAssetRead
  deriving DecidableEq, Repr

namespace AssetTables

variable (tables : AssetTables)

/-- `_source_read` -/
def sourceRead (revision : ScoreRevision) (source : ScoreRevisionSource) : RevisionSourceRead where
  sourceId := source.sourceUuid
  revisionId := revision.revisionUuid
  format := source.format
  mimeType := source.mimeType
  sizeBytes := source.sizeBytes
  available := tables.objects.contains source.storageKey

/-- `_render_asset_read` -/
def renderAssetRead (revision : ScoreRevision) (renderAsset : RenderAssetRow) :
    RenderAssetRead where
  renderAssetId := renderAsset.assetUuid
  revisionId := revision.revisionUuid
  kind := renderAsset.kind
  filename := renderAsset.filename
  mimeType := renderAsset.mimeType
  sizeBytes := renderAsset.sizeBytes
  pageNumber := renderAsset.pageNumber
  available := tables.objects.contains renderAsset.storageKey

/-- `list_revision_assets` -/
def listRevisionAssets (sha256 : String → String) (scoreUuid : String) (request : AccessRequest)
    (includeSources : Bool) (now : Int) : Except AccessError ScoreRevisionAssetsRead :=
  (tables.access.authorize sha256 scoreUuid .view request now).map fun access =>
    let sources := if includeSources then tables.listSources access.revision.id else []
    { revisionSources := sources.map (tables.sourceRead access.revision)
      renderAssets :=
        (tables.listRenderAssets access.revision.id).map (tables.renderAssetRead access.revision) }

end AssetTables

end NoteVerse.Backend

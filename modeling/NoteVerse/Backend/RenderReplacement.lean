import NoteVerse.Backend.ScoreAssets
import NoteVerse.Lib.JsNumber
import NoteVerse.Lib.Lists
import NoteVerse.Lib.Python

/-!
# Rendering a revision again

`render` and `render_for_worker` of `score_assets/render_service.py` on one revision and
profile. A call saves its pages one by one, reads the rows there are, replaces them in a
transaction and deletes the objects of those it replaced; calls overlap between these steps.
Only the rows of the revision and the profile are modelled, and the objects of the profile.

A key is made of a uuid that is drawn for it and tells it (`renderStorageKey_inj`). Objects
that are to be deleted are.
-/

namespace NoteVerse.Backend

open Python

/-! ## Records -/

/-- What is rendered. -/
structure RenderedRevision where
  scoreUuid : String
  revisionUuid : String
  revisionId : RevisionId
  profile : String
  deriving DecidableEq, Repr

/-- A page that the engine has made, with the uuid that is drawn for it; its file has the
extension `"." ++ suffix`. -/
structure RenderedPage where
  assetUuid : String
  suffix : String
  mimeType : String
  content : String
  createdAt : Int
  deriving DecidableEq, Repr

/-- `f"{page:03d}"` -/
def threeDigits (page : Nat) : String :=
  String.ofList (List.replicate (3 - (Nat.repr page).length) '0') ++ Nat.repr page

def RenderedRevision.folder (target : RenderedRevision) : String :=
  s!"scores/{target.scoreUuid}/revisions/{target.revisionUuid}/renders/{target.profile}/"

/-- `render_storage_key` -/
def renderStorageKey (target : RenderedRevision) (page : Nat) (assetUuid extension : String) :
    String :=
  target.folder ++ (threeDigits page ++ ("-" ++ (assetUuid ++ extension)))

/-- `build_render_asset_record` -/
def buildRenderAssetRecord (sha256 : String → String) (target : RenderedRevision) (page : Nat)
    (output : RenderedPage) : RenderAssetRow :=
  let key := renderStorageKey target page output.assetUuid ("." ++ output.suffix)
  { assetUuid := output.assetUuid
    revisionId := target.revisionId
    kind := .renderedPage
    storageKey := key
    filename := afterLast '/' key
    mimeType := output.mimeType
    sizeBytes := some output.content.utf8ByteSize
    sha256 := sha256 output.content
    pageNumber := page
    renderProfile := target.profile
    createdAt := output.createdAt }

/-- `_delete_storage_keys_best_effort` -/
def deleteStorageKeys (objects keys : List String) : List String := objects.filter (· ∉ keys)

/-! ## Calls -/

inductive RenderVariant
  | render | renderForWorker
  deriving DecidableEq, Repr

/-- How far a call is: it saves its pages, has read the rows that it replaces, has committed,
or has ended. -/
inductive RenderPhase
  | idle
  | rendering
  | read (previous : List RenderAssetRow)
  | committed (previous : List RenderAssetRow)
  | returned
  | raised (committed : Bool)
  deriving DecidableEq, Repr

/-- A call with the records of the pages it has saved. -/
structure RenderCall where
  variant : RenderVariant
  records : List RenderAssetRow
  phase : RenderPhase
  deriving DecidableEq, Repr

def RenderCall.keys (call : RenderCall) : List String := call.records.map (·.storageKey)

/-- The committed rows, the stored objects, the calls and the uuids that were drawn. -/
structure RenderState where
  rows : List RenderAssetRow
  objects : List String
  calls : Nat → RenderCall
  drawn : List String

inductive RenderAction
  | start (i : Nat) (variant : RenderVariant)
  | upload (i : Nat) (output : RenderedPage)
  /-- The engine, a page or the query for the rows fails. -/
  | fail (i : Nat)
  | read (i : Nat)
  | commit (i : Nat)
  | commitFails (i : Nat)
  /-- The accounting after the commit fails. -/
  | accountFails (i : Nat)
  | deletePrevious (i : Nat)
  deriving DecidableEq, Repr

/-- The constraints of the table. -/
def Conflicts (rows records : List RenderAssetRow) : Prop :=
  ∃ row ∈ rows, ∃ record ∈ records, row.pageNumber = record.pageNumber ∨
    row.storageKey = record.storageKey ∨ row.assetUuid = record.assetUuid

instance (rows records : List RenderAssetRow) : Decidable (Conflicts rows records) :=
  inferInstanceAs (Decidable (∃ row ∈ rows, ∃ record ∈ records, _))

/-- The rows that are left after some are deleted. -/
def withoutRows (rows previous : List RenderAssetRow) : List RenderAssetRow :=
  rows.filter fun row => row.assetUuid ∉ previous.map (·.assetUuid)

namespace RenderState

variable (sha256 : String → String) (target : RenderedRevision) (s : RenderState)

def setPhase (i : Nat) (phase : RenderPhase) : RenderState :=
  { s with calls := Function.update s.calls i { s.calls i with phase } }

/-- A call that has changed nothing deletes what it saved. -/
def abort (i : Nat) : RenderState :=
  { s.setPhase i (.raised false) with objects := deleteStorageKeys s.objects (s.calls i).keys }

/-- The first `except` of `render` deletes nothing. -/
def fail (i : Nat) : RenderState :=
  match (s.calls i).variant with
  | .render => s.setPhase i (.raised false)
  | .renderForWorker => s.abort i

def upload (i : Nat) (output : RenderedPage) : RenderState :=
  let call := s.calls i
  let record := buildRenderAssetRecord sha256 target (call.records.length + 1) output
  { s with
    objects := record.storageKey :: s.objects
    calls := Function.update s.calls i { call with records := call.records ++ [record] }
    drawn := output.assetUuid :: s.drawn }

/-- The rows of a call replace those it has read, if the constraints hold. -/
def commit (i : Nat) (previous : List RenderAssetRow) : RenderState :=
  let rows := withoutRows s.rows previous
  if Conflicts rows (s.calls i).records then s.abort i
  else { s.setPhase i (.committed previous) with rows := rows ++ (s.calls i).records }

def deletePrevious (i : Nat) (previous : List RenderAssetRow) : RenderState :=
  { s.setPhase i .returned with
    objects := deleteStorageKeys s.objects (previous.map (·.storageKey)) }

def next : RenderAction → Option RenderState
  | .start i variant =>
    if (s.calls i).phase = .idle then
      some { s with calls := Function.update s.calls i ⟨variant, [], .rendering⟩ }
    else none
  | .upload i output =>
    if (s.calls i).phase = .rendering ∧ output.assetUuid ∉ s.drawn ∧
        '.' ∉ output.assetUuid.toList then some (s.upload sha256 target i output)
    else none
  | .fail i => if (s.calls i).phase = .rendering then some (s.fail i) else none
  | .read i =>
    if (s.calls i).phase = .rendering ∧ (s.calls i).records ≠ [] then
      some (s.setPhase i (.read s.rows))
    else none
  | .commit i =>
    match (s.calls i).phase with
    | .read previous => some (s.commit i previous)
    | _ => none
  | .commitFails i =>
    match (s.calls i).phase with
    | .read _ => some (s.abort i)
    | _ => none
  | .accountFails i =>
    match (s.calls i).phase with
    | .committed _ => some (s.setPhase i (.raised true))
    | _ => none
  | .deletePrevious i =>
    match (s.calls i).phase with
    | .committed previous => some (s.deletePrevious i previous)
    | _ => none

end RenderState

/-! ## Keys -/

/-- A record that a call has made. -/
structure Made (target : RenderedRevision) (row : RenderAssetRow) : Prop where
  uuid : '.' ∉ row.assetUuid.toList
  key : ∃ page suffix,
    row.storageKey = renderStorageKey target page row.assetUuid ("." ++ suffix)

theorem threeDigits_dash (page : Nat) : '-' ∉ (threeDigits page).toList := by
  unfold threeDigits
  rw [String.toList_append, String.toList_ofList, List.mem_append, not_or]
  refine ⟨fun h => ?_, fun h => ?_⟩
  · exact absurd (List.eq_of_mem_replicate h) (by decide)
  · exact absurd (Js.isDigit_of_mem_natRepr h) (by decide)

/-- The key tells the uuid. -/
theorem renderStorageKey_inj {target : RenderedRevision} {page page' : Nat}
    {uuid uuid' suffix suffix' : String} (h : '.' ∉ uuid.toList) (h' : '.' ∉ uuid'.toList)
    (heq : renderStorageKey target page uuid ("." ++ suffix) =
      renderStorageKey target page' uuid' ("." ++ suffix')) : uuid = uuid' := by
  have hlist := congrArg String.toList heq
  unfold renderStorageKey at hlist
  simp only [String.toList_append, List.append_cancel_left_eq] at hlist
  obtain ⟨-, hrest⟩ := Lists.cut_first_inj (threeDigits_dash page) (threeDigits_dash page') hlist
  obtain ⟨huuid, -⟩ := Lists.cut_first_inj h h' hrest
  exact String.toList_injective huuid

theorem Made.uuid_eq {target : RenderedRevision} {row row' : RenderAssetRow} (h : Made target row)
    (h' : Made target row') (hkey : row.storageKey = row'.storageKey) :
    row.assetUuid = row'.assetUuid := by
  obtain ⟨page, suffix, heq⟩ := h.key
  obtain ⟨page', suffix', heq'⟩ := h'.key
  exact renderStorageKey_inj h.uuid h'.uuid (heq.symm.trans (hkey.trans heq'))

end NoteVerse.Backend

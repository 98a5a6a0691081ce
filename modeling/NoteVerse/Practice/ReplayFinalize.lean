import NoteVerse.Lib.Python
import NoteVerse.Practice.SessionRequests

/-!
# The replay artifacts of a session

`finalize_replay_artifact` of `modules/practice/service.py`. A call looks for an
artifact with its uuid (`finalizeByUuid`), then for one of the session and kind
(`finalizeForKind`), and then inserts its own; other calls may commit between any
two of these. The unique indexes of `practice_replay_artifacts` are checked when a
row is inserted (`insertArtifact`).

Of an error, its code and field are kept.
-/

namespace NoteVerse.Practice

open Python

inductive PracticeReplayArtifactKind
  | audioRecording | midiEvents
  deriving DecidableEq, Repr

structure PracticeReplayArtifact where
  artifactUuid : String
  sessionId : Nat
  kind : PracticeReplayArtifactKind
  inputSource : PracticeInputSource
  storageBackend : String
  objectKey : String
  contentType : String
  byteSize : Int
  checksumSha256 : String
  durationMs : Int
  timebaseVersion : Int
  formatVersion : Int
  createdAt : Nat
  deriving DecidableEq, Repr

structure PracticeReplayFinalizeRequest where
  artifactId : String
  kind : PracticeReplayArtifactKind
  contentType : String
  byteSize : Int
  checksumSha256 : String
  durationMs : Int
  timebaseVersion : Int
  formatVersion : Int
  deriving DecidableEq, Repr

inductive ReplayError
  | validation (code field : String)
  | resourceNotFound (resource id code : String)
  | unauthorized (code : String)
  deriving DecidableEq, Repr

/-- What the storage holds under a key. -/
structure StoredObject where
  sizeBytes : Int
  contentType : Option String
  checksumSha256 : Option String
  /-- The checksum of the bytes. -/
  calculatedChecksum : String
  deriving DecidableEq, Repr

/-! ## Content types -/

def replayKindForInputSource : PracticeInputSource → PracticeReplayArtifactKind
  | .midi => .midiEvents
  | .microphone => .audioRecording

def allowedReplayContentTypes : PracticeReplayArtifactKind → List String
  | .midiEvents => ["application/json", "application/vnd.noteverse.replay+json"]
  | .audioRecording => ["audio/webm", "audio/wav", "audio/wave", "audio/x-wav"]

def replayMediaType (contentType : String) : String :=
  (strip (String.ofList (contentType.toList.takeWhile (· ≠ ';')))).toLower

def canonicalReplayContentType (kind : PracticeReplayArtifactKind) (contentType : String) :
    Except ReplayError String :=
  let mediaType := replayMediaType contentType
  if mediaType ∉ allowedReplayContentTypes kind then
    .error (.validation "FILE_TYPE_NOT_ALLOWED" "content_type")
  else .ok mediaType

def downloadExtension (kind : PracticeReplayArtifactKind) (contentType : String) : String :=
  if kind = .midiEvents then ".json"
  else if replayMediaType contentType = "audio/webm" then ".webm"
  else ".wav"

def replayArtifactObjectKey (sessionUuid artifactUuid : String) (kind : PracticeReplayArtifactKind)
    (contentType : String) : String :=
  "practice/replays/" ++ sessionUuid ++ "/" ++ artifactUuid ++ downloadExtension kind contentType

/-! ## The checks -/

def validateReplayMetadata (session : SessionRow) (request : PracticeReplayFinalizeRequest) :
    Except ReplayError Unit :=
  if session.state ≠ .finished then
    .error (.validation "PRACTICE_SESSION_INVALID_STATE" "state")
  else if session.evaluationProfile ≠ .performance then
    .error (.validation "PRACTICE_SESSION_INVALID_STATE" "evaluation_profile")
  else if request.kind ≠ replayKindForInputSource session.inputSource then
    .error (.validation "VALIDATION_ERROR" "kind")
  else if request.byteSize ≤ 0 then .error (.validation "NO_FILE_SELECTED" "byte_size")
  else if request.durationMs < 0 then .error (.validation "VALIDATION_ERROR" "duration_ms")
  else if request.timebaseVersion < 1 then .error (.validation "VALIDATION_ERROR" "timebase_version")
  else if request.formatVersion < 1 then .error (.validation "VALIDATION_ERROR" "format_version")
  else if replayMediaType request.contentType ∉ allowedReplayContentTypes request.kind then
    .error (.validation "FILE_TYPE_NOT_ALLOWED" "content_type")
  else if request.checksumSha256.length ≠ 64 then
    .error (.validation "VALIDATION_ERROR" "checksum_sha256")
  else if !isHexInt request.checksumSha256 then
    .error (.validation "VALIDATION_ERROR" "checksum_sha256")
  else .ok ()

def validateUploadedReplayObject (backendName : String) (object : Option StoredObject)
    (request : PracticeReplayFinalizeRequest) (contentType : String) : Except ReplayError Unit :=
  match object with
  | none =>
    .error (.resourceNotFound "practice_replay_artifact_object" request.artifactId "FILE_NOT_FOUND")
  | some object =>
    if object.sizeBytes ≠ request.byteSize then .error (.validation "VALIDATION_ERROR" "byte_size")
    else if object.contentType.any fun stored => stored ≠ "" ∧ replayMediaType stored ≠ contentType then
      .error (.validation "VALIDATION_ERROR" "content_type")
    else
      match object.checksumSha256.filter (· ≠ "") with
      | some checksum =>
        if checksum.toLower ≠ request.checksumSha256.toLower then
          .error (.validation "VALIDATION_ERROR" "checksum_sha256")
        else .ok ()
      | none =>
        if backendName ≠ "s3" ∧ object.calculatedChecksum ≠ request.checksumSha256.toLower then
          .error (.validation "VALIDATION_ERROR" "checksum_sha256")
        else .ok ()

def validateExistingReplayArtifact (session : SessionRow) (artifact : PracticeReplayArtifact)
    (request : PracticeReplayFinalizeRequest) (contentType : String) : Except ReplayError Unit :=
  if artifact.objectKey ≠
        replayArtifactObjectKey session.sessionUuid request.artifactId request.kind contentType ∨
      artifact.kind ≠ request.kind ∨ artifact.contentType ≠ contentType ∨
      artifact.byteSize ≠ request.byteSize ∨
      artifact.checksumSha256 ≠ request.checksumSha256.toLower ∨
      artifact.durationMs ≠ request.durationMs ∨
      artifact.timebaseVersion ≠ request.timebaseVersion ∨
      artifact.formatVersion ≠ request.formatVersion then
    .error (.validation "VALIDATION_ERROR" "artifact_id")
  else .ok ()

/-! ## The steps of a call -/

/-- A call that has found no artifact with its uuid. -/
structure Finalizing where
  sessionId : Nat
  session : SessionRow
  request : PracticeReplayFinalizeRequest
  contentType : String
  deriving DecidableEq, Repr

/-- Up to the lookup by uuid: the artifact that is answered, or the call that goes on. -/
def finalizeByUuid (artifacts : List PracticeReplayArtifact) (sessionId : Nat) (session : SessionRow)
    (userId : Nat) (request : PracticeReplayFinalizeRequest) :
    Except ReplayError (PracticeReplayArtifact ⊕ Finalizing) := do
  if session.userId ≠ userId then throw (.unauthorized "NO_PRACTICE_ACCESS")
  validateReplayMetadata session request
  let contentType ← canonicalReplayContentType request.kind request.contentType
  match artifacts.find? (·.artifactUuid = request.artifactId) with
  | some existing =>
    if existing.sessionId ≠ sessionId then throw (.validation "VALIDATION_ERROR" "artifact_id")
    validateExistingReplayArtifact session existing request contentType
    return .inl existing
  | none => return .inr ⟨sessionId, session, request, contentType⟩

/-- The artifact of a call. -/
def Finalizing.artifact (call : Finalizing) (backendName : String) (now : Nat) :
    PracticeReplayArtifact where
  artifactUuid := call.request.artifactId
  sessionId := call.sessionId
  kind := call.request.kind
  inputSource := call.session.inputSource
  storageBackend := backendName
  objectKey := replayArtifactObjectKey call.session.sessionUuid call.request.artifactId
    call.request.kind call.contentType
  contentType := call.contentType
  byteSize := call.request.byteSize
  checksumSha256 := call.request.checksumSha256.toLower
  durationMs := call.request.durationMs
  timebaseVersion := call.request.timebaseVersion
  formatVersion := call.request.formatVersion
  createdAt := now

/-- Up to the insert: the artifact of the session and kind that is answered, or the one
that the call is going to insert. -/
def finalizeForKind (backendName : String) (artifacts : List PracticeReplayArtifact)
    (call : Finalizing) (object : Option StoredObject) (now : Nat) :
    Except ReplayError (PracticeReplayArtifact ⊕ PracticeReplayArtifact) :=
  match artifacts.find? fun a => a.sessionId = call.sessionId ∧ a.kind = call.request.kind with
  | some existing => .ok (.inl existing)
  | none =>
    match validateUploadedReplayObject backendName object call.request call.contentType with
    | .error error => .error error
    | .ok () => .ok (.inr (call.artifact backendName now))

/-- Two rows that a unique index does not allow together. -/
def PracticeReplayArtifact.Conflicts (a b : PracticeReplayArtifact) : Prop :=
  a.artifactUuid = b.artifactUuid ∨ a.objectKey = b.objectKey ∨
    (a.sessionId = b.sessionId ∧ a.kind = b.kind)

instance (a b : PracticeReplayArtifact) : Decidable (a.Conflicts b) :=
  inferInstanceAs (Decidable (_ ∨ _ ∨ _))

/-- The insert of a row; one that a unique index does not allow raises. -/
def insertArtifact (artifacts : List PracticeReplayArtifact) (artifact : PracticeReplayArtifact) :
    List PracticeReplayArtifact :=
  if ∃ a ∈ artifacts, a.Conflicts artifact then artifacts else artifacts ++ [artifact]

/-- At most one artifact of a session and kind. -/
def OneArtifact (artifacts : List PracticeReplayArtifact) : Prop :=
  artifacts.Pairwise fun a b => ¬(a.sessionId = b.sessionId ∧ a.kind = b.kind)

theorem oneArtifact_insert {artifacts : List PracticeReplayArtifact} (h : OneArtifact artifacts)
    (artifact : PracticeReplayArtifact) : OneArtifact (insertArtifact artifacts artifact) := by
  unfold insertArtifact
  split_ifs with hconflict
  · exact h
  · apply List.pairwise_append.mpr
    refine ⟨h, List.pairwise_singleton _ _, fun a ha b hb hsame => ?_⟩
    rw [List.mem_singleton.mp hb] at hsame
    exact hconflict ⟨a, ha, .inr (.inr hsame)⟩

end NoteVerse.Practice

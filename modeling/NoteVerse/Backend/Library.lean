import NoteVerse.Backend.FolderTree
import NoteVerse.Lib.Transition

/-!
# Requests that change a library

`create_folder`, `update_folder`, `delete_folder`, `batch_move` and
`ensure_entry` of `library/service.py`, on the library of one user. A request
reads the committed rows statement by statement and commits what it writes at
the end; others may commit between any two of its statements. What its session
has loaded stays as it was read (`identityMap`), and of a row it writes the
columns that it has changed (`written`).

`update_folder` and `delete_folder` lock their folder when they read it. The
folders that a deletion writes are flushed, and so locked, before it reads the
entries. A request that meets a lock of another one waits, that is, its step is
not possible yet. `LibraryWorld.next` composes any number of requests.

The queries order folders by position and name; nothing here depends on it.
-/

namespace NoteVerse.Backend

open FolderTree Table

inductive LibraryEntrySourceType
  | selfAdded | bookmark
  deriving DecidableEq, Repr

inductive LibraryPracticeState
  | toPractice | inProgress | mastered
  deriving DecidableEq, Repr

structure ScoreLibraryEntry where
  id : Nat
  entryUuid : String
  scoreId : Nat
  sourceType : LibraryEntrySourceType
  folderId : Option Nat
  isFavorite : Bool
  practiceState : LibraryPracticeState
  lastPracticedAt : Option Int
  createdAt : Int
  updatedAt : Int
  deletedAt : Option Int
  deriving DecidableEq, Repr

structure LibraryTables where
  folders : List ScoreLibraryFolder
  entries : List ScoreLibraryEntry
  /-- The ids that the sequences give next. -/
  nextFolderId : Nat
  nextEntryId : Nat
  deriving DecidableEq, Repr

def maxFolderLevel : Nat := 2

/-- The interpreter that runs the service. -/
structure LibraryService where
  /-- How deep calls of the functions of the folder tree may be nested. -/
  recursionLimit : Nat
  levels_le : maxFolderLevel ≤ recursionLimit

inductive LibraryError
  | resourceNotFound (resource id : String)
  | validation (field : String)
  | resourceAlreadyExists (resource : String)
  | integrity
  | multipleResultsFound
  | recursion
  deriving DecidableEq, Repr

/-! ## Requests -/

structure LibraryFolderCreateRequest where
  name : String
  parentFolderId : Option String
  deriving DecidableEq, Repr

structure LibraryFolderUpdateRequest where
  name : Option String
  /-- `none` if the field is not set. -/
  parentFolderId : Option (Option String)
  position : Option Nat
  deriving DecidableEq, Repr

inductive FolderDeleteMode
  | moveContentsToParent | moveContentsToRoot | trashContents
  deriving DecidableEq, Repr

structure EnsureEntryRequest where
  scoreId : Nat
  sourceType : LibraryEntrySourceType
  favorite : Bool
  deriving DecidableEq, Repr

/-! ## The repository -/

namespace LibraryTables

variable (tables : LibraryTables)

/-- `folders` of the repository. -/
def liveFolders : List ScoreLibraryFolder := tables.folders.filter (·.deletedAt = none)

def liveEntries : List ScoreLibraryEntry := tables.entries.filter (·.deletedAt = none)

def folderByUuid (folderUuid : String) : Option ScoreLibraryFolder :=
  find ScoreLibraryFolder.folderUuid folderUuid tables.liveFolders

def entryByUuid (entryUuid : String) : Option ScoreLibraryEntry :=
  find ScoreLibraryEntry.entryUuid entryUuid tables.liveEntries

def entriesInFolderIds (folderIds : List Nat) : List ScoreLibraryEntry :=
  tables.liveEntries.filter fun entry => entry.folderId.any (· ∈ folderIds)

/-- `entry_including_deleted`, which raises if there are several. -/
def entryIncludingDeleted (scoreId : Nat) (sourceType : LibraryEntrySourceType) :
    Except LibraryError (Option ScoreLibraryEntry) :=
  match tables.entries.filter fun entry =>
      entry.scoreId = scoreId ∧ entry.sourceType = sourceType with
  | [] => .ok none
  | [entry] => .ok (some entry)
  | _ :: _ :: _ => .error .multipleResultsFound

/-- `_optional_folder` -/
def optionalFolder : Option String → Except LibraryError (Option ScoreLibraryFolder)
  | none => .ok none
  | some folderUuid =>
    match tables.folderByUuid folderUuid with
    | none => .error (.resourceNotFound "library_folder" folderUuid)
    | some folder => .ok (some folder)

end LibraryTables

/-- Rows that a query gives to a session that has loaded some of them. -/
def identityMap (loaded rows : List ScoreLibraryFolder) : List ScoreLibraryFolder :=
  rows.map fun row => (find ScoreLibraryFolder.id row.id loaded).getD row

/-- A column after a write: `read` is what the session had loaded, and it writes
the value it was given if that is another one. -/
def written {α : Type} [DecidableEq α] (read row : α) : Option α → α
  | none => row
  | some new => if new = read then row else new

/-! ## Checks -/

/-- The check of `create_folder`. -/
def checkCreate (folders : List ScoreLibraryFolder) (parentId : Option Nat) :
    Except LibraryError Unit :=
  if folderLevel folders parentId + 1 > maxFolderLevel then .error (.validation "parent_folder_id")
  else .ok ()

/-- The checks of `update_folder`. -/
def checkMove (service : LibraryService) (folders : List ScoreLibraryFolder) (folderId : Nat)
    (parentId : Option Nat) : Except LibraryError Unit :=
  if parentId = some folderId then .error (.validation "parent_folder_id")
  else
    match descendantFolderIds service.recursionLimit folders folderId with
    | none => .error .recursion
    | some descendantIds =>
      if parentId.any (· ∈ descendantIds) then .error (.validation "parent_folder_id")
      else
        match subtreeHeight service.recursionLimit folders folderId with
        | none => .error .recursion
        | some height =>
          if folderLevel folders parentId + height > maxFolderLevel then
            .error (.validation "parent_folder_id")
          else .ok ()

/-! ## What a request has read -/

inductive LibraryPhase
  | idle
  | createParent (request : LibraryFolderCreateRequest) (parent : Option ScoreLibraryFolder)
  | createReady (request : LibraryFolderCreateRequest) (parentId : Option Nat)
  | updateLocked (request : LibraryFolderUpdateRequest) (folder : ScoreLibraryFolder)
  | updateFolders (request : LibraryFolderUpdateRequest) (folder : ScoreLibraryFolder)
      (folders : List ScoreLibraryFolder)
  /-- `parentId` is `none` if the request leaves the parent as it is. -/
  | updateReady (request : LibraryFolderUpdateRequest) (folder : ScoreLibraryFolder)
      (parentId : Option (Option Nat))
  | deleteLocked (mode : FolderDeleteMode) (folder : ScoreLibraryFolder)
  | deleteFolders (mode : FolderDeleteMode) (folder : ScoreLibraryFolder)
      (affectedFolderIds : List Nat)
  | deleteReady (mode : FolderDeleteMode) (folder : ScoreLibraryFolder)
      (affectedFolderIds : List Nat) (entries : List ScoreLibraryEntry)
  | moving (targetId : Option Nat) (entryIds : List String) (entries : List ScoreLibraryEntry)
      (moved : Nat)
  | ensureReady (request : EnsureEntryRequest) (entry : Option ScoreLibraryEntry)
  deriving DecidableEq, Repr

namespace LibraryPhase

/-- The next statement of a request that is not ready to commit. -/
def read (service : LibraryService) (tables : LibraryTables) :
    LibraryPhase → Option (Except LibraryError LibraryPhase)
  | .createParent request parent =>
    let parentId := parent.map (·.id)
    some <| (checkCreate (identityMap parent.toList tables.liveFolders) parentId).map fun _ =>
      .createReady request parentId
  | .updateLocked request folder =>
    some (.ok (.updateFolders request folder (identityMap [folder] tables.liveFolders)))
  | .updateFolders request folder folders =>
    some <| match request.parentFolderId with
      | none => .ok (.updateReady request folder none)
      | some parentFolderId =>
        (tables.optionalFolder parentFolderId).bind fun parent =>
          let parentId := parent.map (·.id)
          (checkMove service folders folder.id parentId).map fun _ =>
            .updateReady request folder (some parentId)
  | .deleteLocked mode folder =>
    some <|
      match descendantFolderIds service.recursionLimit (identityMap [folder] tables.liveFolders)
        folder.id with
      | none => .error .recursion
      | some descendantIds => .ok (.deleteFolders mode folder (folder.id :: descendantIds))
  | .deleteFolders mode folder affectedFolderIds =>
    some (.ok (.deleteReady mode folder affectedFolderIds
      (tables.entriesInFolderIds affectedFolderIds)))
  | .moving targetId (entryId :: entryIds) entries moved =>
    some <| .ok <|
      match tables.entryByUuid entryId with
      | none => .moving targetId entryIds entries moved
      | some entry =>
        .moving targetId entryIds
          (if entry.id ∈ entries.map (·.id) then entries else entry :: entries) (moved + 1)
  | _ => none

/-- The folders that a statement locks. -/
def locking : LibraryPhase → List Nat
  | .deleteFolders _ _ affectedFolderIds => affectedFolderIds
  | _ => []

end LibraryPhase

/-! ## What a request writes -/

namespace LibraryTables

variable (tables : LibraryTables)

/-- The unique index on the names of live folders; roots are not compared. -/
def NameTaken (folderId : Nat) (parentId : Option Nat) (name : String) : Prop :=
  parentId ≠ none ∧ ∃ other ∈ tables.liveFolders,
    other.id ≠ folderId ∧ other.parentFolderId = parentId ∧ other.name = name

instance (folderId : Nat) (parentId : Option Nat) (name : String) :
    Decidable (tables.NameTaken folderId parentId name) :=
  inferInstanceAs (Decidable (_ ∧ _))

/-- The row that `create_folder` adds. -/
def newFolder (request : LibraryFolderCreateRequest) (parentId : Option Nat) (now : Int)
    (folderUuid : String) : ScoreLibraryFolder where
  id := tables.nextFolderId
  folderUuid := folderUuid
  parentFolderId := parentId
  name := request.name
  position := 0
  createdAt := now
  updatedAt := now
  deletedAt := none

def createFolder (request : LibraryFolderCreateRequest) (parentId : Option Nat) (now : Int)
    (folderUuid : String) : Except LibraryError LibraryTables :=
  if tables.NameTaken tables.nextFolderId parentId request.name ∨
      folderUuid ∈ tables.folders.map (·.folderUuid) then
    .error (.resourceAlreadyExists "library_folder")
  else
    .ok { tables with
      folders := tables.folders ++ [tables.newFolder request parentId now folderUuid]
      nextFolderId := tables.nextFolderId + 1 }

/-- The row of a folder after `update_folder`. -/
def updatedFolder (request : LibraryFolderUpdateRequest) (folder : ScoreLibraryFolder)
    (parentId : Option (Option Nat)) (now : Int) (row : ScoreLibraryFolder) : ScoreLibraryFolder :=
  { row with
    name := written folder.name row.name request.name
    position := written folder.position row.position request.position
    parentFolderId := written folder.parentFolderId row.parentFolderId parentId
    updatedAt := now }

def updateFolder (request : LibraryFolderUpdateRequest) (folder : ScoreLibraryFolder)
    (parentId : Option (Option Nat)) (now : Int) : Except LibraryError LibraryTables :=
  let folder' := updatedFolder request folder parentId now folder
  if tables.NameTaken folder.id folder'.parentFolderId folder'.name then
    .error (.resourceAlreadyExists "library_folder")
  else
    .ok { tables with
      folders := Table.update ScoreLibraryFolder.id folder.id
        (updatedFolder request folder parentId now) tables.folders }

/-- What a session writes to the entries that it has loaded. -/
def writeEntries (entries : List ScoreLibraryEntry)
    (write : ScoreLibraryEntry → ScoreLibraryEntry → ScoreLibraryEntry) : List ScoreLibraryEntry :=
  tables.entries.map fun row =>
    match find ScoreLibraryEntry.id row.id entries with
    | none => row
    | some entry => write entry row

/-- `delete_folder`: where the entries of the folders go. -/
def targetParentId (mode : FolderDeleteMode) (folder : ScoreLibraryFolder) : Option Nat :=
  if mode = .moveContentsToParent then folder.parentFolderId else none

def deleteFolder (mode : FolderDeleteMode) (folder : ScoreLibraryFolder)
    (affectedFolderIds : List Nat) (entries : List ScoreLibraryEntry) (now : Int) :
    LibraryTables :=
  { tables with
    folders := tables.folders.map fun row =>
      if row.id ∈ affectedFolderIds then { row with deletedAt := some now, updatedAt := now }
      else row
    entries := tables.writeEntries entries fun entry row =>
      if mode = .trashContents then { row with deletedAt := some now, updatedAt := now }
      else
        { row with
          folderId := written entry.folderId row.folderId (some (targetParentId mode folder))
          updatedAt := now } }

def moveEntries (targetId : Option Nat) (entries : List ScoreLibraryEntry) (now : Int) :
    LibraryTables :=
  { tables with
    entries := tables.writeEntries entries fun entry row =>
      { row with
        folderId := written entry.folderId row.folderId (some targetId)
        updatedAt := now } }

/-- The row that `ensure_entry` adds. -/
def newEntry (request : EnsureEntryRequest) (now : Int) (entryUuid : String) :
    ScoreLibraryEntry where
  id := tables.nextEntryId
  entryUuid := entryUuid
  scoreId := request.scoreId
  sourceType := request.sourceType
  folderId := none
  isFavorite := request.favorite
  practiceState := .toPractice
  lastPracticedAt := none
  createdAt := now
  updatedAt := now
  deletedAt := none

/-- The row of an entry that is there after `ensure_entry`. -/
def ensuredEntry (request : EnsureEntryRequest) (now : Int) (entry row : ScoreLibraryEntry) :
    ScoreLibraryEntry :=
  let row := if request.favorite ∧ ¬entry.isFavorite then { row with isFavorite := true } else row
  if entry.deletedAt = none then { row with updatedAt := now }
  else
    { row with
      deletedAt := none
      folderId := written entry.folderId row.folderId (some none)
      practiceState := written entry.practiceState row.practiceState (some .toPractice)
      lastPracticedAt := written entry.lastPracticedAt row.lastPracticedAt (some none)
      updatedAt := now }

/-- The unique indexes on live entries. -/
def EntriesUnique : Prop :=
  (tables.liveEntries.map fun entry => (entry.scoreId, entry.sourceType)).Nodup ∧
    (tables.liveEntries.map (·.entryUuid)).Nodup

instance : Decidable tables.EntriesUnique := inferInstanceAs (Decidable (_ ∧ _))

def writeEntry (request : EnsureEntryRequest) (now : Int) (entryUuid : String) :
    Option ScoreLibraryEntry → LibraryTables
  | none =>
    { tables with
      entries := tables.entries ++ [tables.newEntry request now entryUuid]
      nextEntryId := tables.nextEntryId + 1 }
  | some entry => { tables with entries := tables.writeEntries [entry] (ensuredEntry request now) }

def ensureEntry (request : EnsureEntryRequest) (entry : Option ScoreLibraryEntry) (now : Int)
    (entryUuid : String) : Except LibraryError LibraryTables :=
  if (tables.writeEntry request now entryUuid entry).EntriesUnique then
    .ok (tables.writeEntry request now entryUuid entry)
  else .error .integrity

end LibraryTables

/-- The commit of a request that is ready for it. -/
def LibraryPhase.commit (tables : LibraryTables) (now : Int) (uuid : String) :
    LibraryPhase → Option (Except LibraryError LibraryTables)
  | .createReady request parentId => some (tables.createFolder request parentId now uuid)
  | .updateReady request folder parentId => some (tables.updateFolder request folder parentId now)
  | .deleteReady mode folder affectedFolderIds entries =>
    some (.ok (tables.deleteFolder mode folder affectedFolderIds entries now))
  | .moving targetId [] entries _ => some (.ok (tables.moveEntries targetId entries now))
  | .ensureReady request entry => some (tables.ensureEntry request entry now uuid)
  | _ => none

/-! ## The system -/

structure LibraryWorld where
  tables : LibraryTables
  /-- What each request has read. -/
  phases : Nat → LibraryPhase
  /-- Which request has locked a folder. -/
  locks : Nat → Option Nat

inductive LibraryAction
  | createFolder (requestId : Nat) (request : LibraryFolderCreateRequest)
  | updateFolder (requestId : Nat) (folderUuid : String) (request : LibraryFolderUpdateRequest)
  | deleteFolder (requestId : Nat) (folderUuid : String) (mode : FolderDeleteMode)
  | batchMove (requestId : Nat) (entryIds : List String) (targetFolderId : Option String)
  | ensureEntry (requestId : Nat) (request : EnsureEntryRequest)
  | read (requestId : Nat)
  | commit (requestId : Nat) (now : Int) (uuid : String)
  /-- A request fails for a reason of its own, or as the victim of a deadlock. -/
  | fail (requestId : Nat)
  deriving DecidableEq, Repr

namespace LibraryWorld

variable (service : LibraryService) (world : LibraryWorld) (requestId : Nat)

/-- The transaction of a request ends. -/
def finish : LibraryWorld :=
  { world with
    phases := Function.update world.phases requestId .idle
    locks := fun folderId =>
      if world.locks folderId = some requestId then none else world.locks folderId }

def lock (folderIds : List Nat) : LibraryWorld :=
  { world with
    locks := fun folderId =>
      if folderId ∈ folderIds then some requestId else world.locks folderId }

/-- A request goes on, or ends with an error. -/
def goOn : Except LibraryError LibraryPhase → LibraryWorld
  | .error _ => world.finish requestId
  | .ok phase => { world with phases := Function.update world.phases requestId phase }

/-- A request locks a folder and goes on with it, if there is one. -/
def lockFolder (folderUuid : String) (phase : ScoreLibraryFolder → LibraryPhase) :
    Option LibraryWorld :=
  match world.tables.folderByUuid folderUuid with
  | none =>
    some (world.goOn requestId (.error (.resourceNotFound "library_folder" folderUuid)))
  | some folder =>
    if world.locks folder.id ≠ none then none
    else some ((world.lock requestId [folder.id]).goOn requestId (.ok (phase folder)))

def next : LibraryAction → Option LibraryWorld
  | .createFolder requestId request =>
    if world.phases requestId ≠ .idle then none
    else
      some (world.goOn requestId
        ((world.tables.optionalFolder request.parentFolderId).map (.createParent request)))
  | .updateFolder requestId folderUuid request =>
    if world.phases requestId ≠ .idle then none
    else world.lockFolder requestId folderUuid (.updateLocked request)
  | .deleteFolder requestId folderUuid mode =>
    if world.phases requestId ≠ .idle then none
    else world.lockFolder requestId folderUuid (.deleteLocked mode)
  | .batchMove requestId entryIds targetFolderId =>
    if world.phases requestId ≠ .idle then none
    else
      some (world.goOn requestId ((world.tables.optionalFolder targetFolderId).map fun target =>
        .moving (target.map (·.id)) entryIds [] 0))
  | .ensureEntry requestId request =>
    if world.phases requestId ≠ .idle then none
    else
      some (world.goOn requestId
        ((world.tables.entryIncludingDeleted request.scoreId request.sourceType).map
          (.ensureReady request)))
  | .read requestId =>
    let phase := world.phases requestId
    if ∀ folderId ∈ phase.locking,
        world.locks folderId = none ∨ world.locks folderId = some requestId then
      (phase.read service world.tables).map ((world.lock requestId phase.locking).goOn requestId)
    else none
  | .commit requestId now uuid =>
    ((world.phases requestId).commit world.tables now uuid).map fun
      | .error _ => world.finish requestId
      | .ok tables => { world with tables }.finish requestId
  | .fail requestId =>
    if world.phases requestId = .idle then none else some (world.finish requestId)

def Step (world : LibraryWorld) (action : LibraryAction) (world' : LibraryWorld) : Prop :=
  world.next service action = some world'

end LibraryWorld

end NoteVerse.Backend

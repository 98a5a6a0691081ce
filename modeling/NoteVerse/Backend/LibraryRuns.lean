import NoteVerse.Backend.LibraryCommits
import NoteVerse.Lib.Python

/-!
# Runs of requests on a library

Requests check the folders that they have read and lock the one that they
edit. What a request has locked stays as it has read it (`PhaseOk`), so that a
commit is right exactly if its checks would still pass (`StillValid`); as long
as they do in each commit the library is right, and the functions of the folder
tree end (`library_ok_iff`). They need not: `stale_checks` are runs in which a
folder is moved below one that has been moved itself, and in which a folder and
an entry are put into one that has been deleted.
-/

namespace NoteVerse.Backend

open FolderTree Forest Table Transition

namespace LibraryPhase

/-- The folder that a request has locked. -/
def edited : LibraryPhase → Option ScoreLibraryFolder
  | .updateLocked _ folder | .updateFolders _ folder _ | .updateReady _ folder _
  | .deleteLocked _ folder | .deleteFolders _ folder _ | .deleteReady _ folder _ _ => some folder
  | _ => none

/-- What a deletion knows about the folders that it deletes. -/
def AffectedOk (locks : Nat → Option Nat) (requestId : Nat) : LibraryPhase → Prop
  | .deleteFolders _ folder affectedFolderIds =>
    LibraryTables.Affected folder affectedFolderIds
  | .deleteReady _ folder affectedFolderIds entries =>
    LibraryTables.Affected folder affectedFolderIds ∧
      (∀ folderId ∈ affectedFolderIds, locks folderId = some requestId) ∧
      ∀ entry ∈ entries, ∃ folderId ∈ affectedFolderIds, entry.folderId = some folderId
  | _ => True

end LibraryPhase

/-- What a request has locked is its own, and as it has read it. -/
structure PhaseOk (tables : LibraryTables) (locks : Nat → Option Nat) (requestId : Nat)
    (phase : LibraryPhase) : Prop where
  edited : ∀ folder, phase.edited = some folder →
    locks folder.id = some requestId ∧ folder ∈ tables.liveFolders
  affected : phase.AffectedOk locks requestId

namespace PhaseOk

variable {tables tables' : LibraryTables} {locks locks' : Nat → Option Nat} {requestId : Nat}
  {phase : LibraryPhase}

/-- A request does not see what happens to folders that it has not locked. -/
theorem congr (h : PhaseOk tables locks requestId phase)
    (hlocks : ∀ folderId, locks folderId = some requestId → locks' folderId = some requestId)
    (htables : ∀ folder ∈ tables.liveFolders, locks folder.id = some requestId →
      folder ∈ tables'.liveFolders) : PhaseOk tables' locks' requestId phase := by
  refine ⟨fun folder hedited => ?_, ?_⟩
  · obtain ⟨hlock, hlive⟩ := h.edited folder hedited
    exact ⟨hlocks folder.id hlock, htables folder hlive hlock⟩
  · have ha := h.affected
    cases phase with
    | deleteReady mode folder affectedFolderIds entries =>
      exact ⟨ha.1, fun folderId hid => hlocks folderId (ha.2.1 folderId hid), ha.2.2⟩
    | _ => exact ha

theorem of_no_lock (hedited : phase.edited = none) (ha : phase.AffectedOk locks requestId) :
    PhaseOk tables locks requestId phase :=
  ⟨fun folder h => absurd (hedited.symm.trans h) (Option.some_ne_none folder).symm, ha⟩

end PhaseOk

namespace LibraryWorld

variable {service : LibraryService} {world world' : LibraryWorld} {requestId : Nat}

structure Valid (world : LibraryWorld) : Prop where
  tables : world.tables.Ok
  library : LibraryOk world.tables
  phases : ∀ requestId, PhaseOk world.tables world.locks requestId (world.phases requestId)

/-! ## The steps of a request -/

theorem Valid.finish (hv : Valid world) (requestId : Nat) : Valid (world.finish requestId) := by
  refine ⟨hv.tables, hv.library, fun otherId => ?_⟩
  by_cases hid : otherId = requestId
  · subst hid
    show PhaseOk _ _ _ (Function.update world.phases otherId .idle otherId)
    rw [Function.update_self]
    exact .of_no_lock rfl trivial
  · show PhaseOk _ _ _ (Function.update world.phases requestId .idle otherId)
    rw [Function.update_of_ne hid]
    refine (hv.phases otherId).congr (fun folderId hlock => ?_) fun _ hfolder _ => hfolder
    show (if world.locks folderId = some requestId then none else world.locks folderId) = _
    rw [if_neg, hlock]
    intro hlock'
    exact hid (Option.some_inj.mp (hlock.symm.trans hlock'))

theorem Valid.goOn (hv : Valid world) {result : Except LibraryError LibraryPhase}
    (hphase : ∀ phase, result = .ok phase → PhaseOk world.tables world.locks requestId phase) :
    Valid (world.goOn requestId result) := by
  cases result with
  | error error => exact hv.finish requestId
  | ok phase =>
    refine ⟨hv.tables, hv.library, fun otherId => ?_⟩
    by_cases hid : otherId = requestId
    · subst hid
      show PhaseOk _ _ _ (Function.update world.phases otherId phase otherId)
      rw [Function.update_self]
      exact hphase phase rfl
    · show PhaseOk _ _ _ (Function.update world.phases requestId phase otherId)
      rw [Function.update_of_ne hid]
      exact hv.phases otherId

/-- A request locks folders that no other one has locked. -/
theorem Valid.lock (hv : Valid world) (requestId : Nat) (folderIds : List Nat)
    (hfree : ∀ folderId ∈ folderIds,
      world.locks folderId = none ∨ world.locks folderId = some requestId) :
    Valid (world.lock requestId folderIds) := by
  refine ⟨hv.tables, hv.library, fun otherId => ?_⟩
  refine (hv.phases otherId).congr (fun folderId hlock => ?_) fun _ hfolder _ => hfolder
  show (if folderId ∈ folderIds then some requestId else world.locks folderId) = some otherId
  split_ifs with hmem
  · rcases hfree folderId hmem with hnone | hsome
    · exact absurd (hnone.symm.trans hlock) (Option.some_ne_none otherId).symm
    · exact hsome.symm.trans hlock
  · exact hlock

theorem Valid.lockFolder (hv : Valid world) {folderUuid : String}
    (phase : ScoreLibraryFolder → LibraryPhase)
    (hedited : ∀ folder, (phase folder).edited = some folder)
    (haffected : ∀ folder locks, (phase folder).AffectedOk locks requestId)
    (hs : world.lockFolder requestId folderUuid phase = some world') : Valid world' := by
  unfold LibraryWorld.lockFolder at hs
  split at hs
  · cases hs
    exact hv.finish requestId
  · rename_i folder hfind
    split_ifs at hs with hfree
    cases hs
    have hfree : world.locks folder.id = none := not_not.mp hfree
    have hlocked := hv.lock requestId [folder.id] fun folderId hid => by
      rw [List.mem_singleton.mp hid]
      exact .inl hfree
    refine hlocked.goOn fun phase' hphase => ?_
    cases hphase
    refine ⟨fun folder' he => ?_, haffected folder _⟩
    obtain rfl := Option.some_inj.mp ((hedited folder).symm.trans he)
    exact ⟨if_pos (List.mem_singleton_self _), find_mem hfind⟩

/-- The rows of a session that has loaded a locked folder are the committed ones. -/
theorem identityMap_self {folders : List ScoreLibraryFolder} (hids : (folders.map (·.id)).Nodup)
    {folder : ScoreLibraryFolder} (h : folder ∈ folders) :
    identityMap [folder] folders = folders := by
  refine (List.map_congr_left fun row hrow => ?_).trans (List.map_id folders)
  by_cases hid : row.id = folder.id
  · have hself : find ScoreLibraryFolder.id folder.id [folder] = some folder :=
      find_of_mem (List.nodup_singleton folder.id) (List.mem_singleton_self folder)
    rw [List.inj_on_of_nodup_map hids hrow h hid, hself]
    rfl
  · have hnone : find ScoreLibraryFolder.id row.id [folder] = none :=
      find_eq_none_iff.mpr fun hmem => hid (List.mem_singleton.mp hmem)
    rw [hnone]
    rfl

end LibraryWorld

/-- A statement keeps what a request knows. -/
theorem PhaseOk.read {service : LibraryService} {tables : LibraryTables}
    {locks : Nat → Option Nat} {requestId : Nat} {phase phase' : LibraryPhase} (ht : tables.Ok)
    (hl : LibraryOk tables) (h : PhaseOk tables locks requestId phase)
    (hlocked : ∀ folderId ∈ phase.locking, locks folderId = some requestId)
    (hread : phase.read service tables = some (.ok phase')) :
    PhaseOk tables locks requestId phase' := by
  cases phase with
  | createParent request parent =>
    obtain ⟨-, -, rfl⟩ := Python.map_eq_ok.mp (Option.some_inj.mp hread)
    exact .of_no_lock rfl trivial
  | updateLocked request folder =>
    cases hread
    exact ⟨h.edited, trivial⟩
  | updateFolders request folder folders =>
    have hread := Option.some_inj.mp hread
    split at hread
    · cases hread
      exact ⟨h.edited, trivial⟩
    · obtain ⟨parent, -, hread⟩ := Python.bind_eq_ok.mp hread
      obtain ⟨-, -, rfl⟩ := Python.map_eq_ok.mp hread
      exact ⟨h.edited, trivial⟩
  | deleteLocked mode folder =>
    obtain ⟨-, hlive⟩ := h.edited folder rfl
    have hread := Option.some_inj.mp hread
    rw [LibraryWorld.identityMap_self ht.liveIds hlive] at hread
    split at hread
    · cases hread
    · rename_i descendantIds hdesc
      cases hread
      refine ⟨h.edited, List.mem_cons_self, fun parentId hparent hmem => ?_⟩
      have hchild : ChildOf (parents tables.liveFolders) folder.id parentId :=
        (childOf_iff ht.liveIds).mpr ⟨folder, hlive, rfl, hparent⟩
      have hforest : Bounded (parents tables.liveFolders) maxFolderLevel :=
        ((LibraryTables.libraryOk_iff ht).mp hl).1
      -- the parent would be the folder or below it
      rcases List.mem_cons.mp hmem with rfl | hmem
      · exact hforest.not_below_self hchild.below
      · obtain ⟨d, hd⟩ := (mem_descendantFolderIds ht.liveIds hdesc parentId).mp hmem
        exact hforest.not_below_self (.child hchild hd)
  | deleteFolders mode folder affectedFolderIds =>
    cases hread
    refine ⟨h.edited, h.affected, hlocked, fun entry hentry => ?_⟩
    exact (LibraryTables.mem_entriesInFolderIds.mp hentry).2
  | moving targetId entryIds entries moved =>
    cases entryIds with
    | nil => cases hread
    | cons entryId entryIds =>
      have hread := Except.ok.inj (Option.some_inj.mp hread)
      subst hread
      split
      · exact .of_no_lock rfl trivial
      · exact .of_no_lock rfl trivial
  | _ => cases hread

namespace LibraryWorld

variable {service : LibraryService} {world world' : LibraryWorld} {requestId : Nat}

/-! ## Commits -/

/-- The rows that a commit writes are locked by its request. -/
theorem Valid.commits (hv : Valid world) (service : LibraryService) {now : Int} {uuid : String}
    {tables : LibraryTables}
    (hs : (world.phases requestId).commit world.tables now uuid = some (.ok tables)) :
    LibraryTables.Commits world.tables tables (world.locks · = some requestId)
      ((world.phases requestId).StillValid service world.tables) := by
  have h := hv.phases requestId
  have hmono : ∀ {writes valid}, LibraryTables.Commits world.tables tables writes valid →
      (∀ folderId, writes folderId → world.locks folderId = some requestId) →
      LibraryTables.Commits world.tables tables (world.locks · = some requestId) valid :=
    fun hc hwrites => ⟨hc.ok, fun folder hfolder hnot =>
      hc.kept folder hfolder fun hw => hnot (hwrites folder.id hw), hc.libraryOk⟩
  generalize hphase : world.phases requestId = phase at hs h
  cases phase with
  | createReady request parentId =>
    exact hmono (LibraryTables.createFolder_commits hv.tables hv.library (Option.some_inj.mp hs))
      fun _ hf => hf.elim
  | updateReady request folder parentId =>
    obtain ⟨hlock, hlive⟩ := h.edited folder rfl
    exact hmono (LibraryTables.updateFolder_commits hv.tables hv.library hlive
      (Option.some_inj.mp hs)) fun folderId e => e ▸ hlock
  | deleteReady mode folder affectedFolderIds entries =>
    cases hs
    obtain ⟨-, hlive⟩ := h.edited folder rfl
    obtain ⟨haffected, hlocks, hentries⟩ := h.affected
    exact hmono (LibraryTables.deleteFolder_commits hv.tables hv.library hlive haffected hentries)
      hlocks
  | moving targetId entryIds entries moved =>
    cases entryIds with
    | cons entryId entryIds => cases hs
    | nil =>
      cases hs
      exact hmono (LibraryTables.moveEntries_commits hv.tables hv.library) fun _ hf => hf.elim
  | ensureReady request entry =>
    exact hmono (LibraryTables.ensureEntry_commits hv.tables hv.library (Option.some_inj.mp hs))
      fun _ hf => hf.elim
  | _ => cases hs

/-- The condition: what a request has checked holds of the rows that are
committed when it commits. -/
def Current (service : LibraryService) (world : LibraryWorld) : LibraryAction → Prop
  | .commit requestId now uuid =>
    ∀ tables, (world.phases requestId).commit world.tables now uuid = some (.ok tables) →
      (world.phases requestId).StillValid service world.tables
  | _ => True

/-- A commit keeps what the other requests know. -/
theorem Valid.commit (hv : Valid world) {now : Int} {uuid : String} {tables : LibraryTables}
    (hs : (world.phases requestId).commit world.tables now uuid = some (.ok tables))
    (hok : tables.Ok) (hl : LibraryOk tables)
    (hkept : ∀ folder ∈ world.tables.liveFolders, world.locks folder.id ≠ some requestId →
      folder ∈ tables.liveFolders) :
    Valid (LibraryWorld.finish { world with tables } requestId) := by
  refine ⟨hok, hl, fun otherId => ?_⟩
  by_cases hid : otherId = requestId
  · subst hid
    show PhaseOk _ _ _ (Function.update world.phases otherId .idle otherId)
    rw [Function.update_self]
    exact .of_no_lock rfl trivial
  · show PhaseOk _ _ _ (Function.update world.phases requestId .idle otherId)
    rw [Function.update_of_ne hid]
    have hother : ∀ folderId, world.locks folderId = some otherId →
        world.locks folderId ≠ some requestId := fun folderId hlock hlock' =>
      hid (Option.some_inj.mp (hlock.symm.trans hlock'))
    refine (hv.phases otherId).congr (fun folderId hlock => ?_) fun folder hfolder hlock => ?_
    · show (if world.locks folderId = some requestId then none else world.locks folderId) = _
      rw [if_neg (hother folderId hlock), hlock]
    · exact hkept folder hfolder (hother folder.id hlock)

/-! ## Runs -/

theorem Valid.step {action : LibraryAction} (hv : Valid world) (hg : world.Current service action)
    (hs : Step service world action world') : Valid world' := by
  cases action with
  | createFolder requestId request =>
    simp only [Step, next] at hs
    split_ifs at hs
    cases hs
    refine hv.goOn fun phase hphase => ?_
    obtain ⟨parent, -, rfl⟩ := Python.map_eq_ok.mp hphase
    exact .of_no_lock rfl trivial
  | updateFolder requestId folderUuid request =>
    simp only [Step, next] at hs
    split_ifs at hs
    exact hv.lockFolder (.updateLocked request) (fun _ => rfl) (fun _ _ => trivial) hs
  | deleteFolder requestId folderUuid mode =>
    simp only [Step, next] at hs
    split_ifs at hs
    exact hv.lockFolder (.deleteLocked mode) (fun _ => rfl) (fun _ _ => trivial) hs
  | batchMove requestId entryIds targetFolderId =>
    simp only [Step, next] at hs
    split_ifs at hs
    cases hs
    refine hv.goOn fun phase hphase => ?_
    obtain ⟨target, -, rfl⟩ := Python.map_eq_ok.mp hphase
    exact .of_no_lock rfl trivial
  | ensureEntry requestId request =>
    simp only [Step, next] at hs
    split_ifs at hs
    cases hs
    refine hv.goOn fun phase hphase => ?_
    obtain ⟨entry, -, rfl⟩ := Python.map_eq_ok.mp hphase
    exact .of_no_lock rfl trivial
  | read requestId =>
    simp only [Step, next] at hs
    split_ifs at hs with hfree
    obtain ⟨result, hread, rfl⟩ := Option.map_eq_some_iff.mp hs
    have hlocked := hv.lock requestId (world.phases requestId).locking hfree
    refine hlocked.goOn fun phase hphase => ?_
    rw [hphase] at hread
    exact (hlocked.phases requestId).read hv.tables hv.library
      (fun folderId hid => if_pos hid) hread
  | commit requestId now uuid =>
    obtain ⟨result, hcommit, rfl⟩ := Option.map_eq_some_iff.mp hs
    cases result with
    | error error => exact hv.finish requestId
    | ok tables =>
      have hc := hv.commits service hcommit
      exact hv.commit hcommit hc.ok (hc.libraryOk.mpr (hg tables hcommit)) hc.kept
  | fail requestId =>
    simp only [Step, next] at hs
    split_ifs at hs
    cases hs
    exact hv.finish requestId

/-- Only a commit changes the tables. -/
theorem Valid.libraryOk_iff {action : LibraryAction} (hv : Valid world)
    (hs : Step service world action world') :
    LibraryOk world'.tables ↔ world.Current service action := by
  constructor
  · intro hl
    cases action with
    | commit requestId now uuid =>
      intro tables hcommit
      rw [Step, next, hcommit] at hs
      cases hs
      exact (hv.commits service hcommit).libraryOk.mp hl
    | _ => trivial
  · intro hg
    exact (hv.step hg hs).library

/-- No request is under way, and the library is right. -/
structure Initial (world : LibraryWorld) : Prop where
  tables : world.tables.Ok
  library : LibraryOk world.tables
  phases : ∀ requestId, world.phases requestId = .idle

theorem Initial.valid (h : Initial world) : Valid world :=
  ⟨h.tables, h.library, fun requestId => h.phases requestId ▸ .of_no_lock rfl trivial⟩

/-- The functions of the folder tree return. -/
structure TreeTerminates (service : LibraryService) (folders : List ScoreLibraryFolder) :
    Prop where
  descendantFolderIds : ∀ folderId,
    (descendantFolderIds service.recursionLimit folders folderId).isSome
  subtreeHeight : ∀ folderId, (subtreeHeight service.recursionLimit folders folderId).isSome
  buildFolderTreeRead : ∀ counts,
    (buildFolderTreeRead service.recursionLimit folders counts).isSome

theorem Valid.treeTerminates (hv : Valid world) (service : LibraryService) :
    TreeTerminates service world.tables.liveFolders := by
  have hf : world.tables.Forested := ((LibraryTables.libraryOk_iff hv.tables).mp hv.library).1
  have hends := folders_terminate hv.tables.liveIds hf Nat.two_pos service.levels_le
  exact ⟨fun folderId => ((hends ⟨0, 0, 0, 0, 0, []⟩).1 folderId).1,
    fun folderId => ((hends ⟨0, 0, 0, 0, 0, []⟩).1 folderId).2, fun counts => (hends counts).2⟩

/-- As long as each commit finds what its request has checked, the library is
right and the functions of the folder tree return; after a step the library is
right exactly if it is such a commit, or none. -/
theorem library_ok_iff (h : Reachable Initial (guarded (Current service) (Step service)) world) :
    (LibraryOk world.tables ∧ TreeTerminates service world.tables.liveFolders) ∧
      ∀ action world', Step service world action world' →
        (LibraryOk world'.tables ↔ world.Current service action) := by
  have hv : Valid world :=
    h.invariant (fun _ hi => hi.valid) fun _ _ _ hv hs => hv.step hs.1 hs.2
  exact ⟨⟨hv.library, hv.treeTerminates service⟩, fun _ _ hs => hv.libraryOk_iff hs⟩

/-! ## Requests at the same time -/

def defaultLibrary : LibraryService := ⟨900, by decide⟩

def emptyLibrary : LibraryWorld := ⟨⟨[], [], 1, 1⟩, fun _ => .idle, fun _ => none⟩

/-- A request creates a folder, with no other one at the same time. -/
def creating (folderUuid : String) (parentFolderId : Option String) : List LibraryAction :=
  [.createFolder 0 ⟨folderUuid, parentFolderId⟩, .read 0, .commit 0 0 folderUuid]

/-- One request reads all it checks before another one, which it does not wait
for, commits. -/
def movedBelowMoved : List LibraryAction :=
  creating "a" none ++ creating "b" none ++ creating "c" none ++
    [.updateFolder 1 "a" ⟨none, some (some "b"), none⟩, .read 1, .read 1,
      .updateFolder 2 "b" ⟨none, some (some "c"), none⟩, .read 2, .read 2, .commit 2 1 "",
      .commit 1 2 ""]

def createdBelowDeleted : List LibraryAction :=
  creating "a" none ++ [.createFolder 1 ⟨"b", some "a"⟩, .read 1,
    .deleteFolder 2 "a" .trashContents, .read 2, .read 2, .commit 2 1 "", .commit 1 2 "b"]

def movedIntoDeleted : List LibraryAction :=
  creating "a" none ++ [.ensureEntry 1 ⟨1, .selfAdded, false⟩, .commit 1 0 "e",
    .batchMove 2 ["e"] (some "a"), .read 2, .deleteFolder 3 "a" .trashContents, .read 3, .read 3,
    .commit 3 1 "", .commit 2 2 ""]

/-- The library after some actions, if all of them are possible. -/
def after (actions : List LibraryAction) : LibraryWorld :=
  (run (next defaultLibrary) emptyLibrary actions).getD emptyLibrary

theorem after_reachable (actions : List LibraryAction) :
    Reachable (· = emptyLibrary) (Step defaultLibrary) (after actions) := by
  rw [after]
  cases hrun : run (next defaultLibrary) emptyLibrary actions with
  | none => exact .start rfl
  | some world => exact reachable_run hrun

/-- Three runs: a folder below two others, a folder in one that is deleted, and
an entry in one that is deleted. -/
theorem stale_checks :
    (∃ world, Reachable (· = emptyLibrary) (Step defaultLibrary) world ∧
      Level (parents world.tables.liveFolders) 1 3 ∧ ¬LibraryOk world.tables) ∧
    (∃ world, Reachable (· = emptyLibrary) (Step defaultLibrary) world ∧
      world.tables.liveFolders.map (fun folder => (folder.id, folder.parentFolderId)) =
        [(2, some 1)] ∧ ¬LibraryOk world.tables) ∧
    ∃ world, Reachable (· = emptyLibrary) (Step defaultLibrary) world ∧
      world.tables.liveFolders = [] ∧
      world.tables.liveEntries.map (·.folderId) = [some 1] ∧ ¬LibraryOk world.tables := by
  refine ⟨⟨_, after_reachable movedBelowMoved, ?_⟩, ⟨_, after_reachable createdBelowDeleted, ?_⟩,
    _, after_reachable movedIntoDeleted, ?_⟩
  · have hlevel : Level (parents (after movedBelowMoved).tables.liveFolders) 1 3 := by
      refine .child (p := 2) ?_ (.child (p := 3) ?_ (.root ?_)) <;> show parents _ _ = _
      · decide
      · decide
      · decide
    refine ⟨hlevel, fun hl => ?_⟩
    obtain ⟨folder, hfolder, hid⟩ := List.mem_map.mp (parents_isSome.mp hlevel.isSome)
    obtain ⟨n, hn, hlevel'⟩ := hl.levels folder hfolder
    rw [hid] at hlevel'
    rw [← hlevel.unique hlevel'] at hn
    exact absurd hn (by decide)
  · have hfolders : (after createdBelowDeleted).tables.liveFolders.map (fun folder =>
        (folder.id, folder.parentFolderId)) = [(2, some 1)] := by decide
    refine ⟨hfolders, fun hl => ?_⟩
    have hmem : (2, some 1) ∈ [(2, some 1)] := List.mem_singleton_self _
    rw [← hfolders] at hmem
    obtain ⟨folder, hfolder, he⟩ := List.mem_map.mp hmem
    exact absurd (hl.parents folder hfolder 1 (Prod.mk.inj he).2) (by decide)
  · have hfolders : (after movedIntoDeleted).tables.liveFolders = [] := by decide
    have hentries : (after movedIntoDeleted).tables.liveEntries.map (·.folderId) = [some 1] := by
      decide
    refine ⟨hfolders, hentries, fun hl => ?_⟩
    have hmem : some 1 ∈ [some 1] := List.mem_singleton_self _
    rw [← hentries] at hmem
    obtain ⟨entry, hentry, he⟩ := List.mem_map.mp hmem
    have hlive := hl.entries entry hentry 1 he
    rw [hfolders] at hlive
    exact List.not_mem_nil hlive

theorem emptyLibrary_initial : emptyLibrary.Initial where
  tables := ⟨List.nodup_nil, by decide, List.nodup_nil, by decide⟩
  library := by
    refine ⟨fun folderId hcycle => ?_, fun folder h => absurd h List.not_mem_nil, by decide,
      by decide⟩
    obtain ⟨_, hchild, -⟩ := Relation.TransGen.head'_iff.mp hcycle
    exact Option.some_ne_none _ hchild.symm
  phases _ := rfl

/-- A folder is created, and another one in it. -/
theorem library_ok_iff_created :
    ∃ world : LibraryWorld,
      world.tables.liveFolders.map (fun folder => (folder.id, folder.parentFolderId)) =
        [(1, none), (2, some 1)] ∧ LibraryOk world.tables := by
  have hfirst : Reachable Initial (guarded (Current defaultLibrary) (Step defaultLibrary)) _ :=
    (Reachable.start emptyLibrary_initial).step
      (a := LibraryAction.createFolder 0 ⟨"a", none⟩) ⟨trivial, rfl⟩
  have hread := hfirst.step (a := LibraryAction.read 0) ⟨trivial, rfl⟩
  have hcommit := hread.step (a := LibraryAction.commit 0 0 "a") ⟨fun _ _ => trivial, rfl⟩
  have hsecond := hcommit.step (a := LibraryAction.createFolder 0 ⟨"b", some "a"⟩) ⟨trivial, rfl⟩
  have hread := hsecond.step (a := LibraryAction.read 0) ⟨trivial, rfl⟩
  have hdone := hread.step (a := LibraryAction.commit 0 1 "b")
    ⟨fun _ _ => ⟨by decide, by decide⟩, rfl⟩
  exact ⟨_, by decide, (library_ok_iff hdone).1.1⟩

end LibraryWorld

end NoteVerse.Backend

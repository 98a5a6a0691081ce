import NoteVerse.Backend.Library

/-!
# What a commit does to the folders

`LibraryOk` is what the checks of the requests are for. A request has made its
checks on rows that it read earlier; `StillValid` says that they would pass on
the rows that are committed now. For each request, the library is right after
its commit exactly if they would (`createFolder_commits`, `updateFolder_commits`,
`deleteFolder_commits`, `moveEntries_commits`, `ensureEntry_commits`).
-/

namespace NoteVerse.Backend

open FolderTree Forest Table

/-- Live folders form a forest of at most `maxFolderLevel` levels with live
parents, and live entries lie in live folders or in none. -/
structure LibraryOk (tables : LibraryTables) : Prop where
  noCycle : ∀ folderId,
    ¬Relation.TransGen (ChildOf (parents tables.liveFolders)) folderId folderId
  levels : ∀ folder ∈ tables.liveFolders,
    ∃ n ≤ maxFolderLevel, Level (parents tables.liveFolders) folder.id n
  parents : ∀ folder ∈ tables.liveFolders, ∀ parentId, folder.parentFolderId = some parentId →
    parentId ∈ tables.liveFolders.map (·.id)
  entries : ∀ entry ∈ tables.liveEntries, ∀ folderId, entry.folderId = some folderId →
    folderId ∈ tables.liveFolders.map (·.id)

/-- What a request has checked holds of the committed rows. -/
def LibraryPhase.StillValid (service : LibraryService) (tables : LibraryTables) :
    LibraryPhase → Prop
  | .createReady _ (some parentId) =>
    parentId ∈ tables.liveFolders.map (·.id) ∧
      checkCreate tables.liveFolders (some parentId) = .ok ()
  | .updateReady _ folder (some (some parentId)) =>
    parentId ∈ tables.liveFolders.map (·.id) ∧
      checkMove service tables.liveFolders folder.id (some parentId) = .ok ()
  | .deleteReady _ _ affectedFolderIds entries =>
    (∀ row ∈ tables.liveFolders, ∀ parentId ∈ affectedFolderIds,
      row.parentFolderId = some parentId → row.id ∈ affectedFolderIds) ∧
    ∀ row ∈ tables.entriesInFolderIds affectedFolderIds, row.id ∈ entries.map (·.id)
  | .moving (some targetId) _ entries _ =>
    targetId ∈ tables.liveFolders.map (·.id) ∨
      ∀ row ∈ tables.liveEntries, ∀ entry,
        find ScoreLibraryEntry.id row.id entries = some entry → entry.folderId = some targetId
  | .ensureReady _ (some entry) =>
    entry.deletedAt ≠ none → entry.folderId = none →
      ∀ row ∈ tables.entries, row.id = entry.id → ∀ folderId, row.folderId = some folderId →
        folderId ∈ tables.liveFolders.map (·.id)
  | _ => True

namespace LibraryTables

variable {tables : LibraryTables} {service : LibraryService}

/-- The constraints of the tables, and the ids that the sequences give are new. -/
structure Ok (tables : LibraryTables) : Prop where
  folderIds : (tables.folders.map (·.id)).Nodup
  folderBounds : ∀ folder ∈ tables.folders, folder.id < tables.nextFolderId
  entryIds : (tables.entries.map (·.id)).Nodup
  entryBounds : ∀ entry ∈ tables.entries, entry.id < tables.nextEntryId

theorem Ok.liveIds (h : tables.Ok) : (tables.liveFolders.map (·.id)).Nodup :=
  h.folderIds.sublist (List.filter_sublist.map _)

theorem Ok.next_not_live (h : tables.Ok) : tables.nextFolderId ∉ tables.liveFolders.map (·.id) := by
  intro hmem
  obtain ⟨folder, hfolder, hid⟩ := List.mem_map.mp hmem
  exact Nat.ne_of_lt (h.folderBounds folder (List.mem_of_mem_filter hfolder)) hid

/-- The part of `LibraryOk` about folders. -/
def Forested (tables : LibraryTables) : Prop :=
  Bounded (parents tables.liveFolders) maxFolderLevel

def EntriesOk (tables : LibraryTables) : Prop :=
  ∀ entry ∈ tables.liveEntries, ∀ folderId, entry.folderId = some folderId →
    folderId ∈ tables.liveFolders.map (·.id)

theorem libraryOk_iff (h : tables.Ok) : LibraryOk tables ↔ tables.Forested ∧ tables.EntriesOk := by
  constructor
  · intro hl
    refine ⟨fun folderId hfolder => ?_, hl.entries⟩
    obtain ⟨folder, hmem, rfl⟩ := List.mem_map.mp (parents_isSome.mp hfolder)
    exact hl.levels folder hmem
  · rintro ⟨hf, he⟩
    refine ⟨fun _ => hf.not_transGen, fun folder hfolder => ?_, fun folder hfolder parentId hp => ?_,
      he⟩
    · exact hf folder.id (parents_isSome.mpr (List.mem_map_of_mem hfolder))
    · exact parents_isSome.mp (hf.parent ((childOf_iff h.liveIds).mpr ⟨folder, hfolder, rfl, hp⟩))

/-! ## The checks -/

variable {parentId : Nat} {entries : List ScoreLibraryEntry}
  {write : ScoreLibraryEntry → ScoreLibraryEntry → ScoreLibraryEntry}
  {row entry : ScoreLibraryEntry} {tables' : LibraryTables} {now : Int}
  {folder : ScoreLibraryFolder} {request : EnsureEntryRequest}

theorem checkCreate_iff (hf : tables.Forested) (hlive : parentId ∈ tables.liveFolders.map (·.id)) :
    checkCreate tables.liveFolders (some parentId) = .ok () ↔
      ∃ l, Level (parents tables.liveFolders) parentId l ∧ l + 1 ≤ maxFolderLevel := by
  obtain ⟨n, -, hn⟩ := hf parentId (parents_isSome.mpr hlive)
  rw [checkCreate, folderLevel_of_level hn]
  constructor
  · intro hc
    split_ifs at hc with hgt
    exact ⟨n, hn, by omega⟩
  · rintro ⟨l, hl, hle⟩
    rw [hn.unique hl, if_neg (by omega)]

theorem checkMove_iff (h : tables.Ok) (hf : tables.Forested) {folderId : Nat}
    (hlive : parentId ∈ tables.liveFolders.map (·.id)) :
    checkMove service tables.liveFolders folderId (some parentId) = .ok () ↔
      ∃ l, Level (parents tables.liveFolders) parentId l ∧
        (∀ d, ¬Below (parents tables.liveFolders) parentId folderId d) ∧
        ∀ a d, Below (parents tables.liveFolders) a folderId d → l + 1 + d ≤ maxFolderLevel := by
  obtain ⟨n, -, hn⟩ := hf parentId (parents_isSome.mpr hlive)
  have hends := (folders_terminate h.liveIds hf Nat.two_pos service.levels_le ⟨0, 0, 0, 0, 0, []⟩).1
  obtain ⟨descendantIds, hdesc⟩ := Option.isSome_iff_exists.mp (hends folderId).1
  obtain ⟨height, hheight⟩ := Option.isSome_iff_exists.mp (hends folderId).2
  obtain ⟨hlt, a, d, hd, hhigh⟩ := lt_subtreeHeight h.liveIds hheight
  have hmem := mem_descendantFolderIds h.liveIds hdesc parentId
  simp only [checkMove, hdesc, hheight, folderLevel_of_level hn, Option.any_some, Option.some_inj]
  constructor
  · intro hc
    split_ifs at hc with hself hin hgt
    refine ⟨n, hn, fun d hd => ?_, fun b m hb => ?_⟩
    · cases d with
      | zero =>
        cases hd
        exact hself rfl
      | succ d => exact hin (decide_eq_true (hmem.mpr ⟨d, hd⟩))
    · have := hlt b m hb
      omega
  · rintro ⟨l, hl, hnot, hle⟩
    have hself : parentId ≠ folderId := by
      rintro rfl
      exact hnot 0 (.refl _)
    have hin : parentId ∉ descendantIds := fun hin => by
      obtain ⟨d, hd⟩ := hmem.mp hin
      exact hnot (d + 1) hd
    have hbound := hle a d hd
    rw [if_neg hself, if_neg (by simpa using hin), hn.unique hl, if_neg (by omega)]

/-! ## Rows that are written -/

theorem written_self {α : Type} [DecidableEq α] (read new : α) :
    written read read (some new) = new := by
  rw [written]
  split_ifs with hsame
  · exact hsame.symm
  · rfl

theorem mem_writeEntries {row' : ScoreLibraryEntry} (h : row' ∈ tables.writeEntries entries write) :
    ∃ row ∈ tables.entries,
      (find ScoreLibraryEntry.id row.id entries = none ∧ row' = row) ∨
      ∃ entry, find ScoreLibraryEntry.id row.id entries = some entry ∧ row' = write entry row := by
  obtain ⟨row, hrow, rfl⟩ := List.mem_map.mp h
  refine ⟨row, hrow, ?_⟩
  cases hfind : find ScoreLibraryEntry.id row.id entries with
  | none => exact .inl ⟨rfl, rfl⟩
  | some entry => exact .inr ⟨entry, rfl, rfl⟩

theorem writeEntries_of_find (hrow : row ∈ tables.entries)
    (hfind : find ScoreLibraryEntry.id row.id entries = some entry) :
    write entry row ∈ tables.writeEntries entries write :=
  List.mem_map.mpr ⟨row, hrow, by rw [hfind]⟩

theorem writeEntries_of_not_mem (hrow : row ∈ tables.entries)
    (hfind : find ScoreLibraryEntry.id row.id entries = none) :
    row ∈ tables.writeEntries entries write :=
  List.mem_map.mpr ⟨row, hrow, by rw [hfind]⟩

theorem map_id_writeEntries (entries : List ScoreLibraryEntry)
    (hwrite : ∀ entry row, (write entry row).id = row.id) :
    (tables.writeEntries entries write).map (·.id) = tables.entries.map (·.id) := by
  rw [writeEntries, List.map_map]
  refine List.map_congr_left fun row _ => ?_
  simp only [Function.comp_apply]
  split
  · rfl
  · exact hwrite _ row

/-- Entries that keep their ids keep the constraints. -/
theorem Ok.writeEntries (h : tables.Ok) (entries : List ScoreLibraryEntry)
    (write : ScoreLibraryEntry → ScoreLibraryEntry → ScoreLibraryEntry)
    (hwrite : ∀ entry row, (write entry row).id = row.id) :
    ((tables.writeEntries entries write).map (·.id)).Nodup ∧
      ∀ row ∈ tables.writeEntries entries write, row.id < tables.nextEntryId := by
  refine ⟨(map_id_writeEntries entries hwrite).symm ▸ h.entryIds, fun row hrow => ?_⟩
  have hid : row.id ∈ tables.entries.map (·.id) := by
    rw [← map_id_writeEntries entries hwrite]
    exact List.mem_map_of_mem hrow
  obtain ⟨row₀, hrow₀, hid⟩ := List.mem_map.mp hid
  rw [← hid]
  exact h.entryBounds row₀ hrow₀

/-! ## Commits -/

/-- A commit keeps the constraints and all folders that it does not write. -/
structure Commits (tables tables' : LibraryTables) (writes : Nat → Prop) (valid : Prop) :
    Prop where
  ok : tables'.Ok
  kept : ∀ folder ∈ tables.liveFolders, ¬writes folder.id → folder ∈ tables'.liveFolders
  libraryOk : LibraryOk tables' ↔ valid

theorem parents_append {folders : List ScoreLibraryFolder} (folder : ScoreLibraryFolder)
    (hnew : folder.id ∉ folders.map (·.id)) (folderId : Nat) :
    parents (folders ++ [folder]) folderId =
      if folderId = folder.id then some folder.parentFolderId else parents folders folderId := by
  rw [parents, find_append_singleton]
  split_ifs with hid hsame hsame
  · rw [hsame, find_eq_none_iff.mpr hnew]
    rfl
  · exact absurd hid.symm hsame
  · exact absurd hsame.symm hid
  · rw [Option.or_none]
    rfl

/-- Entries stay in live folders if no live folder goes. -/
theorem EntriesOk.mono (he : tables.EntriesOk) (hentries : tables'.liveEntries = tables.liveEntries)
    (hfolders : ∀ folderId ∈ tables.liveFolders.map (·.id),
      folderId ∈ tables'.liveFolders.map (·.id)) : tables'.EntriesOk := by
  intro entry hentry folderId hfolder
  rw [hentries] at hentry
  exact hfolders folderId (he entry hentry folderId hfolder)

/-- A new folder. -/
theorem Ok.addFolder (h : tables.Ok) (hl : LibraryOk tables) (folder : ScoreLibraryFolder)
    (hid : folder.id = tables.nextFolderId) (hdeleted : folder.deletedAt = none) :
    Commits tables { tables with
        folders := tables.folders ++ [folder], nextFolderId := tables.nextFolderId + 1 }
      (fun _ => False)
      (∀ parentId, folder.parentFolderId = some parentId →
        parentId ∈ tables.liveFolders.map (·.id) ∧
          checkCreate tables.liveFolders (some parentId) = .ok ()) := by
  obtain ⟨hf, he⟩ := (libraryOk_iff h).mp hl
  have hlive : liveFolders { tables with
      folders := tables.folders ++ [folder], nextFolderId := tables.nextFolderId + 1 } =
      tables.liveFolders ++ [folder] := by
    rw [liveFolders, List.filter_append, List.filter_singleton, decide_eq_true hdeleted]
    rfl
  have hok : Ok { tables with
      folders := tables.folders ++ [folder], nextFolderId := tables.nextFolderId + 1 } := by
    refine ⟨?_, fun other hother => ?_, h.entryIds, h.entryBounds⟩
    · rw [List.map_append, List.map_singleton]
      refine List.nodup_append.mpr ⟨h.folderIds, List.nodup_singleton _, fun id hmem id' hid' e => ?_⟩
      obtain ⟨other, hother, rfl⟩ := List.mem_map.mp hmem
      rw [List.mem_singleton.mp hid', hid] at e
      exact Nat.ne_of_lt (h.folderBounds other hother) e
    · rcases List.mem_append.mp hother with hother | hother
      · exact Nat.lt_succ_of_lt (h.folderBounds other hother)
      · rw [List.mem_singleton.mp hother, hid]
        exact Nat.lt_succ_self _
  have hkept : ∀ other ∈ tables.liveFolders, other ∈ tables.liveFolders ++ [folder] :=
    fun _ hother => List.mem_append_left _ hother
  have hparents := parents_append folder (hid ▸ h.next_not_live)
  have hsame : ∀ a, a ≠ folder.id →
      parents (tables.liveFolders ++ [folder]) a = parents tables.liveFolders a :=
    fun a ha => (hparents a).trans (if_neg ha)
  have hnew := (hparents folder.id).trans (if_pos rfl)
  have hnone : parents tables.liveFolders folder.id = none := by
    rw [← Option.not_isSome_iff_eq_none, parents_isSome, hid]
    exact h.next_not_live
  refine ⟨hok, fun other hother _ => hlive ▸ hkept other hother, ?_⟩
  rw [libraryOk_iff hok]
  have hentries : EntriesOk { tables with
      folders := tables.folders ++ [folder], nextFolderId := tables.nextFolderId + 1 } := by
    refine he.mono rfl fun folderId hmem => ?_
    rw [hlive, List.map_append]
    exact List.mem_append_left _ hmem
  rw [Forested, hlive]
  cases hparent : folder.parentFolderId with
  | none =>
    rw [hparent] at hnew
    exact ⟨fun _ parentId hp => (Option.some_ne_none parentId hp.symm).elim,
      fun _ => ⟨hf.detach hsame Nat.two_pos hnew, hentries⟩⟩
  | some parentId =>
    rw [hparent] at hnew
    rw [and_iff_left hentries, hf.attach_iff hsame hnew]
    constructor
    · rintro ⟨l, hl, -, hle⟩ p hp
      cases hp
      have hlive := parents_isSome.mp hl.isSome
      exact ⟨hlive, (checkCreate_iff hf hlive).mpr ⟨l, hl, hle folder.id 0 (.refl _)⟩⟩
    · intro hv
      obtain ⟨hplive, hcheck⟩ := hv parentId rfl
      obtain ⟨l, hl, hle⟩ := (checkCreate_iff hf hplive).mp hcheck
      -- nothing is below a folder that is not there yet
      refine ⟨l, hl, fun d hd => ?_, fun a d hd => ?_⟩
      · obtain ⟨e, -⟩ := hf.below_none hnone hd
        rw [e, hid] at hplive
        exact h.next_not_live hplive
      · obtain ⟨-, rfl⟩ := hf.below_none hnone hd
        exact hle

theorem createFolder_commits (h : tables.Ok) (hl : LibraryOk tables)
    {request : LibraryFolderCreateRequest} {parentId : Option Nat} {uuid : String}
    (hs : tables.createFolder request parentId now uuid = .ok tables') :
    Commits tables tables' (fun _ => False)
      (LibraryPhase.StillValid service tables (.createReady request parentId)) := by
  rw [createFolder] at hs
  split_ifs at hs with hconflict
  cases hs
  have hdone := h.addFolder hl (tables.newFolder request parentId now uuid) rfl rfl
  refine ⟨hdone.ok, hdone.kept, hdone.libraryOk.trans ?_⟩
  cases parentId with
  | none => exact ⟨fun _ => trivial, fun _ p hp => (Option.some_ne_none p hp.symm).elim⟩
  | some parentId => exact ⟨fun hv => hv parentId rfl, fun hv p hp => Option.some_inj.mp hp ▸ hv⟩

/-- The parents of folders of which one is changed. -/
theorem parents_update {folders : List ScoreLibraryFolder} (hids : (folders.map (·.id)).Nodup)
    (hfolder : folder ∈ folders) {f : ScoreLibraryFolder → ScoreLibraryFolder}
    (hf : ∀ row, (f row).id = row.id) (folderId : Nat) :
    parents (Table.update ScoreLibraryFolder.id folder.id f folders) folderId =
      if folderId = folder.id then some (f folder).parentFolderId
      else parents folders folderId := by
  rw [parents, find_update fun row hrow => (hf row).trans hrow]
  split_ifs with hid
  · rw [find_of_mem hids hfolder]
    rfl
  · rfl

/-- A change of a folder. -/
theorem Ok.changeFolder (h : tables.Ok) (service : LibraryService) (hl : LibraryOk tables)
    (hfolder : folder ∈ tables.liveFolders) (write : ScoreLibraryFolder → ScoreLibraryFolder)
    (hid : ∀ row, (write row).id = row.id)
    (hdeleted : ∀ row, (write row).deletedAt = row.deletedAt) :
    Commits tables { tables with
        folders := Table.update ScoreLibraryFolder.id folder.id write tables.folders }
      (· = folder.id)
      (∀ parentId, (write folder).parentFolderId = some parentId →
        parentId ∈ tables.liveFolders.map (·.id) ∧
          checkMove service tables.liveFolders folder.id (some parentId) = .ok ()) := by
  obtain ⟨hf, he⟩ := (libraryOk_iff h).mp hl
  have hlive : liveFolders { tables with
      folders := Table.update ScoreLibraryFolder.id folder.id write tables.folders } =
      Table.update ScoreLibraryFolder.id folder.id write tables.liveFolders :=
    filter_update fun row _ => by rw [hdeleted row]
  have hids : (Table.update ScoreLibraryFolder.id folder.id write tables.liveFolders).map (·.id) =
      tables.liveFolders.map (·.id) := map_update hid
  have hok : Ok { tables with
      folders := Table.update ScoreLibraryFolder.id folder.id write tables.folders } := by
    have hkeys : (Table.update ScoreLibraryFolder.id folder.id write tables.folders).map (·.id) =
        tables.folders.map (·.id) := map_update hid
    refine ⟨hkeys ▸ h.folderIds, fun row hrow => ?_, h.entryIds, h.entryBounds⟩
    rcases mem_update hrow with ⟨hrow, -⟩ | ⟨row₀, hrow₀, -, rfl⟩
    · exact h.folderBounds row hrow
    · rw [hid]
      exact h.folderBounds row₀ hrow₀
  refine ⟨hok, fun row hrow hne => hlive ▸ mem_update_of_ne hrow hne, ?_⟩
  have hentries : EntriesOk { tables with
      folders := Table.update ScoreLibraryFolder.id folder.id write tables.folders } :=
    he.mono rfl fun folderId hmem => by rwa [hlive, hids]
  rw [libraryOk_iff hok, and_iff_left hentries, Forested, hlive]
  have hparents := parents_update h.liveIds hfolder hid
  have hsame : ∀ a, a ≠ folder.id →
      parents (Table.update ScoreLibraryFolder.id folder.id write tables.liveFolders) a =
        parents tables.liveFolders a := fun a ha => (hparents a).trans (if_neg ha)
  have hnew := (hparents folder.id).trans (if_pos rfl)
  cases hparent : (write folder).parentFolderId with
  | none =>
    rw [hparent] at hnew
    exact ⟨fun _ parentId hp => (Option.some_ne_none parentId hp.symm).elim,
      fun _ => hf.detach hsame Nat.two_pos hnew⟩
  | some parentId =>
    rw [hparent] at hnew
    rw [hf.attach_iff hsame hnew]
    constructor
    · rintro ⟨l, hl, hmove⟩ p hp
      cases hp
      have hplive := parents_isSome.mp hl.isSome
      exact ⟨hplive, (checkMove_iff h hf hplive).mpr ⟨l, hl, hmove⟩⟩
    · intro hv
      obtain ⟨hplive, hcheck⟩ := hv parentId rfl
      exact (checkMove_iff h hf hplive).mp hcheck

/-- A folder passes the checks of a move to where it is. -/
theorem checkMove_self (h : tables.Ok) (hl : LibraryOk tables)
    (hfolder : folder ∈ tables.liveFolders) (hparent : folder.parentFolderId = some parentId) :
    parentId ∈ tables.liveFolders.map (·.id) ∧
      checkMove service tables.liveFolders folder.id (some parentId) = .ok () := by
  obtain ⟨hf, -⟩ := (libraryOk_iff h).mp hl
  have hplive := hl.parents folder hfolder parentId hparent
  have hchild : parents tables.liveFolders folder.id = some (some parentId) :=
    (parents_of_mem h.liveIds hfolder).trans (congrArg some hparent)
  exact ⟨hplive, (checkMove_iff h hf hplive).mpr ((hf.attach_iff (fun _ _ => rfl) hchild).mp hf)⟩

theorem updateFolder_commits (h : tables.Ok) (hl : LibraryOk tables)
    {request : LibraryFolderUpdateRequest} {parentId : Option (Option Nat)}
    (hfolder : folder ∈ tables.liveFolders)
    (hs : tables.updateFolder request folder parentId now = .ok tables') :
    Commits tables tables' (· = folder.id)
      (LibraryPhase.StillValid service tables (.updateReady request folder parentId)) := by
  rw [updateFolder] at hs
  split_ifs at hs with hconflict
  cases hs
  have hdone := h.changeFolder service hl hfolder
    (updatedFolder request folder parentId now) (fun _ => rfl) fun _ => rfl
  refine ⟨hdone.ok, hdone.kept, hdone.libraryOk.trans ?_⟩
  rcases parentId with _ | _ | parentId
  · exact ⟨fun _ => trivial, fun _ p hp => checkMove_self h hl hfolder hp⟩
  · rw [updatedFolder, written_self]
    exact ⟨fun _ => trivial, fun _ p hp => (Option.some_ne_none p hp.symm).elim⟩
  · rw [updatedFolder, written_self]
    exact ⟨fun hv => hv parentId rfl, fun hv p hp => Option.some_inj.mp hp ▸ hv⟩

/-! ### Deletion -/

theorem liveFolders_delete (affectedFolderIds : List Nat) (now : Int) :
    (tables.folders.map fun row : ScoreLibraryFolder =>
      if row.id ∈ affectedFolderIds then { row with deletedAt := some now, updatedAt := now }
      else row).filter (·.deletedAt = none) =
      tables.liveFolders.filter fun row => decide (row.id ∉ affectedFolderIds) := by
  rw [liveFolders]
  induction tables.folders with
  | nil => rfl
  | cons row rows ih =>
    rw [List.map_cons, List.filter_cons, List.filter_cons, ih]
    by_cases hrow : row.id ∈ affectedFolderIds <;> by_cases hlive : row.deletedAt = none <;>
      simp [hrow, hlive]

/-- What `deleteFolders` and `deleteReady` know: the folder is among those that
are deleted, and its parent is not. -/
structure Affected (folder : ScoreLibraryFolder) (affectedFolderIds : List Nat) : Prop where
  self : folder.id ∈ affectedFolderIds
  parent : ∀ parentId, folder.parentFolderId = some parentId → parentId ∉ affectedFolderIds

theorem Affected.target_not_mem {affectedFolderIds : List Nat}
    (ha : Affected folder affectedFolderIds) {mode : FolderDeleteMode} {folderId : Nat}
    (htarget : targetParentId mode folder = some folderId) :
    folder.parentFolderId = some folderId ∧ folderId ∉ affectedFolderIds := by
  rw [targetParentId] at htarget
  split_ifs at htarget
  exact ⟨htarget, ha.parent folderId htarget⟩

theorem mem_entriesInFolderIds {folderIds : List Nat} :
    row ∈ tables.entriesInFolderIds folderIds ↔
      row ∈ tables.liveEntries ∧ ∃ folderId ∈ folderIds, row.folderId = some folderId := by
  rw [entriesInFolderIds, List.mem_filter, Option.any_eq_true]
  simp only [decide_eq_true_eq, and_comm]

section Deletion

variable {mode : FolderDeleteMode} {folder : ScoreLibraryFolder} {affectedFolderIds : List Nat}
  {entries : List ScoreLibraryEntry} {now : Int}

theorem mem_liveFolders_delete {folderId : Nat} :
    folderId ∈ (tables.deleteFolder mode folder affectedFolderIds entries now).liveFolders.map
      (·.id) ↔ folderId ∈ tables.liveFolders.map (·.id) ∧ folderId ∉ affectedFolderIds := by
  rw [liveFolders, deleteFolder, liveFolders_delete, List.mem_map, List.mem_map]
  constructor
  · rintro ⟨row, hrow, rfl⟩
    obtain ⟨hrow, hnot⟩ := List.mem_filter.mp hrow
    exact ⟨⟨row, hrow, rfl⟩, of_decide_eq_true hnot⟩
  · rintro ⟨⟨row, hrow, rfl⟩, hnot⟩
    exact ⟨row, List.mem_filter.mpr ⟨hrow, decide_eq_true hnot⟩, rfl⟩

theorem Ok.deleteFolder (h : tables.Ok) :
    (tables.deleteFolder mode folder affectedFolderIds entries now).Ok := by
  have hids : (tables.folders.map fun row : ScoreLibraryFolder =>
      if row.id ∈ affectedFolderIds then { row with deletedAt := some now, updatedAt := now }
      else row).map (·.id) = tables.folders.map (·.id) := by
    rw [List.map_map]
    refine List.map_congr_left fun row _ => ?_
    simp only [Function.comp_apply]
    split_ifs <;> rfl
  obtain ⟨hentryIds, hentryBounds⟩ := h.writeEntries entries (fun entry row =>
    if mode = .trashContents then { row with deletedAt := some now, updatedAt := now }
    else { row with
      folderId := written entry.folderId row.folderId (some (targetParentId mode folder))
      updatedAt := now }) fun _ _ => by split_ifs <;> rfl
  refine ⟨hids.symm ▸ h.folderIds, fun row hrow => ?_, hentryIds, hentryBounds⟩
  obtain ⟨row₀, hrow₀, rfl⟩ := List.mem_map.mp hrow
  have hbound := h.folderBounds row₀ hrow₀
  split_ifs <;> exact hbound

/-- The folders are a forest after it if all that is below them is deleted. -/
theorem Forested.deleteFolder_iff (h : tables.Ok) (hf : tables.Forested) :
    (tables.deleteFolder mode folder affectedFolderIds entries now).Forested ↔
      ∀ row ∈ tables.liveFolders, ∀ parentId ∈ affectedFolderIds,
        row.parentFolderId = some parentId → row.id ∈ affectedFolderIds := by
  have hparents : ∀ a, parents (tables.deleteFolder mode folder affectedFolderIds entries
      now).liveFolders a = if a ∈ affectedFolderIds then none else parents tables.liveFolders a := by
    intro a
    rw [parents, liveFolders, deleteFolder, liveFolders_delete,
      find_filter ScoreLibraryFolder.id fun id => decide (id ∉ affectedFolderIds)]
    by_cases ha : a ∈ affectedFolderIds
    · rw [if_pos ha, if_neg (by simpa using ha)]
      rfl
    · rw [if_neg ha, if_pos (decide_eq_true ha)]
      rfl
  rw [Forested, hf.remove_iff (· ∈ affectedFolderIds)
    (fun a ha => (hparents a).trans (if_pos ha)) fun a ha => (hparents a).trans (if_neg ha)]
  constructor
  · intro hclosed row hrow parentId hp hparent
    exact hclosed row.id parentId ((childOf_iff h.liveIds).mpr ⟨row, hrow, rfl, hparent⟩) hp
  · intro hclosed a p hchild hp
    obtain ⟨row, hrow, rfl, hparent⟩ := (childOf_iff h.liveIds).mp hchild
    exact hclosed row hrow p hp hparent

/-- The entries are in live folders after it if it has read all of them. -/
theorem EntriesOk.deleteFolder_iff (hl : LibraryOk tables) (hfolder : folder ∈ tables.liveFolders)
    (ha : Affected folder affectedFolderIds)
    (hentries : ∀ entry ∈ entries, ∃ folderId ∈ affectedFolderIds,
      entry.folderId = some folderId) :
    (tables.deleteFolder mode folder affectedFolderIds entries now).EntriesOk ↔
      ∀ row ∈ tables.entriesInFolderIds affectedFolderIds, row.id ∈ entries.map (·.id) := by
  constructor
  · intro he row hrow
    by_contra hnot
    obtain ⟨hlive, folderId, hid, hin⟩ := mem_entriesInFolderIds.mp hrow
    obtain ⟨hmem, hdeleted⟩ := List.mem_filter.mp hlive
    have hmem' : row ∈ (tables.deleteFolder mode folder affectedFolderIds entries now).entries :=
      writeEntries_of_not_mem hmem (find_eq_none_iff.mpr hnot)
    have hlive' := he row (List.mem_filter.mpr ⟨hmem', hdeleted⟩) folderId hin
    exact (mem_liveFolders_delete.mp hlive').2 hid
  · intro hread row' hrow' folderId hin
    obtain ⟨hmem', hdeleted⟩ := List.mem_filter.mp hrow'
    have hdeleted := of_decide_eq_true hdeleted
    rw [mem_liveFolders_delete]
    obtain ⟨row, hrow, ⟨hnone, rfl⟩ | ⟨entry, hfind, rfl⟩⟩ := mem_writeEntries hmem'
    · have hlive : row' ∈ tables.liveEntries :=
        List.mem_filter.mpr ⟨hrow, decide_eq_true hdeleted⟩
      refine ⟨hl.entries row' hlive folderId hin, fun hid => find_eq_none_iff.mp hnone ?_⟩
      exact hread row' (mem_entriesInFolderIds.mpr ⟨hlive, folderId, hid, hin⟩)
    · split_ifs at hdeleted hin
      simp only [written] at hin
      split_ifs at hin with hsame
      · -- the entry lies in a folder that is deleted, the target does not
        obtain ⟨deletedId, hid, hentry⟩ := hentries entry (find_mem hfind)
        exact absurd hid (ha.target_not_mem (hsame.trans hentry)).2
      · obtain ⟨hparent, hnot⟩ := ha.target_not_mem hin
        exact ⟨hl.parents folder hfolder folderId hparent, hnot⟩

theorem deleteFolder_commits (h : tables.Ok) (hl : LibraryOk tables)
    (hfolder : folder ∈ tables.liveFolders) (ha : Affected folder affectedFolderIds)
    (hentries : ∀ entry ∈ entries, ∃ folderId ∈ affectedFolderIds,
      entry.folderId = some folderId) :
    Commits tables (tables.deleteFolder mode folder affectedFolderIds entries now)
      (· ∈ affectedFolderIds)
      (LibraryPhase.StillValid service tables
        (.deleteReady mode folder affectedFolderIds entries)) where
  ok := h.deleteFolder
  kept row hrow hnot := by
    rw [liveFolders, deleteFolder, liveFolders_delete]
    exact List.mem_filter.mpr ⟨hrow, decide_eq_true hnot⟩
  libraryOk := by
    rw [libraryOk_iff h.deleteFolder,
      Forested.deleteFolder_iff h ((libraryOk_iff h).mp hl).1,
      EntriesOk.deleteFolder_iff hl hfolder ha hentries]
    rfl

end Deletion

/-! ### Entries -/

theorem commits_of_entries (h : tables.Ok) (hl : LibraryOk tables) (tables' : LibraryTables)
    (hfolders : tables'.folders = tables.folders)
    (hnext : tables'.nextFolderId = tables.nextFolderId)
    (hids : (tables'.entries.map (·.id)).Nodup)
    (hbounds : ∀ entry ∈ tables'.entries, entry.id < tables'.nextEntryId) {valid : Prop}
    (hv : (∀ entry ∈ tables'.liveEntries, ∀ folderId, entry.folderId = some folderId →
      folderId ∈ tables.liveFolders.map (·.id)) ↔ valid) :
    Commits tables tables' (fun _ => False) valid := by
  have hlive : tables'.liveFolders = tables.liveFolders := by
    rw [liveFolders, hfolders]
    rfl
  have hok : tables'.Ok := by
    refine ⟨?_, ?_, hids, hbounds⟩
    · rw [hfolders]
      exact h.folderIds
    · rw [hfolders, hnext]
      exact h.folderBounds
  refine ⟨hok, fun folder hfolder _ => hlive ▸ hfolder, ?_⟩
  have hf : Bounded (parents tables.liveFolders) maxFolderLevel := ((libraryOk_iff h).mp hl).1
  rw [libraryOk_iff hok, Forested, hlive, and_iff_right hf, ← hv, EntriesOk, hlive]

theorem moveEntries_commits (h : tables.Ok) (hl : LibraryOk tables) {targetId : Option Nat}
    {entryIds : List String} {moved : Nat} :
    Commits tables (tables.moveEntries targetId entries now) (fun _ => False)
      (LibraryPhase.StillValid service tables (.moving targetId entryIds entries moved)) := by
  obtain ⟨hids, hbounds⟩ := h.writeEntries entries (fun entry row =>
    { row with
      folderId := written entry.folderId row.folderId (some targetId)
      updatedAt := now }) fun _ _ => rfl
  refine commits_of_entries h hl (tables.moveEntries targetId entries now) rfl rfl hids hbounds ?_
  have hfrom : ∀ row' ∈ (tables.moveEntries targetId entries now).liveEntries,
      ∃ row ∈ tables.liveEntries, row'.folderId = row.folderId ∨
        ∃ entry, find ScoreLibraryEntry.id row.id entries = some entry ∧
          entry.folderId ≠ targetId ∧ row'.folderId = targetId := by
    intro row' hrow'
    obtain ⟨hmem', hdeleted⟩ := List.mem_filter.mp hrow'
    obtain ⟨row, hrow, ⟨-, rfl⟩ | ⟨entry, hfind, rfl⟩⟩ := mem_writeEntries hmem'
    · exact ⟨row', List.mem_filter.mpr ⟨hrow, hdeleted⟩, .inl rfl⟩
    · refine ⟨row, List.mem_filter.mpr ⟨hrow, hdeleted⟩, ?_⟩
      simp only [written]
      split_ifs with hsame
      · exact .inl rfl
      · exact .inr ⟨entry, hfind, Ne.symm hsame, rfl⟩
  cases targetId with
  | none =>
    refine ⟨fun _ => trivial, fun _ row' hrow' folderId hin => ?_⟩
    obtain ⟨row, hrow, hsame | ⟨entry, -, -, hnone⟩⟩ := hfrom row' hrow'
    · exact hl.entries row hrow folderId (hsame ▸ hin)
    · exact absurd (hnone.symm.trans hin) (Option.some_ne_none folderId).symm
  | some targetId =>
    constructor
    · intro he
      by_contra hv
      obtain ⟨htarget, hrows⟩ := not_or.mp hv
      push Not at hrows
      obtain ⟨row, hrow, entry, hfind, hne⟩ := hrows
      obtain ⟨hmem, hdeleted⟩ := List.mem_filter.mp hrow
      have hmem' : { row with
          folderId := written entry.folderId row.folderId (some (some targetId))
          updatedAt := now } ∈ (tables.moveEntries (some targetId) entries now).entries :=
        writeEntries_of_find hmem hfind
      refine htarget (he _ (List.mem_filter.mpr ⟨hmem', hdeleted⟩) targetId ?_)
      exact if_neg (Ne.symm hne)
    · intro hv row' hrow' folderId hin
      obtain ⟨row, hrow, hsame | ⟨entry, hfind, hne, htarget⟩⟩ := hfrom row' hrow'
      · exact hl.entries row hrow folderId (hsame ▸ hin)
      · rcases hv with hv | hv
        · exact Option.some_inj.mp (htarget.symm.trans hin) ▸ hv
        · exact absurd (hv row hrow entry hfind) hne

/-- An entry that was deleted is live again, in no folder or where it was moved
to since. -/
theorem ensuredEntry_restored (h : entry.deletedAt ≠ none) :
    (ensuredEntry request now entry row).deletedAt = none ∧
      (ensuredEntry request now entry row).folderId =
        if entry.folderId = none then row.folderId else none := by
  simp only [ensuredEntry, if_neg h, written]
  refine ⟨trivial, ?_⟩
  by_cases hnone : entry.folderId = none
  · rw [if_pos hnone, if_pos hnone.symm]
    split_ifs <;> rfl
  · rw [if_neg hnone, if_neg (Ne.symm hnone)]

theorem ensuredEntry_live (h : entry.deletedAt = none) :
    (ensuredEntry request now entry row).deletedAt = row.deletedAt ∧
      (ensuredEntry request now entry row).folderId = row.folderId := by
  simp only [ensuredEntry, if_pos h]
  split_ifs <;> exact ⟨rfl, rfl⟩

theorem ensureEntry_commits (h : tables.Ok) (hl : LibraryOk tables)
    {entry : Option ScoreLibraryEntry} {uuid : String}
    (hs : tables.ensureEntry request entry now uuid = .ok tables') :
    Commits tables tables' (fun _ => False)
      (LibraryPhase.StillValid service tables (.ensureReady request entry)) := by
  unfold ensureEntry at hs
  split_ifs at hs with hunique
  cases hs
  cases entry with
  | none =>
    refine commits_of_entries h hl (tables.writeEntry request now uuid none) rfl rfl ?_
      (fun entry hentry => ?_) ?_
    · show ((tables.entries ++ [tables.newEntry request now uuid]).map _).Nodup
      rw [List.map_append, List.map_singleton]
      refine List.nodup_append.mpr ⟨h.entryIds, List.nodup_singleton _, fun id hid id' hid' e => ?_⟩
      obtain ⟨entry, hentry, rfl⟩ := List.mem_map.mp hid
      rw [List.mem_singleton.mp hid'] at e
      exact Nat.ne_of_lt (h.entryBounds entry hentry) e
    · rcases List.mem_append.mp hentry with hentry | hentry
      · exact Nat.lt_succ_of_lt (h.entryBounds entry hentry)
      · rw [List.mem_singleton.mp hentry]
        exact Nat.lt_succ_self _
    · refine ⟨fun _ => trivial, fun _ entry hentry folderId hin => ?_⟩
      obtain ⟨hmem, hdeleted⟩ := List.mem_filter.mp hentry
      rcases List.mem_append.mp hmem with hmem | hmem
      · exact hl.entries entry (List.mem_filter.mpr ⟨hmem, hdeleted⟩) folderId hin
      · rw [List.mem_singleton.mp hmem] at hin
        cases hin
  | some entry =>
    have hid : ∀ entry row, (ensuredEntry request now entry row).id = row.id := by
      intro entry row
      rw [ensuredEntry]
      split_ifs <;> rfl
    obtain ⟨hids, hbounds⟩ := h.writeEntries [entry] _ hid
    refine commits_of_entries h hl (tables.writeEntry request now uuid (some entry)) rfl rfl hids
      hbounds ?_
    constructor
    · intro he hdeleted hnone row hrow hrowId folderId hin
      have hfind : find ScoreLibraryEntry.id row.id [entry] = some entry := by
        rw [hrowId]
        exact find_of_mem (List.nodup_singleton _) (List.mem_singleton_self _)
      have hmem : ensuredEntry request now entry row ∈
          (tables.writeEntry request now uuid (some entry)).entries :=
        writeEntries_of_find hrow hfind
      obtain ⟨hlive, hfolder⟩ := ensuredEntry_restored hdeleted
      refine he _ (List.mem_filter.mpr ⟨hmem, decide_eq_true hlive⟩) folderId ?_
      rw [hfolder, if_pos hnone, hin]
    · intro hv row' hrow' folderId hin
      obtain ⟨hmem', hdeleted'⟩ := List.mem_filter.mp hrow'
      obtain ⟨row, hrow, ⟨-, rfl⟩ | ⟨found, hfind, rfl⟩⟩ := mem_writeEntries hmem'
      · exact hl.entries row' (List.mem_filter.mpr ⟨hrow, hdeleted'⟩) folderId hin
      · obtain rfl := List.mem_singleton.mp (find_mem hfind)
        by_cases hdeleted : found.deletedAt = none
        · obtain ⟨hsame, hfolder⟩ := ensuredEntry_live hdeleted
          rw [hsame] at hdeleted'
          exact hl.entries row (List.mem_filter.mpr ⟨hrow, hdeleted'⟩) folderId (hfolder ▸ hin)
        · rw [(ensuredEntry_restored hdeleted).2] at hin
          split_ifs at hin with hnone
          exact hv hdeleted hnone row hrow (find_key hfind).symm folderId hin

end LibraryTables

end NoteVerse.Backend

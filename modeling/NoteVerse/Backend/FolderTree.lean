import NoteVerse.Lib.Forest
import NoteVerse.Lib.Table

/-!
# The folders of a library as a tree

The functions of `library/folder_tree.py` on the folders of one user. Those
that call themselves for the children of a folder take the number of nested
calls that the interpreter allows, and give nothing when they need more;
`folder_level` goes up from parent to parent and stops where it has been.

On a forest they compute what they are for (`mem_descendantFolderIds`,
`lt_subtreeHeight`, `folderLevel_of_level`), and end (`folders_terminate`).
-/

namespace NoteVerse.Backend

open Forest Table

structure ScoreLibraryFolder where
  id : Nat
  folderUuid : String
  parentFolderId : Option Nat
  name : String
  position : Nat
  createdAt : Int
  updatedAt : Int
  deletedAt : Option Int
  deriving DecidableEq, Repr

structure LibraryFolderCounts where
  allCount : Nat
  favoriteCount : Nat
  recentPracticeCount : Nat
  toPracticeCount : Nat
  masteredCount : Nat
  directCounts : List (Nat × Nat)
  deriving DecidableEq, Repr

structure LibraryFolderRead where
  folderId : String
  parentFolderId : Option String
  name : String
  position : Nat
  directCount : Nat
  recursiveCount : Nat
  createdAt : Int
  updatedAt : Int
  deriving DecidableEq, Repr

structure LibraryFolderTreeRead where
  allCount : Nat
  favoriteCount : Nat
  recentPracticeCount : Nat
  toPracticeCount : Nat
  masteredCount : Nat
  folders : List LibraryFolderRead
  deriving DecidableEq, Repr

/-- `direct_counts.get(folder_id, 0)` -/
def LibraryFolderCounts.direct (counts : LibraryFolderCounts) (folderId : Nat) : Nat :=
  (counts.directCounts.lookup folderId).getD 0

namespace FolderTree

variable (limit : Nat) (folders : List ScoreLibraryFolder)

/-- `_folders_by_parent(folders).get(parent_id, [])` -/
def foldersByParent (parentId : Option Nat) : List ScoreLibraryFolder :=
  folders.filter (·.parentFolderId = parentId)

def childIds (folderId : Nat) : List Nat := (foldersByParent folders (some folderId)).map (·.id)

/-! ## Down the tree -/

def recursiveCount (counts : LibraryFolderCounts) (folderId : Nat) : Option Nat :=
  fold (childIds folders)
    (fun folderId results => counts.direct folderId + (results.map Prod.snd).sum) limit folderId

/-- A list of the set. -/
def descendantFolderIds (folderId : Nat) : Option (List Nat) :=
  fold (childIds folders)
    (fun _ results => results.flatMap fun (childId, result) => childId :: result) limit folderId

def subtreeHeight (folderId : Nat) : Option Nat :=
  fold (childIds folders)
    (fun _ results => 1 + ((results.map Prod.snd).max?).getD 0) limit folderId

/-! ## Up the tree -/

/-- The loop of `folder_level`. Each turn sees a folder that no turn before it
has seen, so there are at most as many as folders, and one more. -/
def folderLevelLoop : Nat → List Nat → Nat → Option ScoreLibraryFolder → Nat
  | 0, _, level, _ => level
  | turns + 1, seen, level, current =>
    match current.bind (·.parentFolderId) with
    | none => level
    | some parentId =>
      if parentId ∈ seen then level
      else
        folderLevelLoop turns (parentId :: seen) (level + 1)
          (find ScoreLibraryFolder.id parentId folders)

def folderLevel : Option Nat → Nat
  | none => 0
  | some folderId =>
    folderLevelLoop folders (folders.length + 1) [folderId] 1
      (find ScoreLibraryFolder.id folderId folders)

/-! ## The whole tree -/

def folderUuidById (folderId : Option Nat) : Option String :=
  folderId.bind fun folderId => (find ScoreLibraryFolder.id folderId folders).map (·.folderUuid)

def folderRead (counts : LibraryFolderCounts) (folder : ScoreLibraryFolder) :
    Option LibraryFolderRead :=
  (recursiveCount limit folders counts folder.id).map fun recursiveCount =>
    { folderId := folder.folderUuid
      parentFolderId := folderUuidById folders folder.parentFolderId
      name := folder.name, position := folder.position
      directCount := counts.direct folder.id, recursiveCount
      createdAt := folder.createdAt, updatedAt := folder.updatedAt }

def buildFolderTreeRead (counts : LibraryFolderCounts) : Option LibraryFolderTreeRead :=
  (folders.mapM (folderRead limit folders counts)).map fun folders =>
    { allCount := counts.allCount, favoriteCount := counts.favoriteCount
      recentPracticeCount := counts.recentPracticeCount
      toPracticeCount := counts.toPracticeCount, masteredCount := counts.masteredCount
      folders }

/-! ## The forest of the folders -/

/-- The parents of folders. -/
def parents (folderId : Nat) : Option (Option Nat) :=
  (find ScoreLibraryFolder.id folderId folders).map (·.parentFolderId)

variable {limit folders} {folderId parentId level k : Nat}

theorem parents_isSome : (parents folders folderId).isSome ↔ folderId ∈ folders.map (·.id) := by
  rw [parents, Option.isSome_map, Option.isSome_iff_ne_none, ne_eq, find_eq_none_iff, not_not]

theorem parents_of_mem (hids : (folders.map (·.id)).Nodup) {folder : ScoreLibraryFolder}
    (h : folder ∈ folders) : parents folders folder.id = some folder.parentFolderId := by
  rw [parents, find_of_mem hids h]
  rfl

theorem childOf_iff (hids : (folders.map (·.id)).Nodup) :
    ChildOf (parents folders) folderId parentId ↔
      ∃ folder ∈ folders, folder.id = folderId ∧ folder.parentFolderId = some parentId := by
  constructor
  · intro h
    obtain ⟨folder, hfind, hparent⟩ := Option.map_eq_some_iff.mp h
    exact ⟨folder, find_mem hfind, find_key hfind, hparent⟩
  · rintro ⟨folder, hfolder, rfl, hparent⟩
    exact (parents_of_mem hids hfolder).trans (congrArg some hparent)

theorem mem_childIds (hids : (folders.map (·.id)).Nodup) :
    folderId ∈ childIds folders parentId ↔ ChildOf (parents folders) folderId parentId := by
  rw [childOf_iff hids, childIds, List.mem_map]
  constructor
  · rintro ⟨folder, hfolder, hid⟩
    obtain ⟨hfolder, hparent⟩ := List.mem_filter.mp hfolder
    exact ⟨folder, hfolder, hid, of_decide_eq_true hparent⟩
  · rintro ⟨folder, hfolder, hid, hparent⟩
    exact ⟨folder, List.mem_filter.mpr ⟨hfolder, decide_eq_true hparent⟩, hid⟩

/-- A recursion has a result for each child. -/
theorem childOf_iff_result (hids : (folders.map (·.id)).Nodup) {β : Type}
    {results : List (Nat × β)} (h : results.map Prod.fst = childIds folders folderId)
    (childId : Nat) :
    ChildOf (parents folders) childId folderId ↔ ∃ result, (childId, result) ∈ results := by
  rw [← mem_childIds hids, ← h, List.mem_map]
  exact ⟨fun ⟨r, hr, e⟩ => ⟨r.2, e ▸ hr⟩, fun ⟨result, hr⟩ => ⟨_, hr, rfl⟩⟩

/-! ## What the functions compute -/

theorem mem_descendantFolderIds (hids : (folders.map (·.id)).Nodup) {result : List Nat}
    (h : descendantFolderIds limit folders folderId = some result) (descendantId : Nat) :
    descendantId ∈ result ↔ ∃ d, Below (parents folders) descendantId folderId (d + 1) := by
  refine fold_spec (P := fun folderId result => ∀ descendantId, descendantId ∈ result ↔
    ∃ d, Below (parents folders) descendantId folderId (d + 1)) ?_ h descendantId
  intro folderId results hchildren hresults descendantId
  have hchild := childOf_iff_result hids hchildren
  rw [List.mem_flatMap]
  constructor
  · rintro ⟨⟨childId, result⟩, hr, hmem⟩
    have hc := (hchild childId).mpr ⟨result, hr⟩
    rcases List.mem_cons.mp hmem with rfl | hmem
    · exact ⟨0, hc.below⟩
    · obtain ⟨d, hd⟩ := (hresults _ hr descendantId).mp hmem
      exact ⟨1 + d, hd.trans hc.below⟩
  · rintro ⟨d, hd⟩
    obtain ⟨childId, hc, hd⟩ := hd.last
    obtain ⟨result, hr⟩ := (hchild childId).mp hc
    refine ⟨_, hr, List.mem_cons.mpr ?_⟩
    cases d with
    | zero =>
      cases hd
      exact .inl rfl
    | succ d => exact .inr ((hresults _ hr descendantId).mpr ⟨d, hd⟩)

/-- The height is one more than the longest way down. -/
theorem lt_subtreeHeight (hids : (folders.map (·.id)).Nodup) {height : Nat}
    (h : subtreeHeight limit folders folderId = some height) :
    (∀ a d, Below (parents folders) a folderId d → d < height) ∧
      ∃ a d, Below (parents folders) a folderId d ∧ height = d + 1 := by
  refine fold_spec (P := fun folderId height =>
    (∀ a d, Below (parents folders) a folderId d → d < height) ∧
      ∃ a d, Below (parents folders) a folderId d ∧ height = d + 1) ?_ h
  intro folderId results hchildren hresults
  have hchild := childOf_iff_result hids hchildren
  cases hmax : (results.map Prod.snd).max? with
  | none =>
    have hnil : results = [] := List.map_eq_nil_iff.mp (List.max?_eq_none_iff.mp hmax)
    refine ⟨fun a d hd => ?_, folderId, 0, .refl _, rfl⟩
    cases d with
    | zero => exact Nat.zero_lt_one
    | succ d =>
      obtain ⟨childId, hc, -⟩ := hd.last
      obtain ⟨height, hr⟩ := (hchild childId).mp hc
      rw [hnil] at hr
      exact absurd hr List.not_mem_nil
  | some highest =>
    obtain ⟨hhighest, hle⟩ := List.max?_eq_some_iff.mp hmax
    refine ⟨fun a d hd => ?_, ?_⟩
    · cases d with
      | zero => show 0 < 1 + highest; omega
      | succ d =>
        obtain ⟨childId, hc, hd⟩ := hd.last
        obtain ⟨height, hr⟩ := (hchild childId).mp hc
        have hlt := (hresults _ hr).1 a d hd
        have hh := hle height (List.mem_map.mpr ⟨_, hr, rfl⟩)
        show d + 1 < 1 + highest
        simp only at hlt
        omega
    · obtain ⟨⟨childId, height⟩, hr, rfl⟩ := List.mem_map.mp hhighest
      obtain ⟨a, d, hd, hheight⟩ := (hresults _ hr).2
      refine ⟨a, 1 + d, hd.trans ((hchild childId).mpr ⟨height, hr⟩).below, ?_⟩
      simp only at hheight
      show 1 + height = 1 + d + 1
      omega

/-- The loop, from a folder at a level, has seen only folders at that level and
below. -/
theorem folderLevelLoop_of_level (h : Level (parents folders) folderId k) {turns : Nat}
    {seen : List Nat} (hseen : ∀ a ∈ seen, ∃ n, Level (parents folders) a n ∧ k ≤ n)
    (hturns : k ≤ turns) :
    folderLevelLoop folders turns seen level (find ScoreLibraryFolder.id folderId folders) + 1 =
      level + k := by
  induction h generalizing turns seen level with
  | root hroot =>
    obtain ⟨folder, hfind, hparent⟩ := Option.map_eq_some_iff.mp hroot
    cases turns with
    | zero => omega
    | succ turns =>
      rw [folderLevelLoop, hfind, Option.bind_some, hparent]
  | @child folderId parentId n hchild hlevel ih =>
    obtain ⟨folder, hfind, hparent⟩ := Option.map_eq_some_iff.mp hchild
    cases turns with
    | zero => omega
    | succ turns =>
      have hnot : parentId ∉ seen := by
        intro hmem
        obtain ⟨m, hm, hle⟩ := hseen parentId hmem
        have := hm.unique hlevel
        omega
      rw [folderLevelLoop, hfind, Option.bind_some, hparent]
      show (if parentId ∈ seen then level else _) + 1 = _
      rw [if_neg hnot, ih (List.forall_mem_cons.mpr ⟨⟨n, hlevel, Nat.le_refl n⟩, fun a ha => ?_⟩)
        (by omega)]
      · omega
      · obtain ⟨m, hm, hle⟩ := hseen a ha
        exact ⟨m, hm, by omega⟩

theorem folderLevel_of_level (h : Level (parents folders) folderId k) :
    folderLevel folders (some folderId) = k := by
  have hle : k ≤ folders.length := by
    rw [← List.length_map (·.id)]
    exact h.le_length fun b hb => parents_isSome.mp hb
  have hseen : ∀ a ∈ [folderId], ∃ n, Level (parents folders) a n ∧ k ≤ n := by
    intro a ha
    rw [List.mem_singleton.mp ha]
    exact ⟨k, h, Nat.le_refl k⟩
  have hturns : k ≤ folders.length + 1 := by omega
  apply Nat.succ.inj
  show folderLevelLoop folders (folders.length + 1) [folderId] 1 _ + 1 = k + 1
  rw [folderLevelLoop_of_level h hseen hturns, Nat.add_comm]

/-- On a forest, a limit that allows its levels suffices. -/
theorem folders_terminate (hids : (folders.map (·.id)).Nodup) (h : Bounded (parents folders) k)
    (hk : 0 < k) (hlimit : k ≤ limit) (counts : LibraryFolderCounts) :
    (∀ folderId, (descendantFolderIds limit folders folderId).isSome ∧
      (subtreeHeight limit folders folderId).isSome) ∧
    (buildFolderTreeRead limit folders counts).isSome := by
  have hfold : ∀ {β : Type} (combine : Nat → List (Nat × β) → β) folderId,
      (fold (childIds folders) combine limit folderId).isSome := fun _ folderId =>
    fold_isSome (fun a c hc => (mem_childIds hids).mp hc) fun b d hb =>
      Nat.lt_of_lt_of_le (h.below_lt hk hb) hlimit
  refine ⟨fun folderId => ⟨hfold _ folderId, hfold _ folderId⟩, ?_⟩
  rw [buildFolderTreeRead, Option.isSome_map]
  refine Lists.mapM_isSome fun folder _ => ?_
  rw [folderRead, Option.isSome_map]
  exact hfold _ folder.id

end FolderTree

end NoteVerse.Backend

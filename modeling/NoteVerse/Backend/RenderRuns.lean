import NoteVerse.Backend.RenderReplacement

/-!
# Runs of renders

At each time the rows are the records of one call, or those there were at first, and have
their objects (`RenderInv`, `RenderInv.next`): a call commits only if the rows are still those
it has read, since every call has a first page.
-/

namespace NoteVerse.Backend

/-- The call has committed its rows. -/
def RenderPhase.HasCommitted : RenderPhase → Prop
  | .committed _ | .returned | .raised true => True
  | _ => False

/-- The call has saved objects that it has not committed. -/
def RenderPhase.InFlight : RenderPhase → Prop
  | .rendering | .read _ => True
  | _ => False

theorem RenderPhase.InFlight.not_hasCommitted {phase : RenderPhase} (h : phase.InFlight) :
    ¬phase.HasCommitted := by
  cases phase with
  | rendering => exact id
  | read previous => exact id
  | _ => exact h.elim

/-- The pages of one run, from 1. -/
def Numbered (rows : List RenderAssetRow) : Prop :=
  rows.map (·.pageNumber) = (List.range rows.length).map fun page => ((page + 1 : Nat) : Int)

namespace RenderState

variable {sha256 : String → String} {target : RenderedRevision} {initial : List RenderAssetRow}
  {s s' : RenderState} {o g : Option Nat} {i : Nat}

/-- The rows that a call makes, or that there were at first. -/
def made (initial : List RenderAssetRow) (s : RenderState) : Option Nat → List RenderAssetRow
  | none => initial
  | some i => (s.calls i).records

def HasCommitted (s : RenderState) : Option Nat → Prop
  | none => True
  | some i => (s.calls i).phase.HasCommitted

/-! ## The invariant -/

/-- The rows are those of `o`. Rows that a call has read or replaced are those of one that has
committed, and if these are not the rows any more there are others. -/
structure RenderInv (target : RenderedRevision) (initial : List RenderAssetRow) (o : Option Nat)
    (s : RenderState) : Prop where
  idle : ∀ i, (s.calls i).phase = .idle → (s.calls i).records = []
  wellMade : ∀ g, ∀ row ∈ s.made initial g, Made target row ∧ row.assetUuid ∈ s.drawn
  apart : ∀ g g', g ≠ g' → ∀ row ∈ s.made initial g, ∀ row' ∈ s.made initial g',
    row.assetUuid ≠ row'.assetUuid
  numbered : ∀ g, Numbered (s.made initial g)
  rows : s.rows = s.made initial o
  owner : s.HasCommitted o
  reading : ∀ i previous, (s.calls i).phase = .read previous → (s.calls i).records ≠ [] ∧
    ∃ g, s.HasCommitted g ∧ previous = s.made initial g ∧ (g = o ∨ s.rows ≠ [])
  committing : ∀ i previous, (s.calls i).phase = .committed previous →
    ∃ g, s.HasCommitted g ∧ previous = s.made initial g ∧ g ≠ o
  stored : ∀ row ∈ s.rows, row.storageKey ∈ s.objects
  inFlight : ∀ i, (s.calls i).phase.InFlight → ∀ key ∈ (s.calls i).keys, key ∈ s.objects

theorem RenderInv.key_ne (h : RenderInv target initial o s) {g g' : Option Nat} (hne : g ≠ g')
    {row row' : RenderAssetRow} (hrow : row ∈ s.made initial g)
    (hrow' : row' ∈ s.made initial g') : row.storageKey ≠ row'.storageKey := fun hkey =>
  h.apart g g' hne row hrow row' hrow' ((h.wellMade g row hrow).1.uuid_eq
    (h.wellMade g' row' hrow').1 hkey)

/-- A call that has not committed does not have the rows. -/
theorem RenderInv.owner_of_inFlight (h : RenderInv target initial o s)
    (hi : ¬(s.calls i).phase.HasCommitted) : o ≠ some i := by
  rintro rfl
  exact hi h.owner

/-! ## A call that goes on -/

/-- The state once a call has changed. -/
def setCall (s : RenderState) (i : Nat) (call : RenderCall) : RenderState :=
  { s with calls := Function.update s.calls i call }

theorem setCall_calls (s : RenderState) (i j : Nat) (call : RenderCall) :
    (s.setCall i call).calls j = if j = i then call else s.calls j :=
  Function.update_apply _ _ _ _

theorem made_setCall (s : RenderState) (i : Nat) (call : RenderCall) (g : Option Nat) :
    (s.setCall i call).made initial g = if g = some i then call.records else s.made initial g := by
  cases g with
  | none => rfl
  | some j =>
    show ((s.setCall i call).calls j).records = _
    rw [setCall_calls]
    by_cases hj : j = i
    · rw [if_pos hj, if_pos (congrArg some hj)]
    · rw [if_neg hj, if_neg (fun h => hj (Option.some.inj h))]
      rfl

variable {call : RenderCall} {previous : List RenderAssetRow}

theorem HasCommitted.setCall (hcall : (s.calls i).phase.HasCommitted → call.phase.HasCommitted)
    (hg : s.HasCommitted g) : (s.setCall i call).HasCommitted g := by
  cases g with
  | none => trivial
  | some j =>
    show ((s.setCall i call).calls j).phase.HasCommitted
    rw [setCall_calls]
    split_ifs with hj
    · subst hj
      exact hcall hg
    · exact hg

/-- A call that goes on with the same records, and does not commit. -/
theorem RenderInv.setCall (h : RenderInv target initial o s) {objects : List String}
    (hrecords : call.records = (s.calls i).records)
    (hcommitted : (s.calls i).phase.HasCommitted → call.phase.HasCommitted)
    (hidle : call.phase ≠ .idle)
    (hread : ∀ previous, call.phase = .read previous → call.records ≠ [] ∧ previous = s.rows)
    (hcommit : ∀ previous, call.phase ≠ .committed previous)
    (hstored : ∀ row ∈ s.rows, row.storageKey ∈ objects)
    (hflight : call.phase.InFlight → ∀ key ∈ call.keys, key ∈ objects)
    (hother : ∀ j ≠ i, (s.calls j).phase.InFlight → ∀ key ∈ (s.calls j).keys, key ∈ objects) :
    RenderInv target initial o { s.setCall i call with objects } := by
  have hmade : ∀ g, made initial { s.setCall i call with objects } g = s.made initial g := by
    intro g
    refine (made_setCall s i call g).trans ?_
    split_ifs with hg
    · rw [hg, hrecords]
      rfl
    · rfl
  have hcalls : ∀ j, (s.setCall i call).calls j = if j = i then call else s.calls j :=
    fun j => setCall_calls s i j call
  exact {
    idle := fun j hj => by
      rw [hcalls] at hj ⊢
      split_ifs at hj ⊢
      · exact absurd hj hidle
      · exact h.idle j hj
    wellMade := fun g => hmade g ▸ h.wellMade g
    apart := fun g g' => hmade g ▸ hmade g' ▸ h.apart g g'
    numbered := fun g => hmade g ▸ h.numbered g
    rows := h.rows.trans (hmade o).symm
    owner := h.owner.setCall hcommitted
    reading := fun j previous hj => by
      rw [hcalls] at hj ⊢
      split_ifs at hj ⊢ with hji
      · obtain ⟨hne, rfl⟩ := hread previous hj
        exact ⟨hne, o, h.owner.setCall hcommitted, h.rows.trans (hmade o).symm, .inl rfl⟩
      · obtain ⟨hne, g, hg, hprevious, hor⟩ := h.reading j previous hj
        exact ⟨hne, g, hg.setCall hcommitted, hprevious.trans (hmade g).symm, hor⟩
    committing := fun j previous hj => by
      rw [hcalls] at hj
      split_ifs at hj
      · exact absurd hj (hcommit previous)
      · obtain ⟨g, hg, hprevious, hne⟩ := h.committing j previous hj
        exact ⟨g, hg.setCall hcommitted, hprevious.trans (hmade g).symm, hne⟩
    stored := hstored
    inFlight := fun j hj => by
      rw [hcalls] at hj ⊢
      split_ifs at hj ⊢ with hji
      · exact hflight hj
      · exact hother j hji hj }

theorem mem_deleteStorageKeys {objects keys : List String} {key : String} :
    key ∈ deleteStorageKeys objects keys ↔ key ∈ objects ∧ key ∉ keys := by
  unfold deleteStorageKeys
  rw [List.mem_filter, decide_eq_true_eq]

/-- Deleting the objects of some rows leaves those of others alone. -/
theorem RenderInv.mem_delete (h : RenderInv target initial o s) {g g' : Option Nat} (hne : g ≠ g')
    {row : RenderAssetRow} (hrow : row ∈ s.made initial g) (hkey : row.storageKey ∈ s.objects) :
    row.storageKey ∈ deleteStorageKeys s.objects
      ((s.made initial g').map (·.storageKey)) := by
  refine mem_deleteStorageKeys.mpr ⟨hkey, fun hmem => ?_⟩
  obtain ⟨row', hrow', heq⟩ := List.mem_map.mp hmem
  exact h.key_ne hne hrow hrow' heq.symm

/-- The objects of a committed run, or of a call in flight, but for those of others. -/
theorem RenderInv.delete (h : RenderInv target initial o s) (hg : g ≠ o)
    (hgi : ∀ j ≠ i, (s.calls j).phase.InFlight → g ≠ some j)
    (hrecords : call.records = (s.calls i).records)
    (hcommitted : (s.calls i).phase.HasCommitted → call.phase.HasCommitted)
    (hidle : call.phase ≠ .idle) (hflight : ¬call.phase.InFlight)
    (hcommit : ∀ previous, call.phase ≠ .committed previous) :
    RenderInv target initial o { s.setCall i call with
      objects := deleteStorageKeys s.objects ((s.made initial g).map (·.storageKey)) } := by
  refine h.setCall hrecords hcommitted hidle (fun previous hread => ?_) hcommit ?_
    (fun hin => absurd hin hflight) ?_
  · rw [hread] at hflight
    exact absurd trivial hflight
  · intro row hrow
    have hkey := h.stored row hrow
    rw [h.rows] at hrow
    exact h.mem_delete hg.symm hrow hkey
  · intro j hj hin key hkey
    obtain ⟨row, hrow, rfl⟩ := List.mem_map.mp hkey
    exact h.mem_delete (g := some j) (hgi j hj hin).symm hrow (h.inFlight j hin _ hkey)

/-! ## The steps of a call -/

/-- A call that has not committed gives up, and may delete what it saved. -/
theorem RenderInv.abort (h : RenderInv target initial o s) (hi : (s.calls i).phase.InFlight) :
    RenderInv target initial o (s.abort i) := by
  exact h.delete (g := some i) (h.owner_of_inFlight hi.not_hasCommitted).symm
    (fun j hj _ heq => hj (Option.some.inj heq).symm) rfl
    (fun hyes => absurd hyes hi.not_hasCommitted)
    RenderPhase.noConfusion id fun _ => RenderPhase.noConfusion

theorem RenderInv.raise (h : RenderInv target initial o s) {committed : Bool}
    (hi : (s.calls i).phase.HasCommitted → committed = true) :
    RenderInv target initial o (s.setPhase i (.raised committed)) :=
  h.setCall rfl (fun hyes => by rw [hi hyes]; trivial) RenderPhase.noConfusion
    (fun _ => RenderPhase.noConfusion) (fun _ => RenderPhase.noConfusion) h.stored False.elim
    fun j _ hin => h.inFlight j hin

theorem RenderInv.fail (h : RenderInv target initial o s)
    (hi : (s.calls i).phase = .rendering) : RenderInv target initial o (s.fail i) := by
  unfold RenderState.fail
  split
  · refine h.raise fun hyes => ?_
    rw [hi] at hyes
    exact hyes.elim
  · refine h.abort ?_
    rw [hi]
    trivial

theorem RenderInv.read (h : RenderInv target initial o s)
    (hi : (s.calls i).phase = .rendering) (hne : (s.calls i).records ≠ []) :
    RenderInv target initial o (s.setPhase i (.read s.rows)) := by
  refine h.setCall rfl (fun hyes => ?_) RenderPhase.noConfusion (fun previous hread => ?_)
    (fun _ => RenderPhase.noConfusion) h.stored (fun _ => h.inFlight i ?_)
    fun j _ hin => h.inFlight j hin
  · rw [hi] at hyes
    exact hyes.elim
  · exact ⟨hne, (RenderPhase.read.inj hread).symm⟩
  · rw [hi]
    trivial

theorem RenderInv.deletePrevious (h : RenderInv target initial o s)
    (hi : (s.calls i).phase = .committed previous) :
    RenderInv target initial o (s.deletePrevious i previous) := by
  obtain ⟨g, hg, rfl, hne⟩ := h.committing i previous hi
  refine h.delete hne (fun j _ hin heq => ?_) rfl (fun _ => trivial) RenderPhase.noConfusion id
    fun _ => RenderPhase.noConfusion
  subst heq
  exact hin.not_hasCommitted hg

theorem RenderInv.start (h : RenderInv target initial o s) (hi : (s.calls i).phase = .idle)
    (variant : RenderVariant) :
    RenderInv target initial o
      { s with calls := Function.update s.calls i ⟨variant, [], .rendering⟩ } := by
  refine h.setCall (h.idle i hi).symm (fun hyes => ?_) RenderPhase.noConfusion
    (fun _ => RenderPhase.noConfusion) (fun _ => RenderPhase.noConfusion) h.stored
    (fun _ _ hkey => absurd hkey List.not_mem_nil) fun j _ hin => h.inFlight j hin
  rw [hi] at hyes
  exact hyes.elim

theorem made_buildRenderAssetRecord {output : RenderedPage} (huuid : '.' ∉ output.assetUuid.toList)
    (page : Nat) : Made target (buildRenderAssetRecord sha256 target page output) :=
  ⟨huuid, page, output.suffix, rfl⟩

theorem Numbered.append {rows : List RenderAssetRow} (h : Numbered rows) (output : RenderedPage) :
    Numbered (rows ++ [buildRenderAssetRecord sha256 target (rows.length + 1) output]) := by
  unfold Numbered at h ⊢
  rw [List.map_append, h, List.length_append, List.length_singleton, List.range_succ,
    List.map_append]
  rfl

/-- A call saves a page: its uuid is a new one. -/
theorem RenderInv.upload (h : RenderInv target initial o s) {output : RenderedPage}
    (hi : (s.calls i).phase = .rendering) (hnew : output.assetUuid ∉ s.drawn)
    (huuid : '.' ∉ output.assetUuid.toList) :
    RenderInv target initial o (s.upload sha256 target i output) := by
  have hin : (s.calls i).phase.InFlight := by
    rw [hi]
    trivial
  have howner := h.owner_of_inFlight hin.not_hasCommitted
  have hmade : ∀ g, (s.upload sha256 target i output).made initial g =
      if g = some i then (s.calls i).records ++ [buildRenderAssetRecord sha256 target
        ((s.calls i).records.length + 1) output] else s.made initial g :=
    fun g => made_setCall s i _ g
  have hcalls : ∀ j, (s.upload sha256 target i output).calls j = if j = i then
      { s.calls i with records := (s.calls i).records ++ [buildRenderAssetRecord sha256 target
        ((s.calls i).records.length + 1) output] } else s.calls j :=
    fun j => setCall_calls s i j _
  have hkept : ∀ g, s.HasCommitted g → (s.upload sha256 target i output).HasCommitted g ∧
      s.made initial g = (s.upload sha256 target i output).made initial g := by
    intro g hg
    refine ⟨hg.setCall id, ?_⟩
    rw [hmade, if_neg]
    rintro rfl
    exact hin.not_hasCommitted hg
  -- a row of any run is the new one or was there before
  have hrow : ∀ g, ∀ row ∈ (s.upload sha256 target i output).made initial g,
      row ∈ s.made initial g ∨ g = some i ∧ row = buildRenderAssetRecord sha256 target
        ((s.calls i).records.length + 1) output := by
    intro g row hrow
    rw [hmade] at hrow
    split_ifs at hrow with hg
    · subst hg
      rcases List.mem_append.mp hrow with hrow | hrow
      · exact .inl hrow
      · exact .inr ⟨rfl, List.mem_singleton.mp hrow⟩
    · exact .inl hrow
  have hfresh : ∀ g, ∀ row ∈ s.made initial g, row.assetUuid ≠ output.assetUuid :=
    fun g row hrow heq => hnew (heq ▸ (h.wellMade g row hrow).2)
  exact {
    idle := fun j hj => by
      rw [hcalls] at hj ⊢
      split_ifs at hj ⊢
      · exact absurd (hi.symm.trans hj) RenderPhase.noConfusion
      · exact h.idle j hj
    wellMade := fun g row hmem => by
      rcases hrow g row hmem with hmem | ⟨-, rfl⟩
      · exact ⟨(h.wellMade g row hmem).1, List.mem_cons_of_mem _ (h.wellMade g row hmem).2⟩
      · exact ⟨made_buildRenderAssetRecord huuid _, List.mem_cons_self⟩
    apart := fun g g' hne row hmem row' hmem' => by
      rcases hrow g row hmem with hmem | ⟨rfl, rfl⟩
      · rcases hrow g' row' hmem' with hmem' | ⟨rfl, rfl⟩
        · exact h.apart g g' hne row hmem row' hmem'
        · exact hfresh g row hmem
      · rcases hrow g' row' hmem' with hmem' | ⟨rfl, rfl⟩
        · exact (hfresh g' row' hmem').symm
        · exact absurd rfl hne
    numbered := fun g => by
      rw [hmade]
      split_ifs with hg
      · exact Numbered.append (h.numbered (some i)) output
      · exact h.numbered g
    rows := h.rows.trans (hkept o h.owner).2
    owner := (hkept o h.owner).1
    reading := fun j previous hj => by
      rw [hcalls] at hj ⊢
      split_ifs at hj ⊢
      · exact absurd (hi.symm.trans hj) RenderPhase.noConfusion
      · obtain ⟨hne, g, hg, hprevious, hor⟩ := h.reading j previous hj
        exact ⟨hne, g, (hkept g hg).1, hprevious.trans (hkept g hg).2, hor⟩
    committing := fun j previous hj => by
      rw [hcalls] at hj
      split_ifs at hj
      · exact absurd (hi.symm.trans hj) RenderPhase.noConfusion
      · obtain ⟨g, hg, hprevious, hne⟩ := h.committing j previous hj
        exact ⟨g, (hkept g hg).1, hprevious.trans (hkept g hg).2, hne⟩
    stored := fun row hmem => List.mem_cons_of_mem _ (h.stored row hmem)
    inFlight := fun j hj key hkey => by
      rw [hcalls] at hj hkey
      split_ifs at hj hkey with hji
      · obtain ⟨row, hmem, rfl⟩ := List.mem_map.mp hkey
        rcases List.mem_append.mp hmem with hmem | hmem
        · exact List.mem_cons_of_mem _ (h.inFlight i hin _ (List.mem_map_of_mem hmem))
        · rw [List.mem_singleton.mp hmem]
          exact List.mem_cons_self
      · exact List.mem_cons_of_mem _ (h.inFlight j hj key hkey) }

/-! ## The transaction -/

/-- Every run has a first page. -/
theorem Numbered.exists_first {rows : List RenderAssetRow} (h : Numbered rows) (hne : rows ≠ []) :
    ∃ row ∈ rows, row.pageNumber = 1 := by
  obtain ⟨row, rows, rfl⟩ := List.exists_cons_of_ne_nil hne
  refine ⟨row, List.mem_cons_self, ?_⟩
  have hfirst := congrArg List.head? h
  rw [List.map_cons, List.length_cons, List.range_succ_eq_map, List.map_cons] at hfirst
  exact Option.some.inj hfirst

/-- The transaction of a call succeeds only if the rows are those it has read. -/
theorem RenderInv.eq_of_not_conflicts (h : RenderInv target initial o s)
    (hi : (s.calls i).phase = .read previous)
    (hconflicts : ¬Conflicts (withoutRows s.rows previous) (s.calls i).records) :
    previous = s.rows := by
  obtain ⟨hne, g, -, rfl, hor⟩ := h.reading i previous hi
  by_cases hgo : g = o
  · rw [hgo, h.rows]
  · -- the first page of the call is a page of other rows
    refine absurd ?_ hconflicts
    have hkept : withoutRows s.rows (s.made initial g) = s.rows := by
      refine List.filter_eq_self.mpr fun row hrow => decide_eq_true fun hmem => ?_
      obtain ⟨row', hrow', heq⟩ := List.mem_map.mp hmem
      rw [h.rows] at hrow
      exact h.apart g o hgo row' hrow' row hrow heq
    rw [hkept]
    have hnumbered : Numbered s.rows := h.rows ▸ h.numbered o
    obtain ⟨row, hrow, hpage⟩ := Numbered.exists_first hnumbered (hor.resolve_left hgo)
    obtain ⟨record, hrecord, hpage'⟩ := Numbered.exists_first (h.numbered (some i)) hne
    exact ⟨row, hrow, record, hrecord, .inl (hpage.trans hpage'.symm)⟩

theorem withoutRows_self (rows : List RenderAssetRow) : withoutRows rows rows = [] :=
  List.filter_eq_nil_iff.mpr fun _ hrow => by simpa using ⟨_, hrow, rfl⟩

/-- The state after a transaction that succeeds. -/
theorem commit_eq (h : RenderInv target initial o s) (hi : (s.calls i).phase = .read previous) :
    s.commit i previous = s.abort i ∨ previous = s.rows ∧
      s.commit i previous = { s.setPhase i (.committed previous) with rows := (s.calls i).records } := by
  unfold commit
  dsimp only
  split_ifs with hconflicts
  · exact .inl rfl
  · have heq := h.eq_of_not_conflicts hi hconflicts
    rw [heq, withoutRows_self, List.nil_append]
    exact .inr ⟨rfl, rfl⟩

theorem RenderInv.committed (h : RenderInv target initial o s)
    (hi : (s.calls i).phase = .read s.rows) : RenderInv target initial (some i)
      { s.setPhase i (.committed s.rows) with rows := (s.calls i).records } := by
  have hin : (s.calls i).phase.InFlight := by
    rw [hi]
    trivial
  obtain ⟨hne, -⟩ := h.reading i s.rows hi
  have hother := h.owner_of_inFlight hin.not_hasCommitted
  have hcalls : ∀ j, (s.setPhase i (.committed s.rows)).calls j =
      if j = i then { s.calls i with phase := .committed s.rows } else s.calls j :=
    fun j => setCall_calls s i j _
  have hmade : ∀ g, made initial
      { s.setPhase i (.committed s.rows) with rows := (s.calls i).records } g =
        s.made initial g := by
    intro g
    refine (made_setCall s i _ g).trans ?_
    split_ifs with hg
    · rw [hg]
      rfl
    · rfl
  have hkept : ∀ g, s.HasCommitted g → HasCommitted
      { s.setPhase i (.committed s.rows) with rows := (s.calls i).records } g ∧ g ≠ some i := by
    intro g hg
    refine ⟨hg.setCall fun _ => trivial, ?_⟩
    rintro rfl
    exact hin.not_hasCommitted hg
  exact {
    idle := fun j hj => by
      rw [hcalls] at hj ⊢
      split_ifs at hj ⊢
      exact h.idle j hj
    wellMade := fun g => hmade g ▸ h.wellMade g
    apart := fun g g' => hmade g ▸ hmade g' ▸ h.apart g g'
    numbered := fun g => hmade g ▸ h.numbered g
    rows := (hmade (some i)).symm
    owner := by
      show ((s.setPhase i (.committed s.rows)).calls i).phase.HasCommitted
      rw [hcalls, if_pos rfl]
      trivial
    reading := fun j previous hj => by
      rw [hcalls] at hj ⊢
      split_ifs at hj ⊢
      obtain ⟨hrecords, g, hg, hprevious, -⟩ := h.reading j previous hj
      exact ⟨hrecords, g, (hkept g hg).1, hprevious.trans (hmade g).symm, .inr hne⟩
    committing := fun j previous hj => by
      rw [hcalls] at hj
      split_ifs at hj
      · obtain rfl := RenderPhase.committed.inj hj
        exact ⟨o, (hkept o h.owner).1, h.rows.trans (hmade o).symm, hother⟩
      · obtain ⟨g, hg, hprevious, -⟩ := h.committing j previous hj
        exact ⟨g, (hkept g hg).1, hprevious.trans (hmade g).symm, (hkept g hg).2⟩
    stored := fun row hrow => h.inFlight i hin _ (List.mem_map_of_mem hrow)
    inFlight := fun j hj key hkey => by
      rw [hcalls] at hj hkey
      split_ifs at hj hkey
      · exact hj.elim
      · exact h.inFlight j hj key hkey }

/-- Every step keeps the invariant. -/
theorem RenderInv.next (h : RenderInv target initial o s) {action : RenderAction}
    (hnext : s.next sha256 target action = some s') : ∃ o', RenderInv target initial o' s' := by
  unfold RenderState.next at hnext
  cases action with
  | start i variant =>
    dsimp only at hnext
    split_ifs at hnext with hi
    obtain rfl := Option.some.inj hnext
    exact ⟨o, h.start hi variant⟩
  | upload i output =>
    dsimp only at hnext
    split_ifs at hnext with hi
    obtain rfl := Option.some.inj hnext
    exact ⟨o, h.upload hi.1 hi.2.1 hi.2.2⟩
  | fail i =>
    dsimp only at hnext
    split_ifs at hnext with hi
    obtain rfl := Option.some.inj hnext
    exact ⟨o, h.fail hi⟩
  | read i =>
    dsimp only at hnext
    split_ifs at hnext with hi
    obtain rfl := Option.some.inj hnext
    exact ⟨o, h.read hi.1 hi.2⟩
  | commit i =>
    dsimp only at hnext
    split at hnext
    · rename_i previous hi
      obtain rfl := Option.some.inj hnext
      obtain heq | ⟨rfl, heq⟩ := commit_eq h hi
      · rw [heq]
        refine ⟨o, h.abort ?_⟩
        rw [hi]
        trivial
      · rw [heq]
        exact ⟨some i, h.committed hi⟩
    · cases hnext
  | commitFails i =>
    dsimp only at hnext
    split at hnext
    · rename_i previous hi
      obtain rfl := Option.some.inj hnext
      refine ⟨o, h.abort ?_⟩
      rw [hi]
      trivial
    · cases hnext
  | accountFails i =>
    dsimp only at hnext
    split at hnext
    · obtain rfl := Option.some.inj hnext
      exact ⟨o, h.raise fun _ => rfl⟩
    · cases hnext
  | deletePrevious i =>
    dsimp only at hnext
    split at hnext
    · rename_i previous hi
      obtain rfl := Option.some.inj hnext
      exact ⟨o, h.deletePrevious hi⟩
    · cases hnext

end RenderState

end NoteVerse.Backend

import NoteVerse.Backend.RenderRuns
import NoteVerse.Lib.Transition

/-!
# Objects of renders

A call that raises before its transaction leaves objects behind if it is `render`, and one
that raises after it if it has replaced rows; without these calls every object has a row once
all have ended (`render_consistent`).
-/

namespace NoteVerse.Backend

open Transition

def RenderPhase.Ended : RenderPhase → Prop
  | .idle | .returned | .raised _ => True
  | _ => False

/-- The keys that a call will yet give rows, or delete. -/
def RenderCall.held (call : RenderCall) : List String :=
  match call.phase with
  | .rendering | .read _ => call.keys
  | .committed previous => previous.map (·.storageKey)
  | _ => []

namespace RenderState

variable {sha256 : String → String} {target : RenderedRevision} {initial : List RenderAssetRow}
  {s s' : RenderState} {o : Option Nat} {i : Nat}

/-! ## Objects without rows -/

/-- Every object has a row, or a call that will yet give it one or delete it. -/
def Tidy (s : RenderState) : Prop :=
  ∀ key ∈ s.objects, key ∈ s.rows.map (·.storageKey) ∨ ∃ i, key ∈ (s.calls i).held

/-- A call that goes on, and keeps or deletes what it held. -/
theorem Tidy.setCall (h : s.Tidy) {call : RenderCall}
    (hcalls : s'.calls = Function.update s.calls i call)
    (hobjects : ∀ key ∈ s'.objects, key ∈ s.objects ∨ key ∈ call.held)
    (hheld : ∀ key ∈ (s.calls i).held, key ∈ s'.objects →
      key ∈ s'.rows.map (·.storageKey) ∨ key ∈ call.held)
    (hrows : ∀ key ∈ s.rows.map (·.storageKey), key ∈ s'.rows.map (·.storageKey) ∨
      key ∈ call.held) : s'.Tidy := by
  intro key hkey
  have hself : key ∈ call.held → ∃ j, key ∈ (s'.calls j).held := fun hin =>
    ⟨i, by rw [hcalls, Function.update_self]; exact hin⟩
  rcases hobjects key hkey with hold | hin
  · rcases h key hold with hrow | ⟨j, hj⟩
    · exact (hrows key hrow).imp_right hself
    · by_cases hji : j = i
      · subst hji
        exact (hheld key hj hkey).imp_right hself
      · refine .inr ⟨j, ?_⟩
        rw [hcalls, Function.update_of_ne hji]
        exact hj
  · exact .inr (hself hin)

theorem Tidy.delete (h : s.Tidy) {phase : RenderPhase} :
    Tidy { s.setPhase i phase with
      objects := deleteStorageKeys s.objects (s.calls i).held } :=
  h.setCall rfl (fun _ hkey => .inl (mem_deleteStorageKeys.mp hkey).1)
    (fun _ hheld hkey => absurd hheld (mem_deleteStorageKeys.mp hkey).2) fun _ => .inl

/-- A call that held nothing. -/
theorem Tidy.setPhase (h : s.Tidy) (hi : (s.calls i).held = []) (phase : RenderPhase) :
    (s.setPhase i phase).Tidy :=
  h.setCall rfl (fun _ => .inl) (fun _ hheld => absurd (hi ▸ hheld) List.not_mem_nil) fun _ => .inl

theorem held_of_inFlight {call : RenderCall} (h : call.phase.InFlight) : call.held = call.keys := by
  unfold RenderCall.held
  cases hphase : call.phase with
  | rendering => rfl
  | read previous => rfl
  | _ =>
    rw [hphase] at h
    exact h.elim

theorem Tidy.abort (h : s.Tidy) (hi : (s.calls i).phase.InFlight) : (s.abort i).Tidy := by
  unfold RenderState.abort
  rw [← held_of_inFlight hi]
  exact h.delete

/-- What leaves no object behind: `render` has saved no page when it fails, and no row was
replaced when the accounting does. -/
def Sound (s : RenderState) : RenderAction → Prop
  | .fail i => (s.calls i).variant = .render → (s.calls i).records = []
  | .accountFails i => ∀ previous, (s.calls i).phase = .committed previous → previous = []
  | _ => True

theorem Tidy.next (h : s.Tidy) (hinv : RenderInv target initial o s) {action : RenderAction}
    (hsound : s.Sound action) (hnext : s.next sha256 target action = some s') : s'.Tidy := by
  unfold RenderState.next at hnext
  cases action with
  | start i variant =>
    dsimp only at hnext
    split_ifs at hnext with hi
    obtain rfl := Option.some.inj hnext
    refine h.setCall rfl (fun _ => .inl) (fun key hheld => ?_) fun _ => .inl
    unfold RenderCall.held at hheld
    rw [hi] at hheld
    exact absurd hheld List.not_mem_nil
  | upload i output =>
    dsimp only at hnext
    split_ifs at hnext with hi
    obtain rfl := Option.some.inj hnext
    have hin : (s.calls i).phase.InFlight := by
      rw [hi.1]
      trivial
    -- the call holds one key more
    have hnow : ∀ records, ({ s.calls i with records } : RenderCall).held =
        records.map (·.storageKey) := fun _ => held_of_inFlight hin
    refine h.setCall rfl (fun key hkey => ?_) (fun key hheld _ => .inr ?_) fun _ => .inl
    · rw [hnow]
      rcases List.mem_cons.mp hkey with rfl | hkey
      · exact .inr (List.mem_map_of_mem (List.mem_append_right _ List.mem_cons_self))
      · exact .inl hkey
    · rw [held_of_inFlight hin] at hheld
      obtain ⟨row, hrow, rfl⟩ := List.mem_map.mp hheld
      rw [hnow]
      exact List.mem_map_of_mem (List.mem_append_left _ hrow)
  | fail i =>
    dsimp only at hnext
    split_ifs at hnext with hi
    obtain rfl := Option.some.inj hnext
    have hin : (s.calls i).phase.InFlight := by
      rw [hi]
      trivial
    unfold RenderState.fail
    split
    · rename_i hvariant
      refine h.setPhase ?_ _
      rw [held_of_inFlight hin]
      exact List.map_eq_nil_iff.mpr (hsound hvariant)
    · exact h.abort hin
  | read i =>
    dsimp only at hnext
    split_ifs at hnext with hi
    obtain rfl := Option.some.inj hnext
    refine h.setCall rfl (fun _ => .inl) (fun key hheld _ => .inr ?_) fun _ => .inl
    unfold RenderCall.held at hheld
    rw [hi.1] at hheld
    exact hheld
  | commit i =>
    dsimp only at hnext
    split at hnext
    · rename_i previous hi
      obtain rfl := Option.some.inj hnext
      have hin : (s.calls i).phase.InFlight := by
        rw [hi]
        trivial
      obtain heq | ⟨rfl, heq⟩ := commit_eq hinv hi
      · rw [heq]
        exact h.abort hin
      · -- what the call saved has rows now, and it is the one to delete those before
        rw [heq]
        refine h.setCall rfl (fun _ => .inl) (fun key hheld _ => .inl ?_) fun _ => .inr
        rw [held_of_inFlight hin] at hheld
        exact hheld
    · cases hnext
  | commitFails i =>
    dsimp only at hnext
    split at hnext
    · rename_i previous hi
      obtain rfl := Option.some.inj hnext
      refine h.abort ?_
      rw [hi]
      trivial
    · cases hnext
  | accountFails i =>
    dsimp only at hnext
    split at hnext
    · rename_i previous hi
      obtain rfl := Option.some.inj hnext
      refine h.setPhase ?_ _
      unfold RenderCall.held
      rw [hi, hsound previous hi]
      rfl
    · cases hnext
  | deletePrevious i =>
    dsimp only at hnext
    split at hnext
    · rename_i previous hi
      obtain rfl := Option.some.inj hnext
      have hheld : (s.calls i).held = previous.map (·.storageKey) := by
        unfold RenderCall.held
        rw [hi]
      unfold RenderState.deletePrevious
      rw [← hheld]
      exact h.delete
    · cases hnext

/-! ## Runs -/

/-- No call has started; the rows are those of an earlier run, and the objects theirs. -/
structure Starts (target : RenderedRevision) (s : RenderState) : Prop where
  calls : ∀ i, (s.calls i).phase = .idle ∧ (s.calls i).records = []
  wellMade : ∀ row ∈ s.rows, Made target row ∧ row.assetUuid ∈ s.drawn
  numbered : Numbered s.rows
  objects : ∀ key, key ∈ s.objects ↔ key ∈ s.rows.map (·.storageKey)

theorem Starts.renderInv (h : Starts target s) : RenderInv target s.rows none s := by
  have hmade : ∀ i, s.made s.rows (some i) = [] := fun i => (h.calls i).2
  have hphase : ∀ {i phase}, (s.calls i).phase = phase → phase = .idle :=
    fun hi => hi.symm.trans (h.calls _).1
  exact {
    idle := fun i _ => (h.calls i).2
    wellMade := fun g row hrow => by
      cases g with
      | none => exact h.wellMade row hrow
      | some i => exact absurd (hmade i ▸ hrow) List.not_mem_nil
    apart := fun g g' hne row hrow row' hrow' => by
      cases g with
      | some i => exact absurd (hmade i ▸ hrow) List.not_mem_nil
      | none =>
        cases g' with
        | some i => exact absurd (hmade i ▸ hrow') List.not_mem_nil
        | none => exact absurd rfl hne
    numbered := fun g => by
      cases g with
      | none => exact h.numbered
      | some i =>
        rw [hmade]
        rfl
    rows := rfl
    owner := trivial
    reading := fun i previous hi => absurd (hphase hi) RenderPhase.noConfusion
    committing := fun i previous hi => absurd (hphase hi) RenderPhase.noConfusion
    stored := fun row hrow => (h.objects _).mpr (List.mem_map_of_mem hrow)
    inFlight := fun i hi => by
      rw [(h.calls i).1] at hi
      exact hi.elim }

theorem Starts.tidy (h : Starts target s) : s.Tidy := fun key hkey => .inl ((h.objects key).mp hkey)

/-- The rows are the pages of one run, with their objects, and calls in flight have theirs. Once
all calls have ended there are no other objects. -/
structure Consistent (initial : List RenderAssetRow) (s : RenderState) : Prop where
  rows : s.rows = initial ∨ ∃ i, (s.calls i).phase.HasCommitted ∧ s.rows = (s.calls i).records
  numbered : Numbered s.rows
  stored : ∀ row ∈ s.rows, row.storageKey ∈ s.objects
  inFlight : ∀ i, (s.calls i).phase.InFlight → ∀ key ∈ (s.calls i).keys, key ∈ s.objects
  noneLeft : (∀ i, (s.calls i).phase.Ended) →
    ∀ key ∈ s.objects, key ∈ s.rows.map (·.storageKey)

theorem held_of_ended {call : RenderCall} (h : call.phase.Ended) : call.held = [] := by
  unfold RenderCall.held
  cases hphase : call.phase with
  | idle => rfl
  | returned => rfl
  | raised committed => rfl
  | _ =>
    rw [hphase] at h
    exact h.elim

theorem RenderInv.consistent (h : RenderInv target initial o s) (htidy : s.Tidy) :
    s.Consistent initial where
  rows := by
    cases o with
    | none => exact .inl h.rows
    | some i => exact .inr ⟨i, h.owner, h.rows⟩
  numbered := h.rows ▸ h.numbered o
  stored := h.stored
  inFlight := h.inFlight
  noneLeft := fun hended key hkey => by
    rcases htidy key hkey with hrow | ⟨i, hi⟩
    · exact hrow
    · rw [held_of_ended (hended i)] at hi
      exact absurd hi List.not_mem_nil

/-- In a run in which `render` raises before its transaction only without saved pages, and no
call raises after it that has replaced rows. -/
theorem render_consistent (hstart : Starts target s) (hreach : Reachable (· = s)
    (guarded Sound fun s a s' => s.next sha256 target a = some s') s') : s'.Consistent s.rows := by
  have hinv : (∃ o, RenderInv target s.rows o s') ∧ s'.Tidy := by
    refine hreach.invariant (p := fun s' => (∃ o, RenderInv target s.rows o s') ∧ s'.Tidy) ?_ ?_
    · rintro _ rfl
      exact ⟨⟨none, hstart.renderInv⟩, hstart.tidy⟩
    · rintro s₁ action s₂ ⟨⟨o, hinv⟩, htidy⟩ ⟨hsound, hnext⟩
      exact ⟨hinv.next hnext, htidy.next hinv hsound hnext⟩
  obtain ⟨⟨o, hinv⟩, htidy⟩ := hinv
  exact hinv.consistent htidy

/-! ## Two calls -/

def renderTarget : RenderedRevision := ⟨"score", "revision", 1, "default"⟩

/-- Nothing is rendered yet. -/
def notRendered : RenderState := ⟨[], [], fun _ => ⟨.render, [], .idle⟩, []⟩

theorem notRendered_starts : Starts renderTarget notRendered where
  calls _ := ⟨rfl, rfl⟩
  wellMade _ hrow := absurd hrow List.not_mem_nil
  numbered := rfl
  objects _ := Iff.rfl

def renderedPage (assetUuid : String) : RenderedPage := ⟨assetUuid, "svg", "image/svg+xml", "", 0⟩

/-- The transaction of the second call fails on the page that the first has committed. -/
def overlapping : List RenderAction :=
  [.start 0 .render, .start 1 .renderForWorker, .upload 0 (renderedPage "a"),
    .upload 1 (renderedPage "b"), .upload 1 (renderedPage "c"), .read 0, .read 1, .commit 0,
    .commit 1, .deletePrevious 0]

/-- A run of actions that are always sound. -/
theorem reachable_of_sound {as : List RenderAction} (hsound : ∀ a ∈ as, ∀ s, Sound s a)
    (hreach : Reachable (· = s) (guarded Sound fun s a s' => s.next sha256 target a = some s') s')
    {t : RenderState} (hrun : run (RenderState.next sha256 target) s' as = some t) :
    Reachable (· = s) (guarded Sound fun s a s' => s.next sha256 target a = some s') t := by
  induction as generalizing s' with
  | nil =>
    cases hrun
    exact hreach
  | cons a as ih =>
    obtain ⟨s₁, hnext, hrun⟩ := Option.bind_eq_some_iff.mp hrun
    obtain ⟨hfirst, hrest⟩ := List.forall_mem_cons.mp hsound
    exact ih hrest (.step hreach ⟨hfirst s', hnext⟩) hrun

theorem render_consistent_overlapping : ∃ s, run (RenderState.next id renderTarget) notRendered
    overlapping = some s ∧ s.rows.length = 1 ∧ s.Consistent [] := by
  have hrows : (run (RenderState.next id renderTarget) notRendered overlapping).map
      (·.rows.length) = some 1 := by decide
  obtain ⟨s, hrun, hlength⟩ := Option.map_eq_some_iff.mp hrows
  refine ⟨s, hrun, hlength, render_consistent notRendered_starts (reachable_of_sound ?_
    (.start rfl) hrun)⟩
  simp [overlapping, Sound]

/-- A page is saved, and the next one fails. -/
def secondPageFails : List RenderAction :=
  [.start 0 .render, .upload 0 (renderedPage "a"), .fail 0]

/-- The state then: the page is stored, and has no row. -/
def leftBehind : RenderState :=
  ((notRendered.setCall 0 ⟨.render, [], .rendering⟩).upload id renderTarget 0
    (renderedPage "a")).setPhase 0 (.raised false)

theorem leftBehind_ended (i : Nat) : (leftBehind.calls i).phase.Ended := by
  by_cases hi : i = 0
  · rw [hi]
    trivial
  · unfold leftBehind RenderState.setPhase RenderState.upload
    dsimp only
    rw [Function.update_of_ne hi, Function.update_of_ne hi, setCall_calls, if_neg hi]
    trivial

theorem not_render_consistent : ¬∀ (sha256 : String → String) (target : RenderedRevision)
    (s s' : RenderState), Starts target s →
      Reachable (· = s) (fun s a s' => s.next sha256 target a = some s') s' →
      s'.Consistent s.rows := by
  intro h
  have hrun : run (RenderState.next id renderTarget) notRendered secondPageFails =
      some leftBehind := rfl
  have hcons := h id renderTarget _ _ notRendered_starts (reachable_run hrun)
  exact absurd (hcons.noneLeft leftBehind_ended _ List.mem_cons_self) List.not_mem_nil

end RenderState

end NoteVerse.Backend

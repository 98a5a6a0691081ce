import NoteVerse.Lib.Computable

/-!
# A relation stored twice

Links between nodes are kept in a list of links and, a second time, at the
nodes themselves: each node has at most one outgoing and one incoming link,
and names them. `Consistent` says that the two copies agree. The operations
here change both copies:

* `perm`, `append`: reordering the nodes, and adding nodes without links;
* `connect`: a new link between nodes that are free in its direction;
* `disconnect`: removing all links of one id, at the nodes too;
* `drop_iff`: removing nodes and the links of their ids *without* touching the
  other nodes keeps the copies in step exactly when no link of a removed id
  has an end that stays.
-/

namespace DoubleLink

variable {κ τ : Type*}

/-- A node, with the ids of the links that enter and leave it. -/
structure Node (κ τ : Type*) where
  key : κ
  linkIn : Option τ
  linkOut : Option τ

/-- A link from `start` to `stop`. -/
structure Link (κ τ : Type*) where
  id : τ
  start : κ
  stop : κ

/-- The links stored at the nodes are those of the list. -/
structure Consistent (ns : List (Node κ τ)) (ls : List (Link κ τ)) : Prop where
  keys : (ns.map Node.key).Nodup
  start : ∀ l ∈ ls, ∃ n ∈ ns, n.key = l.start ∧ n.linkOut = some l.id
  stop : ∀ l ∈ ls, ∃ n ∈ ns, n.key = l.stop ∧ n.linkIn = some l.id
  linkOut : ∀ n ∈ ns, ∀ t, n.linkOut = some t → ∃ l ∈ ls, l.id = t ∧ l.start = n.key
  linkIn : ∀ n ∈ ns, ∀ t, n.linkIn = some t → ∃ l ∈ ls, l.id = t ∧ l.stop = n.key

variable {ns ns' : List (Node κ τ)} {ls : List (Link κ τ)}

/-- The nodes of a list with distinct keys are determined by their keys. -/
theorem eq_of_key_eq (hk : (ns.map Node.key).Nodup) {m n : Node κ τ} (hm : m ∈ ns) (hn : n ∈ ns)
    (h : m.key = n.key) : m = n :=
  List.inj_on_of_nodup_map hk hm hn h

namespace Consistent

theorem perm (h : Consistent ns ls) (hp : ns.Perm ns') : Consistent ns' ls where
  keys := (hp.map _).nodup_iff.mp h.keys
  start l hl := (h.start l hl).imp fun _ hn => ⟨hp.mem_iff.mp hn.1, hn.2⟩
  stop l hl := (h.stop l hl).imp fun _ hn => ⟨hp.mem_iff.mp hn.1, hn.2⟩
  linkOut n hn := h.linkOut n (hp.mem_iff.mpr hn)
  linkIn n hn := h.linkIn n (hp.mem_iff.mpr hn)

/-- Adding nodes with new keys and no links. -/
theorem append (h : Consistent ns ls) (hk : (ns'.map Node.key).Nodup)
    (hd : ∀ n ∈ ns', n.key ∉ ns.map Node.key)
    (hfree : ∀ n ∈ ns', n.linkIn = none ∧ n.linkOut = none) : Consistent (ns ++ ns') ls where
  keys := by
    rw [List.map_append, List.nodup_append]
    refine ⟨h.keys, hk, fun k hk₁ k' hk₂ e => ?_⟩
    obtain ⟨n, hn, rfl⟩ := List.mem_map.mp hk₂
    exact hd n hn (e ▸ hk₁)
  start l hl := (h.start l hl).imp fun _ hn => ⟨List.mem_append_left _ hn.1, hn.2⟩
  stop l hl := (h.stop l hl).imp fun _ hn => ⟨List.mem_append_left _ hn.1, hn.2⟩
  linkOut n hn t ht := by
    rcases List.mem_append.mp hn with hn | hn
    · exact h.linkOut n hn t ht
    · rw [(hfree n hn).2] at ht; cases ht
  linkIn n hn t ht := by
    rcases List.mem_append.mp hn with hn | hn
    · exact h.linkIn n hn t ht
    · rw [(hfree n hn).1] at ht; cases ht

/-- No link of the list leaves a node that stores none. -/
theorem linkOut_eq_none_iff (h : Consistent ns ls) {n : Node κ τ} (hn : n ∈ ns) :
    n.linkOut = none ↔ ∀ l ∈ ls, l.start ≠ n.key := by
  constructor
  · intro hout l hl e
    obtain ⟨m, hm, hkey, hid⟩ := h.start l hl
    rw [eq_of_key_eq h.keys hm hn (hkey.trans e), hout] at hid
    cases hid
  · intro hl
    cases ht : n.linkOut with
    | none => rfl
    | some t =>
      obtain ⟨l, hmem, -, hstart⟩ := h.linkOut n hn t ht
      exact absurd hstart (hl l hmem)

theorem linkIn_eq_none_iff (h : Consistent ns ls) {n : Node κ τ} (hn : n ∈ ns) :
    n.linkIn = none ↔ ∀ l ∈ ls, l.stop ≠ n.key := by
  constructor
  · intro hin l hl e
    obtain ⟨m, hm, hkey, hid⟩ := h.stop l hl
    rw [eq_of_key_eq h.keys hm hn (hkey.trans e), hin] at hid
    cases hid
  · intro hl
    cases ht : n.linkIn with
    | none => rfl
    | some t =>
      obtain ⟨l, hmem, -, hstop⟩ := h.linkIn n hn t ht
      exact absurd hstop (hl l hmem)

end Consistent

/-! ## Connecting -/

section Connect

variable [DecidableEq κ]

/-- What a node becomes when the link `l` is stored at its ends. -/
def connectNode (l : Link κ τ) (n : Node κ τ) : Node κ τ :=
  if n.key = l.start then { n with linkOut := some l.id }
  else if n.key = l.stop then { n with linkIn := some l.id }
  else n

@[simp] theorem connectNode_key (l : Link κ τ) (n : Node κ τ) : (connectNode l n).key = n.key := by
  unfold connectNode; split_ifs <;> rfl

theorem connectNode_linkOut (l : Link κ τ) (n : Node κ τ) :
    (connectNode l n).linkOut = if n.key = l.start then some l.id else n.linkOut := by
  unfold connectNode; split_ifs <;> rfl

theorem connectNode_linkIn {l : Link κ τ} (hne : l.start ≠ l.stop) (n : Node κ τ) :
    (connectNode l n).linkIn = if n.key = l.stop then some l.id else n.linkIn := by
  unfold connectNode
  by_cases h₁ : n.key = l.start
  · rw [if_pos h₁, if_neg (h₁.trans_ne hne)]
  · rw [if_neg h₁]; split_ifs <;> rfl

/-- A new link between nodes without a link in its direction. -/
theorem Consistent.connect (h : Consistent ns ls) {l : Link κ τ} (hne : l.start ≠ l.stop)
    (hstart : l.start ∈ ns.map Node.key) (hstop : l.stop ∈ ns.map Node.key)
    (hfree : ∀ l' ∈ ls, l'.start ≠ l.start ∧ l'.stop ≠ l.stop) :
    Consistent (ns.map (connectNode l)) (ls ++ [l]) where
  keys := by simpa [Function.comp_def] using h.keys
  start l' hl' := by
    rcases List.mem_append.mp hl' with hl' | hl'
    · obtain ⟨n, hn, hkey, hout⟩ := h.start l' hl'
      refine ⟨_, List.mem_map_of_mem hn, by simp [hkey], ?_⟩
      rw [connectNode_linkOut, if_neg (hkey.trans_ne (hfree l' hl').1), hout]
    · obtain rfl := List.mem_singleton.mp hl'
      obtain ⟨n, hn, hkey⟩ := List.mem_map.mp hstart
      exact ⟨_, List.mem_map_of_mem hn, by simp [hkey], by rw [connectNode_linkOut, if_pos hkey]⟩
  stop l' hl' := by
    rcases List.mem_append.mp hl' with hl' | hl'
    · obtain ⟨n, hn, hkey, hin⟩ := h.stop l' hl'
      refine ⟨_, List.mem_map_of_mem hn, by simp [hkey], ?_⟩
      rw [connectNode_linkIn hne, if_neg (hkey.trans_ne (hfree l' hl').2), hin]
    · obtain rfl := List.mem_singleton.mp hl'
      obtain ⟨n, hn, hkey⟩ := List.mem_map.mp hstop
      exact ⟨_, List.mem_map_of_mem hn, by simp [hkey], by rw [connectNode_linkIn hne, if_pos hkey]⟩
  linkOut n hn t ht := by
    obtain ⟨n, hmem, rfl⟩ := List.mem_map.mp hn
    rw [connectNode_linkOut] at ht
    split_ifs at ht with hkey
    · exact ⟨l, by simp, Option.some.inj ht, by simp [hkey]⟩
    · obtain ⟨l', hl', hid, hs⟩ := h.linkOut n hmem t ht
      exact ⟨l', List.mem_append_left _ hl', hid, by simpa using hs⟩
  linkIn n hn t ht := by
    obtain ⟨n, hmem, rfl⟩ := List.mem_map.mp hn
    rw [connectNode_linkIn hne] at ht
    split_ifs at ht with hkey
    · exact ⟨l, by simp, Option.some.inj ht, by simp [hkey]⟩
    · obtain ⟨l', hl', hid, hs⟩ := h.linkIn n hmem t ht
      exact ⟨l', List.mem_append_left _ hl', hid, by simpa using hs⟩

/-- Connecting over a link that is there overwrites it at the node only. -/
theorem not_consistent_connect {l l' : Link κ τ} (hne : l.start ≠ l.stop)
    (hnew : ∀ l' ∈ ls, l'.id ≠ l.id) (hl' : l' ∈ ls)
    (hbusy : l'.start = l.start ∨ l'.stop = l.stop) :
    ¬ Consistent (ns.map (connectNode l)) (ls ++ [l]) := by
  intro hc
  rcases hbusy with hbusy | hbusy
  · obtain ⟨n, hn, hkey, hout⟩ := hc.start l' (List.mem_append_left _ hl')
    obtain ⟨n, -, rfl⟩ := List.mem_map.mp hn
    rw [connectNode_linkOut, if_pos (by simpa [hbusy] using hkey)] at hout
    exact hnew l' hl' (Option.some.inj hout).symm
  · obtain ⟨n, hn, hkey, hin⟩ := hc.stop l' (List.mem_append_left _ hl')
    obtain ⟨n, -, rfl⟩ := List.mem_map.mp hn
    rw [connectNode_linkIn hne, if_pos (by simpa [hbusy] using hkey)] at hin
    exact hnew l' hl' (Option.some.inj hin).symm

end Connect

/-! ## Disconnecting -/

section Disconnect

variable [DecidableEq τ]

/-- What a node becomes when the links of id `t` are removed. -/
def disconnectNode (t : τ) (n : Node κ τ) : Node κ τ :=
  { n with
    linkIn := if n.linkIn = some t then none else n.linkIn
    linkOut := if n.linkOut = some t then none else n.linkOut }

theorem Consistent.disconnect (h : Consistent ns ls) (t : τ) :
    Consistent (ns.map (disconnectNode t)) (ls.filter (·.id ≠ t)) where
  keys := by simpa [Function.comp_def, disconnectNode] using h.keys
  start l hl := by
    simp only [List.mem_filter, decide_eq_true_eq] at hl
    obtain ⟨n, hn, hkey, hout⟩ := h.start l hl.1
    exact ⟨_, List.mem_map_of_mem hn, hkey, by simp [disconnectNode, hout, hl.2]⟩
  stop l hl := by
    simp only [List.mem_filter, decide_eq_true_eq] at hl
    obtain ⟨n, hn, hkey, hin⟩ := h.stop l hl.1
    exact ⟨_, List.mem_map_of_mem hn, hkey, by simp [disconnectNode, hin, hl.2]⟩
  linkOut n hn t' ht' := by
    obtain ⟨n, hmem, rfl⟩ := List.mem_map.mp hn
    simp only [disconnectNode] at ht'
    split_ifs at ht' with hne
    obtain ⟨l, hl, rfl, hs⟩ := h.linkOut n hmem t' ht'
    exact ⟨l, by simpa [hl] using fun e => hne (by rw [ht', e]), rfl, hs⟩
  linkIn n hn t' ht' := by
    obtain ⟨n, hmem, rfl⟩ := List.mem_map.mp hn
    simp only [disconnectNode] at ht'
    split_ifs at ht' with hne
    obtain ⟨l, hl, rfl, hs⟩ := h.linkIn n hmem t' ht'
    exact ⟨l, by simpa [hl] using fun e => hne (by rw [ht', e]), rfl, hs⟩

end Disconnect

/-! ## Dropping nodes -/

/-- A link of the id `t` has an end among the nodes `gone`. -/
def Touched (gone : κ → Prop) (ls : List (Link κ τ)) (t : τ) : Prop :=
  ∃ l ∈ ls, l.id = t ∧ (gone l.start ∨ gone l.stop)

/-- Removing the nodes `gone` and the links of the touched ids, without a
change to the nodes that stay, keeps the two copies in step exactly when a
link of a touched id has both its ends removed. -/
theorem Consistent.drop_iff (h : Consistent ns ls) {gone : κ → Prop} (hns' : ns'.Sublist ns)
    (hmem : ∀ n ∈ ns, n ∈ ns' ↔ ¬ gone n.key) {ls' : List (Link κ τ)}
    (hls' : ∀ l, l ∈ ls' ↔ l ∈ ls ∧ ¬ Touched gone ls l.id) :
    Consistent ns' ls' ↔ ∀ l ∈ ls, Touched gone ls l.id → gone l.start ∧ gone l.stop := by
  constructor
  · intro hc l hl ht
    constructor <;> by_contra hstay
    · obtain ⟨n, hn, hkey, hout⟩ := h.start l hl
      obtain ⟨l', hl', hid, -⟩ := hc.linkOut n ((hmem n hn).mpr (hkey ▸ hstay)) _ hout
      exact ((hls' l').mp hl').2 (hid ▸ ht)
    · obtain ⟨n, hn, hkey, hin⟩ := h.stop l hl
      obtain ⟨l', hl', hid, -⟩ := hc.linkIn n ((hmem n hn).mpr (hkey ▸ hstay)) _ hin
      exact ((hls' l').mp hl').2 (hid ▸ ht)
  · intro hboth
    have untouched : ∀ l ∈ ls', ¬ gone l.start ∧ ¬ gone l.stop := fun l hl => by
      obtain ⟨hl, ht⟩ := (hls' l).mp hl
      exact ⟨fun hg => ht ⟨l, hl, rfl, .inl hg⟩, fun hg => ht ⟨l, hl, rfl, .inr hg⟩⟩
    have kept : ∀ n ∈ ns', ∀ l ∈ ls, (l.start = n.key ∨ l.stop = n.key) → l ∈ ls' := by
      intro n hn l hl hend
      have hstay := (hmem n (hns'.subset hn)).mp hn
      refine (hls' l).mpr ⟨hl, fun ht => ?_⟩
      obtain ⟨h₁, h₂⟩ := hboth l hl ht
      rcases hend with e | e
      · exact hstay (e ▸ h₁)
      · exact hstay (e ▸ h₂)
    refine ⟨h.keys.sublist (hns'.map _), fun l hl => ?_, fun l hl => ?_, fun n hn t ht => ?_,
      fun n hn t ht => ?_⟩
    · obtain ⟨n, hn, hkey, hout⟩ := h.start l ((hls' l).mp hl).1
      exact ⟨n, (hmem n hn).mpr (hkey ▸ (untouched l hl).1), hkey, hout⟩
    · obtain ⟨n, hn, hkey, hin⟩ := h.stop l ((hls' l).mp hl).1
      exact ⟨n, (hmem n hn).mpr (hkey ▸ (untouched l hl).2), hkey, hin⟩
    · obtain ⟨l, hl, hid, hs⟩ := h.linkOut n (hns'.subset hn) t ht
      exact ⟨l, kept n hn l hl (.inl hs), hid, hs⟩
    · obtain ⟨l, hl, hid, hs⟩ := h.linkIn n (hns'.subset hn) t ht
      exact ⟨l, kept n hn l hl (.inr hs), hid, hs⟩

end DoubleLink

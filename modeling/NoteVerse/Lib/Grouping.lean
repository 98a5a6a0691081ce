import NoteVerse.Lib.JsMap
import NoteVerse.Lib.Lists

/-!
# Maps made of entries and of groups

* `ofEntries`: a map to which entries are set one after the other;
* `groupBy`: `groups.setdefault(key, []).append(value)` for each of some values, a
  group for each key (`mem_keys_groupBy`), of the values that have it, in their
  order (`get_groupBy`);
* `m[k] for k in sorted(m)`: the values in the order of their keys
  (`filterMap_get_sorted`, `pairwise_get_sorted`).
-/

namespace Js.JsMap

variable {κ ν : Type} [DecidableEq κ]

/-! ## Entries -/

/-- `for key, value in entries: m[key] = value` -/
def ofEntries (m : JsMap κ ν) (es : List (κ × ν)) : JsMap κ ν :=
  es.foldl (fun m e => m.set e.1 e.2) m

theorem ofEntries_cons (m : JsMap κ ν) (e : κ × ν) (es : List (κ × ν)) :
    m.ofEntries (e :: es) = (m.set e.1 e.2).ofEntries es := rfl

variable {es : List (κ × ν)} {m : JsMap κ ν}

theorem mem_or_of_get_ofEntries {k : κ} {v : ν} (h : (m.ofEntries es).get k = some v) :
    (k, v) ∈ es ∨ m.get k = some v := by
  induction es generalizing m with
  | nil => exact .inr h
  | cons e es ih =>
    rcases ih h with hmem | hget
    · exact .inl (List.mem_cons_of_mem e hmem)
    · by_cases hk : k = e.1
      · subst hk
        rw [get_set_self] at hget
        obtain rfl := Option.some.inj hget
        exact .inl List.mem_cons_self
      · rw [get_set_of_ne hk] at hget
        exact .inr hget

theorem get_ofEntries_of_notMem {k : κ} (hk : k ∉ es.map Prod.fst) :
    (m.ofEntries es).get k = m.get k := by
  induction es generalizing m with
  | nil => rfl
  | cons e es ih =>
    rw [List.map_cons, List.mem_cons, not_or] at hk
    rw [ofEntries_cons, ih hk.2, get_set_of_ne hk.1]

/-- The entry of a key that comes once. -/
theorem get_ofEntries_of_mem {e : κ × ν} (hnodup : (es.map Prod.fst).Nodup) (he : e ∈ es) :
    (m.ofEntries es).get e.1 = some e.2 := by
  induction es generalizing m with
  | nil => exact absurd he List.not_mem_nil
  | cons d es ih =>
    rw [List.map_cons, List.nodup_cons] at hnodup
    rw [ofEntries_cons]
    rcases List.mem_cons.mp he with rfl | he
    · rw [get_ofEntries_of_notMem hnodup.1, get_set_self]
    · exact ih hnodup.2 he

/-! ## Groups -/

/-- `m.setdefault(k, []).append(v)` -/
def appendTo (m : JsMap κ (List ν)) (k : κ) (v : ν) : JsMap κ (List ν) :=
  m.set k ((m.get k).getD [] ++ [v])

def groupBy (key : ν → κ) (vs : List ν) : JsMap κ (List ν) :=
  vs.foldl (fun m v => m.appendTo (key v) v) empty

variable {key : ν → κ} {vs : List ν} {k : κ}

theorem getD_foldl_appendTo (vs : List ν) (m : JsMap κ (List ν)) :
    ((vs.foldl (fun m v => m.appendTo (key v) v) m).get k).getD [] =
      (m.get k).getD [] ++ vs.filter fun v => key v = k := by
  induction vs generalizing m with
  | nil => simp
  | cons v vs ih =>
    rw [List.foldl_cons, ih, appendTo]
    by_cases hk : k = key v
    · rw [← hk, get_set_self, Option.getD_some, List.filter_cons_of_pos (by simp [hk]),
        List.append_assoc]
      rfl
    · rw [get_set_of_ne hk, List.filter_cons_of_neg (by simpa using Ne.symm hk)]

theorem mem_keys_foldl_appendTo (vs : List ν) (m : JsMap κ (List ν)) :
    k ∈ (vs.foldl (fun m v => m.appendTo (key v) v) m).keys ↔ k ∈ m.keys ∨ k ∈ vs.map key := by
  induction vs generalizing m with
  | nil => simp
  | cons v vs ih =>
    rw [List.foldl_cons, ih, appendTo, keys_set, List.map_cons, List.mem_cons]
    split_ifs with hmem
    · refine ⟨Or.imp_right .inr, ?_⟩
      rintro (h | rfl | h)
      · exact .inl h
      · exact .inl hmem
      · exact .inr h
    · rw [List.mem_append, List.mem_singleton, or_assoc]

theorem mem_keys_groupBy : k ∈ (groupBy key vs).keys ↔ k ∈ vs.map key := by
  unfold groupBy
  rw [mem_keys_foldl_appendTo, keys_empty]
  simp

theorem get_of_mem_entries {e : κ × ν} (he : e ∈ m.entries) : m.get e.1 = some e.2 :=
  get_eq_some_iff.mpr he

theorem get_groupBy (hk : k ∈ vs.map key) :
    (groupBy key vs).get k = some (vs.filter fun v => key v = k) := by
  have hget : ((groupBy key vs).get k).getD [] = vs.filter fun v => key v = k := by
    unfold groupBy
    rw [getD_foldl_appendTo, get_empty]
    rfl
  cases hnone : (groupBy key vs).get k with
  | none => exact absurd (mem_keys_groupBy.mpr hk) (get_eq_none_iff.mp hnone)
  | some group =>
    rw [hnone] at hget
    exact congrArg some hget

/-- A group, and the values in it. -/
theorem of_mem_groupBy {e : κ × List ν} (he : e ∈ (groupBy key vs).entries) :
    e.2 = (vs.filter fun v => key v = e.1) ∧ e.2 ≠ [] := by
  have hk : e.1 ∈ vs.map key := mem_keys_groupBy.mp (List.mem_map_of_mem he)
  have hgroup : e.2 = vs.filter fun v => key v = e.1 := by
    have hget := get_of_mem_entries he
    rw [get_groupBy hk] at hget
    exact (Option.some.inj hget).symm
  obtain ⟨v, hv, hkey⟩ := List.mem_map.mp hk
  refine ⟨hgroup, List.ne_nil_of_mem (a := v) ?_⟩
  rw [hgroup, List.mem_filter]
  exact ⟨hv, decide_eq_true hkey⟩

theorem entries_groupBy :
    (groupBy key vs).entries =
      (groupBy key vs).keys.map fun k => (k, vs.filter fun v => key v = k) := by
  unfold keys
  rw [List.map_map]
  refine ((List.map_congr_left fun e he => ?_).trans (List.map_id _)).symm
  exact Prod.ext rfl (of_mem_groupBy he).1.symm

/-- The values of all groups. -/
theorem flatMap_groupBy_perm : ((groupBy key vs).entries.flatMap Prod.snd).Perm vs := by
  rw [entries_groupBy, List.flatMap_map]
  have hperm := @Lists.perm_flatMap_filter _ _ _ _ (groupBy key vs).keys vs id key
    (by rw [List.map_id]; exact (groupBy key vs).keys_nodup)
    (fun v hv => by rw [List.map_id]; exact mem_keys_groupBy.mpr (List.mem_map_of_mem hv))
  exact hperm

/-! ## The values in the order of their keys -/

section

variable [LinearOrder κ] {m : JsMap κ ν} {f : ν → κ}

/-- `m[k] for k in sorted(m)`, where each value knows its key. -/
theorem filterMap_get_sorted (hkey : ∀ k v, m.get k = some v → f v = k) :
    (m.keys.insertionSort (· ≤ ·)).filterMap m.get =
      m.values.insertionSort fun a b => f a ≤ f b := by
  have hkeys : m.keys = m.values.map f := by
    show m.entries.map Prod.fst = (m.entries.map Prod.snd).map f
    rw [List.map_map]
    exact List.map_congr_left fun e he => (hkey e.1 e.2 (get_of_mem_entries he)).symm
  rw [hkeys, ← List.map_insertionSort (fun a b => f a ≤ f b) (· ≤ ·) f m.values fun _ _ _ _ => Iff.rfl,
    List.filterMap_map]
  refine (List.filterMap_congr fun v hv => ?_).trans List.filterMap_some
  obtain ⟨e, he, rfl⟩ := List.mem_map.mp ((List.perm_insertionSort _ _).mem_iff.mp hv)
  have hget := get_of_mem_entries he
  rw [Function.comp_apply, hkey e.1 e.2 hget]
  exact hget

theorem pairwise_get_sorted (hkey : ∀ k v, m.get k = some v → f v = k) :
    ((m.keys.insertionSort (· ≤ ·)).filterMap m.get).Pairwise (f · < f ·) := by
  have hperm := List.perm_insertionSort (· ≤ ·) m.keys
  have hle := List.pairwise_insertionSort (· ≤ ·) m.keys
  have hlt := hle.imp₂ (fun _ _ => lt_of_le_of_ne) (hperm.nodup_iff.mpr m.keys_nodup)
  refine hlt.filterMap _ fun k k' hkk' v hv v' hv' => ?_
  rw [hkey k v hv, hkey k' v' hv']
  exact hkk'

theorem mem_get_sorted {v : ν} :
    v ∈ (m.keys.insertionSort (· ≤ ·)).filterMap m.get ↔ ∃ k, m.get k = some v := by
  rw [List.mem_filterMap]
  refine exists_congr fun k => and_iff_right_of_imp fun h => ?_
  rw [(List.perm_insertionSort _ _).mem_iff]
  by_contra hk
  rw [get_eq_none_iff.mpr hk] at h
  exact absurd h (by simp)

end

end Js.JsMap

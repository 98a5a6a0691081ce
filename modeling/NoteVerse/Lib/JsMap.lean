import NoteVerse.Lib.Computable

/-!
# JavaScript maps

`Map` as the list of its entries in insertion order: `set` of a key that is
there keeps its place. No key has two entries (`keys_nodup`).
-/

namespace Js

variable {κ ν : Type} [DecidableEq κ]

/-- `set` on a list of entries. -/
def setEntry (k : κ) (v : ν) : List (κ × ν) → List (κ × ν)
  | [] => [(k, v)]
  | e :: es => if e.1 = k then (k, v) :: es else e :: setEntry k v es

theorem map_fst_setEntry (k : κ) (v : ν) (es : List (κ × ν)) :
    (setEntry k v es).map Prod.fst =
      if k ∈ es.map Prod.fst then es.map Prod.fst else es.map Prod.fst ++ [k] := by
  induction es with
  | nil => simp [setEntry]
  | cons e es ih =>
    by_cases he : e.1 = k
    · simp [setEntry, he]
    · have hk : ¬ k = e.1 := fun h => he h.symm
      simp only [setEntry, if_neg he, List.map_cons, ih, List.mem_cons, hk, false_or]
      split_ifs <;> rfl

/-- A `Map`, by its entries in insertion order. -/
structure JsMap (κ ν : Type) [DecidableEq κ] where
  entries : List (κ × ν)
  keys_nodup : (entries.map Prod.fst).Nodup

namespace JsMap

variable {m : JsMap κ ν} {k k' : κ} {v : ν}

def empty : JsMap κ ν := ⟨[], List.nodup_nil⟩

def keys (m : JsMap κ ν) : List κ := m.entries.map Prod.fst

def values (m : JsMap κ ν) : List ν := m.entries.map Prod.snd

def get (m : JsMap κ ν) (k : κ) : Option ν := (m.entries.find? (·.1 = k)).map Prod.snd

def has (m : JsMap κ ν) (k : κ) : Bool := m.keys.contains k

def set (m : JsMap κ ν) (k : κ) (v : ν) : JsMap κ ν where
  entries := setEntry k v m.entries
  keys_nodup := by
    rw [map_fst_setEntry]
    split_ifs with h
    · exact m.keys_nodup
    · exact List.nodup_append.mpr ⟨m.keys_nodup, List.nodup_singleton k, fun a ha b hb hab => by
        rw [List.mem_singleton] at hb
        exact h (hb ▸ hab ▸ ha)⟩

/-- `map.get(k)?.push(v)` -/
def push (m : JsMap κ (List ν)) (k : κ) (v : ν) : JsMap κ (List ν) :=
  match m.get k with
  | none => m
  | some vs => m.set k (vs ++ [v])

def delete (m : JsMap κ ν) (k : κ) : JsMap κ ν where
  entries := m.entries.filter (·.1 ≠ k)
  keys_nodup := m.keys_nodup.sublist (List.filter_sublist.map _)

@[simp] theorem keys_empty : (empty : JsMap κ ν).keys = [] := rfl

@[simp] theorem get_empty : (empty : JsMap κ ν).get k = none := rfl

@[simp] theorem has_iff : m.has k ↔ k ∈ m.keys := by
  simp [has]

theorem keys_set : (m.set k v).keys = if k ∈ m.keys then m.keys else m.keys ++ [k] :=
  map_fst_setEntry k v m.entries

/-- A new key comes last. -/
theorem values_set_of_not_mem (hk : k ∉ m.keys) : (m.set k v).values = m.values ++ [v] := by
  have h : ∀ es : List (κ × ν), k ∉ es.map Prod.fst → setEntry k v es = es ++ [(k, v)] := by
    intro es hes
    induction es with
    | nil => rfl
    | cons e es ih =>
      rw [List.map_cons, List.mem_cons, not_or] at hes
      rw [setEntry, if_neg (Ne.symm hes.1), ih hes.2, List.cons_append]
  show (setEntry k v m.entries).map Prod.snd = _
  rw [h m.entries hk, List.map_append]
  rfl

theorem get_eq_none_iff : m.get k = none ↔ k ∉ m.keys := by
  simp only [get, keys, Option.map_eq_none_iff, List.find?_eq_none, decide_eq_true_eq,
    List.mem_map, not_exists, not_and]

@[simp] theorem get_set_self : (m.set k v).get k = some v := by
  have h : ∀ es : List (κ × ν), (setEntry k v es).find? (·.1 = k) = some (k, v) := by
    intro es
    induction es with
    | nil => simp [setEntry]
    | cons e es ih =>
      by_cases he : e.1 = k
      · simp [setEntry, he]
      · simp [setEntry, he, ih]
  rw [get, set, h]
  rfl

theorem get_set_of_ne (hk : k' ≠ k) : (m.set k v).get k' = m.get k' := by
  have h : ∀ es : List (κ × ν), (setEntry k v es).find? (·.1 = k') = es.find? (·.1 = k') := by
    intro es
    induction es with
    | nil => simp [setEntry, hk.symm]
    | cons e es ih =>
      by_cases he : e.1 = k
      · simp [setEntry, he, hk.symm]
      · by_cases he' : e.1 = k'
        · simp [setEntry, he', hk]
        · simp [setEntry, he, he', ih]
  rw [get, set, h, get]

/-- Many keys with one value. -/
theorem get_foldl_set {α : Type} (key : α → κ) (xs : List α) (m : JsMap κ ν) (k : κ) (v : ν) :
    (xs.foldl (fun m x => m.set (key x) v) m).get k =
      if k ∈ xs.map key then some v else m.get k := by
  induction xs generalizing m with
  | nil => rfl
  | cons x xs ih =>
    rw [List.foldl_cons, ih, List.map_cons]
    by_cases hk : k = key x
    · simp [hk]
    · simp [hk, get_set_of_ne hk]

theorem get_push (m : JsMap κ (List ν)) (k k' : κ) (v : ν) :
    (m.push k v).get k' = if k' = k then (m.get k').map (· ++ [v]) else m.get k' := by
  unfold push
  cases hk : m.get k with
  | none =>
    dsimp only
    split_ifs with heq
    · rw [heq, hk]
      rfl
    · rfl
  | some vs =>
    dsimp only
    split_ifs with heq
    · rw [heq, get_set_self, hk]
      rfl
    · rw [get_set_of_ne heq]

/-- Values pushed to where each belongs, if anywhere. -/
def pushAll (key : ν → Option κ) (m : JsMap κ (List ν)) (vs : List ν) : JsMap κ (List ν) :=
  vs.foldl (fun m v => (key v).elim m (m.push · v)) m

theorem pushAll_cons (key : ν → Option κ) (m : JsMap κ (List ν)) (v : ν) (vs : List ν) :
    m.pushAll key (v :: vs) = ((key v).elim m (m.push · v)).pushAll key vs := rfl

theorem get_pushAll (key : ν → Option κ) (m : JsMap κ (List ν)) (vs : List ν) (k : κ) :
    (m.pushAll key vs).get k = (m.get k).map (· ++ vs.filter fun v => key v = some k) := by
  induction vs generalizing m with
  | nil => simp [pushAll]
  | cons v vs ih =>
    rw [pushAll_cons, ih]
    cases hkey : key v with
    | none => simp [hkey]
    | some k' =>
      rw [Option.elim_some, get_push]
      by_cases heq : k = k'
      · subst heq
        simp [hkey, Function.comp_def]
      · simp [hkey, heq, Ne.symm heq]

@[simp] theorem get_delete_self : (m.delete k).get k = none := by
  simp [get, delete, List.find?_filter]

theorem get_delete_of_ne (hk : k' ≠ k) : (m.delete k).get k' = m.get k' := by
  rw [get, get, delete, List.find?_filter]
  congr 2
  funext e
  by_cases he : e.1 = k'
  · simp [he, hk]
  · simp [he]

theorem get_eq_some_iff : m.get k = some v ↔ (k, v) ∈ m.entries := by
  constructor
  · intro h
    obtain ⟨e, he, rfl⟩ := Option.map_eq_some_iff.mp h
    have hk : e.1 = k := by simpa using List.find?_some he
    exact hk ▸ List.mem_of_find?_eq_some he
  · intro h
    cases hfind : m.entries.find? (·.1 = k) with
    | none => exact absurd (List.find?_eq_none.mp hfind _ h) (by simp)
    | some e =>
      have hk : e.1 = k := by simpa using List.find?_some hfind
      have he := List.inj_on_of_nodup_map m.keys_nodup (List.mem_of_find?_eq_some hfind) h hk
      rw [get, hfind, he]
      rfl

/-- The entry of a key and the others. -/
theorem entries_perm (h : m.get k = some v) : m.entries.Perm ((k, v) :: (m.delete k).entries) := by
  obtain ⟨pre, post, hsplit⟩ := List.append_of_mem (get_eq_some_iff.mp h)
  have hkeys := m.keys_nodup
  rw [hsplit, List.map_append, List.map_cons, List.nodup_middle, List.nodup_cons,
    List.mem_append] at hkeys
  have hne (es : List (κ × ν)) (hes : k ∉ es.map Prod.fst) : es.filter (·.1 ≠ k) = es := by
    refine List.filter_eq_self.mpr fun e he => ?_
    have : e.1 ≠ k := fun hk => hes (hk ▸ List.mem_map_of_mem he)
    simpa using this
  have hdelete : (m.delete k).entries = pre ++ post := by
    show m.entries.filter (·.1 ≠ k) = _
    rw [hsplit, List.filter_append, List.filter_cons_of_neg (by simp),
      hne pre fun hmem => hkeys.1 (.inl hmem), hne post fun hmem => hkeys.1 (.inr hmem)]
  rw [hsplit, hdelete]
  exact List.perm_middle

theorem entries_delete (h : m.get k = none) : (m.delete k).entries = m.entries := by
  refine List.filter_eq_self.mpr fun e he => ?_
  have : e.1 ≠ k := fun hk => get_eq_none_iff.mp h (hk ▸ List.mem_map_of_mem he)
  simpa using this

theorem entries_delete_set : ((m.set k v).delete k).entries = (m.delete k).entries := by
  have h : ∀ es : List (κ × ν), (setEntry k v es).filter (·.1 ≠ k) = es.filter (·.1 ≠ k) := by
    intro es
    induction es with
    | nil => simp [setEntry]
    | cons e es ih =>
      by_cases he : e.1 = k
      · simp [setEntry, he]
      · simpa [setEntry, he] using ih
  exact h m.entries

/-- A key that is set takes the place of its entry. -/
theorem entries_set_perm : (m.set k v).entries.Perm ((k, v) :: (m.delete k).entries) :=
  entries_delete_set (m := m) (v := v) ▸ entries_perm get_set_self

end JsMap

end Js

import NoteVerse.MusicXml.NoteIdAgreement

/-!
# The ids of a rendered document (`lib/musicxml/generic-render-ids.ts`)

`ensureGenericRenderMusicXmlIds` with the mark that it leaves on an element whose
id it generates, and `stripAppOwnedGenericRenderMusicXmlIdsString`, which removes
the marked ids again. A document is its tree with the ids and the marks of its
elements apart.

Every note and forward takes the first name left of its own: its base, then the
base with a number (`assigned_eq_claims`). So a generated id may be the one that
a later element has; what is taken before an element is said by `FreshName.Taken`,
and the ids are stable exactly if no legal and unique id is taken before its
element, and no id that is kept bears the mark (`renderIds_stable_iff`).
-/

namespace NoteVerse.MusicXml

open Xml

/-- The attributes `id` and `data-nv-generated-id` of a document's elements. -/
structure RenderIds where
  ids : Address → Option String
  marks : Address → Option String

/-- The document as it comes. -/
def RenderIds.ofRoot (root : Node) : RenderIds where
  ids address := (root.at? address).bind (·.getAttribute "id")
  marks address := (root.at? address).bind (·.getAttribute "data-nv-generated-id")

/-- The loop's state, with the marks. -/
structure RenderRun extends IdRun where
  marks : Address → Option String

namespace RenderRun

def start (doc : RenderIds) : RenderRun where
  ids := doc.ids
  usedIds := []
  changed := false
  marks := doc.marks

def document (run : RenderRun) : RenderIds := ⟨run.ids, run.marks⟩

/-- What the loop does with an element; `setGeneratedId` marks it. -/
def assign (run : RenderRun) (address : Address) (signature : String) : RenderRun where
  toIdRun := run.toIdRun.assign Js.trim address signature
  marks :=
    if Keeps Js.trim run.usedIds ((run.ids address).getD "") then run.marks
    else Function.update run.marks address (some "true")

end RenderRun

section

variable (root : Node)

/-- `ensureGenericRenderMusicXmlIds`, with the marks. -/
def ensureRenderIds (doc : RenderIds) : RenderRun :=
  (eventAddresses root).foldl
    (fun run element => run.assign element (getElementSignature root element)) (.start doc)

/-- `stripAppOwnedGenericRenderMusicXmlIdsString` -/
def stripAppOwnedRenderIds (doc : RenderIds) : RenderIds :=
  (eventAddresses root).foldl (fun doc element =>
    if doc.marks element = some "true" then
      ⟨Function.update doc.ids element none, Function.update doc.marks element none⟩
    else doc) doc

end

/-! ## Names of an element -/

/-- The id that an element would have first. -/
def baseId (existing signature : String) : String :=
  sanitizeWith Js.trim (if existing = "" then signature else existing)

/-- The ids that `createUniqueMusicXmlId` tries in turn. -/
def idNames (base : String) : ℕ → String
  | 0 => base
  | k + 1 => base ++ "-" ++ Nat.repr (k + 2)

theorem idNames_injective (base : String) : Function.Injective (idNames base) := by
  have hne : ∀ k, base ≠ idNames base (k + 1) := by
    intro k h
    have := congrArg (fun id => id.toList.length) h
    simp only [idNames, String.toList_append, List.length_append] at this
    have hhyphen : "-".toList.length = 1 := rfl
    omega
  intro i j h
  cases i with
  | zero =>
    cases j with
    | zero => rfl
    | succ j => exact absurd h (hne j)
  | succ i =>
    cases j with
    | zero => exact absurd h.symm (hne i)
    | succ j =>
      have := numbered_injective base h
      omega

theorem IsLegal.ne_empty {id : String} (h : IsLegal id) : id ≠ "" := by
  obtain ⟨c, cs, hid, -⟩ := h
  rintro rfl
  cases hid

theorem createUniqueWith_eq_name (usedIds : List String) (id : String) :
    createUniqueWith Js.trim id usedIds = idNames (sanitizeWith Js.trim id)
      (FreshName.first usedIds (idNames (sanitizeWith Js.trim id)) 0) := by
  unfold createUniqueWith
  generalize sanitizeWith Js.trim id = base
  have hnumbered : ∀ k, idNames base (k + 1) = base ++ "-" ++ Nat.repr (2 + k) := by
    intro k
    rw [Nat.add_comm 2 k, idNames]
  exact (FreshName.name_first_zero (idNames_injective base) hnumbered (numbered_injective base)).symm

/-- Of the names of an element it gets the first that is left. -/
theorem nextId_eq (usedIds : List String) (existing signature : String) :
    nextId Js.trim usedIds existing signature = idNames (baseId existing signature)
      (FreshName.first usedIds (idNames (baseId existing signature)) 0) := by
  by_cases hempty : existing = ""
  · rw [hempty, nextId_of_none, createUniqueWith_eq_name, baseId, if_pos rfl]
  · have hlegal := sanitizeWith_isLegal Js.trim existing
    have hbase : baseId existing signature = sanitizeWith Js.trim existing := by
      rw [baseId, if_neg hempty]
    rw [hbase]
    by_cases hkeeps : Keeps Js.trim usedIds existing
    · have hfirst : FreshName.first usedIds (idNames existing) 0 = 0 :=
        FreshName.first_eq (idNames_injective _) (Nat.le_refl 0) hkeeps.2.2
          fun i _ hi => absurd hi (Nat.not_lt_zero i)
      rw [hkeeps.2.1, hfirst, nextId, if_pos hkeeps, idNames]
    · have hnext : nextId Js.trim usedIds existing signature =
          createUniqueWith Js.trim (sanitizeWith Js.trim existing) usedIds := by
        rw [nextId, if_neg hkeeps, if_neg hempty, if_neg hlegal.ne_empty]
      rw [hnext, createUniqueWith_eq_name, sanitizeWith_of_isLegal keepsLegal_trim hlegal]

/-- The ids of a loop are names claimed in turn. -/
theorem assigned_eq_claims (usedIds : List String) (elements : List (String × String)) :
    assigned Js.trim usedIds elements =
      FreshName.claims usedIds (elements.map fun e => idNames (baseId e.1 e.2)) := by
  induction elements generalizing usedIds with
  | nil => rfl
  | cons element elements ih =>
    obtain ⟨existing, signature⟩ := element
    show nextId Js.trim usedIds existing signature :: assigned Js.trim
      (usedIds ++ [nextId Js.trim usedIds existing signature]) elements = _
    rw [ih, nextId_eq]
    rfl

/-! ## The loop -/

/-- The loop over some elements, each with its signature. -/
def renderLoop (signature : Address → String) (elements : List Address) (run : RenderRun) :
    RenderRun :=
  elements.foldl (fun run element => run.assign element (signature element)) run

theorem renderLoop_toIdRun (signature : Address → String) (elements : List Address)
    (run : RenderRun) : (renderLoop signature elements run).toIdRun =
      loop Js.trim signature elements run.toIdRun := by
  induction elements generalizing run with
  | nil => rfl
  | cons element elements ih => exact ih (run.assign element (signature element))

/-- The ids are those that the loop without marks assigns. -/
theorem ensureRenderIds_toIdRun (root : Node) :
    (ensureRenderIds root (.ofRoot root)).toIdRun = ensureGenericRenderMusicXmlIds root :=
  renderLoop_toIdRun (getElementSignature root) (eventAddresses root) _

/-- An element has the id afterwards that it had exactly if the code keeps it. -/
theorem assign_kept_iff (run : IdRun) (address : Address) (signature : String) :
    (run.assign Js.trim address signature).ids address = run.ids address ↔
      Keeps Js.trim run.usedIds ((run.ids address).getD "") := by
  rw [assign_ids, if_pos rfl]
  constructor
  · intro h
    have hlegal := nextId_isLegal Js.trim run.usedIds ((run.ids address).getD "") signature
    have hnew := nextId_notMem Js.trim run.usedIds ((run.ids address).getD "") signature
    have hid : nextId Js.trim run.usedIds ((run.ids address).getD "") signature =
        (run.ids address).getD "" := congrArg (Option.getD · "") h
    rw [hid] at hlegal hnew
    exact ⟨hlegal.ne_empty, sanitizeWith_of_isLegal keepsLegal_trim hlegal, hnew⟩
  · intro h
    rw [nextId, if_pos h]
    cases hid : run.ids address with
    | none => exact absurd (by rw [hid]; rfl) h.1
    | some id => rfl

theorem assign_marks (run : RenderRun) (address : Address) (signature : String) (other : Address) :
    (run.assign address signature).marks other =
      if other = address ∧ (run.assign address signature).ids other ≠ run.ids other then some "true"
      else run.marks other := by
  have hkept := assign_kept_iff run.toIdRun address signature
  show (if Keeps Js.trim run.usedIds ((run.ids address).getD "") then run.marks
    else Function.update run.marks address (some "true")) other = _
  by_cases hother : other = address
  · subst hother
    by_cases hkeeps : Keeps Js.trim run.usedIds ((run.ids other).getD "")
    · rw [if_pos hkeeps, if_neg fun h => h.2 (hkept.mpr hkeeps)]
    · rw [if_neg hkeeps, if_pos ⟨rfl, fun h => hkeeps (hkept.mp h)⟩, Function.update_self]
  · have hno : ¬(other = address ∧ (run.assign address signature).ids other ≠ run.ids other) :=
      fun h => hother h.1
    rw [if_neg hno]
    by_cases hkeeps : Keeps Js.trim run.usedIds ((run.ids address).getD "")
    · rw [if_pos hkeeps]
    · rw [if_neg hkeeps, Function.update_of_ne hother]

/-- The loop marks the elements that it gives another id. -/
theorem renderLoop_marks (signature : Address → String) {elements : List Address}
    (hnodup : elements.Nodup) (run : RenderRun) (a : Address) :
    (renderLoop signature elements run).marks a =
      if a ∈ elements ∧ (renderLoop signature elements run).ids a ≠ run.ids a then some "true"
      else run.marks a := by
  induction elements generalizing run with
  | nil => rw [if_neg fun h => List.not_mem_nil h.1]; rfl
  | cons element elements ih =>
    obtain ⟨hnot, hnodup⟩ := List.nodup_cons.mp hnodup
    have hothers := (loop_ids Js.trim signature hnodup
      (run.assign element (signature element)).toIdRun).2
    rw [← renderLoop_toIdRun] at hothers
    have hrest := ih hnodup (run.assign element (signature element))
    show (renderLoop signature elements (run.assign element (signature element))).marks a =
      if a ∈ element :: elements ∧
        (renderLoop signature elements (run.assign element (signature element))).ids a ≠ run.ids a
      then some "true" else run.marks a
    rw [hrest, assign_marks]
    by_cases ha : a = element
    · subst ha
      rw [if_neg fun h => hnot h.1, hothers a hnot]
      simp only [true_and, List.mem_cons_self]
    · have hsame : (run.assign element (signature element)).ids a = run.ids a := by
        show (run.toIdRun.assign Js.trim element (signature element)).ids a = _
        rw [assign_ids, if_neg ha]
      rw [if_neg fun h : a = element ∧ _ => ha h.1, hsame]
      simp only [List.mem_cons, ha, false_or]

/-- Ids that are legal, distinct and new stay as they are. -/
theorem renderLoop_of_legal (signature : Address → String) {elements : List Address}
    {run : RenderRun}
    (hlegal : ∀ a ∈ elements, ∃ id, run.ids a = some id ∧ IsLegal id ∧ id ∉ run.usedIds)
    (hdistinct : (elements.map run.ids).Nodup) :
    (renderLoop signature elements run).document = run.document := by
  induction elements generalizing run with
  | nil => rfl
  | cons element elements ih =>
    obtain ⟨id, hid, hok, hnew⟩ := hlegal element List.mem_cons_self
    rw [List.map_cons, List.nodup_cons] at hdistinct
    have hkeeps : Keeps Js.trim run.usedIds ((run.ids element).getD "") := by
      rw [hid]
      exact ⟨hok.ne_empty, sanitizeWith_of_isLegal keepsLegal_trim hok, hnew⟩
    have hnext : nextId Js.trim run.usedIds ((run.ids element).getD "") (signature element) = id := by
      rw [nextId, if_pos hkeeps, hid]
      rfl
    have hstep : run.assign element (signature element) =
        { run with usedIds := run.usedIds ++ [id] } := by
      unfold RenderRun.assign IdRun.assign
      dsimp only
      rw [if_pos hkeeps, if_pos hkeeps, hnext]
    show (renderLoop signature elements (run.assign element (signature element))).document = _
    rw [hstep]
    refine ih (fun a ha => ?_) hdistinct.2
    obtain ⟨other, hother, hok', hnew'⟩ := hlegal a (List.mem_cons_of_mem _ ha)
    refine ⟨other, hother, hok', fun hmem => ?_⟩
    rcases List.mem_append.mp hmem with hmem | hmem
    · exact hnew' hmem
    · rw [List.mem_singleton] at hmem
      refine hdistinct.1 (List.mem_map.mpr ⟨a, ha, ?_⟩)
      rw [hother, hmem, hid]

/-- Of the ids of notes and forwards, the marked ones are removed. -/
theorem stripAppOwned_ids (elements : List Address) (doc : RenderIds) (a : Address) :
    (elements.foldl (fun doc element =>
        if doc.marks element = some "true" then
          ⟨Function.update doc.ids element none, Function.update doc.marks element none⟩
        else doc) doc).ids a =
      if a ∈ elements ∧ doc.marks a = some "true" then none else doc.ids a := by
  induction elements generalizing doc with
  | nil => rw [if_neg fun h => List.not_mem_nil h.1]; rfl
  | cons element elements ih =>
    rw [List.foldl_cons, ih]
    by_cases hmark : doc.marks element = some "true"
    · rw [if_pos hmark]
      dsimp only
      by_cases ha : a = element
      · subst ha
        simp only [Function.update_self, ite_self, List.mem_cons_self, hmark, and_self, if_true]
      · simp only [Function.update_of_ne ha, List.mem_cons, ha, false_or]
    · rw [if_neg hmark]
      by_cases ha : a = element
      · subst ha
        rw [if_neg fun h => hmark h.2, if_neg fun h => hmark h.2]
      · simp only [List.mem_cons, ha, false_or]

/-! ## Stable ids -/

section

variable (root : Node)

/-- The names of the notes and forwards in document order. -/
def eventNames : List (ℕ → String) :=
  (eventAddresses root).map fun a =>
    idNames (baseId (((RenderIds.ofRoot root).ids a).getD "") (getElementSignature root a))

/-- No other note or forward has the id of an element. -/
def UniqueId (a : Address) (id : String) : Prop :=
  ∀ b ∈ eventAddresses root, (RenderIds.ofRoot root).ids b = some id → b = a

/-- What the ids are for: each note and forward has one of its own, a legal and
unique id stays where it is, and so does every id that is kept when the generated
ones are removed. -/
structure StableIds : Prop where
  legal : ∀ a ∈ eventAddresses root, ∃ id,
    (ensureRenderIds root (.ofRoot root)).ids a = some id ∧ IsLegal id
  distinct : ((eventAddresses root).map (ensureRenderIds root (.ofRoot root)).ids).Nodup
  preserved : ∀ a ∈ eventAddresses root, ∀ id, (RenderIds.ofRoot root).ids a = some id →
    IsLegal id → UniqueId root a id → (ensureRenderIds root (.ofRoot root)).ids a = some id
  again : (ensureRenderIds root (ensureRenderIds root (.ofRoot root)).document).document =
    (ensureRenderIds root (.ofRoot root)).document
  restored : ∀ a, (ensureRenderIds root (.ofRoot root)).ids a = (RenderIds.ofRoot root).ids a →
    (stripAppOwnedRenderIds root (ensureRenderIds root (.ofRoot root)).document).ids a =
      (RenderIds.ofRoot root).ids a

/-- No legal and unique id is taken before its element, and no element whose legal
id is not taken before it is marked. -/
structure NothingTaken : Prop where
  unique : ∀ i a id, (eventAddresses root)[i]? = some a → (RenderIds.ofRoot root).ids a = some id →
    IsLegal id → UniqueId root a id → ¬FreshName.Taken (eventNames root) i id
  unmarked : ∀ i a id, (eventAddresses root)[i]? = some a →
    (RenderIds.ofRoot root).ids a = some id → IsLegal id →
    ¬FreshName.Taken (eventNames root) i id → (RenderIds.ofRoot root).marks a ≠ some "true"

theorem nodup_eventAddresses : (eventAddresses root).Nodup :=
  Node.nodup_addressesOf isEvent_text root []

variable {root}

theorem ensureRenderIds_ids : (eventAddresses root).map (ensureRenderIds root (.ofRoot root)).ids =
    (FreshName.claims [] (eventNames root)).map some := by
  have hids := (loop_ids Js.trim (getElementSignature root) (nodup_eventAddresses root)
    (RenderRun.start (.ofRoot root)).toIdRun).1
  rw [← renderLoop_toIdRun, assigned_eq_claims, List.map_map] at hids
  exact hids

theorem ensureRenderIds_getElem {i : ℕ} {a : Address} (ha : (eventAddresses root)[i]? = some a) :
    (ensureRenderIds root (.ofRoot root)).ids a = (FreshName.claims [] (eventNames root))[i]? := by
  have h := congrArg (·[i]?) (@ensureRenderIds_ids root)
  simp only [List.getElem?_map, ha, Option.map_some] at h
  cases hclaim : (FreshName.claims [] (eventNames root))[i]? with
  | none => rw [hclaim] at h; cases h
  | some id => rw [hclaim] at h; exact Option.some.inj h

/-- A legal id is kept exactly if it is not taken before. -/
theorem kept_iff {i : ℕ} {a : Address} {id : String} (ha : (eventAddresses root)[i]? = some a)
    (hid : (RenderIds.ofRoot root).ids a = some id) (hlegal : IsLegal id) :
    (ensureRenderIds root (.ofRoot root)).ids a = some id ↔
      ¬FreshName.Taken (eventNames root) i id := by
  have hbase : baseId id (getElementSignature root a) = id := by
    rw [baseId, if_neg hlegal.ne_empty, sanitizeWith_of_isLegal keepsLegal_trim hlegal]
  have hname : (eventNames root)[i]? = some (idNames id) := by
    rw [eventNames, List.getElem?_map, ha, Option.map_some, hid, Option.getD_some, hbase]
  have hinj : ∀ name ∈ eventNames root, Function.Injective name := by
    intro name hmem
    obtain ⟨b, -, rfl⟩ := List.mem_map.mp hmem
    exact idNames_injective _
  rw [ensureRenderIds_getElem ha, FreshName.claims_getElem?, hname, List.nil_append,
    Option.map_some, ← FreshName.mem_take_claims_iff hinj i id]
  constructor
  · intro h
    rw [← Option.some.inj h]
    exact FreshName.name_first_notMem (idNames_injective id) 0
  · intro hnew
    rw [FreshName.first_eq (idNames_injective id) (Nat.le_refl 0) hnew
      fun i _ hi => absurd hi (Nat.not_lt_zero i)]
    rfl

theorem ensureRenderIds_legal {a : Address} (ha : a ∈ eventAddresses root) :
    ∃ id, (ensureRenderIds root (.ofRoot root)).ids a = some id ∧ IsLegal id := by
  obtain ⟨i, hi⟩ := List.mem_iff_getElem?.mp ha
  have hok := (assigned_ok Js.trim [] ((eventAddresses root).map fun a =>
    (((RenderIds.ofRoot root).ids a).getD "", getElementSignature root a))).2
  rw [assigned_eq_claims, List.map_map] at hok
  have hlength : i < (FreshName.claims [] (eventNames root)).length := by
    rw [FreshName.length_claims, eventNames, List.length_map]
    exact (List.getElem?_eq_some_iff.mp hi).1
  obtain ⟨id, hid⟩ : ∃ id, (FreshName.claims [] (eventNames root))[i]? = some id :=
    ⟨_, List.getElem?_eq_getElem hlength⟩
  exact ⟨id, (ensureRenderIds_getElem hi).trans hid, (hok id (List.mem_of_getElem? hid)).1⟩

theorem ensureRenderIds_distinct :
    ((eventAddresses root).map (ensureRenderIds root (.ofRoot root)).ids).Nodup := by
  have hok := (assigned_ok Js.trim [] ((eventAddresses root).map fun a =>
    (((RenderIds.ofRoot root).ids a).getD "", getElementSignature root a))).1
  rw [assigned_eq_claims, List.map_map] at hok
  rw [ensureRenderIds_ids]
  exact hok.map (Option.some_injective _)

/-- After the loop there is nothing left to do. -/
theorem ensureRenderIds_again :
    (ensureRenderIds root (ensureRenderIds root (.ofRoot root)).document).document =
      (ensureRenderIds root (.ofRoot root)).document := by
  refine @renderLoop_of_legal (getElementSignature root) (eventAddresses root)
    (.start (ensureRenderIds root (.ofRoot root)).document) (fun a ha => ?_)
    ensureRenderIds_distinct
  obtain ⟨id, hid, hlegal⟩ := ensureRenderIds_legal ha
  exact ⟨id, hid, hlegal, List.not_mem_nil⟩

/-- A kept id is removed exactly if its element was marked before. -/
theorem restored_iff {a : Address}
    (h : (ensureRenderIds root (.ofRoot root)).ids a = (RenderIds.ofRoot root).ids a) :
    (stripAppOwnedRenderIds root (ensureRenderIds root (.ofRoot root)).document).ids a =
        (RenderIds.ofRoot root).ids a ↔
      (a ∈ eventAddresses root → (RenderIds.ofRoot root).marks a ≠ some "true") := by
  have hmarks := renderLoop_marks (getElementSignature root) (nodup_eventAddresses root)
    (.start (.ofRoot root)) a
  have hkept : ¬(a ∈ eventAddresses root ∧ (renderLoop (getElementSignature root)
      (eventAddresses root) (.start (.ofRoot root))).ids a ≠
        (RenderRun.start (.ofRoot root)).ids a) := fun hne => hne.2 h
  rw [if_neg hkept] at hmarks
  have hstrip := stripAppOwned_ids (eventAddresses root)
    (ensureRenderIds root (.ofRoot root)).document a
  change (ensureRenderIds root (.ofRoot root)).document.marks a =
    (RenderIds.ofRoot root).marks a at hmarks
  rw [hmarks] at hstrip
  rw [stripAppOwnedRenderIds, hstrip]
  by_cases hremoved : a ∈ eventAddresses root ∧ (RenderIds.ofRoot root).marks a = some "true"
  · obtain ⟨id, hid, -⟩ := ensureRenderIds_legal hremoved.1
    rw [if_pos hremoved, ← h, hid]
    exact iff_of_false (by simp) fun hno => hno hremoved.1 hremoved.2
  · rw [if_neg hremoved]
    exact iff_of_true h fun ha hmark => hremoved ⟨ha, hmark⟩

variable (root)

/-- The ids of a document are stable exactly if nothing takes one of them before it. -/
theorem renderIds_stable_iff : StableIds root ↔ NothingTaken root := by
  constructor
  · intro h
    refine ⟨fun i a id ha hid hlegal hunique => ?_, fun i a id ha hid hlegal htaken => ?_⟩
    · exact (kept_iff ha hid hlegal).mp
        (h.preserved a (List.mem_of_getElem? ha) id hid hlegal hunique)
    · have hkept := ((kept_iff ha hid hlegal).mpr htaken).trans hid.symm
      exact (restored_iff hkept).mp (h.restored a hkept) (List.mem_of_getElem? ha)
  · intro h
    refine ⟨fun a ha => ensureRenderIds_legal ha, ensureRenderIds_distinct,
      fun a ha id hid hlegal hunique => ?_, ensureRenderIds_again, fun a hkept => ?_⟩
    · obtain ⟨i, hi⟩ := List.mem_iff_getElem?.mp ha
      exact (kept_iff hi hid hlegal).mpr (h.unique i a id hi hid hlegal hunique)
    · refine (restored_iff hkept).mpr fun ha => ?_
      obtain ⟨i, hi⟩ := List.mem_iff_getElem?.mp ha
      obtain ⟨id, hid, hlegal⟩ := ensureRenderIds_legal ha
      have hown := hkept.symm.trans hid
      exact h.unmarked i a id hi hown hlegal ((kept_iff hi hown hlegal).mp hid)

end

/-- A note without an id, before a note that has the id generated for it. -/
theorem generated_id_takes_unique :
    let root := oneMeasure [.element "note" [] [], .element "note" [("id", "nv-p1-m1-note1")] []]
    ¬StableIds root ∧
      (ensureRenderIds root (.ofRoot root)).ids [0, 0, 1] = some "nv-p1-m1-note1-2" := by
  intro root
  have hid : (ensureRenderIds root (.ofRoot root)).ids [0, 0, 1] = some "nv-p1-m1-note1-2" := by
    decide +kernel
  have hunique : UniqueId root [0, 0, 1] "nv-p1-m1-note1" := by
    show ∀ b ∈ eventAddresses root, _
    decide
  refine ⟨fun h => ?_, hid⟩
  have hkept := h.preserved [0, 0, 1] (by decide) "nv-p1-m1-note1" (by decide)
    ⟨'n', "v-p1-m1-note1".toList, by decide, by decide, by decide⟩ hunique
  rw [hid] at hkept
  exact absurd hkept (by decide)

end NoteVerse.MusicXml

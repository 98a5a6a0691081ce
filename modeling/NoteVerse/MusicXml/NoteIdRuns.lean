import NoteVerse.MusicXml.NoteIds
import NoteVerse.Practice.StableIds

/-!
# What the loops over notes and forwards assign

* `nextId_isLegal`, `nextId_notMem`: an id that is assigned is legal and new;
* `foldl_assign`: the ids that a loop assigns, as a list (`assigned`);
* `assigned_eq_iff`: two loops assign the same ids exactly if they have the same
  signature for each element without an id.
-/

namespace NoteVerse.MusicXml

open Xml

/-! ## Legal ids -/

/-- An id that starts and goes on as the functions ask. -/
def IsLegal (id : String) : Prop :=
  ∃ c cs, id.toList = c :: cs ∧ isIdStart c = true ∧ ∀ d ∈ c :: cs, isIdBody d = true

theorem isIdBody_of_isDigit {c : Char} (h : c.isDigit = true) : isIdBody c = true := by
  unfold isIdBody Char.isAlphanum
  simp [h]

/-- What is appended to a legal id keeps it legal. -/
theorem IsLegal.append {id : String} (h : IsLegal id) {more : String}
    (hmore : ∀ c ∈ more.toList, isIdBody c = true) : IsLegal (id ++ more) := by
  obtain ⟨c, cs, hid, hstart, hbody⟩ := h
  refine ⟨c, cs ++ more.toList, by rw [String.toList_append, hid, List.cons_append], hstart, ?_⟩
  intro d hd
  rw [← List.cons_append] at hd
  exact (List.mem_append.mp hd).elim (hbody d) (hmore d)

theorem isLegal_nv {more : String} (hmore : ∀ c ∈ more.toList, isIdBody c = true) :
    IsLegal ("nv-" ++ more) :=
  IsLegal.append ⟨'n', ['v', '-'], rfl, by decide, by decide⟩ hmore

theorem isIdBody_repr (n : Nat) : ∀ c ∈ (Nat.repr n).toList, isIdBody c = true := by
  intro c hc
  rw [Nat.toList_repr] at hc
  exact isIdBody_of_isDigit (Nat.isDigit_of_mem_toDigits (by decide) (by decide) hc)

theorem sanitizeWith_isLegal (strip : String → String) (value : String) :
    IsLegal (sanitizeWith strip value) := by
  have hbody : ∀ d ∈ (strip value).toList.map fun c => if isIdBody c then c else '-',
      isIdBody d = true := by
    intro d hd
    obtain ⟨c, -, rfl⟩ := List.mem_map.mp hd
    by_cases hc : isIdBody c = true
    · rwa [if_pos hc]
    · rw [if_neg hc]
      decide
  unfold sanitizeWith
  generalize ((strip value).toList.map fun c => if isIdBody c then c else '-') = result at hbody
  cases result with
  | nil => exact @isLegal_nv "entity" (by decide)
  | cons c cs =>
    dsimp only
    by_cases hc : isIdStart c = true
    · rw [if_pos hc]
      exact ⟨c, cs, String.toList_ofList, hc, hbody⟩
    · rw [if_neg hc]
      exact isLegal_nv (by rwa [String.toList_ofList])

/-- A legal id has nothing to strip. -/
def KeepsLegal (strip : String → String) : Prop := ∀ id, IsLegal id → strip id = id

variable {id : String} {p : Char → Bool} {cs : List Char}

theorem sanitizeWith_of_isLegal {strip : String → String} (hstrip : KeepsLegal strip)
    (h : IsLegal id) : sanitizeWith strip id = id := by
  have hkeep := hstrip id h
  obtain ⟨c, cs, hid, hstart, hbody⟩ := h
  have hmap : (c :: cs).map (fun c => if isIdBody c then c else '-') = c :: cs := by
    refine (List.map_congr_left fun d hd => ?_).trans (List.map_id _)
    rw [if_pos (hbody d hd)]
    rfl
  unfold sanitizeWith
  rw [hkeep, hid, hmap]
  dsimp only
  rw [if_pos hstart, ← hid, String.ofList_toList]

theorem numbered_isLegal (h : IsLegal id) (n : Nat) : IsLegal (id ++ "-" ++ Nat.repr n) :=
  (@IsLegal.append _ h "-" (by decide)).append (isIdBody_repr n)

theorem createUniqueWith_isLegal (strip : String → String) (baseId : String)
    (usedIds : List String) : IsLegal (createUniqueWith strip baseId usedIds) := by
  have hlegal := sanitizeWith_isLegal strip baseId
  unfold createUniqueWith
  dsimp only
  by_cases hused : sanitizeWith strip baseId ∉ usedIds
  · rwa [if_pos hused]
  · rw [if_neg hused]
    exact numbered_isLegal hlegal _

theorem numbered_injective (id : String) :
    Function.Injective fun suffix : Nat => id ++ "-" ++ Nat.repr suffix := by
  intro m n h
  have hlist := congrArg String.toList h
  simp only [String.toList_append] at hlist
  exact Practice.repr_injective (List.append_cancel_left hlist)

theorem createUniqueWith_notMem (strip : String → String) (baseId : String)
    (usedIds : List String) : createUniqueWith strip baseId usedIds ∉ usedIds := by
  unfold createUniqueWith
  dsimp only
  by_cases hused : sanitizeWith strip baseId ∉ usedIds
  · rwa [if_pos hused]
  · rw [if_neg hused]
    exact FreshName.name_first_notMem (numbered_injective _) 2

theorem nextId_isLegal (strip : String → String) (usedIds : List String)
    (existing signature : String) : IsLegal (nextId strip usedIds existing signature) := by
  unfold nextId
  dsimp only
  by_cases hkeeps : Keeps strip usedIds existing
  · rw [if_pos hkeeps, ← hkeeps.2.1]
    exact sanitizeWith_isLegal strip existing
  · rw [if_neg hkeeps]
    exact createUniqueWith_isLegal strip _ usedIds

theorem nextId_notMem (strip : String → String) (usedIds : List String)
    (existing signature : String) : nextId strip usedIds existing signature ∉ usedIds := by
  unfold nextId
  dsimp only
  by_cases hkeeps : Keeps strip usedIds existing
  · rw [if_pos hkeeps]
    exact hkeeps.2.2
  · rw [if_neg hkeeps]
    exact createUniqueWith_notMem strip _ usedIds

/-! ## A loop -/

/-- The ids that a loop assigns to elements with the ids and the signatures that they have. -/
def assigned (strip : String → String) : List String → List (String × String) → List String
  | _, [] => []
  | usedIds, (existing, signature) :: elements =>
    let next := nextId strip usedIds existing signature
    next :: assigned strip (usedIds ++ [next]) elements

theorem assign_ids (strip : String → String) (run : IdRun) (address : Address) (signature : String)
    (other : Address) : (run.assign strip address signature).ids other =
      if other = address then
        some (nextId strip run.usedIds ((run.ids address).getD "") signature)
      else run.ids other := by
  unfold IdRun.assign
  dsimp only
  by_cases hkeeps : Keeps strip run.usedIds ((run.ids address).getD "")
  · rw [if_pos hkeeps]
    by_cases hother : other = address
    · subst hother
      have hnext : nextId strip run.usedIds ((run.ids other).getD "") signature =
          (run.ids other).getD "" := if_pos hkeeps
      rw [if_pos rfl, hnext]
      cases hid : run.ids other with
      | none => exact absurd (by rw [hid]; rfl) hkeeps.1
      | some id => rfl
    · rw [if_neg hother]
  · rw [if_neg hkeeps]
    by_cases hother : other = address
    · subst hother
      rw [if_pos rfl]
      exact Function.update_self ..
    · rw [if_neg hother]
      exact Function.update_of_ne hother ..

theorem assign_usedIds (strip : String → String) (run : IdRun) (address : Address)
    (signature : String) : (run.assign strip address signature).usedIds =
      run.usedIds ++ [nextId strip run.usedIds ((run.ids address).getD "") signature] := by
  unfold IdRun.assign
  dsimp only
  by_cases hkeeps : Keeps strip run.usedIds ((run.ids address).getD "")
  · rw [if_pos hkeeps]
  · rw [if_neg hkeeps]

/-- A loop over some elements, each with its signature. -/
def loop (strip : String → String) (signature : Address → String) (elements : List Address)
    (run : IdRun) : IdRun :=
  elements.foldl (fun run element => run.assign strip element (signature element)) run

/-- A loop assigns to its elements, and to no other. -/
theorem loop_ids (strip : String → String) (signature : Address → String)
    {elements : List Address} (hnodup : elements.Nodup) (run : IdRun) :
    elements.map (loop strip signature elements run).ids =
        (assigned strip run.usedIds
          (elements.map fun a => ((run.ids a).getD "", signature a))).map some ∧
      ∀ a ∉ elements, (loop strip signature elements run).ids a = run.ids a := by
  induction elements generalizing run with
  | nil => exact ⟨rfl, fun _ _ => rfl⟩
  | cons element elements ih =>
    obtain ⟨hnot, hnodup⟩ := List.nodup_cons.mp hnodup
    obtain ⟨hids, hothers⟩ := ih hnodup (run.assign strip element (signature element))
    have hsame : ∀ a ∈ elements, (run.assign strip element (signature element)).ids a = run.ids a := by
      intro a ha
      rw [assign_ids, if_neg fun h : a = element => hnot (h ▸ ha)]
    refine ⟨?_, fun a ha => ?_⟩
    · show (loop strip signature elements (run.assign strip element (signature element))).ids element ::
        elements.map (loop strip signature elements
          (run.assign strip element (signature element))).ids = _
      rw [hids, hothers element hnot, assign_ids, if_pos rfl, assign_usedIds]
      refine congrArg _ (congrArg (List.map some) (congrArg (assigned strip _) ?_))
      exact List.map_congr_left fun a ha => by rw [hsame a ha]
    · rw [List.mem_cons, not_or] at ha
      show (loop strip signature elements (run.assign strip element (signature element))).ids a = _
      rw [hothers a ha.2, assign_ids, if_neg ha.1]

/-- The ids of a loop are legal and pairwise distinct. -/
theorem assigned_ok (strip : String → String) (usedIds : List String)
    (elements : List (String × String)) :
    (assigned strip usedIds elements).Nodup ∧
      (∀ id ∈ assigned strip usedIds elements, IsLegal id ∧ id ∉ usedIds) := by
  induction elements generalizing usedIds with
  | nil => exact ⟨List.nodup_nil, fun _ h => absurd h List.not_mem_nil⟩
  | cons element elements ih =>
    obtain ⟨existing, signature⟩ := element
    obtain ⟨hnodup, hok⟩ := ih (usedIds ++ [nextId strip usedIds existing signature])
    refine ⟨List.nodup_cons.mpr ⟨fun hmem => ?_, hnodup⟩, fun id hid => ?_⟩
    · exact (hok _ hmem).2 (List.mem_append_right _ (List.mem_singleton_self _))
    · rcases List.mem_cons.mp hid with rfl | hid
      · exact ⟨nextId_isLegal .., nextId_notMem strip usedIds existing signature⟩
      · exact ⟨(hok id hid).1, fun hused => (hok id hid).2 (List.mem_append_left _ hused)⟩

/-! ## Two loops -/

variable {strip strip' : String → String}

/-- Of a legal id all that is read is whether it is used. -/
theorem createUniqueWith_congr (hstrip : KeepsLegal strip) (hstrip' : KeepsLegal strip')
    (h : IsLegal id) (usedIds : List String) :
    createUniqueWith strip id usedIds = createUniqueWith strip' id usedIds := by
  unfold createUniqueWith
  rw [sanitizeWith_of_isLegal hstrip h, sanitizeWith_of_isLegal hstrip' h]

theorem createUniqueWith_eq (hstrip : KeepsLegal strip) (h : IsLegal id) (usedIds : List String) :
    createUniqueWith strip id usedIds = id ∨
      ∃ n : Nat, createUniqueWith strip id usedIds = id ++ "-" ++ Nat.repr n := by
  unfold createUniqueWith
  rw [sanitizeWith_of_isLegal hstrip h]
  dsimp only
  by_cases hused : id ∉ usedIds
  · rw [if_pos hused]
    exact .inl rfl
  · rw [if_neg hused]
    exact .inr ⟨_, rfl⟩

theorem nextId_of_none (strip : String → String) (usedIds : List String) (signature : String) :
    nextId strip usedIds "" signature = createUniqueWith strip signature usedIds := by
  have hkeeps : ¬Keeps strip usedIds "" := fun h => h.1 rfl
  unfold nextId
  rw [if_neg hkeeps]
  rfl

/-- The signature is not read of an element that has an id. -/
theorem nextId_of_some (hstrip : KeepsLegal strip) (hstrip' : KeepsLegal strip') {existing : String}
    (hexisting : existing ≠ "") (hsame : sanitizeWith strip existing = sanitizeWith strip' existing)
    (usedIds : List String) (signature signature' : String) :
    nextId strip usedIds existing signature = nextId strip' usedIds existing signature' := by
  have hlegal := sanitizeWith_isLegal strip' existing
  have hne : sanitizeWith strip' existing ≠ "" := by
    obtain ⟨c, cs, hid, -⟩ := hlegal
    intro hempty
    rw [hempty] at hid
    cases hid
  have hkeeps : Keeps strip usedIds existing ↔ Keeps strip' usedIds existing := by
    unfold Keeps
    rw [hsame]
  unfold nextId
  dsimp only
  rw [if_neg hexisting, if_neg hexisting, hsame, if_neg hne, if_neg hne,
    createUniqueWith_congr hstrip hstrip' hlegal]
  exact if_congr hkeeps rfl rfl

/-- Elements with the signatures that two loops have for them. -/
structure Signed where
  existing : String
  signature : String
  signature' : String

/-- What is known of the elements of two loops: the signatures differ also when they are numbered. -/
structure Signed.Ok (strip strip' : String → String) (element : Signed) : Prop where
  same : element.existing ≠ "" →
    sanitizeWith strip element.existing = sanitizeWith strip' element.existing
  legal : IsLegal element.signature
  legal' : IsLegal element.signature'
  cut : ∀ more more' : String, (more = "" ∨ ∃ n : Nat, more = "-" ++ Nat.repr n) →
    (more' = "" ∨ ∃ n : Nat, more' = "-" ++ Nat.repr n) →
    element.signature ++ more = element.signature' ++ more' → element.signature = element.signature'

theorem createUniqueWith_append (hstrip : KeepsLegal strip) (h : IsLegal id)
    (usedIds : List String) : ∃ more : String, (more = "" ∨ ∃ n : Nat, more = "-" ++ Nat.repr n) ∧
      createUniqueWith strip id usedIds = id ++ more := by
  rcases createUniqueWith_eq hstrip h usedIds with heq | ⟨n, heq⟩
  · exact ⟨"", .inl rfl, by rw [heq, String.append_empty]⟩
  · exact ⟨"-" ++ Nat.repr n, .inr ⟨n, rfl⟩, by rw [heq, String.append_assoc]⟩

/-- Two loops assign the same ids exactly if they have the same signatures where one is read. -/
theorem assigned_eq_iff (hstrip : KeepsLegal strip) (hstrip' : KeepsLegal strip')
    {elements : List Signed} (hok : ∀ element ∈ elements, element.Ok strip strip')
    (usedIds : List String) :
    assigned strip usedIds (elements.map fun e => (e.existing, e.signature)) =
        assigned strip' usedIds (elements.map fun e => (e.existing, e.signature')) ↔
      ∀ e ∈ elements, e.existing = "" → e.signature = e.signature' := by
  induction elements generalizing usedIds with
  | nil => exact iff_of_true rfl fun _ h => absurd h List.not_mem_nil
  | cons e elements ih =>
    have he := hok e List.mem_cons_self
    have hrest := ih fun e he => hok e (List.mem_cons_of_mem _ he)
    have hnext : nextId strip usedIds e.existing e.signature =
        nextId strip' usedIds e.existing e.signature' ↔ (e.existing = "" → e.signature = e.signature') := by
      by_cases hexisting : e.existing = ""
      · rw [hexisting, nextId_of_none, nextId_of_none]
        refine ⟨fun heq _ => ?_, fun heq => ?_⟩
        · obtain ⟨more, hmore, hid⟩ := createUniqueWith_append hstrip he.legal usedIds
          obtain ⟨more', hmore', hid'⟩ := createUniqueWith_append hstrip' he.legal' usedIds
          exact he.cut more more' hmore hmore' (by rw [← hid, ← hid', heq])
        · rw [heq rfl]
          exact createUniqueWith_congr hstrip hstrip' he.legal' usedIds
      · exact iff_of_true (nextId_of_some hstrip hstrip' hexisting (he.same hexisting) usedIds _ _)
          fun h => absurd h hexisting
    rw [List.forall_mem_cons, ← hnext]
    show (nextId strip usedIds e.existing e.signature :: _ =
      nextId strip' usedIds e.existing e.signature' :: _) ↔ _
    rw [List.cons.injEq]
    refine and_congr_right fun heq => ?_
    rw [heq]
    exact hrest _

/-! ## The strips -/

/-- A character of an XML document. -/
def IsXmlChar (c : Char) : Prop :=
  c.toNat = 0x9 ∨ c.toNat = 0xa ∨ c.toNat = 0xd ∨
    (0x20 ≤ c.toNat ∧ c.toNat ≠ 0xfffe ∧ c.toNat ≠ 0xffff)

instance (c : Char) : Decidable (IsXmlChar c) := inferInstanceAs (Decidable (_ ∨ _))

/-- An id of a document without white space that is not ASCII. -/
def IsPlain (id : String) : Prop :=
  ∀ c ∈ id.toList, IsXmlChar c ∧
    (c.toNat < 0x80 ∨ (Js.isWhiteSpace c = false ∧ Python.isSpace c = false))

instance (id : String) : Decidable (IsPlain id) := inferInstanceAs (Decidable (∀ c ∈ _, _))

theorem isSpace_eq {c : Char} (hxml : IsXmlChar c)
    (hplain : c.toNat < 0x80 ∨ (Js.isWhiteSpace c = false ∧ Python.isSpace c = false)) :
    Python.isSpace c = Js.isWhiteSpace c := by
  rcases hplain with hascii | ⟨hjs, hpython⟩
  · unfold IsXmlChar at hxml
    rw [Bool.eq_iff_iff]
    simp only [Python.isSpace, Js.isWhiteSpace, decide_eq_true_eq, List.mem_cons, List.not_mem_nil,
      or_false]
    omega
  · rw [hjs, hpython]

theorem dropWhile_congr {q : Char → Bool} (h : ∀ c ∈ cs, p c = q c) :
    cs.dropWhile p = cs.dropWhile q := by
  induction cs with
  | nil => rfl
  | cons c cs ih =>
    rw [List.dropWhile_cons, List.dropWhile_cons, h c List.mem_cons_self,
      ih fun d hd => h d (List.mem_cons_of_mem _ hd)]

theorem strip_eq_trim (h : IsPlain id) : Python.strip id = Js.trim id := by
  have hspace : ∀ c ∈ id.toList, Python.isSpace c = Js.isWhiteSpace c :=
    fun c hc => isSpace_eq (h c hc).1 (h c hc).2
  unfold Python.strip Js.trim List.rdropWhile
  rw [dropWhile_congr hspace]
  refine congrArg (fun cs : List Char => String.ofList cs.reverse) (dropWhile_congr fun c hc => ?_)
  exact hspace c (List.dropWhile_subset _ (List.mem_reverse.mp hc))

theorem not_space_of_isIdBody {c : Char} (h : isIdBody c = true) :
    Python.isSpace c = false ∧ Js.isWhiteSpace c = false := by
  have hbound : 0x21 ≤ c.toNat ∧ c.toNat < 0x80 := by
    simp only [isIdBody, Char.isAlphanum, Char.isAlpha, Char.isUpper, Char.isLower, Char.isDigit,
      Bool.or_eq_true, Bool.and_eq_true, decide_eq_true_eq, UInt32.le_iff_toNat_le, ge_iff_le] at h
    have hval : c.toNat = c.val.toNat := rfl
    rcases h with ((h | rfl) | rfl) | rfl
    · have : 'A'.val.toNat = 65 := rfl
      have : 'Z'.val.toNat = 90 := rfl
      have : 'a'.val.toNat = 97 := rfl
      have : 'z'.val.toNat = 122 := rfl
      have : '0'.val.toNat = 48 := rfl
      have : '9'.val.toNat = 57 := rfl
      omega
    all_goals decide
  constructor
  · simp only [Python.isSpace, decide_eq_false_iff_not, List.mem_cons, List.not_mem_nil, or_false]
    omega
  · simp only [Js.isWhiteSpace, decide_eq_false_iff_not, List.mem_cons, List.not_mem_nil, or_false]
    omega

theorem dropWhile_of_forall (h : ∀ c ∈ cs, p c = false) : cs.dropWhile p = cs := by
  cases cs with
  | nil => rfl
  | cons c cs => rw [List.dropWhile_cons, h c List.mem_cons_self, if_neg Bool.false_ne_true]

theorem strip_of_forall (h : ∀ c ∈ cs, p c = false) :
    ((cs.dropWhile p).reverse.dropWhile p).reverse = cs := by
  rw [dropWhile_of_forall h, dropWhile_of_forall fun c hc => h c (List.mem_reverse.mp hc),
    List.reverse_reverse]

theorem keepsLegal_strip : KeepsLegal Python.strip := by
  rintro id ⟨c, cs, hid, -, hbody⟩
  unfold Python.strip
  rw [strip_of_forall fun d hd => (not_space_of_isIdBody (hbody d (hid ▸ hd))).1,
    String.ofList_toList]

theorem keepsLegal_trim : KeepsLegal Js.trim := by
  rintro id ⟨c, cs, hid, -, hbody⟩
  show String.ofList ((id.toList.dropWhile Js.isWhiteSpace).reverse.dropWhile
    Js.isWhiteSpace).reverse = id
  rw [strip_of_forall fun d hd => (not_space_of_isIdBody (hbody d (hid ▸ hd))).2,
    String.ofList_toList]

theorem sanitize_eq (h : IsPlain id) : sanitizeWith Python.strip id = sanitizeWith Js.trim id := by
  unfold sanitizeWith
  rw [strip_eq_trim h]

/-! ## Signatures -/

theorem toList_signatureOf (part measure : Nat) (tag : String) (event : Nat) :
    (signatureOf part measure tag event).toList =
      ['n', 'v'] ++ '-' :: (('p' :: (Nat.repr part).toList) ++ '-' ::
        (('m' :: (Nat.repr measure).toList) ++ '-' :: (tag.toList ++ (Nat.repr event).toList))) := by
  unfold signatureOf
  simp [String.toList_append]

theorem signatureOf_isLegal (part measure event : Nat) {tag : String}
    (htag : ∀ c ∈ tag.toList, isIdBody c = true) :
    IsLegal (signatureOf part measure tag event) := by
  have hnv : IsLegal "nv-p" := ⟨'n', ['v', '-', 'p'], rfl, by decide, by decide⟩
  unfold signatureOf
  have hmeasure := (@IsLegal.append _ (hnv.append (isIdBody_repr part)) "-m" (by decide)).append
    (isIdBody_repr measure)
  exact ((@IsLegal.append _ hmeasure "-" (by decide)).append htag).append (isIdBody_repr event)

/-- The numbers of a signature are known, whether it is numbered or not. -/
theorem signatureOf_cut {part measure event part' measure' event' : Nat} {tag more more' : String}
    (hmore : more = "" ∨ ∃ n : Nat, more = "-" ++ Nat.repr n)
    (hmore' : more' = "" ∨ ∃ n : Nat, more' = "-" ++ Nat.repr n)
    (h : signatureOf part measure tag event ++ more =
      signatureOf part' measure' tag event' ++ more') :
    part = part' ∧ measure = measure' ∧ event = event' := by
  have hlist : ∀ (p m e : Nat) (more : String), (signatureOf p m tag e ++ more).toList =
      ['n', 'v'] ++ '-' :: (('p' :: (Nat.repr p).toList) ++ '-' :: (('m' :: (Nat.repr m).toList) ++
        '-' :: (tag.toList ++ ((Nat.repr e).toList ++ more.toList)))) := by
    intro p m e more
    rw [String.toList_append, toList_signatureOf]
    simp
  have hhyphen := Practice.hyphen_notMem_repr
  have h := congrArg String.toList h
  rw [hlist, hlist] at h
  obtain ⟨-, h⟩ := Lists.cut_first_inj (by decide) (by decide) h
  obtain ⟨hpart, h⟩ := Lists.cut_first_inj (hhyphen 'p' (by decide) part)
    (hhyphen 'p' (by decide) part') h
  obtain ⟨hmeasure, h⟩ := Lists.cut_first_inj (hhyphen 'm' (by decide) measure)
    (hhyphen 'm' (by decide) measure') h
  refine ⟨Practice.repr_injective (List.cons.inj hpart).2,
    Practice.repr_injective (List.cons.inj hmeasure).2, Practice.repr_injective ?_⟩
  have h := List.append_cancel_left h
  have hdigits : ∀ n : Nat, '-' ∉ (Nat.repr n).toList := fun n hmem =>
    hhyphen 'e' (by decide) n (List.mem_cons_of_mem _ hmem)
  have hnumbered : ∀ n : Nat, ("-" ++ Nat.repr n).toList = '-' :: (Nat.repr n).toList := by
    intro n
    rw [String.toList_append]
    rfl
  rcases hmore with rfl | ⟨n, rfl⟩ <;> rcases hmore' with rfl | ⟨n', rfl⟩
  · simpa using h
  · rw [hnumbered, String.toList_empty, List.append_nil] at h
    exact absurd (h ▸ List.mem_append_right _ List.mem_cons_self) (hdigits event)
  · rw [hnumbered, String.toList_empty, List.append_nil] at h
    exact absurd (h ▸ List.mem_append_right _ List.mem_cons_self) (hdigits event')
  · rw [hnumbered, hnumbered] at h
    exact (Lists.cut_first_inj (hdigits event) (hdigits event') h).1

end NoteVerse.MusicXml

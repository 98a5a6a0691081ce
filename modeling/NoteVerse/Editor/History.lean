import NoteVerse.Lib.UndoStack

/-!
# Edit history (`editor-history-context.tsx`)

`HistoryProvider` keeps the undo history in cells of React state. `push`,
`undo` and `redo` read the cells as the render that made them saw them, and
queue updates that act on the cells as they then are. So a call has two states
before it: the rendered one and the one that the updates queued so far lead to.

* `apply_ofStack_iff`: when one call does to the cells what the undo stack does;
* `historyProvider_acts_as_stack_iff`: a run stays with the stack exactly when
  each of its calls does, which every call made right after a render does.
-/

structure HistoryEntry where
  xml : String
  action : String
  timestamp : ℕ
  deriving DecidableEq, Repr

/-- The cells of the provider. -/
structure HistoryState where
  history : List HistoryEntry
  currentIndex : ℤ
  isInitialized : Bool
  deriving DecidableEq, Repr

/-- `push`, with what it adds, `undo` and `redo`. -/
inductive HistoryCall
  | push (entry : HistoryEntry)
  | undo
  | redo
  deriving DecidableEq, Repr

namespace HistoryState

/-- The cells at the first render. -/
def empty : HistoryState := ⟨[], -1, false⟩

/-- `history[index]`. -/
def entryAt (history : List HistoryEntry) (index : ℤ) : Option HistoryEntry :=
  if 0 ≤ index then history[index.toNat]? else none

def canUndo (s : HistoryState) : Bool := 0 < s.currentIndex

def canRedo (s : HistoryState) : Bool := s.currentIndex < (s.history.length : ℤ) - 1

/-- `history[currentIndex]?.xml`. -/
def currentXml (s : HistoryState) : Option String :=
  (entryAt s.history s.currentIndex).map (·.xml)

/-- `getCurrentXml`, where an empty text counts as none. -/
def getCurrentXml (s : HistoryState) : Option String := s.currentXml.filter (· ≠ "")

/-- `initialize`, by its callback of the render `rendered`. -/
def initializeHistory (rendered s : HistoryState) (xml : String) (now : ℕ) : HistoryState :=
  if rendered.isInitialized then s else ⟨[⟨xml, "initial", now⟩], 0, true⟩

/-- The updater that `push` queues for the history. The index it has captured
is never below -1, so that `slice` takes from the front. -/
def pushEntry (maxHistorySize : ℕ) (currentIndex : ℤ) (entry : HistoryEntry)
    (prev : List HistoryEntry) : List HistoryEntry :=
  let newHistory := prev.take (currentIndex + 1).toNat ++ [entry]
  if newHistory.length > maxHistorySize then newHistory.tail else newHistory

def push (maxHistorySize : ℕ) (rendered s : HistoryState) (entry : HistoryEntry) : HistoryState :=
  if rendered.currentXml = some entry.xml then s else
    { s with
      history := pushEntry maxHistorySize rendered.currentIndex entry s.history
      currentIndex := min (s.currentIndex + 1) (maxHistorySize - 1) }

/-- `undo`, with the text it returns and hands to `onXmlChange`. -/
def undo (rendered s : HistoryState) : HistoryState × Option String :=
  if rendered.canUndo then
    let newIndex := rendered.currentIndex - 1
    ({ s with currentIndex := newIndex },
      getCurrentXml { rendered with currentIndex := newIndex })
  else (s, none)

/-- `redo`, with the text it returns and hands to `onXmlChange`. -/
def redo (rendered s : HistoryState) : HistoryState × Option String :=
  if rendered.canRedo then
    let newIndex := rendered.currentIndex + 1
    ({ s with currentIndex := newIndex },
      getCurrentXml { rendered with currentIndex := newIndex })
  else (s, none)

/-- The cells once the updates of a call have been applied. -/
def apply (maxHistorySize : ℕ) (rendered s : HistoryState) : HistoryCall → HistoryState
  | .push entry => push maxHistorySize rendered s entry
  | .undo => (undo rendered s).1
  | .redo => (redo rendered s).1

/-- A call made right after a render. -/
def act (maxHistorySize : ℕ) (s : HistoryState) (call : HistoryCall) : HistoryState :=
  apply maxHistorySize s s call

end HistoryState

/-! ## Actions -/

/-- A call through a callback of the last render, or the next render. -/
inductive HistoryAction
  | call (call : HistoryCall)
  | render
  deriving DecidableEq, Repr

/-- The cells as the last render saw them and as they are. -/
structure HistoryRun where
  rendered : HistoryState
  cells : HistoryState
  deriving DecidableEq, Repr

def HistoryRun.next (maxHistorySize : ℕ) (r : HistoryRun) : HistoryAction → HistoryRun
  | .call call => { r with cells := HistoryState.apply maxHistorySize r.rendered r.cells call }
  | .render => { r with rendered := r.cells }

/-- A provider initialized with `xml`, after some actions. -/
def historyAfter (maxHistorySize : ℕ) (xml : String) (now : ℕ) (actions : List HistoryAction) :
    HistoryRun :=
  let s := HistoryState.empty.initializeHistory .empty xml now
  actions.foldl (HistoryRun.next maxHistorySize) ⟨s, s⟩

/-! ## The undo stack -/

/-- What the history is for: an undo stack of texts. -/
abbrev EditStack (limit : ℕ) := UndoStack HistoryEntry.xml limit

namespace EditStack

variable {limit : ℕ}

/-- What a call does to the stack. -/
def act (a : EditStack limit) : HistoryCall → EditStack limit
  | .push entry => UndoStack.push a entry
  | .undo => UndoStack.undo a
  | .redo => UndoStack.redo a

end EditStack

/-- The stack as the last render saw it and as it is. -/
structure StackRun (limit : ℕ) where
  rendered : EditStack limit
  current : EditStack limit

def StackRun.next {limit : ℕ} (r : StackRun limit) : HistoryAction → StackRun limit
  | .call call => { r with current := r.current.act call }
  | .render => { r with rendered := r.current }

/-- A stack with one text, after some actions, each acting in turn. -/
def stackAfter {limit : ℕ} (h : 2 ≤ limit) (xml : String) (now : ℕ)
    (actions : List HistoryAction) : StackRun limit :=
  let a : EditStack limit := .single ⟨xml, "initial", now⟩ (by omega)
  actions.foldl StackRun.next ⟨a, a⟩

/-- The cells that hold a stack. -/
def HistoryState.ofStack {limit : ℕ} (a : EditStack limit) : HistoryState :=
  ⟨a.entries, a.index, true⟩

/-- When a call through a callback of the render at which the stack was `rendered`
does to the stack `a` what it should. It does nothing to both, or acts on both
at the same place, or does once more what a call of that render has already
done and the stack by now ignores. -/
def CallAgrees {limit : ℕ} (rendered a : EditStack limit) : HistoryCall → Prop
  | .push entry =>
    if rendered.present.xml = entry.xml then a.present.xml = entry.xml
    else (a.present.xml ≠ entry.xml ∧ a.index = rendered.index) ∨
      (a.present = entry ∧ a.index + 1 = limit ∧ rendered.index + 2 = limit)
  | .undo =>
    if rendered.past = [] then a.past = []
    else a.index = rendered.index ∨ (a.past = [] ∧ rendered.index = 1)
  | .redo =>
    if rendered.future = [] then a.future = []
    else if a.future = [] then a.index = rendered.index + 1 else a.index = rendered.index

instance {limit : ℕ} (rendered a : EditStack limit) (call : HistoryCall) :
    Decidable (CallAgrees rendered a call) := by
  cases call <;> unfold CallAgrees <;> infer_instance

namespace HistoryState

variable {limit : ℕ} {rendered a : EditStack limit} {entry : HistoryEntry}

/-! ## One call -/

theorem ofStack_injective : Function.Injective (@ofStack limit) := by
  intro a b h
  obtain ⟨hentries, hindex, -⟩ := HistoryState.mk.inj h
  exact UndoStack.eq_of_entries hentries (by exact_mod_cast hindex)

@[simp] theorem currentXml_ofStack : (ofStack a).currentXml = some a.present.xml := by
  have h : entryAt (ofStack a).history (ofStack a).currentIndex = some a.present := by
    rw [entryAt, if_pos (show (0 : ℤ) ≤ (ofStack a).currentIndex from Int.natCast_nonneg _)]
    exact UndoStack.entries_getElem?_index a
  rw [currentXml, h]
  rfl

theorem canUndo_ofStack : (ofStack a).canUndo = true ↔ a.past ≠ [] := by
  rw [canUndo, decide_eq_true_iff, ← List.length_pos_iff]
  exact Int.natCast_pos

theorem canRedo_ofStack : (ofStack a).canRedo = true ↔ a.future ≠ [] := by
  have hlen := UndoStack.length_entries a
  rw [canRedo, decide_eq_true_iff, ← List.length_pos_iff]
  simp only [ofStack]
  omega

theorem pushEntry_ofStack (h : rendered.index + 1 ≤ a.entries.length) :
    pushEntry limit rendered.index entry a.entries =
      if rendered.index + 2 ≤ limit then a.entries.take (rendered.index + 1) ++ [entry]
      else (a.entries.take (rendered.index + 1)).tail ++ [entry] := by
  have hlen : (a.entries.take (rendered.index + 1) ++ [entry]).length = rendered.index + 2 := by
    rw [List.length_append, List.length_take, List.length_singleton]
    omega
  have htail : (a.entries.take (rendered.index + 1) ++ [entry]).tail =
      (a.entries.take (rendered.index + 1)).tail ++ [entry] := by
    refine List.tail_append_of_ne_nil ?_
    rw [ne_eq, ← List.length_eq_zero_iff, List.length_take]
    omega
  have hindex : ((rendered.index : ℤ) + 1).toNat = rendered.index + 1 := by omega
  simp only [pushEntry, hindex, hlen, htail]
  split_ifs <;> first | rfl | omega

theorem apply_undo_iff : apply limit (ofStack rendered) (ofStack a) .undo = ofStack a.undo ↔
    CallAgrees rendered a .undo := by
  have happly : apply limit (ofStack rendered) (ofStack a) .undo =
      if rendered.past = [] then ofStack a
      else ⟨a.entries, (rendered.index : ℤ) - 1, true⟩ := by
    by_cases h : rendered.past = []
    · have hcan : ¬(ofStack rendered).canUndo = true := by rwa [canUndo_ofStack, not_not]
      simp only [apply, undo, hcan, h, if_true]
      rfl
    · simp only [apply, undo, canUndo_ofStack.mpr h, h, if_true, if_false]
      rfl
  have hzero : a.past = [] ↔ a.index = 0 := List.length_eq_zero_iff.symm
  rw [happly, CallAgrees]
  split_ifs with h
  · rw [ofStack_injective.eq_iff]
    refine ⟨fun heq => ?_, fun hpast => (UndoStack.undo_of_past_nil hpast).symm⟩
    by_contra hpast
    have := UndoStack.index_undo hpast
    rw [← heq] at this
    omega
  · have hpos : 0 < rendered.index := List.length_pos_iff.mpr h
    rw [ofStack, mk.injEq, UndoStack.entries_undo]
    by_cases hpast : a.past = []
    · rw [UndoStack.undo_of_past_nil hpast]
      simp only [true_and, and_true, hpast]
      have := hzero.mp hpast
      omega
    · have := UndoStack.index_undo hpast
      simp only [true_and, and_true, hpast, false_and, or_false]
      omega

theorem apply_redo_iff : apply limit (ofStack rendered) (ofStack a) .redo = ofStack a.redo ↔
    CallAgrees rendered a .redo := by
  have happly : apply limit (ofStack rendered) (ofStack a) .redo =
      if rendered.future = [] then ofStack a
      else ⟨a.entries, (rendered.index : ℤ) + 1, true⟩ := by
    by_cases h : rendered.future = []
    · have hcan : ¬(ofStack rendered).canRedo = true := by rwa [canRedo_ofStack, not_not]
      simp only [apply, redo, hcan, h, if_true]
      rfl
    · simp only [apply, redo, canRedo_ofStack.mpr h, h, if_true, if_false]
      rfl
  rw [happly, CallAgrees]
  split_ifs with h hfuture
  · rw [ofStack_injective.eq_iff]
    refine ⟨fun heq => ?_, fun hfuture => (UndoStack.redo_of_future_nil hfuture).symm⟩
    by_contra hfuture
    have := UndoStack.index_redo hfuture
    rw [← heq] at this
    omega
  · rw [ofStack, mk.injEq, UndoStack.redo_of_future_nil hfuture]
    simp only [true_and, and_true]
    omega
  · have := UndoStack.index_redo hfuture
    rw [ofStack, mk.injEq, UndoStack.entries_redo]
    simp only [true_and, and_true]
    omega

/-- A push that the stack ignores is one that it has just made. -/
theorem push_again_iff (hl : 2 ≤ limit) (hreach : rendered.index + 1 ≤ a.entries.length) :
    (⟨pushEntry limit rendered.index entry a.entries,
        min ((a.index : ℤ) + 1) ((limit : ℤ) - 1), true⟩ : HistoryState) = ofStack a ↔
      a.present = entry ∧ a.index + 1 = limit ∧ rendered.index + 2 = limit := by
  have hindex := UndoStack.index_lt a
  have hlen := UndoStack.length_entries_le a
  rw [ofStack, mk.injEq, pushEntry_ofStack hreach]
  constructor
  · rintro ⟨hentries, hmin, -⟩
    have hlast : a.index + 1 = limit := by omega
    have hfull : a.entries.length = limit := by omega
    have hroom : rendered.index + 2 ≤ limit := by
      by_contra hno
      rw [if_neg hno, List.take_of_length_le (by omega)] at hentries
      exact UndoStack.tail_append_ne a (by omega) entry hentries
    rw [if_pos hroom] at hentries
    have hrendered : rendered.index + 2 = limit := by
      have := congrArg List.length hentries
      rw [List.length_append, List.length_take, List.length_singleton] at this
      omega
    refine ⟨?_, hlast, hrendered⟩
    have hget := UndoStack.entries_getElem?_index a
    have hplace : a.index = (a.entries.take (rendered.index + 1)).length := by
      rw [List.length_take]
      omega
    rw [← hentries, hplace, List.getElem?_concat_length] at hget
    exact (Option.some.inj hget).symm
  · rintro ⟨rfl, hlast, hrendered⟩
    have hfuture : a.future = [] := by
      have := UndoStack.length_entries a
      rw [← List.length_eq_zero_iff]
      omega
    have hpast : rendered.index + 1 = a.past.reverse.length := by
      rw [List.length_reverse]
      show rendered.index + 1 = a.index
      omega
    refine ⟨?_, by omega, rfl⟩
    rw [if_pos (by omega), UndoStack.entries, hfuture, hpast, List.take_left]

/-- A push that the stack makes is made to the entries before the rendered place. -/
theorem push_new_iff (hl : 2 ≤ limit) (hreach : rendered.index + 1 ≤ a.entries.length)
    (h : a.present.xml ≠ entry.xml) :
    (⟨pushEntry limit rendered.index entry a.entries,
        min ((a.index : ℤ) + 1) ((limit : ℤ) - 1), true⟩ : HistoryState) =
        ofStack (UndoStack.push a entry) ↔ a.index = rendered.index := by
  have hindex := UndoStack.index_lt a
  have hlen := UndoStack.length_entries_le a
  rw [ofStack, mk.injEq, pushEntry_ofStack hreach, UndoStack.entries_push hl h,
    UndoStack.index_push h]
  constructor
  · rintro ⟨hentries, -, -⟩
    have hlens := congrArg List.length hentries
    split_ifs at hentries hlens with hroom hpush hpush
    · simp only [List.length_append, List.length_take, List.length_singleton] at hlens
      omega
    · have hall : a.entries.take (a.index + 1) = a.entries :=
        List.take_of_length_le (by omega)
      have hbut : a.entries.take (rendered.index + 1) = a.entries.dropLast := by
        simp only [List.length_append, List.length_take, List.length_tail,
          List.length_singleton] at hlens
        rw [List.dropLast_eq_take]
        congr 1
        omega
      rw [hall, hbut] at hentries
      exact absurd (List.append_cancel_right hentries).symm
        (UndoStack.tail_ne_dropLast a (by omega))
    · have hall : a.entries.take (rendered.index + 1) = a.entries :=
        List.take_of_length_le (by omega)
      have hbut : a.entries.take (a.index + 1) = a.entries.dropLast := by
        simp only [List.length_append, List.length_take, List.length_tail,
          List.length_singleton] at hlens
        rw [List.dropLast_eq_take]
        congr 1
        omega
      rw [hall, hbut] at hentries
      exact absurd (List.append_cancel_right hentries) (UndoStack.tail_ne_dropLast a (by omega))
    · omega
  · intro hi
    refine ⟨by rw [hi], by omega, rfl⟩

theorem apply_push_iff (hl : 2 ≤ limit) (hreach : rendered.index + 1 ≤ a.entries.length) :
    apply limit (ofStack rendered) (ofStack a) (.push entry) = ofStack (a.push entry) ↔
      CallAgrees rendered a (.push entry) := by
  have happly : apply limit (ofStack rendered) (ofStack a) (.push entry) =
      if rendered.present.xml = entry.xml then ofStack a
      else ⟨pushEntry limit rendered.index entry a.entries,
        min ((a.index : ℤ) + 1) ((limit : ℤ) - 1), true⟩ := by
    simp only [apply, push, currentXml_ofStack, Option.some.injEq]
    rfl
  rw [happly, CallAgrees]
  split_ifs with hrendered
  · rw [ofStack_injective.eq_iff]
    refine ⟨fun heq => ?_, fun hsame => (UndoStack.push_same hsame).symm⟩
    by_contra hnew
    exact hnew (congrArg HistoryEntry.xml (heq.symm ▸ UndoStack.present_push hnew))
  · by_cases hnow : a.present.xml = entry.xml
    · rw [UndoStack.push_same hnow, push_again_iff hl hreach]
      simp only [hnow, ne_eq, not_true_eq_false, false_and, false_or]
    · have hne : a.present ≠ entry := fun heq => hnow (congrArg _ heq)
      rw [push_new_iff hl hreach hnow]
      simp only [ne_eq, hnow, not_false_eq_true, true_and, hne, false_and, or_false]

/-- A call does to the cells what it should exactly when it agrees. -/
theorem apply_ofStack_iff (hl : 2 ≤ limit) (hreach : rendered.index + 1 ≤ a.entries.length)
    (call : HistoryCall) :
    apply limit (ofStack rendered) (ofStack a) call = ofStack (a.act call) ↔
      CallAgrees rendered a call := by
  cases call with
  | push entry => exact apply_push_iff hl hreach
  | undo => exact apply_undo_iff
  | redo => exact apply_redo_iff

/-- A call made right after a render agrees. -/
theorem callAgrees_self (a : EditStack limit) (call : HistoryCall) : CallAgrees a a call := by
  cases call with
  | push entry =>
    rw [CallAgrees]
    split_ifs with h
    · exact h
    · exact .inl ⟨h, rfl⟩
  | undo =>
    rw [CallAgrees]
    split_ifs with h
    · exact h
    · exact .inl rfl
  | redo =>
    rw [CallAgrees]
    split_ifs with h
    · exact h
    · rfl

theorem act_ofStack (hl : 2 ≤ limit) (a : EditStack limit) (call : HistoryCall) :
    (ofStack a).act limit call = ofStack (a.act call) :=
  (apply_ofStack_iff hl (UndoStack.index_lt a) call).mpr (callAgrees_self a call)

/-- A call that agrees leaves the entries up to the rendered place in the list. -/
theorem index_le_of_agrees (hl : 2 ≤ limit) (hreach : rendered.index + 1 ≤ a.entries.length)
    {call : HistoryCall} (h : CallAgrees rendered a call) :
    rendered.index + 1 ≤ (a.act call).entries.length := by
  cases call with
  | undo => rwa [EditStack.act, UndoStack.entries_undo]
  | redo => rwa [EditStack.act, UndoStack.entries_redo]
  | push entry =>
    by_cases hnow : a.present.xml = entry.xml
    · rwa [EditStack.act, UndoStack.push_same hnow]
    · have hi : a.index = rendered.index := by
        rw [CallAgrees] at h
        split_ifs at h with hrendered
        · contradiction
        · exact h.elim And.right fun h => absurd (congrArg _ h.1) hnow
      have hlt := UndoStack.index_lt (UndoStack.push a entry)
      have hle := UndoStack.length_entries_le a
      rw [UndoStack.index_push hnow] at hlt
      show rendered.index + 1 ≤ (UndoStack.push a entry).entries.length
      omega

end HistoryState

/-! ## What holds of a stack -/

/-- The cells are those of a stack, on which each call right after a render
acts as an undo stack of at most `limit` texts does. -/
structure ActsAsStack {limit : ℕ} (s : HistoryState) (a : EditStack limit) : Prop where
  cells : s = .ofStack a
  index_mem : 0 ≤ s.currentIndex ∧ s.currentIndex < s.history.length
  length_le : s.history.length ≤ limit
  changes : s.history.IsChain fun before after => before.xml ≠ after.xml
  undo_push : ∀ entry, s.currentXml ≠ some entry.xml →
    ((s.act limit (.push entry)).act limit .undo).currentXml = s.currentXml
  redo_undo : s.canUndo = true → (s.act limit .undo).act limit .redo = s
  push_new : ∀ entry, s.currentXml ≠ some entry.xml →
    (s.act limit (.push entry)).currentXml = some entry.xml ∧
    (s.act limit (.push entry)).canRedo = false ∧
    (s.act limit (.push entry)).history =
      if s.currentIndex + 2 ≤ limit then s.history.take (s.currentIndex + 1).toNat ++ [entry]
      else (s.history.take (s.currentIndex + 1).toNat).tail ++ [entry]
  push_same : ∀ entry, s.currentXml = some entry.xml → s.act limit (.push entry) = s
  undo_first : s.canUndo = false → s.act limit .undo = s
  redo_last : s.canRedo = false → s.act limit .redo = s

namespace HistoryState

variable {limit : ℕ}

theorem actsAsStack_ofStack (hl : 2 ≤ limit) (a : EditStack limit) :
    ActsAsStack (ofStack a) a where
  cells := rfl
  index_mem := ⟨Int.natCast_nonneg _, Int.ofNat_lt.mpr (UndoStack.index_lt a)⟩
  length_le := UndoStack.length_entries_le a
  changes := UndoStack.changes_entries a
  undo_push entry h := by
    rw [currentXml_ofStack, ne_eq, Option.some.injEq] at h
    rw [act_ofStack hl, act_ofStack hl, currentXml_ofStack, currentXml_ofStack]
    exact congrArg (fun e => some e.xml) (UndoStack.undo_push hl h).1
  redo_undo h := by
    rw [act_ofStack hl, act_ofStack hl]
    exact congrArg ofStack (UndoStack.redo_undo (canUndo_ofStack.mp h))
  push_new entry h := by
    rw [currentXml_ofStack, ne_eq, Option.some.injEq] at h
    have hlast : ¬(ofStack (a.act (.push entry))).canRedo = true := by
      rw [canRedo_ofStack, not_not]
      exact UndoStack.future_push h
    rw [act_ofStack hl, currentXml_ofStack]
    refine ⟨congrArg (fun e => some e.xml) (UndoStack.present_push h), by simpa using hlast, ?_⟩
    have hindex : ((a.index : ℤ) + 1).toNat = a.index + 1 := by omega
    have hroom : (a.index : ℤ) + 2 ≤ limit ↔ a.index + 2 ≤ limit := by omega
    show (UndoStack.push a entry).entries = _
    simp only [UndoStack.entries_push hl h, ofStack, hindex, hroom]
  push_same entry h := by
    rw [currentXml_ofStack, Option.some.injEq] at h
    rw [act_ofStack hl]
    exact congrArg ofStack (UndoStack.push_same h)
  undo_first h := by
    have hpast : a.past = [] := by
      by_contra hpast
      exact absurd (canUndo_ofStack.mpr hpast) (by simp [h])
    rw [act_ofStack hl]
    exact congrArg ofStack (UndoStack.undo_of_past_nil hpast)
  redo_last h := by
    have hfuture : a.future = [] := by
      by_contra hfuture
      exact absurd (canRedo_ofStack.mpr hfuture) (by simp [h])
    rw [act_ofStack hl]
    exact congrArg ofStack (UndoStack.redo_of_future_nil hfuture)

/-- The text that `undo` returns right after a render is the one it goes back to. -/
theorem undo_answer (hl : 2 ≤ limit) (a : EditStack limit) (h : a.past ≠ []) :
    (undo (ofStack a) (ofStack a)).2 = (ofStack a.undo).getCurrentXml := by
  have hcan := canUndo_ofStack.mpr h
  have hact : (undo (ofStack a) (ofStack a)).1 = ofStack a.undo := act_ofStack hl a .undo
  rw [← hact]
  simp only [undo, hcan, if_true]

/-- The text that `redo` returns right after a render is the one it goes forward to. -/
theorem redo_answer (hl : 2 ≤ limit) (a : EditStack limit) (h : a.future ≠ []) :
    (redo (ofStack a) (ofStack a)).2 = (ofStack a.redo).getCurrentXml := by
  have hcan := canRedo_ofStack.mpr h
  have hact : (redo (ofStack a) (ofStack a)).1 = ofStack a.redo := act_ofStack hl a .redo
  rw [← hact]
  simp only [redo, hcan, if_true]

end HistoryState

/-! ## Runs -/

section

variable {limit : ℕ} (hl : 2 ≤ limit) (xml : String) (now : ℕ)

/-- After a run that has stayed with the stack, the rendered cells are those of
the stack as it was rendered, and its place is still in the list. -/
structure Follows (r : HistoryRun) (t : StackRun limit) : Prop where
  rendered : r.rendered = .ofStack t.rendered
  cells : r.cells = .ofStack t.current
  reach : t.rendered.index + 1 ≤ t.current.entries.length

theorem follows_start : Follows (historyAfter limit xml now []) (stackAfter hl xml now []) where
  rendered := rfl
  cells := rfl
  reach := le_rfl

variable {xml now}

theorem Follows.call_iff (hl : 2 ≤ limit) {r : HistoryRun} {t : StackRun limit} (h : Follows r t)
    (call : HistoryCall) :
    (r.next limit (.call call)).cells = .ofStack (t.next (.call call)).current ↔
      CallAgrees t.rendered t.current call := by
  have hnext := HistoryState.apply_ofStack_iff hl h.reach call
  rwa [← h.rendered, ← h.cells] at hnext

theorem Follows.call (hl : 2 ≤ limit) {r : HistoryRun} {t : StackRun limit} (h : Follows r t)
    {call : HistoryCall}
    (hc : CallAgrees t.rendered t.current call) :
    Follows (r.next limit (.call call)) (t.next (.call call)) where
  rendered := h.rendered
  cells := (Follows.call_iff hl h call).mpr hc
  reach := HistoryState.index_le_of_agrees hl h.reach hc

theorem Follows.render {r : HistoryRun} {t : StackRun limit} (h : Follows r t) :
    Follows (r.next limit .render) (t.next .render) where
  rendered := h.cells
  cells := h.cells
  reach := UndoStack.index_lt t.current

variable (xml now)

theorem historyAfter_concat (done : List HistoryAction) (action : HistoryAction) :
    historyAfter limit xml now (done ++ [action]) =
      (historyAfter limit xml now done).next limit action := by
  rw [historyAfter, historyAfter, List.foldl_concat]

theorem stackAfter_concat (done : List HistoryAction) (action : HistoryAction) :
    stackAfter hl xml now (done ++ [action]) = (stackAfter hl xml now done).next action := by
  rw [stackAfter, stackAfter, List.foldl_concat]

/-- Each call of the actions agrees. -/
def CallsAgree (actions : List HistoryAction) : Prop :=
  ∀ done call, done ++ [.call call] <+: actions →
    CallAgrees (stackAfter hl xml now done).rendered (stackAfter hl xml now done).current call

/-- The cells are those of the stack after each of the actions. -/
def CellsFollow (actions : List HistoryAction) : Prop :=
  ∀ done, done <+: actions →
    (historyAfter limit xml now done).cells = .ofStack (stackAfter hl xml now done).current

theorem callsAgree_concat (done : List HistoryAction) (action : HistoryAction) :
    CallsAgree hl xml now (done ++ [action]) ↔ CallsAgree hl xml now done ∧
      ∀ call, action = .call call →
        CallAgrees (stackAfter hl xml now done).rendered (stackAfter hl xml now done).current
          call := by
  constructor
  · intro h
    refine ⟨fun done' call hpre => h done' call (hpre.trans (List.prefix_append _ _)), ?_⟩
    rintro call rfl
    exact h done call List.prefix_rfl
  · rintro ⟨hdone, hlast⟩ done' call hpre
    obtain heq | hpre := List.prefix_concat_iff.mp hpre
    · obtain ⟨rfl, hcall⟩ := List.append_inj' heq rfl
      exact hlast call (List.cons.inj hcall).1.symm
    · exact hdone done' call hpre

theorem cellsFollow_concat (done : List HistoryAction) (action : HistoryAction) :
    CellsFollow hl xml now (done ++ [action]) ↔ CellsFollow hl xml now done ∧
      ((historyAfter limit xml now done).next limit action).cells =
        .ofStack ((stackAfter hl xml now done).next action).current := by
  rw [← historyAfter_concat, ← stackAfter_concat]
  constructor
  · intro h
    exact ⟨fun done' hpre => h done' (hpre.trans (List.prefix_append _ _)), h _ List.prefix_rfl⟩
  · rintro ⟨hdone, hlast⟩ done' hpre
    obtain rfl | hpre := List.prefix_concat_iff.mp hpre
    · exact hlast
    · exact hdone done' hpre

/-- By induction on the run, which keeps what `Follows` says as long as its calls agree. -/
theorem cellsFollow_iff (actions : List HistoryAction) :
    (CellsFollow hl xml now actions ↔ CallsAgree hl xml now actions) ∧
      (CallsAgree hl xml now actions →
        Follows (historyAfter limit xml now actions) (stackAfter hl xml now actions)) := by
  induction actions using List.reverseRecOn with
  | nil =>
    have hcalls : CallsAgree hl xml now [] := fun done call hpre => by
      simpa using List.prefix_nil.mp hpre
    have hcells : CellsFollow hl xml now [] := fun done hpre => by
      rw [List.prefix_nil.mp hpre]
      rfl
    exact ⟨iff_of_true hcells hcalls, fun _ => follows_start hl xml now⟩
  | append_singleton done action ih =>
    obtain ⟨hiff, hfollows⟩ := ih
    rw [cellsFollow_concat, callsAgree_concat, hiff, historyAfter_concat, stackAfter_concat]
    cases action with
    | call call =>
      refine ⟨and_congr_right fun hdone => ?_, fun ⟨hdone, hlast⟩ => ?_⟩
      · rw [Follows.call_iff hl (hfollows hdone)]
        refine ⟨fun h other heq => ?_, fun h => h call rfl⟩
        cases heq
        exact h
      · exact Follows.call hl (hfollows hdone) (hlast call rfl)
    | render =>
      refine ⟨and_congr_right fun hdone => ?_, fun ⟨hdone, _⟩ => (hfollows hdone).render⟩
      exact iff_of_true (hfollows hdone).cells fun _ heq => HistoryAction.noConfusion heq

/-- The state of the provider is that of an undo stack on which each call acts in
turn, after each of the calls of a run, exactly when each of the calls agrees. -/
theorem historyProvider_acts_as_stack_iff (actions : List HistoryAction) :
    (∀ done, done <+: actions →
      ActsAsStack (historyAfter limit xml now done).cells (stackAfter hl xml now done).current) ↔
    ∀ done call, done ++ [.call call] <+: actions →
      CallAgrees (stackAfter hl xml now done).rendered (stackAfter hl xml now done).current
        call := by
  refine Iff.trans ⟨fun h done hpre => (h done hpre).cells, fun h done hpre => ?_⟩
    (cellsFollow_iff hl xml now actions).1
  rw [h done hpre]
  exact HistoryState.actsAsStack_ofStack hl _

end

/-- Two pushes, an undo of a later render, and a push again. -/
theorem separateRenders_act_as_stack :
    ActsAsStack
      (historyAfter 50 "a" 0 [.call (.push ⟨"b", "edit", 1⟩), .render, .call .undo, .call .undo,
        .render, .call (.push ⟨"c", "edit", 2⟩)]).cells
      (stackAfter (show 2 ≤ 50 by decide) "a" 0 [.call (.push ⟨"b", "edit", 1⟩), .render,
        .call .undo, .call .undo, .render, .call (.push ⟨"c", "edit", 2⟩)]).current := by
  refine (historyProvider_acts_as_stack_iff (by decide) "a" 0 _).mpr ?_ _ List.prefix_rfl
  show CallsAgree _ _ _ ([] ++ [.call (.push ⟨"b", "edit", 1⟩)] ++ [.render] ++ [.call .undo] ++
    [.call .undo] ++ [.render] ++ [.call (.push ⟨"c", "edit", 2⟩)])
  simp only [callsAgree_concat, HistoryAction.call.injEq, forall_eq', reduceCtorEq,
    false_imp_iff, implies_true, and_true]
  refine ⟨⟨⟨⟨fun done call hpre => ?_, ?_⟩, ?_⟩, ?_⟩, ?_⟩
  · simpa using List.prefix_nil.mp hpre
  all_goals decide

/-- The second of two pushes of one render drops the text of the first, and
leaves the index behind the end of the list. -/
theorem twoPushes_lose_text :
    let twoPushes : List HistoryAction :=
      [.call (.push ⟨"b", "edit", 1⟩), .call (.push ⟨"c", "edit", 2⟩)]
    let cells := (historyAfter 50 "a" 0 twoPushes).cells
    ¬ActsAsStack cells (stackAfter (show 2 ≤ 50 by decide) "a" 0 twoPushes).current ∧
      cells.history.map (·.xml) = ["a", "c"] ∧ cells.currentIndex = 2 := by
  intro twoPushes cells
  have hindex : ¬cells.currentIndex < cells.history.length := by decide
  exact ⟨fun h => hindex h.index_mem.2, by decide, by decide⟩

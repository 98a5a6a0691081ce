import NoteVerse.MusicXml.Flatten

/-!
# Voices of a measure and its time

A reader of the measure has one cursor; `normalizeMeasureVoices` has one for each voice. The
two times of a note are followed side by side (`placedNotes`): they are what is read
(`readFrom_eq`) and what is collected (`collect_notesByStaff`), and the notes of a staff are
grouped with the chord members after them (`groupChords_eq`).
-/

namespace NoteVerse.MusicXml.Flatten

open Js

variable {α : Type}

/-! ## Reading with one cursor -/

/-- A note as it is read. -/
structure Sounding (α : Type) where
  content : α
  staff : Int
  onset : Int
  duration : Int
  deriving DecidableEq, Repr

def NoteElement.soundingAt (element : NoteElement α) (onset : Int) : Sounding α :=
  ⟨element.content, getStaff element.toTiming, onset, noteDuration element⟩

/-- The notes from a cursor on; a chord member has the onset of the note before it. -/
def readFrom (cursor onset : Int) : List (MeasureChild α) → List (Sounding α)
  | [] => []
  | .note element :: next =>
    if element.chord then element.soundingAt onset :: readFrom cursor onset next
    else element.soundingAt cursor :: readFrom (cursor + noteDuration element) cursor next
  | .forward element :: next => readFrom (cursor + getDuration element) onset next
  | .backup element :: next => readFrom (max 0 (cursor - getDuration element)) onset next
  | .other _ :: next => readFrom cursor onset next

def readMeasure (measure : List (MeasureChild α)) : List (Sounding α) := readFrom 0 0 measure

/-- Every note and every move of the cursor has a duration. -/
def TakesTime : MeasureChild α → Prop
  | .note element => element.grace = false ∧ 0 < getDuration element.toTiming
  | .forward element | .backup element => 0 < getDuration element
  | .other _ => True

instance (child : MeasureChild α) : Decidable (TakesTime child) :=
  match child with
  | .note _ => inferInstanceAs (Decidable (_ ∧ _))
  | .forward element | .backup element => inferInstanceAs (Decidable (0 < getDuration element))
  | .other _ => inferInstanceAs (Decidable True)

/-! ## The two times of a note -/

/-- The cursor of the reader with the onset of the last note, and a clock for each voice. What
has no voice is in `current`. -/
structure Clocks where
  cursor : Int
  onset : Int
  voices : Int → Int
  current : Int

namespace Clocks

/-- At the start of a measure, what has no voice is in that of the first note. -/
def start (measure : List (MeasureChild α)) : Clocks := ⟨0, 0, fun _ => 0, (firstVoice measure).getD 1⟩

def move (clocks : Clocks) (voice : Int) (f : Int → Int) : Clocks :=
  { clocks with
    cursor := f clocks.cursor
    voices := Function.update clocks.voices voice (f (clocks.voices voice)) }

def pass (clocks : Clocks) : MeasureChild α → Clocks
  | .note element =>
    let voice := getVoice element.toTiming
    if element.chord then { clocks with current := voice }
    else { clocks.move voice (· + noteDuration element) with
      onset := clocks.cursor
      current := voice }
  | .forward element =>
    clocks.move (element.voice.getD clocks.current) (· + getDuration element)
  | .backup element =>
    clocks.move (element.voice.getD clocks.current) fun time => max 0 (time - getDuration element)
  | .other _ => clocks

end Clocks

/-- A note with its place in the document, the time of its voice before it, and its onset. -/
structure PlacedNote (α : Type) where
  note : NoteElement α
  index : Nat
  time : Int
  onset : Int

def placedFrom (clocks : Clocks) (index : Nat) : List (MeasureChild α) → List (PlacedNote α)
  | [] => []
  | .note element :: next =>
    ⟨element, index, clocks.voices (getVoice element.toTiming),
      if element.chord then clocks.onset else clocks.cursor⟩ ::
        placedFrom (clocks.pass (.note element)) (index + 1) next
  | child :: next => placedFrom (clocks.pass child) (index + 1) next

def placedNotes (measure : List (MeasureChild α)) : List (PlacedNote α) :=
  placedFrom (.start measure) 0 measure

namespace PlacedNote

def staff (placed : PlacedNote α) : Int := getStaff placed.note.toTiming

def duration (placed : PlacedNote α) : Int := noteDuration placed.note

/-- The order in which the notes of a staff are written. -/
def Before (a b : PlacedNote α) : Prop := a.time < b.time ∨ a.time = b.time ∧ a.index < b.index

end PlacedNote

/-- Each note with the chord members after it; `root` and its members come first. -/
def gatherChords (root : PlacedNote α) (members : List (PlacedNote α)) :
    List (PlacedNote α) → List (PlacedNote α × List (PlacedNote α))
  | [] => [(root, members)]
  | placed :: next =>
    if placed.note.chord then gatherChords root (members ++ [placed]) next
    else (root, members) :: gatherChords placed [] next

/-- The notes of a staff, each with the chord members that follow it there. -/
def chordsOn (measure : List (MeasureChild α)) (staff : Int) :
    List (PlacedNote α × List (PlacedNote α)) :=
  match (placedNotes measure).filter (·.staff = staff) with
  | [] => []
  | root :: next => gatherChords root [] next

/-! ## What is collected -/

/-- The note as the walk collects it. -/
def PlacedNote.info (placed : PlacedNote α) : NoteInfo α where
  absoluteTime := placed.time
  note := { placed.note with voice := some 1 }
  duration := placed.duration
  isChord := placed.note.chord
  originalVoice := getVoice placed.note.toTiming
  originalIndex := placed.index

theorem readFrom_eq (measure : List (MeasureChild α)) (clocks : Clocks) (index : Nat) :
    readFrom clocks.cursor clocks.onset measure =
      (placedFrom clocks index measure).map fun placed => placed.note.soundingAt placed.onset := by
  induction measure generalizing clocks index with
  | nil => rfl
  | cons child next ih =>
    have hnext := ih (clocks.pass child) (index + 1)
    cases child with
    | note element =>
      rw [readFrom, placedFrom, List.map_cons, ← hnext]
      cases hchord : element.chord <;> simp [Clocks.pass, Clocks.move, hchord]
    | forward element => exact hnext
    | backup element => exact hnext
    | other content => exact hnext

/-- The walk has the clocks of the voices. -/
structure Walk.Follows (walk : Walk α) (clocks : Clocks) (next : List (MeasureChild α)) : Prop where
  voices : ∀ voice, walk.getVC voice = clocks.voices voice
  current : walk.currentProcessingVoice.or (firstVoice next) = some clocks.current

theorem Walk.getVC_setVC (walk : Walk α) (voice pos other : Int) :
    (walk.setVC voice pos).getVC other = if other = voice then pos else walk.getVC other := by
  unfold setVC getVC
  split_ifs with h
  · rw [h, JsMap.get_set_self]
    rfl
  · rw [JsMap.get_set_of_ne h]

theorem Walk.Follows.targetVoice {walk : Walk α} {clocks : Clocks} {next : List (MeasureChild α)}
    (h : walk.Follows clocks next) (element : Timing) :
    targetVoice walk element next = some (element.voice.getD clocks.current) := by
  unfold Flatten.targetVoice
  rw [h.current]
  cases element.voice <;> rfl

variable {walk : Walk α} {clocks : Clocks}

theorem Walk.Follows.move {next : List (MeasureChild α)} (h : walk.Follows clocks next)
    (voice : Int) (f : Int → Int) :
    (walk.setVC voice (f (walk.getVC voice))).Follows (clocks.move voice f) next where
  voices other := by
    show _ = Function.update clocks.voices voice (f (clocks.voices voice)) other
    rw [getVC_setVC, Function.update_apply, h.voices, h.voices]
  current := h.current

theorem collectChild_follows {child : MeasureChild α} {next : List (MeasureChild α)}
    (h : walk.Follows clocks (child :: next)) (i : Nat) :
    (collectChild walk i child next).Follows (clocks.pass child) next := by
  cases child with
  | note element =>
    have hvoices : ∀ voice, (walk.voiceCursors.get voice).getD 0 = clocks.voices voice := h.voices
    cases hchord : element.chord with
    | true =>
      simp only [collectChild, collectNote, Clocks.pass, hchord, if_true]
      exact ⟨hvoices, rfl⟩
    | false =>
      simp only [collectChild, collectNote, Clocks.pass, hchord]
      refine ⟨fun other => ?_, rfl⟩
      simp only [Bool.false_eq_true, if_false, Walk.getVC_setVC, Clocks.move,
        Function.update_apply]
      simp only [Walk.getVC, hvoices]
  | forward element =>
    have hnext : walk.Follows clocks next := ⟨h.voices, h.current⟩
    rw [collectChild, hnext.targetVoice]
    exact hnext.move _ (· + getDuration element)
  | backup element =>
    have hnext : walk.Follows clocks next := ⟨h.voices, h.current⟩
    rw [collectChild, hnext.targetVoice]
    exact hnext.move _ fun time => max 0 (time - getDuration element)
  | other content => exact ⟨h.voices, h.current⟩

/-- The walk puts each note, at the time of its voice, in the list of its staff. -/
theorem collectFrom_notes (measure : List (MeasureChild α)) (h : walk.Follows clocks measure)
    (i : Nat) :
    (collectFrom walk i measure).notesByStaff =
      ((placedFrom clocks i measure).map PlacedNote.info).foldl
        (fun m info => m.appendTo (getStaff info.note.toTiming) info) walk.notesByStaff := by
  induction measure generalizing walk clocks i with
  | nil => rfl
  | cons child next ih =>
    rw [collectFrom, ih (collectChild_follows h i) (i + 1)]
    cases child with
    | note element =>
      rw [placedFrom, List.map_cons, List.foldl_cons]
      congr 1
      have htime := h.voices (getVoice element.toTiming)
      cases hchord : element.chord <;>
        simp [collectChild, collectNote, hchord, PlacedNote.info, PlacedNote.duration, htime,
          Walk.setVC, getStaff]
    | forward element =>
      have hnext : walk.Follows clocks next := ⟨h.voices, h.current⟩
      rw [collectChild, hnext.targetVoice]
      rfl
    | backup element =>
      have hnext : walk.Follows clocks next := ⟨h.voices, h.current⟩
      rw [collectChild, hnext.targetVoice]
      rfl
    | other content => rfl

theorem collectFrom_of_no_note {measure : List (MeasureChild α)} (h : firstVoice measure = none)
    (walk : Walk α) (clocks : Clocks) (i : Nat) :
    (collectFrom walk i measure).notesByStaff = walk.notesByStaff ∧
      placedFrom clocks i measure = [] := by
  induction measure generalizing walk clocks i with
  | nil => exact ⟨rfl, rfl⟩
  | cons child next ih =>
    have hmove : ∀ walk' : Walk α, walk'.notesByStaff = walk.notesByStaff →
        firstVoice next = none → (collectFrom walk' (i + 1) next).notesByStaff =
          walk.notesByStaff ∧ placedFrom (clocks.pass child) (i + 1) next = [] :=
      fun walk' hwalk hnext => hwalk ▸ ih hnext walk' (clocks.pass child) (i + 1)
    cases child with
    | note element => exact absurd h (by simp [firstVoice])
    | forward element =>
      refine hmove _ ?_ h
      rw [collectChild]
      split <;> rfl
    | backup element =>
      refine hmove _ ?_ h
      rw [collectChild]
      split <;> rfl
    | other content => exact hmove walk rfl h

theorem collect_notesByStaff (measure : List (MeasureChild α)) :
    (collectFrom .start 0 measure).notesByStaff =
      JsMap.groupBy (getStaff ·.note.toTiming) ((placedNotes measure).map PlacedNote.info) := by
  unfold placedNotes
  cases hfirst : firstVoice measure with
  | none =>
    obtain ⟨hnotes, hplaced⟩ := collectFrom_of_no_note hfirst .start (.start measure) 0
    rw [hnotes, hplaced]
    rfl
  | some voice =>
    refine collectFrom_notes measure ⟨fun _ => rfl, ?_⟩ 0
    simp [Walk.start, Clocks.start, hfirst]

/-! ## The groups of a staff -/

theorem placedFrom_indices (measure : List (MeasureChild α)) (clocks : Clocks) (i : Nat) :
    (placedFrom clocks i measure).Pairwise (·.index < ·.index) ∧
      ∀ placed ∈ placedFrom clocks i measure, i ≤ placed.index := by
  induction measure generalizing clocks i with
  | nil => exact ⟨.nil, by simp [placedFrom]⟩
  | cons child next ih =>
    have hnext := ih (clocks.pass child) (i + 1)
    cases child with
    | note element =>
      refine ⟨.cons (fun placed hplaced => hnext.2 placed hplaced) hnext.1, ?_⟩
      refine List.forall_mem_cons.mpr ⟨le_refl i, fun placed hplaced => ?_⟩
      exact (Nat.le_succ i).trans (hnext.2 placed hplaced)
    | forward element | backup element | other content =>
      exact ⟨hnext.1, fun placed hplaced => (Nat.le_succ i).trans (hnext.2 placed hplaced)⟩

/-- A note and the members of its chord as the group that is written. -/
def chordGroup (chord : PlacedNote α × List (PlacedNote α)) : ChordGroup α :=
  ⟨chord.1.info.asRoot, chord.2.map PlacedNote.info⟩

theorem foldl_addToGroups (placed : List (PlacedNote α)) (groups : List (ChordGroup α))
    (root : PlacedNote α) (members : List (PlacedNote α)) :
    (placed.map PlacedNote.info).foldl addToGroups (groups ++ [chordGroup (root, members)]) =
      groups ++ (gatherChords root members placed).map chordGroup := by
  induction placed generalizing groups root members with
  | nil => rfl
  | cons next placed ih =>
    rw [List.map_cons, List.foldl_cons, gatherChords]
    cases hchord : next.note.chord with
    | true =>
      have hstep : addToGroups (groups ++ [chordGroup (root, members)]) next.info =
          groups ++ [chordGroup (root, members ++ [next])] := by
        simp [addToGroups, PlacedNote.info, hchord, chordGroup]
      rw [hstep, ih, if_pos rfl]
    | false =>
      have hroot : next.info.asRoot = next.info := by
        simp [NoteInfo.asRoot, PlacedNote.info, hchord]
      have hisChord : ¬next.info.isChord = true := by simp [PlacedNote.info, hchord]
      have hstep : addToGroups (groups ++ [chordGroup (root, members)]) next.info =
          (groups ++ [chordGroup (root, members)]) ++ [chordGroup (next, [])] := by
        rw [addToGroups, if_neg hisChord, chordGroup, chordGroup, hroot]
        rfl
      rw [hstep, ih, if_neg (by decide), List.map_cons, List.append_assoc]
      rfl

theorem groupChords_eq (measure : List (MeasureChild α)) (staff : Int) :
    groupChords (((placedNotes measure).filter (·.staff = staff)).map PlacedNote.info) =
      (chordsOn measure staff).map chordGroup := by
  unfold chordsOn groupChords
  split
  · next hnone => rw [hnone]; rfl
  · next root next hplaced =>
    have hstep : addToGroups [] root.info = [] ++ [chordGroup (root, [])] := by
      cases hchord : root.note.chord <;>
        simp [addToGroups, chordGroup, NoteInfo.asRoot, PlacedNote.info, hchord]
    rw [hplaced, List.map_cons, List.foldl_cons, hstep, foldl_addToGroups, List.nil_append]

/-- The members of a chord are chord members, and its notes are notes of the staff. -/
theorem gatherChords_perm (placed : List (PlacedNote α)) (root : PlacedNote α)
    (members : List (PlacedNote α)) :
    (gatherChords root members placed).flatMap (fun chord => chord.1 :: chord.2) =
      root :: (members ++ placed) := by
  induction placed generalizing root members with
  | nil => simp [gatherChords]
  | cons next placed ih =>
    rw [gatherChords]
    split_ifs
    · rw [ih, List.append_assoc, List.singleton_append]
    · rw [List.flatMap_cons, ih, List.nil_append, List.cons_append]

theorem gatherChords_members {placed : List (PlacedNote α)} {root : PlacedNote α}
    {members : List (PlacedNote α)} (h : ∀ member ∈ members, member.note.chord = true) :
    ∀ chord ∈ gatherChords root members placed, ∀ member ∈ chord.2, member.note.chord = true := by
  induction placed generalizing root members with
  | nil => simpa [gatherChords] using h
  | cons next placed ih =>
    rw [gatherChords]
    split_ifs with hchord
    · refine ih fun member hmember => ?_
      rcases List.mem_append.mp hmember with hmem | hmem
      · exact h member hmem
      · exact (List.mem_singleton.mp hmem) ▸ hchord
    · exact List.forall_mem_cons.mpr ⟨h, ih fun member hmember => absurd hmember List.not_mem_nil⟩

section

variable {measure : List (MeasureChild α)} {staff : Int}

theorem flatMap_chordsOn : (chordsOn measure staff).flatMap (fun chord => chord.1 :: chord.2) =
    (placedNotes measure).filter (·.staff = staff) := by
  unfold chordsOn
  split
  · next hnone => rw [hnone]; rfl
  · next root next hplaced => rw [hplaced, gatherChords_perm, List.nil_append]

theorem chordsOn_members : ∀ chord ∈ chordsOn measure staff, ∀ member ∈ chord.2,
    member.note.chord = true := by
  unfold chordsOn
  split
  · exact fun chord hchord => absurd hchord List.not_mem_nil
  · exact gatherChords_members fun member hmember => absurd hmember List.not_mem_nil

theorem mem_of_mem_chordsOn {chord : PlacedNote α × List (PlacedNote α)}
    (h : chord ∈ chordsOn measure staff) : chord.1 ∈ placedNotes measure := by
  have hmem : chord.1 ∈ (placedNotes measure).filter (·.staff = staff) := by
    rw [← flatMap_chordsOn]
    exact List.mem_flatMap.mpr ⟨chord, h, List.mem_cons_self⟩
  exact (List.mem_filter.mp hmem).1

theorem chordsOn_indices : (chordsOn measure staff).Pairwise fun chord other =>
    chord.1.index < other.1.index := by
  have hplaced := (placedFrom_indices measure (.start measure) 0).1.filter (·.staff = staff)
  have hall : ((chordsOn measure staff).flatMap fun chord => chord.1 :: chord.2).Pairwise
      (·.index < ·.index) := flatMap_chordsOn ▸ hplaced
  refine (List.pairwise_flatMap.mp hall).2.imp fun hpair => ?_
  exact hpair _ List.mem_cons_self _ List.mem_cons_self

end

end NoteVerse.MusicXml.Flatten

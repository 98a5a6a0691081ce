import NoteVerse.Lib.Schedule
import NoteVerse.MusicXml.FlattenTime

/-!
# Normalised voices and the time of the notes

The chords of a staff are written in the order of their voices' times (`writtenOn_sorted`), and
read again one after the other (`readFrom_writeStaffs`). So the notes of a measure are kept
where they are exactly if on each staff the two times agree up to what follows another note
(`KeepsTime`, `normalizeMeasureVoices_keeps_iff`).
-/

namespace NoteVerse.MusicXml.Flatten

open Js

variable {α : Type}

/-- On the staff, the chords stay together, and in the order of their voices' times none starts
before the one before it ends. None starts before the time of its voice, and one that starts
later starts where another ends. -/
structure KeepsTime (measure : List (MeasureChild α)) (staff : Int) : Prop where
  together : ∀ chord ∈ chordsOn measure staff, ∀ member ∈ chord.2, member.onset = chord.1.onset
  apart : ∀ chord ∈ chordsOn measure staff, ∀ other ∈ chordsOn measure staff,
    chord.1.Before other.1 → chord.1.onset + chord.1.duration ≤ other.1.onset
  notEarly : ∀ chord ∈ chordsOn measure staff, chord.1.time ≤ chord.1.onset
  late : ∀ chord ∈ chordsOn measure staff, chord.1.onset = chord.1.time ∨
    ∃ other ∈ chordsOn measure staff, other.1.onset + other.1.duration = chord.1.onset

section

variable {measure : List (MeasureChild α)} {staff : Int}

/-! ## The order of writing -/

/-- The chords of a staff in the order in which they are written. -/
def writtenOn (measure : List (MeasureChild α)) (staff : Int) :
    List (PlacedNote α × List (PlacedNote α)) :=
  (chordsOn measure staff).insertionSort fun a b =>
    compareGroups (chordGroup a) (chordGroup b) ≤ 0

theorem writtenOn_perm : (writtenOn measure staff).Perm (chordsOn measure staff) :=
  List.perm_insertionSort _ _

theorem chordGroups_eq :
    chordGroups (((placedNotes measure).filter (·.staff = staff)).map PlacedNote.info) =
      (writtenOn measure staff).map chordGroup := by
  have hsorted : (((placedNotes measure).filter (·.staff = staff)).map PlacedNote.info).Pairwise
      fun a b => (a.originalIndex : Int) - b.originalIndex ≤ 0 := by
    refine List.pairwise_map.mpr (((placedFrom_indices measure (.start measure) 0).1.filter _).imp
      fun {a b} hlt => ?_)
    show (a.index : Int) - b.index ≤ 0
    omega
  unfold chordGroups writtenOn
  rw [sort, sort, hsorted.insertionSort_eq, groupChords_eq]
  exact (List.map_insertionSort _ _ chordGroup _ fun a _ b _ => Iff.rfl).symm

/-- The time of a chord with its place, in the order of which chords are written. -/
def writeKey (chord : PlacedNote α × List (PlacedNote α)) : ℤ ×ₗ ℕ :=
  toLex (chord.1.time, chord.1.index)

theorem writeKey_lt_iff {a b : PlacedNote α × List (PlacedNote α)} :
    writeKey a < writeKey b ↔ a.1.Before b.1 := Prod.Lex.toLex_lt_toLex

theorem compareGroups_le_iff {a b : PlacedNote α × List (PlacedNote α)} :
    compareGroups (chordGroup a) (chordGroup b) ≤ 0 ↔ writeKey a ≤ writeKey b := by
  unfold writeKey
  rw [Prod.Lex.toLex_le_toLex]
  show (if a.1.time ≠ b.1.time then a.1.time - b.1.time
    else (a.1.index : Int) - b.1.index) ≤ 0 ↔ a.1.time < b.1.time ∨ a.1.time = b.1.time ∧
      a.1.index ≤ b.1.index
  split_ifs <;> omega

theorem writtenOn_sorted : (writtenOn measure staff).Pairwise (writeKey · < writeKey ·) := by
  have hle : (writtenOn measure staff).Pairwise (writeKey · ≤ writeKey ·) :=
    Lists.pairwise_insertionSort_key writeKey fun a _ b _ =>
      ⟨compareGroups_le_iff.mp, fun h => (not_le.mp (mt compareGroups_le_iff.mpr h)).le⟩
  have hne : (writtenOn measure staff).Pairwise fun a b => a.1.index ≠ b.1.index :=
    (writtenOn_perm.pairwise_iff fun h => h.symm).mpr (chordsOn_indices.imp fun h => h.ne)
  refine hle.imp₂ (fun a b hle hne => lt_of_le_of_ne hle fun heq => hne ?_) hne
  exact congrArg (fun key => (ofLex key).2) heq

end

/-! ## Reading what is written -/

/-- The notes of a chord, all at one onset. -/
def soundAll (p : (PlacedNote α × List (PlacedNote α)) × Int) : List (Sounding α) :=
  (p.1.1 :: p.1.2).map (·.note.soundingAt p.2)

theorem readFrom_members {members : List (PlacedNote α)}
    (h : ∀ member ∈ members, member.note.chord = true) (cursor onset : Int)
    (rest : List (MeasureChild α)) :
    readFrom cursor onset ((members.map PlacedNote.info).map (fun info => .note info.note) ++ rest) =
      members.map (·.note.soundingAt onset) ++ readFrom cursor onset rest := by
  induction members with
  | nil => rfl
  | cons member members ih =>
    have hchord : member.info.note.chord = true := h member List.mem_cons_self
    rw [List.map_cons, List.map_cons, List.cons_append, readFrom, if_pos hchord,
      ih fun other hother => h other (List.mem_cons_of_mem member hother)]
    rfl

/-- What is written up to the time of a chord. -/
def gapBefore (staff cursor time : Int) : List (MeasureChild α) :=
  if cursor < time then [.forward ⟨some (time - cursor), some 1, some staff⟩] else []

theorem writeGroup_chordGroup (staff cursor : Int) (chord : PlacedNote α × List (PlacedNote α)) :
    writeGroup staff cursor (chordGroup chord) =
      (gapBefore staff cursor chord.1.time ++ .note chord.1.info.asRoot.note ::
        (chord.2.map PlacedNote.info).map (fun info => .note info.note),
        max cursor chord.1.time + chord.1.duration) := by
  unfold gapBefore
  rcases lt_or_ge cursor chord.1.time with hlt | hge
  · rw [if_pos hlt, max_eq_right hlt.le]
    exact if_pos hlt
  · rw [if_neg hge.not_gt, max_eq_left hge]
    exact if_neg hge.not_gt

theorem readFrom_gapBefore (staff cursor time onset : Int) (rest : List (MeasureChild α)) :
    readFrom cursor onset (gapBefore staff cursor time ++ rest) =
      readFrom (max cursor time) onset rest := by
  unfold gapBefore
  split_ifs with hlt
  · have hcursor : cursor + getDuration ⟨some (time - cursor), some 1, some staff⟩ = time := by
      show cursor + (time - cursor) = time
      omega
    rw [List.singleton_append, readFrom, hcursor, max_eq_right hlt.le]
  · rw [List.nil_append, max_eq_left (not_lt.mp hlt)]

theorem readFrom_writeGroup {chord : PlacedNote α × List (PlacedNote α)}
    (h : ∀ member ∈ chord.2, member.note.chord = true) (staff cursor onset : Int)
    (rest : List (MeasureChild α)) :
    readFrom cursor onset ((writeGroup staff cursor (chordGroup chord)).1 ++ rest) =
      soundAll (chord, max cursor chord.1.time) ++
        readFrom (max cursor chord.1.time + chord.1.duration) (max cursor chord.1.time) rest := by
  rw [writeGroup_chordGroup, List.append_assoc, readFrom_gapBefore, List.cons_append, readFrom,
    if_neg (by simp [NoteInfo.asRoot]), readFrom_members h]
  rfl

/-- The chords of a staff run one after the other. -/
def runOn (cursor : Int) (chords : List (PlacedNote α × List (PlacedNote α))) :
    List ((PlacedNote α × List (PlacedNote α)) × Int) :=
  Schedule.run (·.1.time) (·.1.duration) cursor chords

theorem runOn_cons (cursor : Int) (chord : PlacedNote α × List (PlacedNote α))
    (chords : List (PlacedNote α × List (PlacedNote α))) :
    runOn cursor (chord :: chords) = (chord, max cursor chord.1.time) ::
      runOn (max cursor chord.1.time + chord.1.duration) chords := rfl

theorem map_fst_runOn (cursor : Int) (chords : List (PlacedNote α × List (PlacedNote α))) :
    (runOn cursor chords).map Prod.fst = chords := Schedule.map_fst_run

theorem readFrom_writeGroups {chords : List (PlacedNote α × List (PlacedNote α))}
    (h : ∀ chord ∈ chords, ∀ member ∈ chord.2, member.note.chord = true)
    (staff cursor onset : Int) (rest : List (MeasureChild α)) :
    (∃ onset', readFrom cursor onset
        ((writeGroups staff cursor (chords.map chordGroup)).1 ++ rest) =
      (runOn cursor chords).flatMap soundAll ++
        readFrom (writeGroups staff cursor (chords.map chordGroup)).2 onset' rest) ∧
    (writeGroups staff cursor (chords.map chordGroup)).2 =
      Schedule.finish (·.1.time) (·.1.duration) cursor chords := by
  induction chords generalizing cursor onset with
  | nil => exact ⟨⟨onset, rfl⟩, rfl⟩
  | cons chord chords ih =>
    obtain ⟨⟨onset', hrest⟩, hfinish⟩ := ih (fun other hother =>
      h other (List.mem_cons_of_mem chord hother)) (max cursor chord.1.time + chord.1.duration)
      (max cursor chord.1.time)
    have hread := readFrom_writeGroup (h chord List.mem_cons_self) staff cursor onset
      ((writeGroups staff (writeGroup staff cursor (chordGroup chord)).2
        (chords.map chordGroup)).1 ++ rest)
    have hcursor : (writeGroup staff cursor (chordGroup chord)).2 =
        max cursor chord.1.time + chord.1.duration := by rw [writeGroup_chordGroup]
    simp only [List.map_cons, writeGroups]
    rw [hcursor] at hread ⊢
    refine ⟨⟨onset', ?_⟩, hfinish⟩
    rw [List.append_assoc, hread, hrest, runOn_cons, List.flatMap_cons, List.append_assoc]

/-- The lists of the walk are those of the notes of a staff. -/
def NotesOf (measure : List (MeasureChild α)) (notesByStaff : JsMap Int (List (NoteInfo α))) : Prop :=
  ∀ staff, (notesByStaff.get staff).getD [] =
    ((placedNotes measure).filter (·.staff = staff)).map PlacedNote.info

variable {measure : List (MeasureChild α)}

theorem readFrom_writeStaffs {notesByStaff : JsMap Int (List (NoteInfo α))}
    (hnotes : NotesOf measure notesByStaff)
    (hduration : ∀ placed ∈ placedNotes measure, 0 ≤ placed.duration) (staffs : List Int)
    (onset : Int) :
    readFrom 0 onset (writeStaffs notesByStaff staffs) =
      staffs.flatMap fun staff => (runOn 0 (writtenOn measure staff)).flatMap soundAll := by
  induction staffs generalizing onset with
  | nil => rfl
  | cons staff staffs ih =>
    have hmembers : ∀ chord ∈ writtenOn measure staff, ∀ member ∈ chord.2,
        member.note.chord = true := fun chord hchord =>
      chordsOn_members chord (writtenOn_perm.mem_iff.mp hchord)
    have hfinish : 0 ≤ Schedule.finish (·.1.time) (·.1.duration) 0 (writtenOn measure staff) :=
      Schedule.le_finish fun chord hchord =>
        hduration chord.1 (mem_of_mem_chordsOn (writtenOn_perm.mem_iff.mp hchord))
    simp only [writeStaffs]
    rw [hnotes staff, chordGroups_eq, List.append_assoc, List.flatMap_cons]
    obtain ⟨⟨onset', hread⟩, hcursor⟩ := readFrom_writeGroups hmembers staff 0 onset
      ((if staffs ≠ [] ∧ 0 < (writeGroups staff 0 ((writtenOn measure staff).map chordGroup)).2 then
        [.backup ⟨some (writeGroups staff 0 ((writtenOn measure staff).map chordGroup)).2, none,
          none⟩] else []) ++ writeStaffs notesByStaff staffs)
    rw [hread]
    congr 1
    generalize (writeGroups staff 0 ((writtenOn measure staff).map chordGroup)).2 = cursor at hcursor ⊢
    have hpos : 0 ≤ cursor := hcursor ▸ hfinish
    cases staffs with
    | nil => rfl
    | cons next staffs =>
      by_cases hlt : 0 < cursor
      · rw [if_pos ⟨List.cons_ne_nil _ _, hlt⟩, List.singleton_append, readFrom]
        have hzero : max 0 (cursor - getDuration ⟨some cursor, none, none⟩) = 0 := by
          show max 0 (cursor - cursor) = 0
          omega
        rw [hzero, ih]
      · have hzero : cursor = 0 := by omega
        rw [if_neg fun h => hlt h.2, List.nil_append, hzero, ih]

/-! ## Cleaning up -/

theorem readFrom_keepDuration (measure : List (MeasureChild α)) (cursor onset : Int) :
    readFrom cursor onset (measure.map keepDuration) = readFrom cursor onset measure := by
  induction measure generalizing cursor onset with
  | nil => rfl
  | cons child next ih =>
    cases child <;> simp only [List.map_cons, keepDuration, readFrom, ih] <;> rfl

theorem readFrom_ensureVoice (measure : List (MeasureChild α)) (cursor onset : Int) :
    readFrom cursor onset (measure.map ensureVoice) = readFrom cursor onset measure := by
  induction measure generalizing cursor onset with
  | nil => rfl
  | cons child next ih =>
    cases child <;> simp only [List.map_cons, ensureVoice, readFrom, ih]
    rfl

theorem exists_of_isOther {child : MeasureChild α} (h : isOther child) :
    ∃ content, child = .other content := by
  cases child with
  | other content => exact ⟨content, rfl⟩
  | note element | forward element | backup element => exact absurd h (by simp [isOther])

theorem readFrom_others {others : List (MeasureChild α)} (h : ∀ child ∈ others, isOther child)
    (cursor onset : Int) (rest : List (MeasureChild α)) :
    readFrom cursor onset (others ++ rest) = readFrom cursor onset rest := by
  induction others with
  | nil => rfl
  | cons child others ih =>
    obtain ⟨content, rfl⟩ := exists_of_isOther (h child List.mem_cons_self)
    exact ih fun other hother => h other (List.mem_cons_of_mem _ hother)

theorem rootOrphans_true (measure : List (MeasureChild α)) :
    rootOrphans true measure = measure := by
  induction measure with
  | nil => rfl
  | cons child next ih =>
    cases child <;> simp [rootOrphans, ih]

theorem rootOrphans_ensureVoice (measure : List (MeasureChild α)) (hasMain : Bool) :
    rootOrphans hasMain (measure.map ensureVoice) =
      (rootOrphans hasMain measure).map ensureVoice := by
  induction measure generalizing hasMain with
  | nil => rfl
  | cons child next ih =>
    cases child <;> simp [rootOrphans, ensureVoice, ih]

theorem rootOrphans_others {others : List (MeasureChild α)} (h : ∀ child ∈ others, isOther child)
    {hasMain : Bool} {rest : List (MeasureChild α)} (hrest : rootOrphans hasMain rest = rest) :
    rootOrphans hasMain (others ++ rest) = others ++ rest := by
  induction others with
  | nil => exact hrest
  | cons child others ih =>
    obtain ⟨content, rfl⟩ := exists_of_isOther (h child List.mem_cons_self)
    have hothers := ih fun other hother => h other (List.mem_cons_of_mem _ hother)
    rw [List.cons_append, rootOrphans, hothers]
    simp

/-- What is written for a group begins with its root. -/
theorem rootOrphans_writeGroups (chords : List (PlacedNote α × List (PlacedNote α)))
    (staff cursor : Int) {rest : List (MeasureChild α)}
    (hrest : rootOrphans false rest = rest) :
    rootOrphans false ((writeGroups staff cursor (chords.map chordGroup)).1 ++ rest) =
      (writeGroups staff cursor (chords.map chordGroup)).1 ++ rest := by
  cases chords with
  | nil => exact hrest
  | cons chord chords =>
    simp only [List.map_cons, writeGroups, writeGroup_chordGroup, gapBefore]
    split_ifs <;> simp [rootOrphans, rootOrphans_true, NoteInfo.asRoot]

theorem not_isEmptyCursor_writeGroups (chords : List (PlacedNote α × List (PlacedNote α)))
    (staff cursor : Int) :
    ∀ child ∈ (writeGroups staff cursor (chords.map chordGroup)).1, isEmptyCursor child = false := by
  induction chords generalizing cursor with
  | nil => exact fun child hchild => absurd hchild List.not_mem_nil
  | cons chord chords ih =>
    intro child hchild
    simp only [List.map_cons, writeGroups, writeGroup_chordGroup, List.mem_append, List.mem_cons,
      List.mem_map] at hchild
    rcases hchild with (hgap | rfl | ⟨_, -, rfl⟩) | hrest
    · unfold gapBefore at hgap
      split_ifs at hgap with hlt
      · obtain rfl := List.mem_singleton.mp hgap
        show decide (chord.1.time - cursor ≤ 0) = false
        exact decide_eq_false (by omega)
      · exact absurd hgap List.not_mem_nil
    · rfl
    · rfl
    · exact ih _ child hrest

section

variable {measure : List (MeasureChild α)} {notesByStaff : JsMap Int (List (NoteInfo α))}

theorem rootOrphans_writeStaffs (hnotes : NotesOf measure notesByStaff) (staffs : List Int) :
    rootOrphans false (writeStaffs notesByStaff staffs) = writeStaffs notesByStaff staffs := by
  induction staffs with
  | nil => rfl
  | cons staff staffs ih =>
    simp only [writeStaffs]
    rw [hnotes staff, chordGroups_eq, List.append_assoc]
    refine rootOrphans_writeGroups _ _ _ ?_
    split_ifs
    · rw [List.singleton_append, rootOrphans, ih]
      simp
    · exact ih

theorem not_isEmptyCursor_writeStaffs (hnotes : NotesOf measure notesByStaff) (staffs : List Int) :
    ∀ child ∈ writeStaffs notesByStaff staffs, isEmptyCursor child = false := by
  induction staffs with
  | nil => exact fun child hchild => absurd hchild List.not_mem_nil
  | cons staff staffs ih =>
    intro child hchild
    simp only [writeStaffs] at hchild
    rw [hnotes staff, chordGroups_eq, List.mem_append, List.mem_append] at hchild
    rcases hchild with (hgroups | hbackup) | hrest
    · exact not_isEmptyCursor_writeGroups _ _ _ child hgroups
    · split_ifs at hbackup with hlt
      · obtain rfl := List.mem_singleton.mp hbackup
        exact decide_eq_false (not_le.mpr hlt.2)
      · exact absurd hbackup List.not_mem_nil
    · exact ih child hrest

end

section

variable {measure : List (MeasureChild α)}

/-- The staffs of the notes, in order. -/
def staffsOf (measure : List (MeasureChild α)) : List Int :=
  sort (· - ·) (JsMap.groupBy (getStaff ·.note.toTiming)
    ((placedNotes measure).map PlacedNote.info)).keys

theorem mem_staffsOf {staff : Int} :
    staff ∈ staffsOf measure ↔ ∃ placed ∈ placedNotes measure, placed.staff = staff := by
  unfold staffsOf
  rw [mem_sort, JsMap.mem_keys_groupBy, List.map_map, List.mem_map]
  rfl

theorem staffsOf_nodup : (staffsOf measure).Nodup :=
  (sort_perm _ _).nodup_iff.mpr (JsMap.keys_nodup _)

theorem notesOf_groupBy : NotesOf measure (JsMap.groupBy (getStaff ·.note.toTiming)
    ((placedNotes measure).map PlacedNote.info)) := by
  intro staff
  unfold JsMap.groupBy
  rw [JsMap.getD_foldl_appendTo, JsMap.get_empty, Option.getD_none, List.nil_append, List.filter_map]
  rfl

/-- What is read of a normalised measure. -/
theorem readMeasure_normalizeMeasureVoices
    (hduration : ∀ placed ∈ placedNotes measure, 0 ≤ placed.duration) :
    readMeasure (normalizeMeasureVoices measure) = (staffsOf measure).flatMap fun staff =>
      (runOn 0 (writtenOn measure staff)).flatMap soundAll := by
  have hothers : ∀ child ∈ measure.filter isOther, isOther child :=
    fun child hchild => (List.mem_filter.mp hchild).2
  have hkept : ∀ child ∈ normalizeSingleMeasureVoices measure, isEmptyCursor child = false := by
    intro child hchild
    unfold normalizeSingleMeasureVoices at hchild
    rw [collect_notesByStaff] at hchild
    rcases List.mem_append.mp hchild with hother | hwritten
    · obtain ⟨content, rfl⟩ := exists_of_isOther (hothers child hother)
      rfl
    · exact not_isEmptyCursor_writeStaffs notesOf_groupBy _ child hwritten
  have hfilter : (normalizeSingleMeasureVoices measure).filter (!isEmptyCursor ·) =
      normalizeSingleMeasureVoices measure :=
    List.filter_eq_self.mpr fun child hchild => by rw [hkept child hchild]; rfl
  have horphans : rootOrphans false (normalizeSingleMeasureVoices measure) =
      normalizeSingleMeasureVoices measure := by
    unfold normalizeSingleMeasureVoices
    rw [collect_notesByStaff]
    exact rootOrphans_others hothers (rootOrphans_writeStaffs notesOf_groupBy _)
  unfold readMeasure normalizeMeasureVoices cleanupXMLStructure
  rw [readFrom_keepDuration, hfilter, rootOrphans_ensureVoice, readFrom_ensureVoice, horphans]
  unfold normalizeSingleMeasureVoices
  rw [collect_notesByStaff, readFrom_others hothers, readFrom_writeStaffs notesOf_groupBy hduration]
  rfl

end

/-! ## Where the notes are kept -/

/-- The clock of a voice does not go below zero. -/
theorem placedFrom_times (htime : ∀ child ∈ measure, TakesTime child) {clocks : Clocks}
    (hvoices : ∀ voice, 0 ≤ clocks.voices voice) (i : Nat) :
    ∀ placed ∈ placedFrom clocks i measure, 0 ≤ placed.time ∧ 0 < placed.duration := by
  induction measure generalizing clocks i with
  | nil => exact fun placed hplaced => absurd hplaced List.not_mem_nil
  | cons child next ih =>
    have hchild := htime child List.mem_cons_self
    have hmove : ∀ (voice : Int) (f : Int → Int), (∀ time, 0 ≤ time → 0 ≤ f time) →
        ∀ other, 0 ≤ (clocks.move voice f).voices other := by
      intro voice f hf other
      show 0 ≤ Function.update clocks.voices voice (f (clocks.voices voice)) other
      rw [Function.update_apply]
      split_ifs
      · exact hf _ (hvoices voice)
      · exact hvoices other
    have hnext : (∀ voice, 0 ≤ (clocks.pass child).voices voice) →
        ∀ placed ∈ placedFrom (clocks.pass child) (i + 1) next, 0 ≤ placed.time ∧ 0 < placed.duration :=
      fun h => ih (fun other hother => htime other (List.mem_cons_of_mem child hother)) h (i + 1)
    cases child with
    | note element =>
      have hduration : 0 < noteDuration element := by
        rw [noteDuration, if_neg (by simp [hchild.1])]
        exact hchild.2
      refine List.forall_mem_cons.mpr ⟨⟨hvoices _, hduration⟩, hnext ?_⟩
      intro other
      have hmoved := hmove (getVoice element.toTiming) (· + noteDuration element)
        (fun time htime => by omega) other
      cases hchord : element.chord with
      | true => simpa [Clocks.pass, hchord] using hvoices other
      | false => simpa [Clocks.pass, hchord] using hmoved
    | forward element =>
      have hduration : 0 < getDuration element := hchild
      exact hnext (hmove _ (· + getDuration element) fun time htime => by omega)
    | backup element =>
      exact hnext (hmove _ (fun time => max 0 (time - getDuration element))
        fun time htime => le_max_left _ _)
    | other content => exact hnext hvoices

/-- The runs of the chords of a staff put them where they are read. -/
theorem runOn_eq_iff
    (htimes : ∀ placed ∈ placedNotes measure, 0 ≤ placed.time ∧ 0 < placed.duration) (staff : Int) :
    (∀ p ∈ runOn 0 (writtenOn measure staff), ∀ placed ∈ p.1.1 :: p.1.2, p.2 = placed.onset) ↔
      KeepsTime measure staff := by
  have hmem : ∀ {chord}, chord ∈ writtenOn measure staff ↔ chord ∈ chordsOn measure staff :=
    writtenOn_perm.mem_iff
  have hchord : ∀ chord ∈ chordsOn measure staff, 0 ≤ chord.1.time ∧ 0 < chord.1.duration :=
    fun chord hchord => htimes chord.1 (mem_of_mem_chordsOn hchord)
  have htight : (∀ p ∈ runOn 0 (writtenOn measure staff), p.2 = p.1.1.onset) ↔
      Schedule.Tight (·.1.time) (·.1.duration) (·.1.onset) 0 (writtenOn measure staff) :=
    @Schedule.run_eq_iff _ _ _ _ _ (·.1.time) (·.1.duration) (·.1.onset) 0 _
      fun chord h => (hchord chord (hmem.mp h)).2
  have hsplit : (∀ p ∈ runOn 0 (writtenOn measure staff), ∀ placed ∈ p.1.1 :: p.1.2,
      p.2 = placed.onset) ↔ (∀ p ∈ runOn 0 (writtenOn measure staff), p.2 = p.1.1.onset) ∧
        ∀ p ∈ runOn 0 (writtenOn measure staff), ∀ placed ∈ p.1.2, placed.onset = p.1.1.onset := by
    rw [← forall₂_and]
    refine forall₂_congr fun p _ => ?_
    rw [List.forall_mem_cons]
    refine and_congr_right fun hroot => ?_
    rw [hroot]
    exact forall₂_congr fun placed _ => eq_comm
  have hmembers : (∀ p ∈ runOn 0 (writtenOn measure staff), ∀ placed ∈ p.1.2,
      placed.onset = p.1.1.onset) ↔
      ∀ chord ∈ chordsOn measure staff, ∀ placed ∈ chord.2, placed.onset = chord.1.onset := by
    have hfst := map_fst_runOn 0 (writtenOn measure staff)
    constructor
    · intro h chord hin
      obtain ⟨p, hp, rfl⟩ := List.mem_map.mp (hfst ▸ hmem.mpr hin)
      exact h p hp
    · exact fun h p hp => h p.1 (hmem.mp (hfst ▸ List.mem_map_of_mem hp))
  rw [hsplit, hmembers, htight]
  constructor
  · rintro ⟨⟨hinOrder, hafter, hreleased, hlate⟩, htogether⟩
    refine ⟨htogether, fun chord h other hother hbefore => ?_, fun chord h =>
      hreleased chord (hmem.mpr h), fun chord h => ?_⟩
    · exact (Lists.pairwise_iff_of_lt writtenOn_sorted).mp hinOrder chord (hmem.mpr h) other
        (hmem.mpr hother) (writeKey_lt_iff.mpr hbefore)
    · rcases hlate chord (hmem.mpr h) with heq | hzero | ⟨other, hother, heq⟩
      · exact .inl heq
      · have hle := hreleased chord (hmem.mpr h)
        have hpos := (hchord chord h).1
        exact .inl (by omega)
      · exact .inr ⟨other, hmem.mp hother, heq⟩
  · rintro ⟨htogether, hapart, hnotEarly, hlate⟩
    refine ⟨⟨?_, fun chord h => ?_, fun chord h => hnotEarly chord (hmem.mp h), fun chord h => ?_⟩,
      htogether⟩
    · exact (Lists.pairwise_iff_of_lt writtenOn_sorted).mpr fun chord h other hother hlt =>
        hapart chord (hmem.mp h) other (hmem.mp hother) (writeKey_lt_iff.mp hlt)
    · exact (hchord chord (hmem.mp h)).1.trans (hnotEarly chord (hmem.mp h))
    · rcases hlate chord (hmem.mp h) with heq | ⟨other, hother, heq⟩
      · exact .inl heq
      · exact .inr (.inr ⟨other, hmem.mpr hother, heq⟩)

section

variable {measure : List (MeasureChild α)}

/-- The notes with the onsets at which they are written. -/
def writtenNotes (measure : List (MeasureChild α)) : List (PlacedNote α × Int) :=
  (staffsOf measure).flatMap fun staff =>
    (runOn 0 (writtenOn measure staff)).flatMap fun p => (p.1.1 :: p.1.2).map (·, p.2)

theorem readMeasure_eq_writtenNotes
    (hduration : ∀ placed ∈ placedNotes measure, 0 ≤ placed.duration) :
    readMeasure (normalizeMeasureVoices measure) =
      (writtenNotes measure).map fun p => p.1.note.soundingAt p.2 := by
  rw [readMeasure_normalizeMeasureVoices hduration]
  simp only [writtenNotes, List.map_flatMap, List.map_map]
  rfl

/-- Every note is written once. -/
theorem writtenNotes_perm : ((writtenNotes measure).map Prod.fst).Perm (placedNotes measure) := by
  have hrun : ∀ staff, (runOn 0 (writtenOn measure staff)).flatMap (fun p => p.1.1 :: p.1.2) =
      (writtenOn measure staff).flatMap fun chord => chord.1 :: chord.2 := by
    intro staff
    nth_rewrite 2 [← map_fst_runOn 0 (writtenOn measure staff)]
    rw [List.flatMap_map]
  have hfst : (writtenNotes measure).map Prod.fst = (staffsOf measure).flatMap fun staff =>
      (writtenOn measure staff).flatMap fun chord => chord.1 :: chord.2 := by
    simp only [writtenNotes, List.map_flatMap, List.map_map, ← hrun]
    refine List.flatMap_congr fun staff _ => List.flatMap_congr fun p _ => ?_
    exact List.map_id _
  have hstaff : ∀ staff ∈ staffsOf measure,
      ((writtenOn measure staff).flatMap fun chord => chord.1 :: chord.2).Perm
        ((placedNotes measure).filter (·.staff = staff)) := fun staff _ =>
    flatMap_chordsOn ▸ writtenOn_perm.flatMap_right _
  have hstaffs : ((staffsOf measure).map id).Nodup := by
    rw [List.map_id]
    exact staffsOf_nodup
  have hmem : ∀ placed ∈ placedNotes measure, placed.staff ∈ (staffsOf measure).map id := by
    intro placed h
    rw [List.map_id]
    exact mem_staffsOf.mpr ⟨placed, h, rfl⟩
  rw [hfst]
  exact (List.Perm.flatMap_left _ hstaff).trans
    (Lists.perm_flatMap_filter id PlacedNote.staff hstaffs hmem)

/-- Where the notes can be told apart, each is read where it was exactly if all staffs keep their
time. -/
theorem readMeasure_perm_iff (htime : ∀ child ∈ measure, TakesTime child)
    (hcontent : ((placedNotes measure).map (·.note.content)).Nodup) :
    (readMeasure (normalizeMeasureVoices measure)).Perm (readMeasure measure) ↔
      ∀ staff, KeepsTime measure staff := by
  have htimes : ∀ placed ∈ placedNotes measure, 0 ≤ placed.time ∧ 0 < placed.duration :=
    placedFrom_times htime (fun _ => le_refl 0) 0
  have hread : readMeasure measure = (placedNotes measure).map fun placed =>
      placed.note.soundingAt placed.onset := readFrom_eq measure (.start measure) 0
  have hout : ∀ x ∈ placedNotes measure, ∀ y ∈ placedNotes measure, ∀ v w,
      x.note.soundingAt v = y.note.soundingAt w → x = y ∧ v = w := by
    intro x hx y hy v w heq
    exact ⟨List.inj_on_of_nodup_map hcontent hx hy (congrArg Sounding.content heq),
      congrArg Sounding.onset heq⟩
  rw [readMeasure_eq_writtenNotes fun placed h => (htimes placed h).2.le, hread,
    Lists.map_perm_map_iff writtenNotes_perm hout]
  simp only [← runOn_eq_iff htimes]
  constructor
  · intro h staff p hp placed hplaced
    have hmem : p.1 ∈ (runOn 0 (writtenOn measure staff)).map Prod.fst := List.mem_map_of_mem hp
    rw [map_fst_runOn] at hmem
    have hchord : p.1 ∈ chordsOn measure staff := writtenOn_perm.mem_iff.mp hmem
    have hroot : p.1.1 ∈ (placedNotes measure).filter (·.staff = staff) :=
      flatMap_chordsOn ▸ List.mem_flatMap.mpr ⟨p.1, hchord, List.mem_cons_self⟩
    have hstaff : staff ∈ staffsOf measure := mem_staffsOf.mpr
      ⟨p.1.1, (List.mem_filter.mp hroot).1, of_decide_eq_true (List.mem_filter.mp hroot).2⟩
    exact h (placed, p.2) (List.mem_flatMap.mpr ⟨staff, hstaff,
      List.mem_flatMap.mpr ⟨p, hp, List.mem_map_of_mem hplaced⟩⟩)
  · intro h pair hpair
    obtain ⟨staff, -, hpair⟩ := List.mem_flatMap.mp hpair
    obtain ⟨p, hp, hpair⟩ := List.mem_flatMap.mp hpair
    obtain ⟨placed, hplaced, rfl⟩ := List.mem_map.mp hpair
    exact h staff p hp placed hplaced

end

/-! ## The notes as nodes -/

def NoteElement.tag (element : NoteElement α) (index : Nat) : NoteElement (α × Nat) :=
  ⟨element.toTiming, element.chord, element.grace, (element.content, index)⟩

def MeasureChild.tag (index : Nat) : MeasureChild α → MeasureChild (α × Nat)
  | .note element => .note (element.tag index)
  | .forward element => .forward element
  | .backup element => .backup element
  | .other content => .other (content, index)

/-- The measure with the place of each node, which its copy keeps. -/
def tagged (measure : List (MeasureChild α)) : List (MeasureChild (α × Nat)) :=
  measure.zipIdx.map fun p => p.1.tag p.2

/-- Each note of the measure is read of the normalised one, once, with its staff, onset and
duration. -/
def KeepsNotes (measure : List (MeasureChild α)) : Prop :=
  (readMeasure (normalizeMeasureVoices (tagged measure))).Perm (readMeasure (tagged measure))

def PlacedNote.tag (placed : PlacedNote α) : PlacedNote (α × Nat) :=
  ⟨placed.note.tag placed.index, placed.index, placed.time, placed.onset⟩

theorem placedFrom_tag (measure : List (MeasureChild α)) (clocks : Clocks) (i : Nat) :
    placedFrom clocks i ((measure.zipIdx i).map fun p => p.1.tag p.2) =
      (placedFrom clocks i measure).map PlacedNote.tag := by
  induction measure generalizing clocks i with
  | nil => rfl
  | cons child next ih =>
    rw [List.zipIdx_cons, List.map_cons]
    cases child with
    | note element =>
      show _ :: placedFrom (clocks.pass (.note element)) (i + 1) _ = _
      rw [ih]
      rfl
    | forward element => exact ih (clocks.pass (.forward element)) (i + 1)
    | backup element => exact ih (clocks.pass (.backup element)) (i + 1)
    | other content => exact ih clocks (i + 1)

theorem firstVoice_tag (measure : List (MeasureChild α)) (i : Nat) :
    firstVoice ((measure.zipIdx i).map fun p => p.1.tag p.2) = firstVoice measure := by
  induction measure generalizing i with
  | nil => rfl
  | cons child next ih =>
    cases child with
    | note element => rfl
    | forward element | backup element | other content => exact ih (i + 1)

theorem placedNotes_tagged (measure : List (MeasureChild α)) :
    placedNotes (tagged measure) = (placedNotes measure).map PlacedNote.tag := by
  unfold placedNotes tagged
  rw [Clocks.start, firstVoice_tag]
  exact placedFrom_tag measure _ 0

theorem gatherChords_tag (placed : List (PlacedNote α)) (root : PlacedNote α)
    (members : List (PlacedNote α)) :
    gatherChords root.tag (members.map PlacedNote.tag) (placed.map PlacedNote.tag) =
      (gatherChords root members placed).map (Prod.map PlacedNote.tag (List.map PlacedNote.tag)) := by
  induction placed generalizing root members with
  | nil => rfl
  | cons next placed ih =>
    have hmember := ih root (members ++ [next])
    rw [List.map_append] at hmember
    have hroot := ih next []
    rw [List.map_cons, gatherChords, gatherChords]
    show (if next.note.chord = true then _ else _) = _
    split_ifs
    · exact hmember
    · rw [List.map_cons]
      exact congrArg _ hroot

theorem chordsOn_tagged (measure : List (MeasureChild α)) (staff : Int) :
    chordsOn (tagged measure) staff =
      (chordsOn measure staff).map (Prod.map PlacedNote.tag (List.map PlacedNote.tag)) := by
  have hfilter : ((placedNotes measure).map PlacedNote.tag).filter (·.staff = staff) =
      ((placedNotes measure).filter (·.staff = staff)).map PlacedNote.tag := List.filter_map
  unfold chordsOn
  rw [placedNotes_tagged, hfilter]
  cases (placedNotes measure).filter (·.staff = staff) with
  | nil => rfl
  | cons root next => exact gatherChords_tag next root []

theorem keepsTime_tagged {staff : Int} :
    KeepsTime (tagged measure) staff ↔ KeepsTime measure staff := by
  have hchords := chordsOn_tagged measure staff
  constructor
  · rintro ⟨htogether, hapart, hnotEarly, hlate⟩
    rw [hchords] at htogether hapart hnotEarly hlate
    simp only [List.forall_mem_map] at htogether hapart hnotEarly hlate
    refine ⟨fun chord h member hmember => ?_, hapart, hnotEarly, fun chord h => ?_⟩
    · exact htogether chord h member.tag (List.mem_map_of_mem hmember)
    · rcases hlate chord h with heq | ⟨other, hother, heq⟩
      · exact .inl heq
      · obtain ⟨other, hin, rfl⟩ := List.mem_map.mp hother
        exact .inr ⟨other, hin, heq⟩
  · rintro ⟨htogether, hapart, hnotEarly, hlate⟩
    constructor
    all_goals rw [hchords]; simp only [List.forall_mem_map]
    · intro chord h member hmember
      obtain ⟨member, hin, rfl⟩ := List.mem_map.mp hmember
      exact htogether chord h member hin
    · exact hapart
    · exact hnotEarly
    · intro chord h
      rcases hlate chord h with heq | ⟨other, hother, heq⟩
      · exact .inl heq
      · exact .inr ⟨_, List.mem_map_of_mem hother, heq⟩

/-- Normalising the voices keeps the notes of a measure where they are exactly if all staffs keep
their time. -/
theorem normalizeMeasureVoices_keeps_iff {measure : List (MeasureChild α)}
    (htime : ∀ child ∈ measure, TakesTime child) :
    KeepsNotes measure ↔ ∀ staff, KeepsTime measure staff := by
  have htagged : ∀ child ∈ tagged measure, TakesTime child := by
    intro child hchild
    obtain ⟨⟨other, index⟩, hother, rfl⟩ := List.mem_map.mp hchild
    have h := htime other (List.fst_mem_of_mem_zipIdx hother)
    cases other <;> exact h
  have hcontent : ((placedNotes (tagged measure)).map (·.note.content)).Nodup := by
    rw [placedNotes_tagged, List.map_map]
    refine List.pairwise_map.mpr ((placedFrom_indices measure (.start measure) 0).1.imp ?_)
    exact fun hlt heq => hlt.ne (congrArg Prod.snd heq)
  unfold KeepsNotes
  rw [readMeasure_perm_iff htagged hcontent]
  exact forall_congr' fun staff => keepsTime_tagged

/-! ## Two voices -/

def halfNote (voice staff : Int) (pitch : String) : MeasureChild String :=
  .note ⟨⟨some 2, some voice, some staff⟩, false, false, pitch⟩

/-- A half note in each of two staffs, with a backup between them. -/
def twoStaffs : List (MeasureChild String) :=
  [halfNote 1 1 "C4", .backup ⟨some 2, none, none⟩, halfNote 5 2 "E3"]

theorem normalizeMeasureVoices_keeps_twoStaffs :
    (∀ child ∈ twoStaffs, TakesTime child) ∧ ∀ staff, KeepsTime twoStaffs staff :=
  have htime : ∀ child ∈ twoStaffs, TakesTime child := by decide
  ⟨htime, (normalizeMeasureVoices_keeps_iff htime).mp (by unfold KeepsNotes; decide)⟩

/-- Two half notes on one staff, in two voices that sound together; the second is written after
the first. -/
theorem overlapping_voices_moved :
    let measure := [halfNote 1 1 "C4", .backup ⟨some 2, none, none⟩, halfNote 2 1 "E4"]
    (∀ child ∈ measure, TakesTime child) ∧ ¬KeepsNotes measure := by
  unfold KeepsNotes
  decide

end NoteVerse.MusicXml.Flatten

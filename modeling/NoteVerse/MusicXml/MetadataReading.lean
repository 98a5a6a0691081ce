import NoteVerse.MusicXml.Metadata

/-!
# What the metadata loops read

The cursor of a part goes from child to child (`Place.after`), with divisions that later
measures inherit. What `extract_musicxml_metadata` reads of a measure are the greatest position
of the cursor and the positions of the tempo directions (`readMeasure_ok`), and of a score these
for its first part and the greatest positions of any part (`readScore_ok`).
-/

namespace NoteVerse.MusicXml.Metadata

open Xml

/-! ## The cursor -/

/-- Where the cursor of a part is. -/
structure Place where
  divisions : ℤ
  cursor : ℚ

/-- The quarters of a duration; an element without one has none. -/
def quarters (el : Node) (divisions : ℤ) : ℚ :=
  ((text el "duration").bind Python.float?).getD 0 / divisions

/-- Notes, except those of a chord that has begun, and forwards move the cursor on. -/
def moves (el : Node) : Bool := name el = "forward" ∨ (name el = "note" ∧ (child el "chord").isNone)

def Place.after (p : Place) (el : Node) : Place :=
  if name el = "attributes" then
    { p with divisions := ((text el "divisions").bind Python.int?).getD p.divisions }
  else if name el = "backup" then
    { p with cursor := max 0 (p.cursor - quarters el p.divisions) }
  else if moves el then { p with cursor := p.cursor + quarters el p.divisions }
  else p

/-- The tempo of a direction. -/
def tempo (el : Node) : Option ℚ :=
  if name el = "direction" then (directionTempo el).toOption.join else none

/-- The greatest position of the cursor from a place on. -/
def greatest (p : Place) (els : List Node) : ℚ :=
  ((els.scanl Place.after p).map Place.cursor).foldr max 0

/-- The tempo directions from a place on, with their positions. -/
def directions (p : Place) : List Node → List (ℚ × ℚ)
  | [] => []
  | el :: els => (tempo el).toList.map (p.cursor, ·) ++ directions (p.after el) els

/-- A value of each measure of a part. -/
def readings {α : Type} (f : Place → List Node → α) (divisions : ℤ) : List Node → List α
  | [] => []
  | measure :: measures =>
    let els := Practice.ScoreTimeline.elements measure
    f ⟨divisions, 0⟩ els ::
      readings f (els.foldl Place.after ⟨divisions, 0⟩).divisions measures

/-- The lengths of the measures: the greatest position of any part. -/
def measureLengths (measuresByPart : List (List Node)) : List ℚ :=
  (List.range (measureCount measuresByPart)).map fun index =>
    (measuresByPart.map fun part => (readings greatest 1 part).getD index 0).foldl max 0

/-- The tempo directions of the measures of the first part. -/
def measureTempos (measuresByPart : List (List Node)) : List (List (ℚ × ℚ)) :=
  readings directions 1 (measuresByPart.headD [])

/-! ## A child -/

theorem positiveInt_ok {value : Option String} {code : String} {n : ℤ}
    (h : positiveInt value code = .ok n) : Python.int? (value.getD "") = some n ∧ 0 < n := by
  unfold positiveInt requiredInt at h
  split at h
  · cases h
  · rename_i parsed hparsed
    simp only [Python.ok_bind] at h
    split_ifs at h with hle
    · cases h
    · cases h
      exact ⟨hparsed, not_le.mp hle⟩

theorem positiveFloat_ok {value : Option String} {code : String} {allowZero : Bool} {x : ℚ}
    (h : positiveFloat value code allowZero = .ok x) :
    Python.float? (value.getD "") = some x ∧ 0 ≤ x ∧ (allowZero = false → 0 < x) := by
  unfold positiveFloat at h
  split at h
  · cases h
  · rename_i parsed hparsed
    split_ifs at h with hbad
    cases h
    obtain ⟨hneg, hzero⟩ := not_or.mp hbad
    refine ⟨hparsed, not_lt.mp hneg, fun hallow => lt_of_le_of_ne (not_lt.mp hneg) fun heq => ?_⟩
    exact hzero ⟨heq.symm, by simp [hallow]⟩

variable {el : Node} {divisions : ℤ} {index : ℕ} {e e' : Extraction} {lengths : List ℚ}
  {measuresByPart : List (List Node)}

theorem duration_ok {d : ℚ} (hdivisions : 0 < divisions) (h : duration el divisions = .ok d) :
    d = quarters el divisions ∧ 0 ≤ d := by
  have hpos : (0 : ℚ) < divisions := Int.cast_pos.mpr hdivisions
  unfold duration at h
  unfold quarters
  split at h
  · rename_i hnone
    cases h
    simp [hnone]
  · rename_i value hvalue
    obtain ⟨parsed, hparsed, h⟩ := Python.bind_eq_ok.mp h
    cases h
    obtain ⟨hfloat, hnonneg, -⟩ := positiveFloat_ok hparsed
    have hread : Python.float? value = some parsed := hfloat
    rw [hvalue, Option.bind_some, hread]
    exact ⟨rfl, div_nonneg hnonneg hpos.le⟩

theorem readDivisions_ok {n : ℤ} (hdivisions : 0 < divisions)
    (h : readDivisions divisions el = .ok n) :
    n = ((text el "divisions").bind Python.int?).getD divisions ∧ 0 < n := by
  unfold readDivisions at h
  split at h
  · rename_i hnone
    cases h
    simp [hnone, hdivisions]
  · rename_i value hvalue
    obtain ⟨hint, hpos⟩ := positiveInt_ok h
    have hread : Python.int? value = some n := hint
    rw [hvalue, Option.bind_some, hread]
    exact ⟨rfl, hpos⟩

theorem directionTempo_pos {bpm : ℚ} (h : directionTempo el = .ok (some bpm)) : 0 < bpm := by
  have hmap : ∀ value code, some <$> positiveFloat value code false = .ok (some bpm) →
      0 < bpm := by
    intro value code h
    obtain ⟨x, hx, hsome⟩ := Python.map_eq_ok.mp h
    obtain rfl := Option.some.inj hsome
    exact (positiveFloat_ok hx).2.2 rfl
  unfold directionTempo at h
  dsimp only at h
  split at h
  · exact hmap _ _ h
  · split at h
    · exact hmap _ _ h
    · cases h

namespace Reading

/-- The place of a reading. -/
def place (r : Reading) : Place := ⟨r.divisions, r.cursor⟩

/-- The cursor is within what was passed, and so are the tempo directions. -/
structure Ok (r : Reading) : Prop where
  divisions : 0 < r.divisions
  cursor : 0 ≤ r.cursor ∧ r.cursor ≤ r.maximum
  tempos : ∀ event ∈ r.measureTempos, (0 ≤ event.1 ∧ event.1 ≤ r.maximum) ∧ 0 < event.2

end Reading

/-- A child that is not a direction and moves the cursor to a place. -/
theorem Reading.Ok.move {r : Reading} (h : r.Ok) {cursor : ℚ} (hcursor : 0 ≤ cursor) :
    Reading.Ok { r with cursor, maximum := max r.maximum cursor } where
  divisions := h.divisions
  cursor := ⟨hcursor, le_max_right _ _⟩
  tempos event hevent :=
    ⟨⟨(h.tempos event hevent).1.1, (h.tempos event hevent).1.2.trans (le_max_left _ _)⟩,
      (h.tempos event hevent).2⟩

/-- What a child does to a reading. -/
theorem readChild_ok {part : ℕ} {measureNumber : String} {r r' : Reading} (h : r.Ok)
    (hread : readChild part measureNumber r el = .ok r') :
    r'.Ok ∧ r'.place = r.place.after el ∧ r'.maximum = max r.maximum (r.place.after el).cursor ∧
      r'.measureTempos = r.measureTempos ++ (tempo el).toList.map (r.cursor, ·) := by
  have hsame : max r.maximum r.cursor = r.maximum := max_eq_left h.cursor.2
  unfold readChild at hread
  split_ifs at hread with hattributes hdirection hbackup hforward hnote hchord
  · -- attributes
    obtain ⟨divisions, hdivisions, hread⟩ := Python.bind_eq_ok.mp hread
    obtain ⟨keys, -, hread⟩ := Python.bind_eq_ok.mp hread
    obtain ⟨times, -, hread⟩ := Python.bind_eq_ok.mp hread
    cases hread
    obtain ⟨hvalue, hpos⟩ := readDivisions_ok h.divisions hdivisions
    have htempo : tempo el = none := by simp [tempo, hattributes]
    refine ⟨⟨hpos, h.cursor, h.tempos⟩, ?_, ?_, by simp [htempo]⟩
    · simp [Reading.place, Place.after, hattributes, hvalue]
    · simp [Reading.place, Place.after, hattributes, hsame]
  · -- a direction
    have hafter : r.place.after el = r.place := by
      simp [Place.after, hdirection, moves]
    obtain ⟨found, hfound, hread⟩ := Python.bind_eq_ok.mp hread
    have htempo : tempo el = found := by simp [tempo, hdirection, hfound, Except.toOption]
    rw [hafter, htempo]
    cases found with
    | none =>
      cases hread
      exact ⟨h, rfl, hsame.symm, by simp⟩
    | some bpm =>
      have hpos := directionTempo_pos hfound
      dsimp only at hread
      rw [if_neg (not_le.mpr hpos)] at hread
      cases hread
      refine ⟨⟨h.divisions, h.cursor, fun event hevent => ?_⟩, rfl, hsame.symm, rfl⟩
      rcases List.mem_append.mp hevent with hevent | hevent
      · exact h.tempos event hevent
      · rw [List.mem_singleton.mp hevent]
        exact ⟨h.cursor, hpos⟩
  · -- a backup
    obtain ⟨d, hd, hread⟩ := Python.bind_eq_ok.mp hread
    cases hread
    obtain ⟨rfl, hnonneg⟩ := duration_ok h.divisions hd
    have htempo : tempo el = none := by simp [tempo, hbackup]
    have hafter : r.place.after el =
        ⟨r.divisions, max 0 (r.cursor - quarters el r.divisions)⟩ := by
      simp [Place.after, hbackup, Reading.place]
    have hle : max 0 (r.cursor - quarters el r.divisions) ≤ r.maximum :=
      max_le (h.cursor.1.trans h.cursor.2) (by linarith [h.cursor.2])
    rw [hafter]
    exact ⟨⟨h.divisions, ⟨le_max_left _ _, hle⟩, h.tempos⟩, rfl, (max_eq_left hle).symm,
      by simp [htempo]⟩
  · -- a forward
    obtain ⟨d, hd, hread⟩ := Python.bind_eq_ok.mp hread
    cases hread
    obtain ⟨rfl, hnonneg⟩ := duration_ok h.divisions hd
    have htempo : tempo el = none := by simp [tempo, hforward]
    have hafter : r.place.after el = ⟨r.divisions, r.cursor + quarters el r.divisions⟩ := by
      simp [Place.after, hforward, Reading.place, moves]
    rw [hafter]
    exact ⟨h.move (add_nonneg h.cursor.1 hnonneg), rfl, rfl, by simp [htempo]⟩
  · -- a note
    obtain ⟨d, hd, hread⟩ := Python.bind_eq_ok.mp hread
    cases hread
    obtain ⟨rfl, hnonneg⟩ := duration_ok h.divisions hd
    have htempo : tempo el = none := by simp [tempo, hnote]
    have hafter : r.place.after el = ⟨r.divisions, r.cursor + quarters el r.divisions⟩ := by
      simp [Place.after, hnote, Reading.place, moves, Option.isNone_iff_eq_none.mp hchord]
    rw [hafter]
    exact ⟨h.move (add_nonneg h.cursor.1 hnonneg), rfl, rfl, by simp [htempo]⟩
  · -- a note of a chord
    obtain ⟨d, -, hread⟩ := Python.bind_eq_ok.mp hread
    cases hread
    have htempo : tempo el = none := by simp [tempo, hnote]
    have hafter : r.place.after el = r.place := by
      simp [Place.after, hnote, moves, hchord]
    rw [hafter]
    exact ⟨h, rfl, hsame.symm, by simp [htempo]⟩
  · cases hread
    have hafter : r.place.after el = r.place := by
      simp [Place.after, hattributes, hbackup, moves, hforward, hnote]
    have htempo : tempo el = none := by simp [tempo, hdirection]
    rw [hafter]
    exact ⟨h, rfl, hsame.symm, by simp [htempo]⟩

/-! ## A measure -/

theorem greatest_cons (p : Place) (el : Node) (els : List Node) :
    greatest p (el :: els) = max p.cursor (greatest (p.after el) els) := by
  rw [greatest, List.scanl_cons, List.map_cons, List.foldr_cons]
  rfl

theorem le_greatest (p : Place) (els : List Node) : p.cursor ≤ greatest p els := by
  cases els with
  | nil => exact le_max_left _ _
  | cons el els => exact greatest_cons p el els ▸ le_max_left _ _

theorem greatest_nonneg (p : Place) (els : List Node) : 0 ≤ greatest p els := by
  induction els generalizing p with
  | nil => exact le_max_right _ _
  | cons el els ih => exact greatest_cons p el els ▸ (ih _).trans (le_max_right _ _)

theorem readChildren_ok {part : ℕ} {measureNumber : String} {els : List Node} {r r' : Reading}
    (h : r.Ok) (hread : els.foldlM (readChild part measureNumber) r = .ok r') :
    r'.Ok ∧ r'.place = els.foldl Place.after r.place ∧
      r'.maximum = max r.maximum (greatest r.place els) ∧
      r'.measureTempos = r.measureTempos ++ directions r.place els := by
  induction els generalizing r with
  | nil =>
    cases hread
    have hle : max r'.cursor 0 ≤ r'.maximum := max_le h.cursor.2 (h.cursor.1.trans h.cursor.2)
    exact ⟨h, rfl, (max_eq_left hle).symm, (List.append_nil _).symm⟩
  | cons el els ih =>
    rw [List.foldlM_cons] at hread
    obtain ⟨r₁, hel, hread⟩ := Python.bind_eq_ok.mp hread
    obtain ⟨hok, hplace, hmaximum, htempos⟩ := readChild_ok h hel
    obtain ⟨hok', hplace', hmaximum', htempos'⟩ := ih hok hread
    refine ⟨hok', ?_, ?_, ?_⟩
    · rw [hplace', hplace]
      rfl
    · have hcursor : r.place.cursor ≤ r.maximum := h.cursor.2
      rw [hmaximum', hmaximum, hplace, greatest_cons, max_assoc, max_eq_right (le_greatest _ els),
        ← max_assoc, max_eq_left hcursor]
    · rw [htempos', htempos, hplace, List.append_assoc]
      rfl

/-- The directions of a measure are within its length, and their tempos are positive. -/
def Within (events : List (ℚ × ℚ)) (length : ℚ) : Prop :=
  ∀ event ∈ events, (0 ≤ event.1 ∧ event.1 ≤ length) ∧ 0 < event.2

/-- The events and the marks that a measure of the first part adds. -/
structure FirstPart (partIndex : ℕ) (events : List (List (ℚ × ℚ)))
    (marks : Except MetadataExtractionError (List (Bool × Bool × ℤ))) (e e' : Extraction) :
    Prop where
  first : partIndex = 0 → e'.firstPartTempos = e.firstPartTempos ++ events ∧
    ∃ found, marks = .ok found ∧ e'.firstPartRepeats = e.firstPartRepeats ++ found
  other : partIndex ≠ 0 → e'.firstPartTempos = e.firstPartTempos ∧
    e'.firstPartRepeats = e.firstPartRepeats

theorem readMeasure_ok {partIndex : ℕ} {measure : Node} {divisions' : ℤ}
    (hdivisions : 0 < divisions)
    (h : readMeasure partIndex (e, divisions) (measure, index) = .ok (e', divisions')) :
    let els := Practice.ScoreTimeline.elements measure
    let start : Place := ⟨divisions, 0⟩
    (0 < divisions' ∧ divisions' = (els.foldl Place.after start).divisions) ∧
      Within (directions start els) (greatest start els) ∧
      e'.measureDurations = e.measureDurations.modify index (max · (greatest start els)) ∧
      FirstPart partIndex [directions start els]
        ((repeatMarkers measure).map fun marks => [marks]) e e' := by
  intro els start
  obtain ⟨r, hr, h⟩ := Python.bind_eq_ok.mp h
  have hinitial : Reading.Ok ⟨divisions, 0, 0, [], e.keyEvents, e.timeEvents, e.tempoEvents⟩ :=
    ⟨hdivisions, ⟨le_rfl, le_rfl⟩, fun event hevent => absurd hevent List.not_mem_nil⟩
  obtain ⟨hok, hplace, hmaximum, htempos⟩ := readChildren_ok hinitial hr
  have hgreatest : r.maximum = greatest start els :=
    hmaximum.trans (max_eq_right (greatest_nonneg start els))
  have htempos' : r.measureTempos = directions start els := htempos.trans (List.nil_append _)
  have hdivisions' : r.divisions = (els.foldl Place.after start).divisions :=
    congrArg Place.divisions hplace
  have hwithin : Within (directions start els) (greatest start els) := by
    rw [← htempos', ← hgreatest]
    exact hok.tempos
  rw [← hgreatest, ← hdivisions', ← htempos']
  rw [← hgreatest, ← htempos'] at hwithin
  dsimp only at h
  split_ifs at h with hfirst
  · obtain ⟨marks, hmarks, h⟩ := Python.bind_eq_ok.mp h
    cases h
    refine ⟨⟨hok.divisions, rfl⟩, hwithin, rfl, fun _ => ⟨rfl, [marks], ?_, rfl⟩,
      fun hother => absurd hfirst hother⟩
    rw [hmarks]
    rfl
  · cases h
    exact ⟨⟨hok.divisions, rfl⟩, hwithin, rfl, fun hfirst' => absurd hfirst' hfirst,
      fun _ => ⟨rfl, rfl⟩⟩

/-! ## A part -/

/-- The greater of two lengths of each measure, where there are two. -/
def raise : List ℚ → List ℚ → List ℚ
  | length :: lengths, other :: others => max length other :: raise lengths others
  | lengths, [] => lengths
  | [], _ => []

theorem modify_middle (before after : List ℚ) (length : ℚ) (f : ℚ → ℚ) :
    (before ++ length :: after).modify before.length f = before ++ f length :: after := by
  induction before with
  | nil => rfl
  | cons b before ih => exact congrArg (b :: ·) ih

theorem readMeasures_ok {partIndex : ℕ} {measures : List Node} {before after : List ℚ}
    {e e' : Extraction} {divisions divisions' : ℤ} (hdivisions : 0 < divisions)
    (hdurations : e.measureDurations = before ++ after) (hlength : measures.length ≤ after.length)
    (h : (measures.zipIdx before.length).foldlM (readMeasure partIndex) (e, divisions) =
      .ok (e', divisions')) :
    List.Forall₂ Within (readings directions divisions measures)
        (readings greatest divisions measures) ∧
      e'.measureDurations = before ++ raise after (readings greatest divisions measures) ∧
      FirstPart partIndex (readings directions divisions measures)
        (measures.mapM repeatMarkers) e e' := by
  induction measures generalizing before after e divisions with
  | nil =>
    cases h
    refine ⟨.nil, ?_, fun _ => ⟨(List.append_nil _).symm, [], rfl, (List.append_nil _).symm⟩,
      fun _ => ⟨rfl, rfl⟩⟩
    rw [hdurations]
    cases after <;> rfl
  | cons measure measures ih =>
    rw [List.zipIdx_cons, List.foldlM_cons] at h
    obtain ⟨⟨e₁, divisions₁⟩, hmeasure, h⟩ := Python.bind_eq_ok.mp h
    obtain ⟨⟨hpos, rfl⟩, hwithin, hmodified, hpart⟩ := readMeasure_ok hdivisions hmeasure
    cases after with
    | nil => exact absurd hlength (by simp)
    | cons length after =>
      rw [hdurations, modify_middle] at hmodified
      set greatest₁ := greatest ⟨divisions, 0⟩ (Practice.ScoreTimeline.elements measure)
      have hnext : e₁.measureDurations = (before ++ [max length greatest₁]) ++ after := by
        rw [hmodified, List.append_assoc, List.singleton_append]
      have hindex : before.length + 1 = (before ++ [max length greatest₁]).length := by simp
      rw [hindex] at h
      obtain ⟨hrest, hraised, hparts⟩ := ih hpos hnext (Nat.le_of_succ_le_succ hlength) h
      refine ⟨.cons hwithin hrest, ?_, fun hfirst => ?_, fun hother => ?_⟩
      · rw [hraised, List.append_assoc, List.singleton_append]
        rfl
      · obtain ⟨htempos, marks, hmarks, hrepeats⟩ := hpart.first hfirst
        obtain ⟨htempos', marks', hmarks', hrepeats'⟩ := hparts.first hfirst
        obtain ⟨mark, hmark, rfl⟩ := Python.map_eq_ok.mp hmarks
        refine ⟨?_, mark :: marks', ?_, ?_⟩
        · rw [htempos', htempos, List.append_assoc]
          rfl
        · rw [List.mapM_cons, hmark, hmarks']
          rfl
        · rw [hrepeats', hrepeats, List.append_assoc]
          rfl
      · obtain ⟨htempos, hrepeats⟩ := hpart.other hother
        obtain ⟨htempos', hrepeats'⟩ := hparts.other hother
        exact ⟨htempos'.trans htempos, hrepeats'.trans hrepeats⟩

/-! ## The score -/

theorem raise_length (lengths others : List ℚ) :
    (raise lengths others).length = lengths.length := by
  induction lengths generalizing others with
  | nil => cases others <;> rfl
  | cons length lengths ih =>
    cases others with
    | nil => rfl
    | cons other others => exact congrArg (· + 1) (ih others)

theorem raise_getD (hnonneg : ∀ length ∈ lengths, 0 ≤ length) (others : List ℚ)
    (h : index < lengths.length) :
    (raise lengths others).getD index 0 = max (lengths.getD index 0) (others.getD index 0) := by
  induction lengths generalizing others index with
  | nil => exact absurd h (Nat.not_lt_zero index)
  | cons length lengths ih =>
    obtain ⟨hlength, hnonneg⟩ := List.forall_mem_cons.mp hnonneg
    cases others with
    | nil =>
      have hle : 0 ≤ (length :: lengths).getD index 0 := by
        rw [List.getD_eq_getElem _ _ h]
        exact List.forall_mem_cons.mpr ⟨hlength, hnonneg⟩ _ (List.getElem_mem h)
      exact (max_eq_left hle).symm
    | cons other others =>
      cases index with
      | zero => rfl
      | succ index => exact ih hnonneg others (Nat.lt_of_succ_lt_succ h)

theorem raise_nonneg (hnonneg : ∀ length ∈ lengths, 0 ≤ length) (others : List ℚ) :
    ∀ length ∈ raise lengths others, 0 ≤ length := by
  intro length hlength
  obtain ⟨index, hindex, rfl⟩ := List.getElem_of_mem hlength
  have hin : index < lengths.length := raise_length lengths others ▸ hindex
  rw [← List.getD_eq_getElem _ 0 hindex, raise_getD hnonneg others hin,
    List.getD_eq_getElem _ 0 hin]
  exact (hnonneg _ (List.getElem_mem hin)).trans (le_max_left _ _)

theorem foldl_raise {α : Type} (f : α → List ℚ) (parts : List α)
    (hnonneg : ∀ length ∈ lengths, 0 ≤ length) :
    (parts.foldl (fun lengths part => raise lengths (f part)) lengths).length = lengths.length ∧
      ∀ index < lengths.length,
        (parts.foldl (fun lengths part => raise lengths (f part)) lengths).getD index 0 =
          (parts.map fun part => (f part).getD index 0).foldl max (lengths.getD index 0) := by
  induction parts generalizing lengths with
  | nil => exact ⟨rfl, fun _ _ => rfl⟩
  | cons part parts ih =>
    obtain ⟨hlength, hvalue⟩ := ih (raise_nonneg hnonneg (f part))
    rw [raise_length] at hlength hvalue
    refine ⟨hlength, fun index hindex => ?_⟩
    rw [List.foldl_cons, hvalue index hindex, raise_getD hnonneg (f part) hindex]
    rfl

theorem readPart_ok {partIndex : ℕ} {measures : List Node}
    (hlength : measures.length ≤ e.measureDurations.length)
    (h : readPart e (measures, partIndex) = .ok e') :
    List.Forall₂ Within (readings directions 1 measures) (readings greatest 1 measures) ∧
      e'.measureDurations = raise e.measureDurations (readings greatest 1 measures) ∧
      FirstPart partIndex (readings directions 1 measures) (measures.mapM repeatMarkers) e e' := by
  obtain ⟨⟨e₁, divisions⟩, hread, rfl⟩ := Python.map_eq_ok.mp h
  exact @readMeasures_ok _ _ [] _ _ _ _ _ Int.one_pos rfl hlength hread

/-- The parts after the first one add to the lengths only. -/
theorem readParts_ok {parts : List (List Node)} (hindex : 0 < index)
    (hlength : ∀ part ∈ parts, part.length ≤ e.measureDurations.length)
    (h : (parts.zipIdx index).foldlM readPart e = .ok e') :
    e'.measureDurations = parts.foldl (fun lengths part =>
        raise lengths (readings greatest 1 part)) e.measureDurations ∧
      e'.firstPartTempos = e.firstPartTempos ∧ e'.firstPartRepeats = e.firstPartRepeats := by
  induction parts generalizing index e with
  | nil =>
    cases h
    exact ⟨rfl, rfl, rfl⟩
  | cons part parts ih =>
    rw [List.zipIdx_cons, List.foldlM_cons] at h
    obtain ⟨e₁, hpart, h⟩ := Python.bind_eq_ok.mp h
    obtain ⟨hfits, hlength⟩ := List.forall_mem_cons.mp hlength
    obtain ⟨-, hraised, hother⟩ := readPart_ok hfits hpart
    obtain ⟨htempos, hrepeats⟩ := hother.other hindex.ne'
    have hlength' : ∀ part ∈ parts, part.length ≤ e₁.measureDurations.length := by
      rw [hraised, raise_length]
      exact hlength
    obtain ⟨hdurations, htempos', hrepeats'⟩ := ih (Nat.succ_pos index) hlength' h
    exact ⟨by rw [hdurations, hraised]; rfl, htempos'.trans htempos, hrepeats'.trans hrepeats⟩

theorem le_foldl_max {α : Type} [LinearOrder α] (xs : List α) (init : α) :
    init ≤ xs.foldl max init ∧ ∀ x ∈ xs, x ≤ xs.foldl max init := by
  induction xs generalizing init with
  | nil => exact ⟨le_rfl, fun _ h => absurd h List.not_mem_nil⟩
  | cons x xs ih =>
    obtain ⟨hinit, hxs⟩ := ih (max init x)
    exact ⟨(le_max_left _ _).trans hinit,
      List.forall_mem_cons.mpr ⟨(le_max_right _ _).trans hinit, hxs⟩⟩

theorem foldl_raise_eq (measuresByPart : List (List Node)) :
    measuresByPart.foldl (fun lengths part => raise lengths (readings greatest 1 part))
      (List.replicate (measureCount measuresByPart) 0) = measureLengths measuresByPart := by
  have hnonneg : ∀ length ∈ List.replicate (measureCount measuresByPart) (0 : ℚ), 0 ≤ length :=
    fun length hlength => (List.eq_of_mem_replicate hlength).ge
  obtain ⟨hlength, hvalue⟩ := foldl_raise (readings greatest 1) measuresByPart hnonneg
  rw [List.length_replicate] at hlength hvalue
  refine List.ext_getElem (by rw [hlength, measureLengths]; simp) fun index h _ => ?_
  have hindex : index < measureCount measuresByPart := hlength ▸ h
  rw [← List.getD_eq_getElem _ 0 h, hvalue index hindex]
  simp [measureLengths, hindex]

/-- What is read of a score. -/
theorem readScore_ok (h : readScore measuresByPart = .ok e) :
    e.measureDurations = measureLengths measuresByPart ∧
      e.firstPartTempos = measureTempos measuresByPart ∧
      (measuresByPart.headD []).mapM repeatMarkers = .ok e.firstPartRepeats ∧
      List.Forall₂ Within (measureTempos measuresByPart)
        (readings greatest 1 (measuresByPart.headD [])) := by
  cases measuresByPart with
  | nil =>
    cases h
    exact ⟨rfl, rfl, rfl, .nil⟩
  | cons first parts =>
    obtain ⟨-, hcount⟩ := le_foldl_max ((first :: parts).map List.length) 0
    have hfits : ∀ part ∈ first :: parts, part.length ≤ measureCount (first :: parts) :=
      fun part hpart => hcount _ (List.mem_map_of_mem hpart)
    obtain ⟨hfirst, hfits⟩ := List.forall_mem_cons.mp hfits
    unfold readScore at h
    rw [List.zipIdx_cons, List.foldlM_cons] at h
    obtain ⟨e₁, hpart, h⟩ := Python.bind_eq_ok.mp h
    obtain ⟨hwithin, hraised, hmarks⟩ := readPart_ok (by simpa using hfirst) hpart
    obtain ⟨htempos, found, hfound, hrepeats⟩ := hmarks.first rfl
    have hfits' : ∀ part ∈ parts, part.length ≤ e₁.measureDurations.length := by
      rw [hraised, raise_length]
      simpa using hfits
    obtain ⟨hdurations, htempos', hrepeats'⟩ := readParts_ok Nat.one_pos hfits' h
    refine ⟨?_, htempos'.trans htempos, ?_, hwithin⟩
    · rw [← foldl_raise_eq, hdurations, hraised]
      rfl
    · rw [hrepeats', hrepeats]
      exact hfound

theorem readings_length {α : Type} (f : Place → List Node → α) (divisions : ℤ)
    (measures : List Node) : (readings f divisions measures).length = measures.length := by
  induction measures generalizing divisions with
  | nil => rfl
  | cons measure measures ih => exact congrArg (· + 1) (ih _)

theorem measureCount_le {part : List Node} (h : part ∈ measuresByPart) :
    part.length ≤ measureCount measuresByPart :=
  (le_foldl_max _ 0).2 _ (List.mem_map_of_mem h)

theorem measureLengths_length (measuresByPart : List (List Node)) :
    (measureLengths measuresByPart).length = measureCount measuresByPart := by
  simp [measureLengths]

/-- A measure is at least as long as it is in any part. -/
theorem le_measureLengths {part : List Node} (h : part ∈ measuresByPart)
    (hindex : index < part.length) :
    (readings greatest 1 part).getD index 0 ≤ (measureLengths measuresByPart).getD index 0 := by
  have hcount : index < measureCount measuresByPart := hindex.trans_le (measureCount_le h)
  have hvalue : (measureLengths measuresByPart).getD index 0 =
      (measuresByPart.map fun part => (readings greatest 1 part).getD index 0).foldl max 0 := by
    simp [measureLengths, hcount]
  rw [hvalue]
  exact (le_foldl_max _ 0).2 _ (List.mem_map_of_mem h)

theorem measureLengths_nonneg (measuresByPart : List (List Node)) :
    ∀ length ∈ measureLengths measuresByPart, 0 ≤ length := by
  intro length hlength
  obtain ⟨index, -, rfl⟩ := List.mem_map.mp hlength
  exact (le_foldl_max _ 0).1

/-- A direction of the first part is within the length of its measure. -/
theorem measureTempos_within (h : readScore measuresByPart = .ok e) (index : ℕ) :
    Within ((measureTempos measuresByPart).getD index [])
      ((measureLengths measuresByPart).getD index 0) := by
  obtain ⟨-, -, -, hwithin⟩ := readScore_ok h
  cases measuresByPart with
  | nil => exact fun event hevent => absurd hevent (by simp [measureTempos, readings])
  | cons first parts =>
    by_cases hindex : index < first.length
    · have htempos : index < (measureTempos (first :: parts)).length := by
        rw [measureTempos, readings_length]
        exact hindex
      have hgreatest : index < (readings greatest 1 first).length := by
        rwa [readings_length]
      have hle := le_measureLengths (List.mem_cons_self (a := first) (l := parts)) hindex
      intro event hevent
      rw [List.getD_eq_getElem _ _ htempos] at hevent
      rw [List.getD_eq_getElem _ _ hgreatest] at hle
      obtain ⟨⟨hstart, hend⟩, hpos⟩ :=
        (List.forall₂_iff_get.mp hwithin).2 index htempos hgreatest event hevent
      exact ⟨⟨hstart, hend.trans hle⟩, hpos⟩
    · intro event hevent
      rw [List.getD_eq_default _ _ (by rw [measureTempos, readings_length]; exact not_lt.mp hindex)]
        at hevent
      exact absurd hevent List.not_mem_nil

/-- The marks of a measure play its section at least once. -/
theorem repeatMarkers_pos {measure : Node} {marks : Bool × Bool × ℤ}
    (h : repeatMarkers measure = .ok marks) : 0 < marks.2.2 := by
  have hstep : ∀ {marks marks' : Bool × Bool × ℤ} {barline : Node}, 0 < marks.2.2 →
      markStep marks barline = .ok marks' → 0 < marks'.2.2 := by
    intro marks marks' barline hpos hmarks
    unfold markStep at hmarks
    split at hmarks
    · cases hmarks
      exact hpos
    · dsimp only at hmarks
      split at hmarks
      · obtain ⟨times, htimes, hmarks⟩ := Python.bind_eq_ok.mp hmarks
        cases hmarks
        exact (positiveInt_ok htimes).2
      · cases hmarks
        exact hpos
  have hfold : ∀ {barlines : List Node} {marks marks' : Bool × Bool × ℤ}, 0 < marks.2.2 →
      barlines.foldlM markStep marks = .ok marks' → 0 < marks'.2.2 := by
    intro barlines
    induction barlines with
    | nil =>
      intro marks marks' hpos hmarks
      cases hmarks
      exact hpos
    | cons barline barlines ih =>
      intro marks marks' hpos hmarks
      rw [List.foldlM_cons] at hmarks
      obtain ⟨marks₁, hbarline, hmarks⟩ := Python.bind_eq_ok.mp hmarks
      exact ih (hstep hpos hbarline) hmarks
  exact hfold (by decide) h

end NoteVerse.MusicXml.Metadata

import NoteVerse.Lib.StepFunction
import NoteVerse.MusicXml.PlaybackOrder

/-!
# How long a score plays

The tempo of a score at a time is that of the last tempo direction at or before it
(`tempoAt`), and a measure lasts as long as the integral of `60 / tempo` says. The loops of
`_playback_duration_ms` agree with it where two orders agree: a measure leaves the tempo of the
direction that is its last in the document, and directions at one position are sorted by
their tempos (`lastsFor_iff`).
-/

namespace NoteVerse.MusicXml.Metadata

open StepFunction Xml

/-! ## Score time -/

/-- The start of a measure. -/
def startOf (lengths : List ℚ) (index : ℕ) : ℚ := (lengths.take index).sum

/-- The tempo directions of the measures in document order, each at its time. -/
def scoreDirections (start : ℚ) : List ℚ → List (List (ℚ × ℚ)) → List (ℚ × ℚ)
  | length :: lengths, events :: measures =>
    (events.map fun event => (start + event.1, event.2)) ++
      scoreDirections (start + length) lengths measures
  | _, _ => []

/-- The tempo at a time: that of the last direction at or before it. -/
noncomputable def tempoAt (lengths : List ℚ) (tempos : List (List (ℚ × ℚ))) (time : ℝ) : ℚ :=
  level (fun event : ℚ × ℚ => (event.1 : ℝ)) Prod.snd defaultTempoBpm
    (scoreDirections 0 lengths tempos) time

/-- The seconds of a quarter. -/
noncomputable def secondsOf (bpm : ℚ) : ℝ := 60 / bpm

/-- The seconds of a measure. -/
noncomputable def lasts (lengths : List ℚ) (tempos : List (List (ℚ × ℚ))) (index : ℕ) : ℝ :=
  ∫ time in (startOf lengths index : ℝ)..(startOf lengths (index + 1)),
    secondsOf (tempoAt lengths tempos time)

/-- The measures of a score in the order in which they are played last for the seconds. -/
def LastsFor (measuresByPart : List (List Node)) (seconds : ℚ) : Prop :=
  ∃ marks order, (measuresByPart.headD []).mapM repeatMarkers = .ok marks ∧
    Plays marks.zipIdx order ∧ (seconds : ℝ) =
      (order.map (lasts (measureLengths measuresByPart) (measureTempos measuresByPart))).sum

/-- `total_seconds` for what was read. -/
def Extraction.seconds (e : Extraction) : ℚ :=
  totalSeconds (playbackOrder e.firstPartRepeats) e.measureDurations e.firstPartTempos

/-- The last direction of a measure in the document has the tempo of the one at the last
position, if that is the tempo at the start of a later measure. -/
def CarriedInOrder (lengths : List ℚ) (tempos : List (List (ℚ × ℚ))) : Prop :=
  ∀ index < tempos.length, 0 < lengths.getD index 0 →
    (∀ event ∈ tempos.getD index [], event.1 ≠ 0) → ∀ before events between,
      tempos.take index = before ++ events :: between → events ≠ [] →
        (∀ others ∈ between, others = []) →
          (latest Prod.fst events).map Prod.snd = events.getLast?.map Prod.snd

/-- Of the directions of a measure at one position, the last one in the document has the
greatest tempo. -/
def TiesInOrder (lengths : List ℚ) (tempos : List (List (ℚ × ℚ))) : Prop :=
  ∀ index < tempos.length, ∀ before event after, tempos.getD index [] = before ++ event :: after →
    event.1 < lengths.getD index 0 → (∀ other ∈ after, other.1 ≠ event.1) →
      ∀ other ∈ before, other.1 = event.1 → other.2 ≤ event.2

/-! ## The tempo at the start of a measure -/

/-- The tempo that measures leave, each that of its last direction in an order. -/
def carried (last : List (ℚ × ℚ) → Option (ℚ × ℚ)) (initial : ℚ)
    (measures : List (List (ℚ × ℚ))) : ℚ :=
  measures.foldl (fun tempo events => ((last events).map Prod.snd).getD tempo) initial

theorem carried_append {last : List (ℚ × ℚ) → Option (ℚ × ℚ)} (hlast : last [] = none)
    (initial : ℚ) (before : List (List (ℚ × ℚ))) {between : List (List (ℚ × ℚ))}
    (h : ∀ others ∈ between, others = []) :
    carried last initial (before ++ between) = carried last initial before := by
  induction between using List.reverseRecOn with
  | nil => rw [List.append_nil]
  | append_singleton between others ih =>
    have hothers : others = [] := h others (by simp)
    rw [← List.append_assoc, carried, List.foldl_concat, hothers, hlast]
    exact ih fun o ho => h o (List.mem_append_left _ ho)

variable {lengths : List ℚ} {tempos : List (List (ℚ × ℚ))} {index : ℕ} {event : ℚ × ℚ}

/-- The tempo at the start of a measure does not depend on the order. -/
theorem carried_eq (h : CarriedInOrder lengths tempos) (hindex : index < tempos.length)
    (hlength : 0 < lengths.getD index 0) (hstart : ∀ event ∈ tempos.getD index [], event.1 ≠ 0)
    (initial : ℚ) : carried (latest Prod.fst) initial (tempos.take index) =
      carried List.getLast? initial (tempos.take index) := by
  by_cases hsome : ∃ events ∈ tempos.take index, !events.isEmpty
  · obtain ⟨before, events, between, hsplit, hevents, hbetween⟩ := Lists.exists_last hsome
    have hempty : ∀ others ∈ between, others = [] := fun others hothers => by
      simpa using hbetween others hothers
    have hne : events ≠ [] := by simpa using hevents
    have heq := h index hindex hlength hstart before events between hsplit hne hempty
    rw [hsplit, ← List.singleton_append, ← List.append_assoc, carried_append rfl _ _ hempty,
      carried_append rfl _ _ hempty, carried, carried, List.foldl_concat, List.foldl_concat, heq,
      List.getLast?_eq_some_getLast hne]
    rfl
  · have hempty : ∀ events ∈ tempos.take index, events = [] := fun events hevents => by
      by_contra hne
      exact hsome ⟨events, hevents, by simpa using hne⟩
    have hlatest := @carried_append (latest Prod.fst) rfl initial [] _ hempty
    have hgetLast := @carried_append List.getLast? rfl initial [] _ hempty
    exact hlatest.trans hgetLast.symm

theorem linearStartTempos_getD (h : index < tempos.length) (initial : ℚ) :
    (linearStartTempos initial tempos).getD index 0 =
      carried List.getLast? initial (tempos.take index) := by
  induction tempos generalizing index initial with
  | nil => exact absurd h (Nat.not_lt_zero index)
  | cons events measures ih =>
    cases index with
    | zero => rfl
    | succ index => exact ih (Nat.lt_of_succ_lt_succ h) _

/-! ## The tempo within a measure -/

/-- When a direction of the measure that starts at a time comes. -/
noncomputable def timeOf (start : ℚ) (event : ℚ × ℚ) : ℝ := ((start + event.1 : ℚ) : ℝ)

theorem timeOf_le_iff (start : ℚ) (a b : ℚ × ℚ) : timeOf start a ≤ timeOf start b ↔ a.1 ≤ b.1 := by
  rw [timeOf, timeOf, Rat.cast_le, add_le_add_iff_left]

theorem scoreDirections_ge (hlengths : ∀ length ∈ lengths, 0 ≤ length)
    (hwithin : ∀ index, Within (tempos.getD index []) (lengths.getD index 0)) (start : ℚ) :
    ∀ event ∈ scoreDirections start lengths tempos, start ≤ event.1 := by
  induction tempos generalizing lengths start with
  | nil => cases lengths <;> exact fun event hevent => absurd hevent (by simp [scoreDirections])
  | cons events measures ih =>
    cases lengths with
    | nil => exact fun event hevent => absurd hevent (by simp [scoreDirections])
    | cons length lengths =>
      obtain ⟨hlength, hlengths⟩ := List.forall_mem_cons.mp hlengths
      intro event hevent
      rcases List.mem_append.mp hevent with hevent | hevent
      · obtain ⟨e, he, rfl⟩ := List.mem_map.mp hevent
        exact le_add_of_nonneg_right (hwithin 0 e he).1.1
      · have hrest := ih hlengths (fun index => hwithin (index + 1)) (start + length) event hevent
        exact (le_add_of_nonneg_right hlength).trans hrest

theorem startOf_succ (length : ℚ) (lengths : List ℚ) (index : ℕ) :
    startOf (length :: lengths) (index + 1) = length + startOf lengths index := by
  rw [startOf, List.take_succ_cons, List.sum_cons]
  rfl

theorem startOf_nonneg (h : ∀ length ∈ lengths, 0 ≤ length) (index : ℕ) :
    0 ≤ startOf lengths index :=
  List.sum_nonneg fun length hlength => h length (List.mem_of_mem_take hlength)

/-- The directions of a measure, after what was left by those before it, give the tempo. -/
theorem level_scoreDirections (hlengths : ∀ length ∈ lengths, 0 ≤ length)
    (hwithin : ∀ index, Within (tempos.getD index []) (lengths.getD index 0))
    (hindex : index < tempos.length) (hcount : tempos.length ≤ lengths.length) (start initial : ℚ)
    {time : ℝ}
    (htime : time ∈ Set.Ico ((start + startOf lengths index : ℚ) : ℝ)
      ((start + startOf lengths (index + 1) : ℚ) : ℝ)) :
    level (fun event : ℚ × ℚ => (event.1 : ℝ)) Prod.snd initial
        (scoreDirections start lengths tempos) time =
      level (timeOf (start + startOf lengths index)) Prod.snd
        (carried (latest Prod.fst) initial (tempos.take index)) (tempos.getD index []) time := by
  induction tempos generalizing lengths index start initial with
  | nil => exact absurd hindex (Nat.not_lt_zero index)
  | cons events measures ih =>
    cases lengths with
    | nil => exact absurd hcount (by simp)
    | cons length lengths =>
      obtain ⟨hlength, hlengths'⟩ := List.forall_mem_cons.mp hlengths
      have hrest := scoreDirections_ge hlengths' (fun index => hwithin (index + 1)) (start + length)
      have hfirst : ∀ event ∈ events.map fun event => (start + event.1, event.2),
          event.1 ≤ start + length := by
        intro event hevent
        obtain ⟨e, he, rfl⟩ := List.mem_map.mp hevent
        exact add_le_add_right (hwithin 0 e he).1.2 start
      have happend : ∀ a ∈ events.map fun event => (start + event.1, event.2),
          ∀ b ∈ scoreDirections (start + length) lengths measures, (a.1 : ℝ) ≤ (b.1 : ℝ) :=
        fun a ha b hb => Rat.cast_le.mpr ((hfirst a ha).trans (hrest b hb))
      rw [scoreDirections, level_append happend]
      cases index with
      | zero =>
        have hone : startOf (length :: lengths) 1 = length := by simp [startOf]
        rw [hone] at htime
        rw [level_of_lt fun event hevent => htime.2.trans_le (Rat.cast_le.mpr (hrest event hevent)),
          level_map]
        show _ = level (timeOf (start + 0)) Prod.snd initial events time
        rw [add_zero]
        rfl
      | succ index =>
        rw [startOf_succ, startOf_succ, ← add_assoc, ← add_assoc] at htime
        have hle : ∀ event ∈ events.map fun event => (start + event.1, event.2),
            (event.1 : ℝ) ≤ time := by
          intro event hevent
          have hnonneg := startOf_nonneg hlengths' index
          have hle := (hfirst event hevent).trans (le_add_of_nonneg_right hnonneg)
          exact (Rat.cast_le.mpr hle).trans htime.1
        have hfilter : (events.map fun event => (start + event.1, event.2)).filter
            (fun event => (event.1 : ℝ) ≤ time) =
            events.map fun event => (start + event.1, event.2) :=
          List.filter_eq_self.mpr fun event hevent => decide_eq_true (hle event hevent)
        have hleft : level (fun event : ℚ × ℚ => (event.1 : ℝ)) Prod.snd initial
            (events.map fun event => (start + event.1, event.2)) time =
            ((latest Prod.fst events).map Prod.snd).getD initial := by
          have hkey : latest (timeOf start) events = latest Prod.fst events :=
            latest_congr (timeOf_le_iff start) events
          rw [level, hfilter, latest_map, Option.map_map, ← hkey]
          rfl
        rw [hleft, ih hlengths' (fun index => hwithin (index + 1)) (Nat.lt_of_succ_lt_succ hindex)
          (Nat.le_of_succ_le_succ hcount) _ _ htime, startOf_succ, ← add_assoc]
        rfl

/-! ## The loop over the directions of a measure -/

instance : Std.Total tupleLe := ⟨fun a b => by
  unfold tupleLe
  rcases lt_trichotomy a.1 b.1 with h | h | h
  · exact .inl (.inl h)
  · exact (le_total a.2 b.2).imp (fun hle => .inr ⟨h, hle⟩) fun hle => .inr ⟨h.symm, hle⟩
  · exact .inr (.inl h)⟩

instance : IsTrans (ℚ × ℚ) tupleLe := ⟨fun a b c hab hbc => by
  rcases hab with hab | ⟨hab, hab'⟩
  · rcases hbc with hbc | ⟨hbc, -⟩
    · exact .inl (hab.trans hbc)
    · exact .inl (hbc ▸ hab)
  · rcases hbc with hbc | ⟨hbc, hbc'⟩
    · exact .inl (hab ▸ hbc)
    · exact .inr ⟨hab.trans hbc, hab'.trans hbc'⟩⟩

theorem tupleLe.fst_le {a b : ℚ × ℚ} (h : tupleLe a b) :
    a.1 ≤ b.1 := h.elim le_of_lt fun h => h.1.le

theorem pairwise_sorted (events : List (ℚ × ℚ)) :
    (events.insertionSort tupleLe).Pairwise tupleLe := List.pairwise_insertionSort _ _

/-- The loop adds up the area under the seconds of a quarter. -/
theorem foldl_tempoStep {events : List (ℚ × ℚ)} {length cursor : ℚ}
    (hsorted : events.Pairwise fun a b => a.1 ≤ b.1) (hcursor : cursor ≤ length)
    (hbounds : ∀ event ∈ events, cursor ≤ event.1 ∧ event.1 ≤ length) (start total bpm : ℚ) :
    (((events.foldl (tempoStep length) (total, cursor, bpm)).1 +
      max 0 (length - (events.foldl (tempoStep length) (total, cursor, bpm)).2.1) * 60 /
        (events.foldl (tempoStep length) (total, cursor, bpm)).2.2 : ℚ) : ℝ) =
      total + areaOf (timeOf start) Prod.snd secondsOf ((start + length : ℚ) : ℝ)
        ((start + cursor : ℚ) : ℝ) bpm events := by
  induction events generalizing total cursor bpm with
  | nil =>
    rw [List.foldl_nil, areaOf, secondsOf, max_eq_right (sub_nonneg.mpr hcursor)]
    push_cast
    ring
  | cons event events ih =>
    obtain ⟨⟨hstart, hend⟩, hbounds⟩ := List.forall_mem_cons.mp hbounds
    obtain ⟨hfirst, hsorted⟩ := List.pairwise_cons.mp hsorted
    have hbounded : min (max event.1 cursor) length = event.1 := by
      rw [max_eq_left hstart, min_eq_left hend]
    have hstep : tempoStep length (total, cursor, bpm) event =
        (total + (event.1 - cursor) * 60 / bpm, event.1, event.2) := by
      rw [tempoStep]
      dsimp only
      rw [hbounded]
    rw [List.foldl_cons, hstep, ih hsorted hend fun e he => ⟨hfirst e he, (hbounds e he).2⟩, areaOf,
      timeOf, secondsOf]
    push_cast
    ring

theorem measureSeconds_eq {events : List (ℚ × ℚ)} {length : ℚ} (hlength : 0 ≤ length)
    (hwithin : Within events length) (start bpm total : ℚ) :
    (measureSeconds length bpm total events : ℝ) = total + areaOf (timeOf start) Prod.snd secondsOf
      ((start + length : ℚ) : ℝ) ((start : ℚ) : ℝ) bpm (events.insertionSort tupleLe) := by
  have hsorted := (pairwise_sorted events).imp tupleLe.fst_le
  have hbounds : ∀ event ∈ events.insertionSort tupleLe, 0 ≤ event.1 ∧ event.1 ≤ length :=
    fun event hevent => (hwithin event ((List.mem_insertionSort tupleLe).mp hevent)).1
  have h := foldl_tempoStep hsorted hlength hbounds start total bpm
  rwa [add_zero] at h

/-- The area that the loop adds up for a measure. -/
theorem hasArea_sorted {events : List (ℚ × ℚ)} {length : ℚ} (hlength : 0 ≤ length)
    (hwithin : Within events length) (start bpm : ℚ) :
    HasArea (fun time => secondsOf (level (timeOf start) Prod.snd bpm
        (events.insertionSort tupleLe) time)) start ((start + length : ℚ) : ℝ)
      (measureSeconds length bpm 0 events) := by
  have hseconds := measureSeconds_eq hlength hwithin start bpm 0
  rw [Rat.cast_zero, zero_add] at hseconds
  rw [hseconds]
  refine hasArea_level secondsOf bpm (Rat.cast_le.mpr (le_add_of_nonneg_right hlength)) ?_ ?_
  · exact (pairwise_sorted events).imp fun h => (timeOf_le_iff start _ _).mpr h.fst_le
  · intro event hevent
    obtain ⟨hnonneg, hle⟩ := (hwithin event ((List.mem_insertionSort tupleLe).mp hevent)).1
    exact ⟨Rat.cast_le.mpr (le_add_of_nonneg_right hnonneg),
      Rat.cast_le.mpr (add_le_add_right hle start)⟩

/-- The area under the seconds of a quarter of a measure. -/
theorem exists_hasArea {events : List (ℚ × ℚ)} {length : ℚ} (hlength : 0 ≤ length)
    (hwithin : Within events length) (start bpm : ℚ) :
    ∃ area, HasArea (fun time => secondsOf (level (timeOf start) Prod.snd bpm events time)) start
      ((start + length : ℚ) : ℝ) area := by
  have hle : ((start : ℚ) : ℝ) ≤ ((start + length : ℚ) : ℝ) :=
    Rat.cast_le.mpr (le_add_of_nonneg_right hlength)
  have hsorted : (events.insertionSort fun a b => timeOf start a ≤ timeOf start b).Pairwise
      fun a b => timeOf start a ≤ timeOf start b :=
    Lists.pairwise_insertionSort_key (timeOf start) fun a _ b _ => ⟨id, fun h => (not_le.mp h).le⟩
  have hbounds : ∀ event ∈ events.insertionSort fun a b => timeOf start a ≤ timeOf start b,
      ((start : ℚ) : ℝ) ≤ timeOf start event ∧ timeOf start event ≤ ((start + length : ℚ) : ℝ) := by
    intro event hevent
    obtain ⟨hnonneg, hle⟩ := (hwithin event ((List.mem_insertionSort _).mp hevent)).1
    exact ⟨Rat.cast_le.mpr (le_add_of_nonneg_right hnonneg),
      Rat.cast_le.mpr (add_le_add_right hle start)⟩
  have harea : HasArea (fun time => secondsOf (level (timeOf start) Prod.snd bpm
      (events.insertionSort fun a b => timeOf start a ≤ timeOf start b) time)) start
      ((start + length : ℚ) : ℝ) _ := hasArea_level secondsOf bpm hle hsorted hbounds
  exact ⟨_, harea.congr hle fun time _ => by rw [level_insertionSort]⟩

/-! ## The two orders -/

/-- The direction that counts in the sorted list is the one of greatest tempo at the position
of the one that counts in the document. -/
theorem exists_latest_sorted {events : List (ℚ × ℚ)} {start : ℚ} {time : ℝ}
    (h : latest (timeOf start) (events.filter fun e => timeOf start e ≤ time) = some event) :
    ∃ greatest, latest (timeOf start) ((events.insertionSort tupleLe).filter
        fun e => timeOf start e ≤ time) = some greatest ∧
      greatest ∈ events ∧ greatest.1 = event.1 ∧
      ∀ other ∈ events, other.1 = event.1 → other.2 ≤ greatest.2 := by
  obtain ⟨hmem, hmax⟩ := latest_mem _ h
  obtain ⟨hevent, htime⟩ := List.mem_filter.mp hmem
  cases hsorted : latest (timeOf start) ((events.insertionSort tupleLe).filter
      fun e => timeOf start e ≤ time) with
  | none =>
    have hempty := (latest_eq_none_iff _).mp hsorted
    have hin : event ∈ (events.insertionSort tupleLe).filter fun e => timeOf start e ≤ time :=
      List.mem_filter.mpr ⟨(List.mem_insertionSort tupleLe).mpr hevent, htime⟩
    exact absurd (hempty ▸ hin) List.not_mem_nil
  | some greatest =>
    obtain ⟨hin, hle⟩ := latest_mem _ hsorted
    obtain ⟨hgreatest, hgreatestTime⟩ := List.mem_filter.mp hin
    have hgreatest' := (List.mem_insertionSort tupleLe).mp hgreatest
    have hposition : greatest.1 = event.1 := by
      refine le_antisymm ?_ ?_
      · exact (timeOf_le_iff start _ _).mp (hmax _ (List.mem_filter.mpr ⟨hgreatest', hgreatestTime⟩))
      · exact (timeOf_le_iff start _ _).mp (hle _ (List.mem_filter.mpr
          ⟨(List.mem_insertionSort tupleLe).mpr hevent, htime⟩))
    refine ⟨greatest, rfl, hgreatest', hposition, fun other hother heq => ?_⟩
    -- What follows in the sorted list is at a later position, so that `other` comes before.
    have hotherIn : other ∈ (events.insertionSort tupleLe).filter
        fun e => timeOf start e ≤ time := by
      refine List.mem_filter.mpr ⟨(List.mem_insertionSort tupleLe).mpr hother, ?_⟩
      rw [timeOf, heq]
      exact htime
    obtain ⟨before, after, hsplit, -, hafter⟩ := latest_split _ hsorted
    have hpairwise := (pairwise_sorted events).filter fun e => decide (timeOf start e ≤ time)
    rw [hsplit] at hotherIn hpairwise
    rcases List.mem_append.mp hotherIn with hbefore | hrest
    · rcases (List.pairwise_append.mp hpairwise).2.2 other hbefore greatest
        List.mem_cons_self with hlt | ⟨-, hle⟩
      · exact absurd (heq.trans hposition.symm) hlt.ne
      · exact hle
    · rcases List.mem_cons.mp hrest with rfl | hrest
      · exact le_rfl
      · have hlt := (not_congr (timeOf_le_iff start _ _)).mp (not_le.mpr (hafter other hrest))
        exact absurd (heq.trans hposition.symm).ge hlt

theorem secondsOf_le {a b : ℚ} (ha : 0 < a) (hab : a ≤ b) : secondsOf b ≤ secondsOf a :=
  div_le_div_of_nonneg_left (by norm_num) (Rat.cast_pos.mpr ha) (Rat.cast_le.mpr hab)

theorem secondsOf_lt {a b : ℚ} (ha : 0 < a) (hab : a < b) : secondsOf b < secondsOf a :=
  div_lt_div_of_pos_left (by norm_num) (Rat.cast_pos.mpr ha) (Rat.cast_lt.mpr hab)

variable {events : List (ℚ × ℚ)} {length start initial initial' : ℚ} {time : ℝ}

/-- Where no direction has come, both orders keep the tempo at the start. -/
theorem level_none
    (h : latest (timeOf start) (events.filter fun e => timeOf start e ≤ time) = none) :
    level (timeOf start) Prod.snd initial events time = initial ∧
      level (timeOf start) Prod.snd initial (events.insertionSort tupleLe) time = initial := by
  have hlt : ∀ event ∈ events, time < timeOf start event := fun event hevent => by
    have hempty := List.filter_eq_nil_iff.mp ((latest_eq_none_iff _).mp h) event hevent
    simpa using hempty
  exact ⟨level_of_lt hlt, level_of_lt fun event hevent =>
    hlt event ((List.mem_insertionSort tupleLe).mp hevent)⟩

/-- The measure has no direction at its start. -/
theorem start_ne_zero
    (h : latest (timeOf start) (events.filter fun e => timeOf start e ≤ time) = none)
    (htime : (start : ℝ) ≤ time) : ∀ event ∈ events, event.1 ≠ 0 := by
  intro event hevent hzero
  have hempty := List.filter_eq_nil_iff.mp ((latest_eq_none_iff _).mp h) event hevent
  rw [timeOf, hzero, add_zero] at hempty
  exact hempty (decide_eq_true htime)

/-- The tempo of the sorted list is nowhere less. -/
theorem secondsOf_sorted_le (hwithin : Within events length) (htime : (start : ℝ) ≤ time)
    (hinitial : (∀ event ∈ events, event.1 ≠ 0) → initial = initial') :
    secondsOf (level (timeOf start) Prod.snd initial' (events.insertionSort tupleLe) time) ≤
      secondsOf (level (timeOf start) Prod.snd initial events time) := by
  cases h : latest (timeOf start) (events.filter fun e => timeOf start e ≤ time) with
  | none =>
    rw [(level_none h).1, (level_none h).2, hinitial (start_ne_zero h htime)]
  | some event =>
    have hevent := (List.mem_filter.mp (latest_mem _ h).1).1
    obtain ⟨greatest, hsorted, -, -, hgreatest⟩ := exists_latest_sorted h
    rw [level, level, h, hsorted]
    exact secondsOf_le (hwithin event hevent).2 (hgreatest event hevent rfl)

/-- The last direction at the greatest position that has come is the one that counts. -/
theorem latest_at {before after : List (ℚ × ℚ)} (hafter : ∀ other ∈ after, other.1 ≠ event.1)
    (hevent : timeOf start event ≤ time)
    (hmax : ∀ other ∈ before ++ event :: after, timeOf start other ≤ time → other.1 ≤ event.1) :
    latest (timeOf start) ((before ++ event :: after).filter fun e => timeOf start e ≤ time) =
      some event := by
  have hfilter : ((before ++ event :: after).filter fun e => timeOf start e ≤ time) =
      (before.filter fun e => timeOf start e ≤ time) ++
        event :: after.filter fun e => timeOf start e ≤ time := by
    rw [List.filter_append]
    exact congrArg (_ ++ ·) (List.filter_cons_of_pos
      (p := fun e => decide (timeOf start e ≤ time)) (decide_eq_true hevent))
  rw [hfilter]
  refine latest_of_split _ (fun other hother => ?_) fun other hother => ?_
  · obtain ⟨hmem, htime⟩ := List.mem_filter.mp hother
    exact (timeOf_le_iff start _ _).mpr
      (hmax other (List.mem_append_left _ hmem) (of_decide_eq_true htime))
  · obtain ⟨hmem, htime⟩ := List.mem_filter.mp hother
    have hle := hmax other (List.mem_append_right _ (List.mem_cons_of_mem _ hmem))
      (of_decide_eq_true htime)
    have hlt := lt_of_le_of_ne hle (hafter other hmem)
    exact not_le.mp fun hge => absurd ((timeOf_le_iff start _ _).mp hge) (not_le.mpr hlt)

theorem exists_latest_at
    (h : latest (timeOf start) (events.filter fun e => timeOf start e ≤ time) = some event) :
    ∃ before after, events = before ++ event :: after ∧ ∀ other ∈ after, other.1 ≠ event.1 := by
  obtain ⟨hmem, hmax⟩ := latest_mem _ h
  obtain ⟨hevent, htime⟩ := List.mem_filter.mp hmem
  obtain ⟨before, last, after, rfl, hlast, hafter⟩ :=
    Lists.exists_last (p := fun e => decide (e.1 = event.1)) ⟨event, hevent, decide_eq_true rfl⟩
  have hposition : last.1 = event.1 := of_decide_eq_true hlast
  have hafter' : ∀ other ∈ after, other.1 ≠ last.1 := fun other hother heq =>
    of_decide_eq_false (hafter other hother) (heq.trans hposition)
  have hcome : timeOf start last ≤ time := by
    rw [timeOf, hposition]
    exact of_decide_eq_true htime
  have hlatest := latest_at hafter' hcome fun other hother hle => by
      rw [hposition]
      exact (timeOf_le_iff start _ _).mp (hmax other (List.mem_filter.mpr ⟨hother,
        decide_eq_true hle⟩))
  obtain rfl := Option.some.inj (h.symm.trans hlatest)
  exact ⟨before, after, rfl, hafter'⟩

/-- Where ties are in order, both orders have one tempo. -/
theorem level_sorted_eq (htime : (start : ℝ) ≤ time) (hend : time < ((start + length : ℚ) : ℝ))
    (hinitial : (∀ event ∈ events, event.1 ≠ 0) → initial = initial')
    (hties : ∀ before event after, events = before ++ event :: after → event.1 < length →
      (∀ other ∈ after, other.1 ≠ event.1) → ∀ other ∈ before, other.1 = event.1 →
        other.2 ≤ event.2) :
    level (timeOf start) Prod.snd initial' (events.insertionSort tupleLe) time =
      level (timeOf start) Prod.snd initial events time := by
  cases h : latest (timeOf start) (events.filter fun e => timeOf start e ≤ time) with
  | none =>
    rw [(level_none h).1, (level_none h).2, hinitial (start_ne_zero h htime)]
  | some event =>
    obtain ⟨before, after, hsplit, hafter⟩ := exists_latest_at h
    obtain ⟨hmem, -⟩ := latest_mem _ h
    obtain ⟨hevent, hcome⟩ := List.mem_filter.mp hmem
    obtain ⟨greatest, hsorted, hgreatest, hposition, hle⟩ := exists_latest_sorted h
    have hlength : event.1 < length := by
      have hlt := (of_decide_eq_true hcome).trans_lt hend
      rw [timeOf, Rat.cast_lt] at hlt
      linarith
    have hge : greatest.2 ≤ event.2 := by
      rw [hsplit] at hgreatest
      rcases List.mem_append.mp hgreatest with hbefore | hrest
      · exact hties before event after hsplit hlength hafter greatest hbefore hposition
      · rcases List.mem_cons.mp hrest with rfl | hrest
        · exact le_rfl
        · exact absurd hposition (hafter greatest hrest)
    rw [level, level, h, hsorted]
    exact le_antisymm hge (hle event hevent rfl)

/-- There is a time after a position in which no direction comes. -/
theorem exists_quiet (events : List (ℚ × ℚ)) {position length : ℚ} (h : position < length) :
    ∃ stop, position < stop ∧ stop ≤ length ∧
      ∀ event ∈ events, event.1 ≤ position ∨ stop ≤ event.1 := by
  induction events with
  | nil => exact ⟨length, h, le_rfl, fun _ hevent => absurd hevent List.not_mem_nil⟩
  | cons event events ih =>
    obtain ⟨stop, hstop, hle, hevents⟩ := ih
    by_cases hevent : event.1 ≤ position
    · exact ⟨stop, hstop, hle, List.forall_mem_cons.mpr ⟨.inl hevent, hevents⟩⟩
    · refine ⟨min stop event.1, lt_min hstop (not_le.mp hevent), (min_le_left _ _).trans hle, ?_⟩
      exact List.forall_mem_cons.mpr ⟨.inr (min_le_right _ _), fun e he =>
        (hevents e he).imp_right fun h => (min_le_left _ _).trans h⟩

/-- A direction that stands before another one at its position, with a greater tempo, makes the
tempo of the sorted list greater for a while. -/
theorem exists_secondsOf_sorted_lt {before after : List (ℚ × ℚ)} {other : ℚ × ℚ}
    (hwithin : Within (before ++ event :: after) length) (hlength : event.1 < length)
    (hafter : ∀ e ∈ after, e.1 ≠ event.1) (hother : other ∈ before) (hposition : other.1 = event.1)
    (hlt : event.2 < other.2) :
    ∃ stop : ℚ, event.1 < stop ∧ stop ≤ length ∧
      ∀ time ∈ Set.Ico (timeOf start event) ((start + stop : ℚ) : ℝ),
        secondsOf (level (timeOf start) Prod.snd initial'
          ((before ++ event :: after).insertionSort tupleLe) time) <
          secondsOf (level (timeOf start) Prod.snd initial (before ++ event :: after) time) := by
  obtain ⟨stop, hstop, hle, hquiet⟩ := exists_quiet (before ++ event :: after) hlength
  refine ⟨stop, hstop, hle, fun time htime => ?_⟩
  have hmax : ∀ e ∈ before ++ event :: after, timeOf start e ≤ time → e.1 ≤ event.1 := by
    intro e he hcome
    refine (hquiet e he).resolve_right fun hge => ?_
    have hcast : ((start + stop : ℚ) : ℝ) ≤ timeOf start e :=
      Rat.cast_le.mpr (add_le_add_right hge start)
    exact absurd (hcast.trans hcome) (not_le.mpr htime.2)
  have h := latest_at hafter htime.1 hmax
  obtain ⟨greatest, hsorted, -, -, hgreatest⟩ := exists_latest_sorted h
  rw [level, level, h, hsorted]
  refine secondsOf_lt (hwithin event (by simp)).2 (hlt.trans_le ?_)
  exact hgreatest other (List.mem_append_left _ hother) hposition

/-! ## The measures -/

theorem startOf_add (lengths : List ℚ) (index : ℕ) :
    startOf lengths (index + 1) = startOf lengths index + lengths.getD index 0 := by
  induction lengths generalizing index with
  | nil => simp [startOf]
  | cons length lengths ih =>
    cases index with
    | zero => simp [startOf]
    | succ index =>
      rw [startOf_succ, startOf_succ, ih, ← add_assoc]
      rfl

/-- What the loops compute for a measure. -/
def computed (lengths : List ℚ) (tempos : List (List (ℚ × ℚ))) (index : ℕ) : ℚ :=
  measureSeconds (lengths.getD index 0)
    (carried List.getLast? defaultTempoBpm (tempos.take index)) 0 (tempos.getD index [])

/-- The lengths of the measures of a score and the directions of its first part. -/
structure Measured (lengths : List ℚ) (tempos : List (List (ℚ × ℚ))) : Prop where
  nonneg : ∀ length ∈ lengths, 0 ≤ length
  within : ∀ index, Within (tempos.getD index []) (lengths.getD index 0)
  count : tempos.length ≤ lengths.length

namespace Measured

variable {lengths : List ℚ} {tempos : List (List (ℚ × ℚ))} {index : ℕ}

theorem length_nonneg (h : Measured lengths tempos) (index : ℕ) : 0 ≤ lengths.getD index 0 := by
  by_cases hindex : index < lengths.length
  · rw [List.getD_eq_getElem _ _ hindex]
    exact h.nonneg _ (List.getElem_mem hindex)
  · rw [List.getD_eq_default _ _ (not_lt.mp hindex)]

/-- The tempo in a measure by its own directions. -/
theorem tempoAt_eq (h : Measured lengths tempos) (hindex : index < tempos.length) {time : ℝ}
    (htime : time ∈ Set.Ico ((startOf lengths index : ℚ) : ℝ)
      ((startOf lengths index + lengths.getD index 0 : ℚ) : ℝ)) :
    tempoAt lengths tempos time = level (timeOf (startOf lengths index)) Prod.snd
      (carried (latest Prod.fst) defaultTempoBpm (tempos.take index)) (tempos.getD index []) time := by
  have hlevel := @level_scoreDirections lengths tempos index h.nonneg h.within hindex h.count 0
    defaultTempoBpm time (by rwa [zero_add, zero_add, startOf_add])
  rwa [zero_add] at hlevel

theorem hasArea_lasts (h : Measured lengths tempos) (hindex : index < tempos.length) :
    HasArea (fun time => secondsOf (tempoAt lengths tempos time)) (startOf lengths index)
      ((startOf lengths index + lengths.getD index 0 : ℚ) : ℝ) (lasts lengths tempos index) := by
  obtain ⟨area, harea⟩ := exists_hasArea (h.length_nonneg index) (h.within index)
    (startOf lengths index) (carried (latest Prod.fst) defaultTempoBpm (tempos.take index))
  have hle : ((startOf lengths index : ℚ) : ℝ) ≤
      ((startOf lengths index + lengths.getD index 0 : ℚ) : ℝ) :=
    Rat.cast_le.mpr (le_add_of_nonneg_right (h.length_nonneg index))
  have htempo := harea.congr hle fun time htime => by rw [← h.tempoAt_eq hindex htime]
  refine ⟨htempo.1, ?_⟩
  rw [lasts, startOf_add]

theorem hasArea_computed (h : Measured lengths tempos) (index : ℕ) :
    HasArea (fun time => secondsOf (level (timeOf (startOf lengths index)) Prod.snd
        (carried List.getLast? defaultTempoBpm (tempos.take index))
        ((tempos.getD index []).insertionSort tupleLe) time)) (startOf lengths index)
      ((startOf lengths index + lengths.getD index 0 : ℚ) : ℝ) (computed lengths tempos index) :=
  hasArea_sorted (h.length_nonneg index) (h.within index) _ _

/-- The tempos at the start of a measure agree where it matters. -/
theorem carried_eq (h : CarriedInOrder lengths tempos) (hindex : index < tempos.length)
    (hlength : 0 < lengths.getD index 0) :
    (∀ event ∈ tempos.getD index [], event.1 ≠ 0) →
      carried (latest Prod.fst) defaultTempoBpm (tempos.take index) =
        carried List.getLast? defaultTempoBpm (tempos.take index) :=
  fun hstart => Metadata.carried_eq h hindex hlength hstart defaultTempoBpm

/-- A measure has a positive length if there is a time in it. -/
theorem length_pos {start length : ℚ} {time : ℝ}
    (htime : time ∈ Set.Ico (start : ℝ) ((start + length : ℚ) : ℝ)) : 0 < length := by
  have hlt := Rat.cast_lt.mp (htime.1.trans_lt htime.2)
  linarith

theorem computed_le (h : Measured lengths tempos) (hcarried : CarriedInOrder lengths tempos)
    (hindex : index < tempos.length) : (computed lengths tempos index : ℝ) ≤
      lasts lengths tempos index := by
  have hle : ((startOf lengths index : ℚ) : ℝ) ≤
      ((startOf lengths index + lengths.getD index 0 : ℚ) : ℝ) :=
    Rat.cast_le.mpr (le_add_of_nonneg_right (h.length_nonneg index))
  refine (h.hasArea_computed index).le (h.hasArea_lasts hindex) hle fun time htime => ?_
  rw [h.tempoAt_eq hindex htime]
  exact secondsOf_sorted_le (h.within index) htime.1 (carried_eq hcarried hindex (length_pos htime))

theorem computed_eq (h : Measured lengths tempos) (hcarried : CarriedInOrder lengths tempos)
    (hties : TiesInOrder lengths tempos) (hindex : index < tempos.length) :
    (computed lengths tempos index : ℝ) = lasts lengths tempos index := by
  have hle : ((startOf lengths index : ℚ) : ℝ) ≤
      ((startOf lengths index + lengths.getD index 0 : ℚ) : ℝ) :=
    Rat.cast_le.mpr (le_add_of_nonneg_right (h.length_nonneg index))
  have harea := (h.hasArea_computed index).congr hle fun time htime => by
    rw [level_sorted_eq htime.1 htime.2 (carried_eq hcarried hindex (length_pos htime))
      (hties index hindex), ← h.tempoAt_eq hindex htime]
  exact harea.2.symm.trans (h.hasArea_lasts hindex).2

/-- A tie that is not in order makes the computed seconds of its measure less. -/
theorem computed_lt (h : Measured lengths tempos) (hcarried : CarriedInOrder lengths tempos)
    (hindex : index < tempos.length) {before after : List (ℚ × ℚ)} {event other : ℚ × ℚ}
    (hsplit : tempos.getD index [] = before ++ event :: after)
    (hlength : event.1 < lengths.getD index 0) (hafter : ∀ e ∈ after, e.1 ≠ event.1)
    (hother : other ∈ before) (hposition : other.1 = event.1) (hlt : event.2 < other.2) :
    (computed lengths tempos index : ℝ) < lasts lengths tempos index := by
  have hwithin := h.within index
  have hcomputed := h.hasArea_computed index
  have htempo := @tempoAt_eq _ _ _ h hindex
  rw [hsplit] at hwithin hcomputed
  obtain ⟨stop, hstop, hle, hfaster⟩ :=
    exists_secondsOf_sorted_lt hwithin hlength hafter hother hposition hlt
  have hevent := (hwithin event (by simp)).1.1
  refine hcomputed.lt (h.hasArea_lasts hindex) (fun time htime => ?_)
    (p := timeOf (startOf lengths index) event) (q := ((startOf lengths index + stop : ℚ) : ℝ))
    (Rat.cast_le.mpr (le_add_of_nonneg_right hevent)) (Rat.cast_lt.mpr (add_lt_add_right hstop _))
    (Rat.cast_le.mpr (add_le_add_right hle _)) fun time htime => ?_
  · rw [htempo htime, ← hsplit]
    exact secondsOf_sorted_le (h.within index) htime.1
      (carried_eq hcarried hindex (length_pos htime))
  · have hin : time ∈ Set.Ico ((startOf lengths index : ℚ) : ℝ)
        ((startOf lengths index + lengths.getD index 0 : ℚ) : ℝ) :=
      ⟨(Rat.cast_le.mpr (le_add_of_nonneg_right hevent)).trans htime.1,
        htime.2.trans_le (Rat.cast_le.mpr (add_le_add_right hle _))⟩
    rw [htempo hin, hsplit]
    exact hfaster time htime

end Measured

/-! ## The score -/

theorem take_padded {count : ℕ} (hindex : index ≤ tempos.length) (hcount : tempos.length ≤ count) :
    ((List.range count).map fun i => tempos.getD i []).take index = tempos.take index := by
  refine List.ext_getElem (by simp; omega) fun i h _ => ?_
  have hi : i < tempos.length := by
    rw [List.length_take] at h
    omega
  simp [hi]

/-- The loop over the order adds up what is computed for its measures. -/
theorem totalSeconds_eq (h : Measured lengths tempos) {order : List ℕ}
    (horder : ∀ index ∈ order, index < tempos.length) :
    totalSeconds order lengths tempos = (order.map (computed lengths tempos)).sum := by
  have hstart : ∀ index < tempos.length, (linearStartTempos defaultTempoBpm
      ((List.range lengths.length).map fun i => tempos.getD i [])).getD index 0 =
        carried List.getLast? defaultTempoBpm (tempos.take index) := by
    intro index hindex
    have hpadded : index < ((List.range lengths.length).map fun i => tempos.getD i []).length := by
      rw [List.length_map, List.length_range]
      exact hindex.trans_le h.count
    rw [linearStartTempos_getD hpadded, take_padded hindex.le h.count]
  have hadd : ∀ index total, measureSeconds (lengths.getD index 0)
      (carried List.getLast? defaultTempoBpm (tempos.take index)) total (tempos.getD index []) =
        total + computed lengths tempos index := by
    intro index total
    have hsum : (measureSeconds (lengths.getD index 0)
        (carried List.getLast? defaultTempoBpm (tempos.take index)) total (tempos.getD index []) : ℝ) =
        ((total + computed lengths tempos index : ℚ) : ℝ) := by
      rw [Rat.cast_add, computed, measureSeconds_eq (h.length_nonneg index) (h.within index) 0,
        measureSeconds_eq (h.length_nonneg index) (h.within index) 0 _ 0, Rat.cast_zero]
      ring
    exact Rat.cast_inj.mp hsum
  have hfold : ∀ total, order.foldl (fun total index => measureSeconds (lengths.getD index 0)
      ((linearStartTempos defaultTempoBpm
        ((List.range lengths.length).map fun i => tempos.getD i [])).getD index 0) total
      (tempos.getD index [])) total = total + (order.map (computed lengths tempos)).sum := by
    induction order with
    | nil => exact fun total => (add_zero total).symm
    | cons index order ih =>
      intro total
      obtain ⟨hindex, horder⟩ := List.forall_mem_cons.mp horder
      rw [List.foldl_cons, hstart index hindex, hadd, ih horder, List.map_cons, List.sum_cons,
        add_assoc]
  exact (hfold 0).trans (zero_add _)

theorem measured_of_readScore {measuresByPart : List (List Node)} {e : Extraction}
    (h : readScore measuresByPart = .ok e) :
    Measured (measureLengths measuresByPart) (measureTempos measuresByPart) where
  nonneg := measureLengths_nonneg measuresByPart
  within := measureTempos_within h
  count := by
    rw [measureTempos, readings_length, measureLengths_length]
    cases measuresByPart with
    | nil => exact Nat.zero_le _
    | cons first parts => exact measureCount_le List.mem_cons_self

/-- Where each measure leaves the tempo of its last direction in score time, a score lasts as long
as is computed if and only if the ties of its directions are in order. -/
theorem lastsFor_iff {measuresByPart : List (List Node)} {e : Extraction}
    (h : readScore measuresByPart = .ok e)
    (hcarried : CarriedInOrder (measureLengths measuresByPart) (measureTempos measuresByPart)) :
    LastsFor measuresByPart e.seconds ↔
      TiesInOrder (measureLengths measuresByPart) (measureTempos measuresByPart) := by
  obtain ⟨hlengths, htempos, hmarks, -⟩ := readScore_ok h
  have hmeasured := measured_of_readScore h
  have hforall := Python.forall₂_of_mapM_ok hmarks
  have htimes : ∀ marks ∈ e.firstPartRepeats, 0 < marks.2.2 := fun marks hmem => by
    obtain ⟨measure, -, hmeasure⟩ := Lists.exists_of_forall₂_mem hforall hmem
    exact repeatMarkers_pos hmeasure
  have hplays := (playbackOrder_eq_iff htimes _).mp rfl
  have hmem : ∀ index, index ∈ playbackOrder e.firstPartRepeats ↔
      index < (measureTempos measuresByPart).length := by
    intro index
    rw [hplays.mem_iff fun m hm => htimes m.1 (List.fst_mem_of_mem_zipIdx hm), index_zipIdx,
      List.length_zipIdx, ← hforall.length_eq, measureTempos, readings_length]
    simp
  have hseconds : (e.seconds : ℝ) = ((playbackOrder e.firstPartRepeats).map fun index =>
      (computed (measureLengths measuresByPart) (measureTempos measuresByPart) index : ℝ)).sum := by
    rw [Extraction.seconds, hlengths, htempos,
      totalSeconds_eq hmeasured fun index hindex => (hmem index).mp hindex]
    push_cast
    rw [List.map_map]
    rfl
  constructor
  · rintro ⟨marks, order, hfound, horder, hsum⟩ index hindex before event after hsplit hlength hafter
      other hother hposition
    obtain rfl := Except.ok.inj (hmarks.symm.trans hfound)
    rw [← (playbackOrder_eq_iff htimes order).mpr horder, hseconds] at hsum
    by_contra hlt
    have hless := hmeasured.computed_lt hcarried hindex hsplit hlength hafter hother hposition
      (not_le.mp hlt)
    exact (List.sum_lt_sum _ _ (fun i hi => hmeasured.computed_le hcarried ((hmem i).mp hi))
      ⟨index, (hmem index).mpr hindex, hless⟩).ne hsum
  · intro hties
    refine ⟨e.firstPartRepeats, _, hmarks, hplays, ?_⟩
    rw [hseconds, List.map_congr_left fun index hindex =>
      hmeasured.computed_eq hcarried hties ((hmem index).mp hindex)]

/-- The metadata of a score give the seconds that were added up, in milliseconds. -/
theorem extract_ok {root : Node} {metadata : MusicXMLMetadata}
    (h : extractMusicxmlMetadata (some root) = .ok metadata) :
    ∃ e, readScore (measuresByPart root) = .ok e ∧
      metadata.playbackDurationMs = Rounding.roundHalfEven (e.seconds * 1000) := by
  unfold extractMusicxmlMetadata at h
  dsimp only at h
  split_ifs at h
  obtain ⟨e, he, h⟩ := Python.bind_eq_ok.mp h
  cases h
  exact ⟨e, he, rfl⟩

/-- The duration that is extracted, before its rounding, is that of the tempos and the repeats if
and only if the last of the directions at one position has the greatest tempo, where each measure
leaves the tempo of its last direction in score time. -/
theorem playbackDuration_lastsFor_iff {root : Node} {metadata : MusicXMLMetadata}
    (h : extractMusicxmlMetadata (some root) = .ok metadata)
    (hcarried : CarriedInOrder (measureLengths (measuresByPart root))
      (measureTempos (measuresByPart root))) :
    ∃ e, readScore (measuresByPart root) = .ok e ∧
      metadata.playbackDurationMs = Rounding.roundHalfEven (e.seconds * 1000) ∧
      (LastsFor (measuresByPart root) e.seconds ↔
        TiesInOrder (measureLengths (measuresByPart root)) (measureTempos (measuresByPart root))) := by
  obtain ⟨e, he, hduration⟩ := extract_ok h
  exact ⟨e, he, hduration, lastsFor_iff he hcarried⟩

/-- A score of one measure that begins with tempo directions, over one note of four quarters. -/
def oneMeasure (tempos : List String) : Node :=
  .element "score-partwise" [] [.element "part" [] [.element "measure" []
    ((tempos.map fun tempo => .element "direction" [] [.element "sound" [("tempo", tempo)] []]) ++
      [.element "note" [] [.leaf "duration" "4"]])]]

/-- There is no measure before the only one. -/
theorem carriedInOrder_singleton (lengths : List ℚ) (events : List (ℚ × ℚ)) :
    CarriedInOrder lengths [events] := by
  intro index hindex _ _ before last between hsplit
  obtain rfl : index = 0 := Nat.lt_one_iff.mp hindex
  exact absurd hsplit (by simp)

theorem playbackDuration_oneMeasure :
    ∃ e, readScore (measuresByPart (oneMeasure ["60"])) = .ok e ∧
      (4000 : ℤ) = Rounding.roundHalfEven (e.seconds * 1000) ∧
      (LastsFor (measuresByPart (oneMeasure ["60"])) e.seconds ↔
        TiesInOrder (measureLengths (measuresByPart (oneMeasure ["60"])))
          (measureTempos (measuresByPart (oneMeasure ["60"])))) := by
  have htempos : measureTempos (measuresByPart (oneMeasure ["60"])) = [[(0, 60)]] := by
    decide
  have hmetadata : extractMusicxmlMetadata (some (oneMeasure ["60"])) =
      .ok ⟨1, 4000, 1, none, none, [], [], [⟨1, "1", 0, 60⟩], extractorVersion⟩ := by
    decide +kernel
  exact playbackDuration_lastsFor_iff hmetadata (htempos ▸ carriedInOrder_singleton _ _)

/-- Of two directions at the start of a measure the greater tempo counts, and not the last one. -/
theorem playbackDuration_tied : ∃ e,
    readScore (measuresByPart (oneMeasure ["120", "60"])) = .ok e ∧ e.seconds = 2 ∧
      ¬LastsFor (measuresByPart (oneMeasure ["120", "60"])) e.seconds := by
  have htempos : measureTempos (measuresByPart (oneMeasure ["120", "60"])) =
      [[(0, 120), (0, 60)]] := by decide
  have hlengths : measureLengths (measuresByPart (oneMeasure ["120", "60"])) = [4] := by
    decide +kernel
  have hread : readScore (measuresByPart (oneMeasure ["120", "60"])) =
      .ok ⟨[], [], [⟨1, "1", 0, 120⟩, ⟨1, "1", 0, 60⟩], [4], [[(0, 120), (0, 60)]],
        [(false, false, 2)]⟩ := by decide +kernel
  refine ⟨_, hread, by decide +kernel, fun hlasts => ?_⟩
  have hties := (lastsFor_iff hread (htempos ▸ carriedInOrder_singleton _ _)).mp hlasts
  rw [htempos, hlengths] at hties
  have hle := hties 0 Nat.one_pos [(0, 120)] (0, 60) [] rfl (by decide) (by simp) (0, 120)
    (by simp) rfl
  exact absurd hle (by decide)

end NoteVerse.MusicXml.Metadata

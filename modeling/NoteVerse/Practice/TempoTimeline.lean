import NoteVerse.Lib.PiecewiseLinear
import NoteVerse.Practice.PerformanceRuntime
import NoteVerse.Practice.ScoreTimeline

/-!
# The timeline that tempos make

`PerformanceTimeline.from_score_timeline` of `processing/performance/timeline.py`. Its
segments tile the beats of the score and the time of the performance (`Tiled`,
`fromScoreTimeline_tiled`), so that `beat_to_time_ms` is continuous and strictly
increasing and `time_ms_to_beat` its inverse, but for the rounding. The segments of
the server are those of the browser (`segmentsFrom_eq`), so that the tiling is proved of
these (`timelineSegments_tiles`, by induction on the tempos).
-/

namespace NoteVerse.Practice

open Js PiecewiseLinear ScoreTimeline

namespace PerformanceTimeline

/-! ## The server -/

/-- A tempo that is accepted. -/
def checkTempo (segment : TempoSegment) : Except String PerformanceArtifact.NormalizedTempo :=
  if h : segment.bpm ≤ 0 then .error "Tempo BPM must be positive."
  else .ok ⟨segment.startBeat, segment.bpm, not_le.mp h⟩

/-- The entries of `merged`, one a beat. -/
def mergeTempos (tempos : List PerformanceArtifact.NormalizedTempo) :
    JsMap ℚ PerformanceArtifact.NormalizedTempo :=
  JsMap.empty.ofEntries <| (tempos.filter fun tempo => tempo.startBeat ≥ 0).map fun tempo =>
    (roundBeat tempo.startBeat, ⟨roundBeat tempo.startBeat, tempo.bpm, tempo.bpm_pos⟩)

/-- `merged.setdefault(0.0, ...)` -/
def withTempoAtZero (merged : JsMap ℚ PerformanceArtifact.NormalizedTempo) :
    JsMap ℚ PerformanceArtifact.NormalizedTempo :=
  if merged.has 0 then merged else merged.set 0 ⟨0, defaultPerformanceTempoBpm, by decide⟩

/-- `_normalized_tempo_segments` -/
def normalizedTempoSegments (tempoSegments : List TempoSegment) :
    Except String (List PerformanceArtifact.NormalizedTempo) := do
  let valid ← (tempoSegments.mergeSort fun a b => a.startBeat ≤ b.startBeat).mapM checkTempo
  let merged := withTempoAtZero (mergeTempos valid)
  return (merged.keys.insertionSort (· ≤ ·)).filterMap merged.get

/-- The loop of `from_score_timeline` from a time on. -/
def segmentsFrom (endBeat currentTimeMs : ℚ) :
    List PerformanceArtifact.NormalizedTempo → List TimelineSegment
  | [] => []
  | tempo :: tempos =>
    let nextStart := (tempos.head?.map (·.startBeat)).getD endBeat
    let segmentStart := min (max tempo.startBeat 0) endBeat
    let segmentEnd := min (max nextStart segmentStart) endBeat
    if segmentEnd ≤ segmentStart then segmentsFrom endBeat currentTimeMs tempos
    else
      let segment : TimelineSegment :=
        ⟨roundBeat segmentStart, roundBeat segmentEnd, currentTimeMs, tempo.bpm, tempo.bpm_pos⟩
      segment :: segmentsFrom endBeat segment.endTimeMs tempos

/-- `from_score_timeline` of a score with an `end_beat`. -/
def fromScoreTimeline (scoreEndBeat : ℚ) (tempoSegments : List TempoSegment) :
    Except String PerformanceTimeline :=
  let endBeat := roundBeat scoreEndBeat
  if endBeat ≤ 0 then .ok ⟨0, []⟩
  else do
    let tempos ← normalizedTempoSegments tempoSegments
    return ⟨endBeat, segmentsFrom endBeat 0 tempos⟩

variable (timeline : PerformanceTimeline)

def beatToTimeMs (beat : ℚ) : ℚ :=
  let bounded := min (max beat 0) timeline.endBeat
  match timeline.segmentForBeat bounded with
  | none => 0
  | some segment => segment.startTimeMs + beatsToMs (bounded - segment.startBeat) segment.bpm

end PerformanceTimeline

/-! ## Segments as pieces -/

def TimelineSegment.piece (segment : TimelineSegment) : Piece ℚ :=
  ⟨segment.startBeat, segment.endBeat, segment.startTimeMs, segment.endTimeMs⟩

theorem beatsToMs_pos {beats bpm : ℚ} (hbeats : 0 < beats) (hbpm : 0 < bpm) :
    0 < beatsToMs beats bpm :=
  div_pos (mul_pos hbeats (by norm_num)) hbpm

namespace TimelineSegment

variable {segment : TimelineSegment}

theorem piece_rises (h : segment.startBeat < segment.endBeat) : segment.piece.Rises where
  args := h
  values := lt_add_of_pos_right _ (beatsToMs_pos (sub_pos.mpr h) segment.bpm_pos)

theorem piece_eval (h : segment.startBeat < segment.endBeat) (beat : ℚ) :
    segment.piece.eval beat =
      segment.startTimeMs + beatsToMs (beat - segment.startBeat) segment.bpm := by
  have hbeats : segment.endBeat - segment.startBeat ≠ 0 := (sub_pos.mpr h).ne'
  have hbpm := segment.bpm_pos.ne'
  simp only [Piece.eval, piece, endTimeMs, beatsToMs]
  field_simp
  ring

theorem piece_swap_eval (h : segment.startBeat < segment.endBeat) (timeMs : ℚ) :
    segment.piece.swap.eval timeMs =
      segment.startBeat + msToBeats (timeMs - segment.startTimeMs) segment.bpm := by
  have hbeats : segment.endBeat - segment.startBeat ≠ 0 := (sub_pos.mpr h).ne'
  have hbpm := segment.bpm_pos.ne'
  simp only [Piece.eval, Piece.swap, piece, endTimeMs, beatsToMs, msToBeats]
  field_simp
  ring

end TimelineSegment

namespace PerformanceTimeline

def pieces (timeline : PerformanceTimeline) : List (Piece ℚ) :=
  timeline.segments.map TimelineSegment.piece

/-- The segments tile the beats from 0 to the end and the time of the performance. -/
structure Tiled (timeline : PerformanceTimeline) : Prop where
  endBeat : 0 ≤ timeline.endBeat
  tiles : Tiles (0, 0) timeline.pieces (timeline.endBeat, timeline.nominalDurationMs)

variable {timeline : PerformanceTimeline} {beat timeMs : ℚ}

theorem Tiled.segment_lt (h : timeline.Tiled) {segment : TimelineSegment}
    (hmem : segment ∈ timeline.segments) : segment.startBeat < segment.endBeat :=
  (tiles_bounds h.tiles (List.mem_map_of_mem hmem)).1.args

/-- A beat of the score. -/
theorem Tiled.beatToTimeMs_eq (h : timeline.Tiled) (hbeat : beat ∈ Set.Icc 0 timeline.endBeat) :
    timeline.beatToTimeMs beat = valueD timeline.pieces beat := by
  have hbounded : min (max beat 0) timeline.endBeat = beat := by
    rw [max_eq_left hbeat.1, min_eq_left hbeat.2]
  have hvalue : value timeline.pieces beat = (timeline.segmentForBeat beat).map
      fun segment => segment.piece.eval beat := value_map _ _ _
  rw [valueD, hvalue, beatToTimeMs, hbounded]
  cases hsegment : timeline.segmentForBeat beat with
  | none => rfl
  | some segment =>
    exact (TimelineSegment.piece_eval (h.segment_lt (mem_of_find_or_last hsegment)) beat).symm

/-- A time of the performance. -/
theorem Tiled.timeMsToBeat_eq (h : timeline.Tiled)
    (htime : timeMs ∈ Set.Icc 0 timeline.nominalDurationMs) :
    timeline.timeMsToBeat id timeMs = valueD (timeline.pieces.map Piece.swap) timeMs := by
  have hbounded : min (max timeMs 0) timeline.nominalDurationMs = timeMs := by
    rw [max_eq_left htime.1, min_eq_left htime.2]
  have hvalue : value (timeline.pieces.map Piece.swap) timeMs =
      (timeline.segmentForTimeMs timeMs).map fun segment => segment.piece.swap.eval timeMs := by
    rw [pieces, List.map_map, value_map]
    rfl
  rw [valueD, hvalue, timeMsToBeat, hbounded]
  cases hsegment : timeline.segmentForTimeMs timeMs with
  | none => rfl
  | some segment =>
    exact (TimelineSegment.piece_swap_eval
      (h.segment_lt (mem_of_find_or_last hsegment)) timeMs).symm

/-- A timeline without segments has no beats. -/
theorem Tiled.of_nil (h : timeline.Tiled) (hnil : timeline.pieces = []) :
    timeline.endBeat = 0 ∧ timeline.nominalDurationMs = 0 := by
  have htiles := h.tiles
  rw [hnil] at htiles
  obtain ⟨hend, hduration⟩ := Prod.mk.inj htiles
  exact ⟨hend.symm, hduration.symm⟩

theorem Tiled.strictMonoOn (h : timeline.Tiled) :
    StrictMonoOn timeline.beatToTimeMs (Set.Icc 0 timeline.endBeat) := by
  intro x hx y hy hxy
  rw [h.beatToTimeMs_eq hx, h.beatToTimeMs_eq hy]
  by_cases hnil : timeline.pieces = []
  · have hend := (h.of_nil hnil).1
    have := hx.1.trans_lt (hxy.trans_le hy.2)
    exact absurd (hend ▸ this) (lt_irrefl 0)
  · exact strictMonoOn_valueD h.tiles hnil hx hy hxy

theorem Tiled.continuousOn (h : timeline.Tiled) :
    ContinuousOn timeline.beatToTimeMs (Set.Icc 0 timeline.endBeat) := by
  refine ContinuousOn.congr ?_ fun x hx => h.beatToTimeMs_eq hx
  by_cases hnil : timeline.pieces = []
  · rw [(h.of_nil hnil).1, Set.Icc_self]
    exact continuousOn_singleton _ _
  · exact continuousOn_valueD h.tiles hnil

theorem Tiled.beatToTimeMs_mem (h : timeline.Tiled) (hbeat : beat ∈ Set.Icc 0 timeline.endBeat) :
    timeline.beatToTimeMs beat ∈ Set.Icc 0 timeline.nominalDurationMs := by
  rw [h.beatToTimeMs_eq hbeat]
  by_cases hnil : timeline.pieces = []
  · rw [hnil, (h.of_nil hnil).2]
    exact ⟨le_rfl, le_rfl⟩
  · exact valueD_mem h.tiles hnil hbeat

/-- The beat at the time of a beat is that beat. -/
theorem Tiled.timeMsToBeat_beatToTimeMs (h : timeline.Tiled)
    (hbeat : beat ∈ Set.Icc 0 timeline.endBeat) :
    timeline.timeMsToBeat id (timeline.beatToTimeMs beat) = beat := by
  rw [h.timeMsToBeat_eq (h.beatToTimeMs_mem hbeat), h.beatToTimeMs_eq hbeat]
  by_cases hnil : timeline.pieces = []
  · have hend := (h.of_nil hnil).1
    have hzero : beat = 0 := le_antisymm (hbeat.2.trans_eq hend) hbeat.1
    rw [hnil, hzero]
    rfl
  · exact valueD_swap h.tiles hnil hbeat

/-- The time at the beat of a time is that time. -/
theorem Tiled.beatToTimeMs_timeMsToBeat (h : timeline.Tiled)
    (htime : timeMs ∈ Set.Icc 0 timeline.nominalDurationMs) :
    timeline.beatToTimeMs (timeline.timeMsToBeat id timeMs) = timeMs := by
  rw [h.timeMsToBeat_eq htime]
  by_cases hnil : timeline.pieces = []
  · have hduration := (h.of_nil hnil).2
    have hzero : timeMs = 0 := le_antisymm (htime.2.trans_eq hduration) htime.1
    rw [h.beatToTimeMs_eq (by rw [hnil]; exact ⟨le_rfl, h.endBeat⟩), hnil, hzero]
    rfl
  · have hmem := valueD_mem (tiles_swap h.tiles) (mt List.map_eq_nil_iff.mp hnil) htime
    rw [h.beatToTimeMs_eq hmem, valueD_of_swap h.tiles hnil htime]

/-! ## The segments of sorted tempos -/

open PerformanceArtifact (NormalizedTempo timelineSegments)

variable {tempo : NormalizedTempo} {tempos : List NormalizedTempo} {endBeat time : ℚ}

/-- Tempos after the end make no segments. -/
theorem timelineSegments_nil (h : ∀ tempo ∈ tempos, endBeat ≤ tempo.startBeat) (time : ℚ) :
    timelineSegments endBeat time tempos = [] := by
  induction tempos generalizing time with
  | nil => rfl
  | cons tempo tempos ih =>
    rw [List.forall_mem_cons] at h
    have hstart : endBeat ≤ min (max tempo.startBeat 0) endBeat :=
      le_min (h.1.trans (le_max_left _ _)) le_rfl
    rw [timelineSegments, if_pos ((min_le_right _ _).trans hstart)]
    exact ih h.2 time

/-- A tempo before the end makes a segment until the next tempo or the end. -/
theorem timelineSegments_cons (tempos : List NormalizedTempo) (hnonneg : 0 ≤ tempo.startBeat)
    (hlt : tempo.startBeat < endBeat)
    {stop : ℚ} (hstop : min (max ((tempos.head?.map (·.startBeat)).getD endBeat) tempo.startBeat)
      endBeat = stop) (hpos : tempo.startBeat < stop) (time : ℚ) :
    timelineSegments endBeat time (tempo :: tempos) =
      ⟨tempo.startBeat, stop, time, tempo.bpm, tempo.bpm_pos⟩ ::
        timelineSegments endBeat (time + beatsToMs (stop - tempo.startBeat) tempo.bpm) tempos := by
  have hstart : min (max tempo.startBeat 0) endBeat = tempo.startBeat := by
    rw [max_eq_left hnonneg, min_eq_left hlt.le]
  subst hstop
  rw [timelineSegments, hstart]
  exact if_neg (not_le.mpr hpos)

/-- Tempos in the order of their beats tile what is left of the score, by induction on
them. -/
theorem timelineSegments_tiles (hsorted : (tempo :: tempos).Pairwise (·.startBeat < ·.startBeat))
    (hnonneg : 0 ≤ tempo.startBeat) (hlt : tempo.startBeat < endBeat) (time : ℚ) :
    ∃ stop, Tiles (tempo.startBeat, time)
      ((timelineSegments endBeat time (tempo :: tempos)).map TimelineSegment.piece)
      (endBeat, stop) := by
  induction tempos generalizing tempo time with
  | nil =>
    have hstop : min (max endBeat tempo.startBeat) endBeat = endBeat := by
      rw [max_eq_left hlt.le, min_self]
    rw [timelineSegments_cons [] hnonneg hlt hstop hlt]
    exact ⟨_, rfl, TimelineSegment.piece_rises hlt, rfl⟩
  | cons next tempos ih =>
    obtain ⟨hfirst, hrest⟩ := List.pairwise_cons.mp hsorted
    have hnext : tempo.startBeat < next.startBeat := hfirst next List.mem_cons_self
    have hmax : max next.startBeat tempo.startBeat = next.startBeat := max_eq_left hnext.le
    by_cases hgo : next.startBeat < endBeat
    · have hstop : min (max next.startBeat tempo.startBeat) endBeat = next.startBeat := by
        rw [hmax, min_eq_left hgo.le]
      rw [timelineSegments_cons (next :: tempos) hnonneg hlt hstop hnext]
      obtain ⟨stop, htiles⟩ := ih hrest (hnonneg.trans hnext.le) hgo
        (time + beatsToMs (next.startBeat - tempo.startBeat) tempo.bpm)
      exact ⟨stop, rfl, TimelineSegment.piece_rises hnext, htiles⟩
    · -- the next tempo and those after it come after the end
      have hend := not_lt.mp hgo
      have hafter : ∀ later ∈ next :: tempos, endBeat ≤ later.startBeat := by
        intro later hlater
        obtain rfl | hlater := List.mem_cons.mp hlater
        · exact hend
        · exact hend.trans ((List.pairwise_cons.mp hrest).1 later hlater).le
      have hstop : min (max next.startBeat tempo.startBeat) endBeat = endBeat := by
        rw [hmax, min_eq_right hend]
      rw [timelineSegments_cons (next :: tempos) hnonneg hlt hstop hlt, timelineSegments_nil hafter]
      exact ⟨_, rfl, TimelineSegment.piece_rises hlt, rfl⟩

/-- What the tempos of a timeline are: in the order of their rounded beats, from 0 on. -/
structure TemposOk (tempos : List NormalizedTempo) : Prop where
  sorted : tempos.Pairwise (·.startBeat < ·.startBeat)
  nonneg : ∀ tempo ∈ tempos, 0 ≤ tempo.startBeat
  zero : ∃ tempo ∈ tempos, tempo.startBeat = 0

theorem TemposOk.exists_first (h : TemposOk tempos) :
    ∃ first rest, tempos = first :: rest ∧ first.startBeat = 0 := by
  obtain ⟨tempo, hmem, hzero⟩ := h.zero
  cases tempos with
  | nil => exact absurd hmem List.not_mem_nil
  | cons first rest =>
    refine ⟨first, rest, rfl, ?_⟩
    obtain rfl | hrest := List.mem_cons.mp hmem
    · exact hzero
    · have hlt := (List.pairwise_cons.mp h.sorted).1 tempo hrest
      have hnonneg := h.nonneg first List.mem_cons_self
      exact absurd (hlt.trans_eq hzero) (not_lt.mpr hnonneg)

/-- The timeline of a score that does not end at once. -/
theorem tiled_of_tempos (h : TemposOk tempos) (hend : 0 < endBeat) :
    Tiled ⟨endBeat, timelineSegments endBeat 0 tempos⟩ := by
  obtain ⟨first, rest, rfl, hzero⟩ := h.exists_first
  obtain ⟨stop, htiles⟩ := timelineSegments_tiles h.sorted hzero.ge (hzero.trans_lt hend) 0
  rw [hzero] at htiles
  refine ⟨hend.le, ?_⟩
  have hduration : nominalDurationMs ⟨endBeat, timelineSegments endBeat 0 (first :: rest)⟩ = stop := by
    unfold nominalDurationMs
    cases hlast : (timelineSegments endBeat 0 (first :: rest)).getLast? with
    | none =>
      rw [List.getLast?_eq_none_iff.mp hlast] at htiles
      exact absurd (Prod.mk.inj htiles).1 hend.ne
    | some segment =>
      have hpoint := tiles_getLast htiles
        (by rw [List.getLast?_map, hlast]; rfl : _ = some segment.piece)
      exact (Prod.mk.inj hpoint).2.symm
  rw [hduration]
  exact htiles

/-! ## The tempos of the server -/

theorem roundBeat_idem (value : ℚ) : roundBeat (roundBeat value) = roundBeat value := by
  obtain ⟨n, hn⟩ := Rounding.round_scaled 6 value
  exact Rounding.round_of_scaled hn

theorem roundBeat_zero : roundBeat 0 = 0 := by decide +kernel

theorem roundBeat_mono : Monotone roundBeat := fun _ _ h => Rounding.round_mono h

/-- On rounded beats, the server's segments are those of the browser. -/
theorem segmentsFrom_eq (hend : roundBeat endBeat = endBeat)
    (h : ∀ tempo ∈ tempos, roundBeat tempo.startBeat = tempo.startBeat) (time : ℚ) :
    segmentsFrom endBeat time tempos = timelineSegments endBeat time tempos := by
  induction tempos generalizing time with
  | nil => rfl
  | cons tempo tempos ih =>
    rw [List.forall_mem_cons] at h
    have hstart : roundBeat (min (max tempo.startBeat 0) endBeat) =
        min (max tempo.startBeat 0) endBeat := by
      rw [roundBeat_mono.map_min, roundBeat_mono.map_max, h.1, roundBeat_zero, hend]
    have hnext : roundBeat ((tempos.head?.map (·.startBeat)).getD endBeat) =
        (tempos.head?.map (·.startBeat)).getD endBeat := by
      cases tempos with
      | nil => exact hend
      | cons next tempos => exact h.2 next List.mem_cons_self
    have hstop : roundBeat (min (max ((tempos.head?.map (·.startBeat)).getD endBeat)
        (min (max tempo.startBeat 0) endBeat)) endBeat) =
        min (max ((tempos.head?.map (·.startBeat)).getD endBeat)
          (min (max tempo.startBeat 0) endBeat)) endBeat := by
      rw [roundBeat_mono.map_min, roundBeat_mono.map_max, hnext, hstart, hend]
    rw [segmentsFrom, timelineSegments, hstart, hstop]
    split_ifs
    · exact ih h.2 time
    · show _ :: segmentsFrom endBeat _ tempos = _
      rw [ih h.2]
      rfl

/-- An entry of the tempos knows its beat, a rounded one. -/
theorem get_tempos {beat : ℚ} (h : (withTempoAtZero (mergeTempos tempos)).get beat = some tempo) :
    tempo.startBeat = beat ∧ 0 ≤ beat ∧ roundBeat beat = beat := by
  have hmerged (hget : (mergeTempos tempos).get beat = some tempo) :
      tempo.startBeat = beat ∧ 0 ≤ beat ∧ roundBeat beat = beat := by
    obtain hmem | hnone := JsMap.mem_or_of_get_ofEntries hget
    · obtain ⟨source, hsource, heq⟩ := List.mem_map.mp hmem
      obtain ⟨rfl, rfl⟩ := Prod.mk.inj heq
      have hnonneg : 0 ≤ source.startBeat := by simpa using List.of_mem_filter hsource
      exact ⟨rfl, roundBeat_zero.symm.trans_le (roundBeat_mono hnonneg), roundBeat_idem _⟩
    · exact absurd hnone (by simp)
  unfold withTempoAtZero at h
  split_ifs at h with hzero
  · exact hmerged h
  · by_cases hbeat : beat = 0
    · subst hbeat
      rw [JsMap.get_set_self] at h
      obtain rfl := Option.some.inj h
      exact ⟨rfl, le_rfl, roundBeat_zero⟩
    · rw [JsMap.get_set_of_ne hbeat] at h
      exact hmerged h

theorem exists_tempo_at_zero (tempos : List NormalizedTempo) :
    ∃ tempo, (withTempoAtZero (mergeTempos tempos)).get 0 = some tempo := by
  unfold withTempoAtZero
  split_ifs with hzero
  · rw [← Option.isSome_iff_exists, Option.isSome_iff_ne_none]
    exact fun hnone => JsMap.get_eq_none_iff.mp hnone (JsMap.has_iff.mp hzero)
  · exact ⟨_, JsMap.get_set_self⟩

/-- The tempos in the order of their beats. -/
def tempoList (tempos : List NormalizedTempo) : List NormalizedTempo :=
  ((withTempoAtZero (mergeTempos tempos)).keys.insertionSort (· ≤ ·)).filterMap
    (withTempoAtZero (mergeTempos tempos)).get

theorem tempoList_ok (tempos : List NormalizedTempo) : TemposOk (tempoList tempos) where
  sorted := JsMap.pairwise_get_sorted fun _ _ h => (get_tempos h).1
  nonneg tempo hmem := by
    obtain ⟨beat, hget⟩ := JsMap.mem_get_sorted.mp hmem
    obtain ⟨heq, hnonneg, -⟩ := get_tempos hget
    exact heq ▸ hnonneg
  zero := by
    obtain ⟨tempo, hget⟩ := exists_tempo_at_zero tempos
    exact ⟨tempo, JsMap.mem_get_sorted.mpr ⟨0, hget⟩, (get_tempos hget).1⟩

theorem tempoList_rounded (tempos : List NormalizedTempo) :
    ∀ tempo ∈ tempoList tempos, roundBeat tempo.startBeat = tempo.startBeat := by
  intro tempo hmem
  obtain ⟨beat, hget⟩ := JsMap.mem_get_sorted.mp hmem
  obtain ⟨heq, -, hround⟩ := get_tempos hget
  exact heq ▸ hround

/-- A tempo before it is rounded. -/
def given (tempo : NormalizedTempo) : TempoSegment := ⟨tempo.startBeat, tempo.bpm⟩

variable {tempoSegments : List TempoSegment}

theorem mapM_checkTempo (hpos : ∀ segment ∈ tempoSegments, 0 < segment.bpm) :
    ∃ valid, tempoSegments.mapM checkTempo = .ok valid ∧ valid.map given = tempoSegments := by
  obtain ⟨valid, hvalid, hgiven⟩ := @Python.exists_mapM_ok _ _ _ _ checkTempo given id
    tempoSegments fun segment hmem => ⟨_, dif_neg (not_le.mpr (hpos segment hmem)), rfl⟩
  exact ⟨valid, hvalid, hgiven.trans (List.map_id _)⟩

/-- The timeline of positive tempos, and the tempos in their order from which it is made. -/
theorem fromScoreTimeline_eq (scoreEndBeat : ℚ)
    (hpos : ∀ segment ∈ tempoSegments, 0 < segment.bpm) :
    ∃ valid, valid.map given = tempoSegments.mergeSort (fun a b => a.startBeat ≤ b.startBeat) ∧
      fromScoreTimeline scoreEndBeat tempoSegments =
        .ok (if roundBeat scoreEndBeat ≤ 0 then ⟨0, []⟩
          else ⟨roundBeat scoreEndBeat,
            timelineSegments (roundBeat scoreEndBeat) 0 (tempoList valid)⟩) := by
  have hsorted := List.mergeSort_perm tempoSegments fun a b => a.startBeat ≤ b.startBeat
  obtain ⟨valid, hvalid, hgiven⟩ := mapM_checkTempo fun segment hmem =>
    hpos segment (hsorted.mem_iff.mp hmem)
  refine ⟨valid, hgiven, ?_⟩
  have htempos : normalizedTempoSegments tempoSegments = .ok (tempoList valid) := by
    rw [normalizedTempoSegments, hvalid]
    rfl
  unfold fromScoreTimeline
  dsimp only
  split_ifs with hend
  · rfl
  · rw [htempos, ← segmentsFrom_eq (roundBeat_idem scoreEndBeat) (tempoList_rounded valid)]
    rfl

/-- The segments of a timeline tile the beats and the time. -/
theorem fromScoreTimeline_tiled {scoreEndBeat : ℚ}
    (hpos : ∀ segment ∈ tempoSegments, 0 < segment.bpm)
    (h : fromScoreTimeline scoreEndBeat tempoSegments = .ok timeline) : timeline.Tiled := by
  obtain ⟨valid, -, heq⟩ := fromScoreTimeline_eq scoreEndBeat hpos
  obtain rfl := Except.ok.inj (heq.symm.trans h)
  split_ifs with hend
  · exact ⟨le_rfl, rfl⟩
  · exact tiled_of_tempos (tempoList_ok valid) (not_le.mp hend)

/-! ## The browser -/

/-- The entries of `byBeat` before the one of beat 0. -/
theorem foldl_set_given (tempos : List NormalizedTempo)
    (hround : ∀ tempo ∈ tempos, 0 ≤ tempo.startBeat →
      roundBeatJs tempo.startBeat = roundBeat tempo.startBeat)
    (byBeat : JsMap ℚ NormalizedTempo) :
    (tempos.map given).foldl (fun byBeat segment =>
      if h : segment.startBeat ≥ 0 ∧ segment.bpm > 0 then
        byBeat.set (roundBeatJs segment.startBeat) ⟨roundBeatJs segment.startBeat, segment.bpm, h.2⟩
      else byBeat) byBeat =
      byBeat.ofEntries ((tempos.filter fun tempo => tempo.startBeat ≥ 0).map fun tempo =>
        (roundBeat tempo.startBeat, ⟨roundBeat tempo.startBeat, tempo.bpm, tempo.bpm_pos⟩)) := by
  induction tempos generalizing byBeat with
  | nil => rfl
  | cons tempo tempos ih =>
    rw [List.forall_mem_cons] at hround
    rw [List.map_cons, List.foldl_cons, ih hround.2]
    by_cases h : tempo.startBeat ≥ 0
    · have hset : (given tempo).startBeat ≥ 0 ∧ (given tempo).bpm > 0 := ⟨h, tempo.bpm_pos⟩
      rw [dif_pos hset, List.filter_cons_of_pos (by simpa using h), List.map_cons,
        JsMap.ofEntries_cons]
      simp only [given, hround.1 h]
    · have hleft : ¬((given tempo).startBeat ≥ 0 ∧ (given tempo).bpm > 0) := fun hset => h hset.1
      rw [dif_neg hleft, List.filter_cons_of_neg (by simpa using h)]

theorem normalizedTempos_eq {artifact : PerformanceArtifact}
    (h : artifact.tempoSegments = tempos.map given)
    (hround : ∀ tempo ∈ tempos, 0 ≤ tempo.startBeat →
      roundBeatJs tempo.startBeat = roundBeat tempo.startBeat) :
    artifact.normalizedTempos = tempoList tempos := by
  unfold PerformanceArtifact.normalizedTempos
  rw [h, foldl_set_given tempos hround]
  exact (JsMap.filterMap_get_sorted fun _ _ hget => (get_tempos hget).1).symm

/-- The browser makes the same maps of the same tempos, in the order of their beats, where
the two round them alike. -/
theorem browser_maps_eq {artifact : PerformanceArtifact}
    (hpos : ∀ segment ∈ tempoSegments, 0 < segment.bpm)
    (h : fromScoreTimeline artifact.scoreEndBeat tempoSegments = .ok timeline)
    (hend : roundBeat artifact.scoreEndBeat = artifact.scoreEndBeat)
    (htempos : artifact.tempoSegments = tempoSegments)
    (hsorted : tempoSegments.Pairwise (·.startBeat ≤ ·.startBeat))
    (hround : ∀ segment ∈ tempoSegments, 0 ≤ segment.startBeat →
      roundBeatJs segment.startBeat = roundBeat segment.startBeat) :
    artifact.timeline.beatToTimeMs = timeline.beatToTimeMs ∧
      ∀ roundBeat : ℚ → ℚ,
        artifact.timeline.timeMsToBeat roundBeat = timeline.timeMsToBeat roundBeat := by
  obtain ⟨valid, hgiven, heq⟩ := fromScoreTimeline_eq artifact.scoreEndBeat hpos
  rw [List.mergeSort_of_pairwise (hsorted.imp fun hle => by simpa using hle)] at hgiven
  obtain rfl := Except.ok.inj (heq.symm.trans h)
  rw [hend]
  by_cases hle : artifact.scoreEndBeat ≤ 0
  · have hsegments : artifact.timeline.segments = [] := if_pos hle
    rw [if_pos hle]
    refine ⟨funext fun beat => ?_, fun roundBeat => funext fun timeMs => ?_⟩
    · simp [beatToTimeMs, segmentForBeat, hsegments]
    · simp [timeMsToBeat, segmentForTimeMs, hsegments]
  · have hnormalized := normalizedTempos_eq (htempos.trans hgiven.symm) fun tempo hmem =>
      hround (given tempo) (hgiven ▸ List.mem_map_of_mem hmem)
    have htimeline : artifact.timeline = ⟨artifact.scoreEndBeat,
        timelineSegments artifact.scoreEndBeat 0 (tempoList valid)⟩ := by
      rw [PerformanceArtifact.timeline, if_neg hle, hnormalized]
    rw [if_neg hle, htimeline]
    exact ⟨rfl, fun _ => rfl⟩

end PerformanceTimeline

end NoteVerse.Practice

import NoteVerse.Practice.ScopeProjection

/-!
# What the timeline of a performance is for

A timeline of positive tempos gives each beat of the score its time (`Coordinates`), each
scope its projection and the browser the maps of the server (`performanceTimeline_serves`).
The browser rounds half a millionth of a beat up and the server to even, so that the maps
agree where the beats of the tempos are rounded alike (`performanceTimeline_rounds`).
-/

namespace NoteVerse.Practice

open PiecewiseLinear ScoreTimeline

namespace PerformanceTimeline

/-- Beats and times are two coordinates of the same segments. -/
structure Coordinates (timeline : PerformanceTimeline) : Prop where
  tiles : Tiles (0, 0) timeline.pieces (timeline.endBeat, timeline.nominalDurationMs)
  continuousOn : ContinuousOn timeline.beatToTimeMs (Set.Icc 0 timeline.endBeat)
  strictMonoOn : StrictMonoOn timeline.beatToTimeMs (Set.Icc 0 timeline.endBeat)
  beat_of_time : ∀ beat ∈ Set.Icc 0 timeline.endBeat,
    timeline.timeMsToBeat id (timeline.beatToTimeMs beat) = beat
  time_of_beat : ∀ timeMs ∈ Set.Icc 0 timeline.nominalDurationMs,
    timeline.beatToTimeMs (timeline.timeMsToBeat id timeMs) = timeMs

/-- The timeline of the browser has the maps of `timeline`. -/
def SameMaps (timeline : PerformanceTimeline) (artifact : PerformanceArtifact) : Prop :=
  artifact.timeline.beatToTimeMs = timeline.beatToTimeMs ∧
    artifact.timeline.timeMsToBeat = timeline.timeMsToBeat

/-- A timeline as the coordinates of the score, of some scopes and of some artifacts. -/
structure Serves (timeline : PerformanceTimeline) (scopes : ResolvedPerformanceScope → Prop)
    (artifacts : PerformanceArtifact → Prop) : Prop where
  coordinates : timeline.Coordinates
  projects : ∀ scoreTimeline startExpectedGroupId endExpectedGroupId scope,
    timeline.resolveScope scoreTimeline startExpectedGroupId endExpectedGroupId = .ok scope →
      scopes scope → timeline.Projects scope
  sameMaps : ∀ artifact, artifacts artifact → timeline.SameMaps artifact

/-- An artifact of the same score, with the tempos in the order of their beats. -/
structure BuiltFrom (scoreEndBeat : ℚ) (tempoSegments : List TempoSegment)
    (artifact : PerformanceArtifact) : Prop where
  endBeat : artifact.scoreEndBeat = roundBeat scoreEndBeat
  tempos : artifact.tempoSegments = tempoSegments
  sorted : tempoSegments.Pairwise (·.startBeat ≤ ·.startBeat)

/-- The beats of the tempos are rounded alike by the server and the browser. -/
def RoundedAlike (tempoSegments : List TempoSegment) : Prop :=
  ∀ segment ∈ tempoSegments, 0 ≤ segment.startBeat →
    roundBeatJs segment.startBeat = roundBeat segment.startBeat

variable {timeline : PerformanceTimeline} {scoreEndBeat : ℚ} {tempoSegments : List TempoSegment}

theorem Tiled.coordinates (h : timeline.Tiled) : timeline.Coordinates where
  tiles := h.tiles
  continuousOn := h.continuousOn
  strictMonoOn := h.strictMonoOn
  beat_of_time _ hbeat := h.timeMsToBeat_beatToTimeMs hbeat
  time_of_beat _ htime := h.beatToTimeMs_timeMsToBeat htime

/-- The end of the score may be rounded before. -/
theorem fromScoreTimeline_round (scoreEndBeat : ℚ) (tempoSegments : List TempoSegment) :
    fromScoreTimeline (roundBeat scoreEndBeat) tempoSegments =
      fromScoreTimeline scoreEndBeat tempoSegments := by
  unfold fromScoreTimeline
  rw [roundBeat_idem]

theorem sameMaps_of_builtFrom (hpos : ∀ segment ∈ tempoSegments, 0 < segment.bpm)
    (h : fromScoreTimeline scoreEndBeat tempoSegments = .ok timeline)
    (hround : RoundedAlike tempoSegments) {artifact : PerformanceArtifact}
    (hbuilt : BuiltFrom scoreEndBeat tempoSegments artifact) : timeline.SameMaps artifact := by
  have htimeline : fromScoreTimeline artifact.scoreEndBeat tempoSegments = .ok timeline := by
    rw [hbuilt.endBeat, fromScoreTimeline_round, h]
  have hend : roundBeat artifact.scoreEndBeat = artifact.scoreEndBeat := by
    rw [hbuilt.endBeat, roundBeat_idem]
  obtain ⟨hbeat, htime⟩ := browser_maps_eq hpos htimeline hend hbuilt.tempos hbuilt.sorted
    hround
  exact ⟨hbeat, funext htime⟩

theorem performanceTimeline_serves (scoreEndBeat : ℚ) (tempoSegments : List TempoSegment)
    (hpos : ∀ segment ∈ tempoSegments, 0 < segment.bpm) :
    ∃ timeline, fromScoreTimeline scoreEndBeat tempoSegments = .ok timeline ∧
      timeline.Serves (fun scope => 0 ≤ scope.startBeat) fun artifact =>
        BuiltFrom scoreEndBeat tempoSegments artifact ∧ RoundedAlike tempoSegments := by
  obtain ⟨valid, -, h⟩ := fromScoreTimeline_eq scoreEndBeat hpos
  have htiled := fromScoreTimeline_tiled hpos h
  have hrounded := fromScoreTimeline_rounded h
  refine ⟨_, h, htiled.coordinates, ?_, ?_⟩
  · intro scoreTimeline startId endId scope hscope hstart
    exact projection_tiles htiled hrounded (resolveScope_ok hrounded hscope) hstart
  · intro artifact hartifact
    exact sameMaps_of_builtFrom hpos h hartifact.2 hartifact.1

/-- Two tempos, the second at a beat that lies halfway between two millionths. -/
def halfwayTempos : List TempoSegment := [⟨0, 120⟩, ⟨1 / 128, 60⟩]

def halfwayArtifact : PerformanceArtifact where
  schemaVersion := 1
  scoreId := "score"
  revisionId := "revision"
  artifactId := "artifact"
  expectedPracticeGroups := []
  practiceAttackSteps := []
  scoreEndBeat := 1
  meterSegments := []
  tempoSegments := halfwayTempos
  evaluatedGroups := []

theorem halfwayTempos_pos : ∀ segment ∈ halfwayTempos, 0 < segment.bpm := by decide

theorem performanceTimeline_serves_halfway :
    ∃ timeline, fromScoreTimeline 1 halfwayTempos = .ok timeline ∧
      timeline.Serves (fun scope => 0 ≤ scope.startBeat) fun artifact =>
        BuiltFrom 1 halfwayTempos artifact ∧ RoundedAlike halfwayTempos :=
  performanceTimeline_serves 1 halfwayTempos halfwayTempos_pos

theorem halfwayTempos_sorted : halfwayTempos.Pairwise (·.startBeat ≤ ·.startBeat) := by
  decide +kernel

theorem fromScoreTimeline_halfway :
    (fromScoreTimeline 1 halfwayTempos).map (·.beatToTimeMs 1) =
      .ok (996094 / 1000) := by
  unfold fromScoreTimeline normalizedTempoSegments
  rw [List.mergeSort_of_pairwise (halfwayTempos_sorted.imp fun hle => by simpa using hle)]
  decide +kernel

/-- The browser has the second tempo a millionth of a beat later. -/
theorem performanceTimeline_rounds :
    ¬ ∀ (scoreEndBeat : ℚ) (tempoSegments : List TempoSegment),
      (∀ segment ∈ tempoSegments, 0 < segment.bpm) →
        ∃ timeline, fromScoreTimeline scoreEndBeat tempoSegments = .ok timeline ∧
          timeline.Serves (fun _ => True) (BuiltFrom scoreEndBeat tempoSegments) := by
  intro hall
  obtain ⟨timeline, h, hserves⟩ := hall 1 halfwayTempos halfwayTempos_pos
  have hbuilt : BuiltFrom 1 halfwayTempos halfwayArtifact :=
    ⟨by decide +kernel, rfl, halfwayTempos_sorted⟩
  have hbrowser := congrFun (hserves.sameMaps _ hbuilt).1 1
  have hserver := fromScoreTimeline_halfway
  rw [h] at hserver
  have hserver : timeline.beatToTimeMs 1 = 996094 / 1000 := Except.ok.inj hserver
  rw [hserver] at hbrowser
  exact absurd hbrowser (by decide +kernel)

end PerformanceTimeline

end NoteVerse.Practice

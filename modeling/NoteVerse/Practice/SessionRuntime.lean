import NoteVerse.Practice.ServerClock

/-!
# The runtime of a performance session

`PerformanceRuntime` of `processing/performance/runtime.py` and
`PerformancePracticeSessionRuntime` of `processing/realtime/session_runtime.py`,
with the meter of `score_timeline.py`. A resume after a pause in the performance
has a count-in of its own, during which the clock stays paused; the clock is
resumed by the first call that finds it over.

What the runtime records of audio and MIDI is left out but for its times.
-/

namespace NoteVerse.Practice

/-! ## The meter -/

structure PracticeMeterSegment where
  startBeat : ℚ
  numerator : Nat
  denominator : Nat
  deriving DecidableEq, Repr

def PracticeMeterSegment.measureDurationBeats (roundBeat : ℚ → ℚ)
    (segment : PracticeMeterSegment) : ℚ :=
  roundBeat (segment.numerator * 4 / segment.denominator)

def defaultMeterSegment : PracticeMeterSegment := ⟨0, 4, 4⟩

/-- The loop of `meter_at`. -/
def meterAtLoop (bounded : ℚ) (active : PracticeMeterSegment) :
    List PracticeMeterSegment → PracticeMeterSegment
  | [] => active
  | segment :: rest =>
    if segment.startBeat > bounded then active else meterAtLoop bounded segment rest

def meterAt (meterSegments : List PracticeMeterSegment) (beat : ℚ) : PracticeMeterSegment :=
  match meterSegments with
  | [] => defaultMeterSegment
  | first :: _ => meterAtLoop (max 0 beat) first meterSegments

/-! ## The clock with its score -/

/-- What a runtime is made with. -/
structure RuntimeConfig extends ClockConfig where
  meterSegments : List PracticeMeterSegment
  roundBeat : ℚ → ℚ

structure PerformanceClockSync where
  state : ClockState
  musicalBeat : ℚ
  performanceTimeMs : ℚ
  countInRemainingMs : ℚ
  countInRemainingPulses : ℚ
  scopeCompleted : Bool
  scopeStartGroupId : Option String
  scopeEndGroupId : Option String
  scopeStartBeat : ℚ
  scopeTerminalBeat : ℚ
  nominalScopeDurationMs : ℚ
  speedRatio : ℚ
  deriving DecidableEq, Repr

namespace RuntimeConfig

variable (config : RuntimeConfig)

/-- `_to_sync` -/
def toSync (snapshot : PerformanceClockSnapshot) : PerformanceClockSync where
  state := snapshot.state
  musicalBeat := snapshot.musicalBeat
  performanceTimeMs := snapshot.performanceElapsedMs
  countInRemainingMs := snapshot.countInRemainingMs
  countInRemainingPulses := snapshot.countInRemainingPulses
  scopeCompleted := snapshot.scopeCompleted
  scopeStartGroupId := config.scope.startGroupId
  scopeEndGroupId := config.scope.endGroupId
  scopeStartBeat := config.scope.startBeat
  scopeTerminalBeat := config.scope.terminalBeat
  nominalScopeDurationMs := config.scope.nominalDurationMs
  speedRatio := config.speedRatio

/-- `count_in_for_beat` -/
def countInForBeat (beat : ℚ) : ℚ × ℚ :=
  let meter := meterAt config.meterSegments beat
  (meter.measureDurationBeats config.roundBeat * 60000 / config.timeline.bpmAtBeat beat /
    config.speedRatio, meter.numerator)

/-- The count-in of a resume once some time has run. -/
def resumeCountIn (elapsed : ℚ) : ℚ × ℚ :=
  config.countInForBeat (config.musicalBeat config.roundBeat (config.performanceElapsedMs elapsed))

end RuntimeConfig

/-! ## The session -/

inductive PracticeInputSource
  | microphone | midi
  deriving DecidableEq, Repr

structure SessionRuntime where
  inputSource : PracticeInputSource
  clock : PerformanceClock
  resumeCountInStartedAtMs : Option ℚ
  resumeCountInDurationMs : ℚ
  resumeCountInPulses : ℚ
  deriving DecidableEq, Repr

namespace SessionRuntime

def initial (inputSource : PracticeInputSource) : SessionRuntime :=
  ⟨inputSource, .initial, none, 0, 0⟩

variable (config : RuntimeConfig) (runtime : SessionRuntime) (nowMs : ℚ)

/-- A method of the runtime's clock. -/
def onClock (answer : PerformanceClock × Except String PerformanceClockSnapshot) :
    SessionRuntime × Except String PerformanceClockSync :=
  ({ runtime with clock := answer.1 }, answer.2.map config.toSync)

/-- `performance_runtime.sync` -/
def clockSync : SessionRuntime × PerformanceClockSync :=
  let (clock, snapshot) := runtime.clock.snapshot config.toClockConfig config.roundBeat nowMs
  ({ runtime with clock }, config.toSync snapshot)

/-- `_resume_count_in_sync` -/
def resumeCountInSync (pausedSync : PerformanceClockSync) : PerformanceClockSync :=
  let elapsedMs :=
    match runtime.resumeCountInStartedAtMs with
    | none => 0
    | some startedAtMs => max 0 (nowMs - startedAtMs)
  let remainingMs := max 0 (runtime.resumeCountInDurationMs - elapsedMs)
  let remainingPulses :=
    if runtime.resumeCountInDurationMs ≤ 0 then 0
    else runtime.resumeCountInPulses * remainingMs / runtime.resumeCountInDurationMs
  { pausedSync with
    state := .countIn
    countInRemainingMs := remainingMs
    countInRemainingPulses := remainingPulses
    scopeCompleted := false }

def clearResumeCountIn : SessionRuntime :=
  { runtime with
    resumeCountInStartedAtMs := none, resumeCountInDurationMs := 0, resumeCountInPulses := 0 }

def startPerformance : SessionRuntime × Except String PerformanceClockSync :=
  runtime.onClock config (runtime.clock.start config.toClockConfig config.roundBeat nowMs)

def pausePerformance : SessionRuntime × Except String PerformanceClockSync :=
  match runtime.resumeCountInStartedAtMs with
  | some _ =>
    let (runtime, sync) := runtime.clearResumeCountIn.clockSync config nowMs
    (runtime, .ok sync)
  | none => runtime.onClock config (runtime.clock.pause config.toClockConfig config.roundBeat nowMs)

/-- `performance_runtime.resume` -/
def resumeClock : SessionRuntime × Except String PerformanceClockSync :=
  runtime.onClock config (runtime.clock.resume config.toClockConfig config.roundBeat nowMs)

def resumePerformance : SessionRuntime × Except String PerformanceClockSync :=
  if ¬runtime.clock.pausedFromRunning then runtime.resumeClock config nowMs
  else
    let (runtime, pausedSync) := runtime.clockSync config nowMs
    let (durationMs, pulses) := config.countInForBeat pausedSync.musicalBeat
    if durationMs ≤ 0 ∨ pulses ≤ 0 then runtime.resumeClock config nowMs
    else
      let runtime := { runtime with
        resumeCountInStartedAtMs := some nowMs
        resumeCountInDurationMs := durationMs
        resumeCountInPulses := pulses }
      (runtime, .ok (runtime.resumeCountInSync nowMs pausedSync))

def performanceSync : SessionRuntime × Except String PerformanceClockSync :=
  match runtime.resumeCountInStartedAtMs with
  | some startedAtMs =>
    let (runtime, pausedSync) := runtime.clockSync config nowMs
    let elapsedMs := max 0 (nowMs - startedAtMs)
    if elapsedMs < runtime.resumeCountInDurationMs then
      (runtime, .ok (runtime.resumeCountInSync nowMs pausedSync))
    else runtime.clearResumeCountIn.resumeClock config nowMs
  | none =>
    let (runtime, sync) := runtime.clockSync config nowMs
    (runtime, .ok sync)

/-- An input of a source at a time: the performance time at which it is recorded,
if the clock runs. -/
def processInput (source : PracticeInputSource) (error : String) :
    SessionRuntime × Except String (Option ℚ) :=
  if runtime.inputSource ≠ source then (runtime, .error error)
  else
    let (runtime, sync) := runtime.performanceSync config nowMs
    (runtime, sync.map fun sync =>
      if sync.state ≠ .running then none else some sync.performanceTimeMs)

def processAudioChunk : SessionRuntime × Except String (Option ℚ) :=
  runtime.processInput config nowMs .microphone
    "This performance session does not accept audio input."

def processMidiEvent : SessionRuntime × Except String (Option ℚ) :=
  runtime.processInput config nowMs .midi "This performance session does not accept MIDI input."

/-! ## The ways through a call -/

variable {config} {runtime}

/-- A sync while no count-in is pending. -/
theorem performanceSync_idle (h : runtime.resumeCountInStartedAtMs = none) (t : ℚ) :
    runtime.performanceSync config t =
      ((runtime.clockSync config t).1, .ok (runtime.clockSync config t).2) := by
  unfold performanceSync
  rw [h]

theorem performanceSync_pending {s : ℚ} (h : runtime.resumeCountInStartedAtMs = some s) (t : ℚ) :
    runtime.performanceSync config t =
      if max 0 (t - s) < runtime.resumeCountInDurationMs then
        ((runtime.clockSync config t).1,
          .ok ((runtime.clockSync config t).1.resumeCountInSync t (runtime.clockSync config t).2))
      else (runtime.clockSync config t).1.clearResumeCountIn.resumeClock config t := by
  unfold performanceSync
  rw [h]
  rfl

theorem resumePerformance_of_not (h : ¬runtime.clock.pausedFromRunning) (t : ℚ) :
    runtime.resumePerformance config t = runtime.resumeClock config t :=
  if_pos h

/-- The runtime that counts in from a time on. -/
def countingIn (runtime : SessionRuntime) (nowMs : ℚ) (countIn : ℚ × ℚ) : SessionRuntime :=
  { runtime with
    resumeCountInStartedAtMs := some nowMs
    resumeCountInDurationMs := countIn.1
    resumeCountInPulses := countIn.2 }

theorem resumePerformance_of_pausedFromRunning (h : runtime.clock.pausedFromRunning) {t : ℚ}
    {countIn : ℚ × ℚ}
    (hcountIn : config.countInForBeat (runtime.clockSync config t).2.musicalBeat = countIn) :
    runtime.resumePerformance config t =
      if countIn.1 ≤ 0 ∨ countIn.2 ≤ 0 then (runtime.clockSync config t).1.resumeClock config t
      else
        ((runtime.clockSync config t).1.countingIn t countIn,
          .ok (((runtime.clockSync config t).1.countingIn t countIn).resumeCountInSync t
            (runtime.clockSync config t).2)) := by
  subst hcountIn
  unfold resumePerformance
  rw [if_neg (not_not.mpr h)]
  rfl

/-- 120 beats a minute in 4/4, from the first beat to the last. -/
def steadyConfig : RuntimeConfig where
  timeline := ⟨100, [⟨0, 100, 0, 120, defaultBpm_pos⟩]⟩
  scope := ⟨none, none, 0, 100, 0, 50000⟩
  speedRatio := 1
  speed_pos := ClockConfig.unitSpeed_pos
  countInMs := 0
  countInPulses := 0
  meterSegments := []
  roundBeat := id

end SessionRuntime

end NoteVerse.Practice

import NoteVerse.Practice.SessionLifecycle
import NoteVerse.Practice.SessionRuntime

/-!
# The stream of a performance

`run_performance_session_loop` of `modules/practice/performance_stream.py`, one
message at a time. The handler of a message reads the server's clock up to
three times; a message of MIDI brings the client's time with it. Requests over
HTTP change the state of the session while the loop runs.

Of what is sent, the syncs of the clock are kept; the inputs that the runtime
records, and the summary that is built at the end, are left out.
-/

namespace NoteVerse.Practice

inductive StreamEvent
  | timeout
  | disconnect
  | invalidControl
  | pause | resume | finish | heartbeat | init
  | midi (timestampMs : ℚ)
  | audio
  /-- The requests of the router. -/
  | httpPause | httpResume | httpFinish
  deriving DecidableEq, Repr

/-- What the server's clock reads while a message is handled. -/
structure Readings where
  first : ℚ
  second : ℚ
  third : ℚ
  deriving DecidableEq, Repr

/-- The readings do not go back. -/
def Readings.InOrder (T : ℚ) (now : Readings) : Prop :=
  T ≤ now.first ∧ now.first ≤ now.second ∧ now.second ≤ now.third

instance (T : ℚ) (now : Readings) : Decidable (now.InOrder T) :=
  inferInstanceAs (Decidable (_ ∧ _ ∧ _))

abbrev TimedStreamEvent := StreamEvent × Readings

structure PerformanceStream where
  session : PracticeSession
  /-- The state that the runtime was last told. -/
  runtimeState : PracticeSessionState
  runtime : SessionRuntime
  lastClockSyncSentMs : ℚ
  closed : Bool
  /-- The syncs that the client was sent. -/
  sent : List PerformanceClockSync
  deriving DecidableEq, Repr

def performanceClockSyncIntervalMs : ℚ := 100

namespace PerformanceStream

variable (config : RuntimeConfig) (stream : PerformanceStream)

def send (sync : PerformanceClockSync) : PerformanceStream :=
  { stream with sent := stream.sent ++ [sync] }

def close : PerformanceStream := { stream with closed := true }

/-- Goes on with what the runtime answers; the loop ends if it raises. -/
def withSync (answer : SessionRuntime × Except String PerformanceClockSync)
    (next : PerformanceStream → PerformanceClockSync → PerformanceStream) : PerformanceStream :=
  match answer.2 with
  | .error _ => { stream with runtime := answer.1, closed := true }
  | .ok sync => next { stream with runtime := answer.1 } sync

/-- Goes on with the session that a step of the service leaves; the loop ends if
it raises. -/
def withSession (session : Option PracticeSession)
    (next : PerformanceStream → PerformanceStream) : PerformanceStream :=
  match session with
  | none => stream.close
  | some session => next { stream with session, runtimeState := session.state }

/-- `fail_active_session_stream`, after which the loop ends. -/
def failStream : PerformanceStream := (stream.withSession stream.session.fail id).close

/-- `finish_scope_if_completed` with a sync; the clock reads `nowMs`. -/
def finishScopeIfCompleted (sync : PerformanceClockSync) (syncAlreadySent : Bool) (nowMs : ℚ) :
    PerformanceStream :=
  if !sync.scopeCompleted then stream
  else
    let stream := if syncAlreadySent then stream else stream.send sync
    let stream := stream.send sync
    stream.withSync (stream.runtime.performanceSync config nowMs) fun stream _ =>
      (stream.withSession (stream.session.finish .scopeCompleted) id).close

/-- `finish_scope_if_completed` without one. -/
def finishScopeNow (nowMs : ℚ) : PerformanceStream :=
  stream.withSync (stream.runtime.performanceSync config nowMs) fun stream sync =>
    stream.finishScopeIfCompleted config sync false nowMs

/-- `send_clock_sync_if_due` -/
def sendClockSyncIfDue (sync : PerformanceClockSync) (nowMs : ℚ) : PerformanceStream :=
  if nowMs - stream.lastClockSyncSentMs ≥ performanceClockSyncIntervalMs then
    { stream.send sync with lastClockSyncSentMs := nowMs }
  else stream

def handleTimeout (now : Readings) : PerformanceStream :=
  stream.withSync (stream.runtime.performanceSync config now.first) fun stream sync =>
    (stream.send sync).finishScopeIfCompleted config sync true now.second

def handlePause (now : Readings) : PerformanceStream :=
  stream.withSession stream.session.pause fun stream =>
    stream.withSync (stream.runtime.pausePerformance config now.first) send

def handleResume (now : Readings) : PerformanceStream :=
  stream.withSession stream.session.resume fun stream =>
    stream.withSync (stream.runtime.resumePerformance config now.first) send

def handleFinish (now : Readings) : PerformanceStream :=
  stream.withSync (stream.runtime.performanceSync config now.first) fun stream sync =>
    stream.withSync (stream.runtime.performanceSync config now.second) fun stream _ =>
      stream.withSession (stream.session.finish .stoppedByUser) fun stream =>
        (stream.send sync).close

def handleHeartbeat (now : Readings) : PerformanceStream :=
  stream.withSync (stream.runtime.performanceSync config now.first) fun stream sync =>
    (stream.send sync).finishScopeNow config now.second

def handleMidi (timestampMs : ℚ) (now : Readings) : PerformanceStream :=
  if stream.runtimeState ≠ .streaming then stream
  else
    let (runtime, result) := stream.runtime.processMidiEvent config timestampMs
    match result with
    | .error _ => failStream { stream with runtime }
    | .ok _ => finishScopeNow config { stream with runtime } now.first

def handleAudio (now : Readings) : PerformanceStream :=
  if stream.runtimeState ≠ .streaming then stream
  else
    let (runtime, result) := stream.runtime.processAudioChunk config now.first
    match result with
    | .error _ => failStream { stream with runtime }
    | .ok _ =>
      let stream := { stream with runtime }
      stream.withSync (stream.runtime.performanceSync config now.second) fun stream sync =>
        (stream.sendClockSyncIfDue sync now.second).finishScopeIfCompleted config sync false now.third

/-- A pause or a resume by the router, which leaves the loop alone. -/
def handleHttp (session : Option PracticeSession) : PerformanceStream :=
  match session with
  | none => stream
  | some session => { stream with session, runtimeState := session.state }

/-- A finish by the router; the runtime is not told. -/
def handleHttpFinish : PerformanceStream :=
  match stream.session.finish .stoppedByUser with
  | none => stream
  | some session => { stream with session }

/-- One turn of the loop. -/
def step (stream : PerformanceStream) (event : TimedStreamEvent) : PerformanceStream :=
  if stream.closed then stream
  else
    match event.1 with
    | .timeout => stream.handleTimeout config event.2
    | .disconnect => stream.failStream
    | .invalidControl => stream.failStream
    | .pause => stream.handlePause config event.2
    | .resume => stream.handleResume config event.2
    | .finish => stream.handleFinish config event.2
    | .heartbeat => stream.handleHeartbeat config event.2
    | .init => stream
    | .midi timestampMs => stream.handleMidi config timestampMs event.2
    | .audio => stream.handleAudio config event.2
    | .httpPause => stream.handleHttp stream.session.pause
    | .httpResume => stream.handleHttp stream.session.resume
    | .httpFinish => stream.handleHttpFinish

/-- Before the loop: the stream is started at the server's time 0. -/
def started (inputSource : PracticeInputSource) (session : PracticeSession) :
    Option PerformanceStream :=
  match session.startStream with
  | none => none
  | some session =>
    let (runtime, result) := (SessionRuntime.initial inputSource).startPerformance config 0
    match result with
    | .error _ => none
    | .ok sync =>
      let stream : PerformanceStream := ⟨session, session.state, runtime, 0, false, []⟩
      some ((stream.send sync).send sync)

/-- A turn of the loop, with the last reading of the server's clock before and after it. -/
def Turn (s : PerformanceStream × ℚ) (event : TimedStreamEvent) (s' : PerformanceStream × ℚ) : Prop :=
  event.2.InOrder s.2 ∧ s' = (s.1.step config event, event.2.third)

end PerformanceStream

end NoteVerse.Practice

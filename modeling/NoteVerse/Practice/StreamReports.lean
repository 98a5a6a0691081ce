import NoteVerse.Lib.Transition
import NoteVerse.Practice.PerformanceStream
import NoteVerse.Practice.StreamClock

/-!
# What a stream reports of its clock

* `turned_sync`, `finishScopeIfCompleted_turned`: what the handlers share keeps
  the reports in order;
* `step_turned`: so does a turn of the loop, if a MIDI message does no harm
  (`Steady`);
* `reports_in_order`: so the performance times that the client is told never
  decrease; `note_ahead_goes_back` is a run in which one does.
-/

namespace NoteVerse.Practice

namespace PerformanceStream

open SessionRuntime

variable {config : RuntimeConfig} {stream : PerformanceStream} {T t : ℚ}

/-- Of two reports the later one is not behind, and says that the scope has ended
if the earlier one does. -/
def After (sync sync' : PerformanceClockSync) : Prop :=
  sync.performanceTimeMs ≤ sync'.performanceTimeMs ∧ (sync.state = .ended → sync'.state = .ended)

/-- What a stream has reported, if the server has read its clock until `T` at the latest. -/
structure StreamOk (config : RuntimeConfig) (T : ℚ) (stream : PerformanceStream) : Prop where
  runtime : RuntimeOk config T stream.runtime
  sorted : stream.sent.Pairwise After
  reported : ∀ sync ∈ stream.sent,
    sync.performanceTimeMs ≤ stream.runtime.performanceTimeAt config T ∧
      (sync.state = .ended → stream.runtime.clock.state = .ended)
  terminal : ∀ sync ∈ stream.sent, sync.state = .ended →
    sync.musicalBeat = config.scope.terminalBeat

theorem StreamOk.runtime_progress {runtime' : SessionRuntime} (h : StreamOk config T stream)
    (hprogress : Progress config T stream.runtime t runtime') :
    StreamOk config t { stream with runtime := runtime' } where
  runtime := hprogress.ok
  sorted := h.sorted
  reported sync hsync :=
    ⟨(h.reported sync hsync).1.trans hprogress.le, fun hended =>
      hprogress.ended ((h.reported sync hsync).2 hended)⟩
  terminal := h.terminal

theorem StreamOk.send {sync : PerformanceClockSync} (h : StreamOk config T stream)
    (hsync : Current config stream.runtime T sync) : StreamOk config T (stream.send sync) where
  runtime := h.runtime
  sorted := by
    apply List.pairwise_append.mpr
    refine ⟨h.sorted, List.pairwise_singleton _ _, fun earlier hearlier later hlater => ?_⟩
    rw [List.mem_singleton.mp hlater]
    obtain ⟨hle, hended⟩ := h.reported earlier hearlier
    exact ⟨hsync.performanceTime ▸ hle, fun hearlier => hsync.ended.mpr (hended hearlier)⟩
  reported other hother := by
    rcases List.mem_append.mp hother with hother | hother
    · exact h.reported other hother
    · rw [List.mem_singleton.mp hother]
      exact ⟨hsync.performanceTime.le, hsync.ended.mp⟩
  terminal other hother := by
    rcases List.mem_append.mp hother with hother | hother
    · exact h.terminal other hother
    · rw [List.mem_singleton.mp hother]
      exact hsync.terminal

/-- The session and whether the loop runs is not what was reported. -/
theorem StreamOk.congr {stream' : PerformanceStream} (h : StreamOk config T stream)
    (hruntime : stream'.runtime = stream.runtime) (hsent : stream'.sent = stream.sent) :
    StreamOk config T stream' := by
  refine ⟨hruntime ▸ h.runtime, hsent ▸ h.sorted, ?_, hsent ▸ h.terminal⟩
  rw [hruntime, hsent]
  exact h.reported

theorem StreamOk.mono (h : StreamOk config T stream) (ht : T ≤ t) : StreamOk config t stream :=
  h.runtime_progress (.refl h.runtime ht)

/-- What a turn of the loop leaves: the loop has ended if the scope has, unless the
scope was over from the start. -/
structure Turned (config : RuntimeConfig) (t : ℚ) (stream : PerformanceStream) : Prop where
  ok : StreamOk config t stream
  scopeOver : stream.closed = false → stream.runtime.clock.state = .ended → Over config

variable {u : ℚ} {sync : PerformanceClockSync}

theorem Turned.mono (h : Turned config t stream) (hu : t ≤ u) : Turned config u stream :=
  ⟨h.ok.mono hu, h.scopeOver⟩

theorem StreamOk.close (h : StreamOk config t stream) : Turned config t stream.close :=
  ⟨h.congr rfl rfl, fun hclosed => nomatch hclosed⟩

/-- Goes on with what the runtime answers. -/
theorem turned_withSync {answer : SessionRuntime × Except String PerformanceClockSync}
    {next : PerformanceStream → PerformanceClockSync → PerformanceStream}
    (h : StreamOk config T stream) (hprogress : Progress config T stream.runtime t answer.1)
    (hu : t ≤ u)
    (hnext : ∀ sync, answer.2 = .ok sync → StreamOk config t { stream with runtime := answer.1 } →
      Turned config u (next { stream with runtime := answer.1 } sync)) :
    Turned config u (stream.withSync answer next) := by
  have hok := h.runtime_progress hprogress
  unfold withSync
  cases hanswer : answer.2 with
  | error message => exact hok.close.mono hu
  | ok sync => exact hnext sync hanswer hok

/-- Goes on with a sync at a time of the server. -/
theorem turned_sync {next : PerformanceStream → PerformanceClockSync → PerformanceStream}
    (h : StreamOk config T stream) (hT : T ≤ t) (hu : t ≤ u)
    (hnext : ∀ runtime' sync, StreamOk config t { stream with runtime := runtime' } →
      Current config runtime' t sync → Turned config u (next { stream with runtime := runtime' } sync)) :
    Turned config u (stream.withSync (stream.runtime.performanceSync config t) next) := by
  obtain ⟨hprogress, sync, hresult, hcurrent⟩ :=
    performanceSync_progress h.runtime hT (.inl le_rfl) fun _ => .inr rfl
  refine turned_withSync h hprogress hu fun sync' hsync' hok => ?_
  rw [hresult] at hsync'
  cases hsync'
  exact hnext _ _ hok (hcurrent rfl)

theorem turned_withSession {session : Option PracticeSession}
    {next : PerformanceStream → PerformanceStream} (h : StreamOk config t stream) (hu : t ≤ u)
    (hnext : ∀ session : PracticeSession,
      Turned config u (next { stream with session, runtimeState := session.state })) :
    Turned config u (stream.withSession session next) := by
  unfold withSession
  cases session with
  | none => exact h.close.mono hu
  | some session => exact hnext session

theorem StreamOk.withSession (h : StreamOk config t stream) (session : Option PracticeSession) :
    StreamOk config t (stream.withSession session id) := by
  cases session with
  | none => exact h.close.ok
  | some session => exact h.congr rfl rfl

theorem StreamOk.failStream (h : StreamOk config t stream) : Turned config t stream.failStream :=
  (h.withSession _).close

theorem finishScopeIfCompleted_turned (h : StreamOk config T stream)
    (hsync : Current config stream.runtime T sync) (hT : T ≤ t) (syncAlreadySent : Bool) :
    Turned config t (stream.finishScopeIfCompleted config sync syncAlreadySent t) := by
  unfold finishScopeIfCompleted
  split_ifs with hcompleted hsent
  · refine ⟨h.mono hT, fun _ hended => ?_⟩
    rw [hsync.completed.mpr (hsync.ended.mpr hended)] at hcompleted
    cases hcompleted
  · exact turned_sync (h.send hsync) hT le_rfl fun _ _ hok _ => (hok.withSession _).close
  · exact turned_sync ((h.send hsync).send hsync) hT le_rfl
      fun _ _ hok _ => (hok.withSession _).close

theorem finishScopeNow_turned (h : StreamOk config T stream) (hT : T ≤ t) :
    Turned config t (stream.finishScopeNow config t) :=
  turned_sync h hT le_rfl fun _ _ hok hcurrent =>
    finishScopeIfCompleted_turned hok hcurrent le_rfl false

theorem sendClockSyncIfDue_ok (h : StreamOk config T stream)
    (hsync : Current config stream.runtime T sync) (nowMs : ℚ) :
    StreamOk config T (stream.sendClockSyncIfDue sync nowMs) := by
  unfold sendClockSyncIfDue
  split_ifs
  · exact (h.send hsync).congr rfl rfl
  · exact h

theorem sendClockSyncIfDue_runtime (nowMs : ℚ) :
    (stream.sendClockSyncIfDue sync nowMs).runtime = stream.runtime := by
  unfold sendClockSyncIfDue
  split_ifs <;> rfl

/-! ## The turns of the loop -/

variable {now : Readings}

theorem handleTimeout_turned (h : StreamOk config T stream) (hT : T ≤ now.first)
    (hfirst : now.first ≤ now.second) :
    Turned config now.second (stream.handleTimeout config now) :=
  turned_sync h hT hfirst fun _ _ hok hcurrent =>
    finishScopeIfCompleted_turned (hok.send hcurrent) hcurrent hfirst true

theorem handlePause_turned (h : StreamOk config T stream) (hT : T ≤ now.first) :
    Turned config now.first (stream.handlePause config now) := by
  refine turned_withSession (h.mono hT) le_rfl fun session => ?_
  have hok : StreamOk config T { stream with session, runtimeState := session.state } :=
    h.congr rfl rfl
  obtain ⟨hprogress, hresult⟩ := pausePerformance_progress hok.runtime hT
  refine turned_withSync hok hprogress le_rfl fun sync hsync hok => ?_
  obtain ⟨hcurrent, hne⟩ := hresult sync hsync
  exact ⟨hok.send hcurrent, fun _ hended => absurd (hcurrent.ended.mpr hended) hne⟩

theorem handleResume_turned (h : StreamOk config T stream) (hT : T ≤ now.first) :
    Turned config now.first (stream.handleResume config now) := by
  refine turned_withSession (h.mono hT) le_rfl fun session => ?_
  have hok : StreamOk config T { stream with session, runtimeState := session.state } :=
    h.congr rfl rfl
  obtain ⟨hprogress, hresult⟩ := resumePerformance_progress hok.runtime hT
  refine turned_withSync hok hprogress le_rfl fun sync hsync hok => ?_
  obtain ⟨hcurrent, hne⟩ := hresult sync hsync
  exact ⟨hok.send hcurrent, fun _ hended => absurd (hcurrent.ended.mpr hended) hne⟩

/-- The sync that is sent at the end is the one before the inputs are finished. -/
theorem handleFinish_turned (h : StreamOk config T stream) (hT : T ≤ now.first)
    (hfirst : now.first ≤ now.second) :
    Turned config now.second (stream.handleFinish config now) := by
  refine turned_sync h hT hfirst fun runtime' sync hok hcurrent => ?_
  obtain ⟨hprogress, sync', hresult, -⟩ :=
    performanceSync_progress hok.runtime hfirst (.inl le_rfl) fun _ => .inr rfl
  have hsent := (hok.send hcurrent).runtime_progress hprogress
  refine turned_withSync hok hprogress le_rfl fun _ _ hok => ?_
  refine turned_withSession hok le_rfl fun session => ?_
  exact StreamOk.close (hsent.congr rfl rfl)

theorem handleHeartbeat_turned (h : StreamOk config T stream) (hT : T ≤ now.first)
    (hfirst : now.first ≤ now.second) :
    Turned config now.second (stream.handleHeartbeat config now) :=
  turned_sync h hT hfirst fun _ _ hok hcurrent =>
    finishScopeNow_turned (hok.send hcurrent) hfirst

theorem handleMidi_turned {timestampMs : ℚ} (h : Turned config T stream)
    (hopen : stream.closed = false)
    (hT : T ≤ now.first)
    (htime : stream.runtimeState = .streaming → stream.runtime.inputSource = .midi →
      timestampMs ≤ now.first ∨ Harmless config stream.runtime timestampMs) :
    Turned config now.first (stream.handleMidi config timestampMs now) := by
  unfold handleMidi
  split_ifs with hstate
  · exact h.mono hT
  · have hprogress : Progress config T stream.runtime now.first
        (stream.runtime.processMidiEvent config timestampMs).1 :=
      processInput_progress _ _ h.ok.runtime hT (htime (not_not.mp hstate)) fun hended =>
        .inl (h.scopeOver hopen hended)
    have hok := h.ok.runtime_progress hprogress
    dsimp only
    split
    · exact hok.failStream
    · exact finishScopeNow_turned hok le_rfl

theorem handleAudio_turned (h : Turned config T stream) (hT : T ≤ now.first)
    (hfirst : now.first ≤ now.second) (hsecond : now.second ≤ now.third) :
    Turned config now.third (stream.handleAudio config now) := by
  unfold handleAudio
  split_ifs with hstate
  · exact h.mono (hT.trans (hfirst.trans hsecond))
  · have hprogress : Progress config T stream.runtime now.first
        (stream.runtime.processAudioChunk config now.first).1 :=
      processInput_progress _ _ h.ok.runtime hT (fun _ => .inl le_rfl) fun _ => .inr rfl
    have hok := h.ok.runtime_progress hprogress
    dsimp only
    split
    · exact hok.failStream.mono (hfirst.trans hsecond)
    · refine turned_sync hok hfirst hsecond fun runtime' sync hok hcurrent => ?_
      refine finishScopeIfCompleted_turned (sendClockSyncIfDue_ok hok hcurrent _) ?_ hsecond false
      rw [sendClockSyncIfDue_runtime]
      exact hcurrent

theorem handleHttp_turned (h : Turned config T stream) (session : Option PracticeSession) :
    Turned config T (stream.handleHttp session) := by
  cases session with
  | none => exact h
  | some session => exact ⟨h.ok.congr rfl rfl, h.scopeOver⟩

theorem handleHttpFinish_turned (h : Turned config T stream) :
    Turned config T stream.handleHttpFinish := by
  unfold handleHttpFinish
  cases stream.session.finish .stoppedByUser with
  | none => exact h
  | some session => exact ⟨h.ok.congr rfl rfl, h.scopeOver⟩

/-- A MIDI message does no harm: the server has come to its time, or it neither ends
the count-in of a resume nor comes to the end of the scope. -/
def Steady (config : RuntimeConfig) (stream : PerformanceStream) (event : TimedStreamEvent) : Prop :=
  match event.1 with
  | .midi timestampMs =>
    stream.runtimeState = .streaming → stream.runtime.inputSource = .midi →
      timestampMs ≤ event.2.first ∨ Harmless config stream.runtime timestampMs
  | _ => True

instance (event : TimedStreamEvent) : Decidable (Steady config stream event) := by
  unfold Steady
  split
  · exact inferInstanceAs (Decidable (_ → _ → _ ∨ _))
  · exact isTrue trivial

/-- A turn of the loop. -/
theorem step_turned {event : TimedStreamEvent} (h : Turned config T stream)
    (hnow : event.2.InOrder T) (hsteady : Steady config stream event) :
    Turned config event.2.third (stream.step config event) := by
  obtain ⟨event, now⟩ := event
  obtain ⟨hT, hfirst, hsecond⟩ := hnow
  have hlast : T ≤ now.third := hT.trans (hfirst.trans hsecond)
  unfold step
  split_ifs with hclosed
  · exact h.mono hlast
  · have hopen : stream.closed = false := Bool.eq_false_iff.mpr hclosed
    cases event with
    | timeout => exact (handleTimeout_turned h.ok hT hfirst).mono hsecond
    | disconnect => exact h.ok.failStream.mono hlast
    | invalidControl => exact h.ok.failStream.mono hlast
    | pause => exact (handlePause_turned h.ok hT).mono (hfirst.trans hsecond)
    | resume => exact (handleResume_turned h.ok hT).mono (hfirst.trans hsecond)
    | finish => exact (handleFinish_turned h.ok hT hfirst).mono hsecond
    | heartbeat => exact (handleHeartbeat_turned h.ok hT hfirst).mono hsecond
    | init => exact h.mono hlast
    | midi timestampMs =>
      exact (handleMidi_turned h hopen hT hsteady).mono (hfirst.trans hsecond)
    | audio => exact handleAudio_turned h hT hfirst hsecond
    | httpPause => exact (handleHttp_turned h _).mono hlast
    | httpResume => exact (handleHttp_turned h _).mono hlast
    | httpFinish => exact (handleHttpFinish_turned h).mono hlast

/-- A clock that has just been started. -/
theorem startPerformance_ok (config : RuntimeConfig) (inputSource : PracticeInputSource) :
    RuntimeOk config 0 ((initial inputSource).startPerformance config 0).1 ∧
      (((initial inputSource).startPerformance config 0).1.clock.state = .ended → Over config) ∧
      ∀ sync, ((initial inputSource).startPerformance config 0).2 = .ok sync →
        Current config ((initial inputSource).startPerformance config 0).1 0 sync := by
  let clock : PerformanceClock := { PerformanceClock.initial with
    startedAtMs := some 0
    state := if config.countInMs > 0 then .countIn else .running }
  have hstate : clock.state = .countIn ∨ clock.state = .running := by
    show (if config.countInMs > 0 then ClockState.countIn else .running) = _ ∨
      (if config.countInMs > 0 then ClockState.countIn else .running) = _
    split_ifs
    · exact .inl rfl
    · exact .inr rfl
  have hne : clock.state ≠ .ended := by
    intro hended
    rw [hended] at hstate
    simp at hstate
  have hok : PerformanceClock.ClockOk config.toClockConfig 0 clock :=
    .active (hstate.imp_right .inl) rfl rfl fun hended => absurd hended hne
  have hadvance := PerformanceClock.advanceTo_ok hok le_rfl (.inl (le_refl (0 : ℚ)))
  refine ⟨⟨hadvance, fun hcountIn => absurd rfl hcountIn⟩, fun hended => ?_, fun sync hsync => ?_⟩
  · by_contra hover
    refine PerformanceClock.advanceTo_ne_ended hok hne ?_ hended
    have helapsed : clock.activeElapsedMs 0 = 0 := by
      rw [PerformanceClock.activeElapsedMs_of_active (by rfl) (by rfl)]
      show max 0 (0 - 0 - 0 : ℚ) = 0
      norm_num
    rw [helapsed]
    exact hover
  · cases hsync
    exact current_snapshot hok rfl

theorem started_turned {inputSource : PracticeInputSource} {session : PracticeSession}
    (h : started config inputSource session = some stream) : Turned config 0 stream := by
  obtain ⟨hok, hover, hcurrent⟩ := startPerformance_ok config inputSource
  unfold started at h
  split at h
  · cases h
  · rename_i started _
    dsimp only at h
    split at h
    · cases h
    · rename_i sync hsync
      cases h
      have hstream : StreamOk config 0
          ⟨started, started.state, ((initial inputSource).startPerformance config 0).1, 0, false, []⟩ :=
        ⟨hok, .nil, fun _ h => (nomatch h), fun _ h => (nomatch h)⟩
      exact ⟨(hstream.send (hcurrent sync hsync)).send (hcurrent sync hsync), fun _ => hover⟩

/-- A sync of a clock that has ended. -/
theorem performanceSync_ended {runtime : SessionRuntime} (h : RuntimeOk config T runtime)
    (hended : runtime.clock.state = .ended) (ht : T ≤ t ∨ Over config) :
    ∃ sync, (runtime.performanceSync config t).2 = .ok sync ∧ sync.state = .ended ∧
      sync.musicalBeat = config.scope.terminalBeat := by
  rcases ht with ht | hover
  · obtain ⟨hprogress, sync, hresult, hcurrent⟩ :=
      performanceSync_progress h ht (.inl le_rfl) fun _ => .inr rfl
    have hstate := (hcurrent rfl).ended.mpr (hprogress.ended hended)
    exact ⟨sync, hresult, hstate, (hcurrent rfl).terminal hstate⟩
  · have hidle : runtime.resumeCountInStartedAtMs = none := by
      by_contra hne
      have hpaused := pausedFromRunning_state (h.countIn hne).1
      rw [hended] at hpaused
      cases hpaused
    have hphase := hover.phase (PerformanceClock.activeElapsedMs_nonneg runtime.clock t)
    rw [performanceSync_idle hidle]
    refine ⟨_, rfl, advanceTo_over h.clock le_rfl (fun _ => .inl hover) hended, if_pos ?_⟩
    show config.scope.nominalDurationMs ≤
      config.performanceElapsedMs (runtime.clock.advanceTo config.toClockConfig t).2
    rw [PerformanceClock.advanceTo_snd h.clock]
    exact (ClockConfig.phase_eq_ended.mp hphase).2.ge

/-- The performance times that the client is told never decrease, in every run whose
MIDI messages do no harm; and once the clock has ended, every later sync says so,
with the terminal beat of the scope. -/
theorem reports_in_order (config : RuntimeConfig) (inputSource : PracticeInputSource)
    (session : PracticeSession) (s : PerformanceStream × ℚ)
    (h : Transition.Reachable (fun s => started config inputSource session = some s.1 ∧ s.2 = 0)
      (Transition.guarded (fun s event => Steady config s.1 event) (Turn config)) s) :
    s.1.sent.Pairwise (fun sync sync' => sync.performanceTimeMs ≤ sync'.performanceTimeMs) ∧
      s.1.sent.Pairwise (fun sync sync' => sync.state = .ended → sync'.state = .ended) ∧
      (∀ sync ∈ s.1.sent, sync.state = .ended →
        sync.musicalBeat = config.scope.terminalBeat ∧ s.1.runtime.clock.state = .ended) ∧
      (s.1.runtime.clock.state = .ended → ∀ t, s.2 ≤ t ∨ s.1.closed = false →
        ∃ sync, (s.1.runtime.performanceSync config t).2 = .ok sync ∧ sync.state = .ended ∧
          sync.musicalBeat = config.scope.terminalBeat) := by
  have hturned : Turned config s.2 s.1 := by
    refine h.invariant (p := fun s => Turned config s.2 s.1) ?_ ?_
    · rintro ⟨stream, T⟩ ⟨hstarted, rfl⟩
      exact started_turned hstarted
    · rintro s event _ hs ⟨hsteady, hnow, rfl⟩
      exact step_turned hs hnow hsteady
  refine ⟨hturned.ok.sorted.imp And.left, hturned.ok.sorted.imp And.right, fun sync hsync hended =>
    ⟨hturned.ok.terminal sync hsync hended, (hturned.ok.reported sync hsync).2 hended⟩,
    fun hended t ht => ?_⟩
  exact performanceSync_ended hturned.ok.runtime hended (ht.imp_right fun hopen =>
    hturned.scopeOver hopen hended)

/-- A stream of MIDI from the first beat to the last. -/
def firstTurn : PerformanceStream :=
  (started steadyConfig .midi ⟨.created, none⟩).get (by decide)

theorem started_firstTurn : started steadyConfig .midi ⟨.created, none⟩ = some firstTurn :=
  (Option.some_get (by decide)).symm

def pauseTurn : TimedStreamEvent := (.pause, ⟨1000, 1000, 1000⟩)

def resumeTurn : TimedStreamEvent := (.resume, ⟨2000, 2000, 2000⟩)

def noteTurn (timestampMs : ℚ) : TimedStreamEvent := (.midi timestampMs, ⟨2500, 2500, 2500⟩)

def heartbeatTurn : TimedStreamEvent := (.heartbeat, ⟨2600, 2600, 2600⟩)

/-- The stream is paused after a second, resumed a second later, and told of a note
at the time `timestampMs` while the count-in is pending. -/
def noteInCountIn (timestampMs : ℚ) : PerformanceStream :=
  (((firstTurn.step steadyConfig pauseTurn).step steadyConfig resumeTurn).step steadyConfig
    (noteTurn timestampMs)).step steadyConfig heartbeatTurn

theorem reports_in_order_note :
    (noteInCountIn 2450).sent.Pairwise
        (fun sync sync' => sync.performanceTimeMs ≤ sync'.performanceTimeMs) ∧
      (noteInCountIn 2450).sent.Pairwise
        (fun sync sync' => sync.state = .ended → sync'.state = .ended) ∧
      (∀ sync ∈ (noteInCountIn 2450).sent, sync.state = .ended →
        sync.musicalBeat = steadyConfig.scope.terminalBeat ∧
          (noteInCountIn 2450).runtime.clock.state = .ended) ∧
      ((noteInCountIn 2450).runtime.clock.state = .ended →
        ∀ t, 2600 ≤ t ∨ (noteInCountIn 2450).closed = false →
          ∃ sync, ((noteInCountIn 2450).runtime.performanceSync steadyConfig t).2 = .ok sync ∧
            sync.state = .ended ∧ sync.musicalBeat = steadyConfig.scope.terminalBeat) :=
  reports_in_order steadyConfig .midi ⟨.created, none⟩ (noteInCountIn 2450, 2600)
    (.step (a := heartbeatTurn) (.step (a := noteTurn 2450) (.step (a := resumeTurn)
      (.step (a := pauseTurn) (.start (s := (firstTurn, 0)) ⟨started_firstTurn, rfl⟩)
        ⟨by decide, by decide, rfl⟩) ⟨by decide, by decide, rfl⟩)
      ⟨by decide +kernel, by decide, rfl⟩) ⟨by decide, by decide, rfl⟩)

/-- A note whose time is far ahead ends the count-in at that time, and the clock falls
back by all that is missing until then. -/
theorem note_ahead_goes_back :
    ¬∀ (config : RuntimeConfig) (inputSource : PracticeInputSource) (session : PracticeSession)
      (s : PerformanceStream × ℚ),
      Transition.Reachable (fun s => started config inputSource session = some s.1 ∧ s.2 = 0)
        (Turn config) s →
      s.1.sent.Pairwise (fun sync sync' => sync.performanceTimeMs ≤ sync'.performanceTimeMs) := by
  intro h
  have hsorted := h steadyConfig .midi ⟨.created, none⟩ (noteInCountIn 10000, 2600)
    (.step (a := heartbeatTurn) (.step (a := noteTurn 10000) (.step (a := resumeTurn)
      (.step (a := pauseTurn) (.start (s := (firstTurn, 0)) ⟨started_firstTurn, rfl⟩)
        ⟨by decide, rfl⟩) ⟨by decide, rfl⟩) ⟨by decide, rfl⟩)
      ⟨by decide, rfl⟩)
  revert hsorted
  decide +kernel

end PerformanceStream

end NoteVerse.Practice

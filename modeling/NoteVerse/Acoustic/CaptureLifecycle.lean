import NoteVerse.Acoustic.RollingPipeline
import NoteVerse.Lib.Transition

/-!
# The life cycle of a capture

A result is emitted only if the generation of its submission is still that of
the pipeline, and each call of `start()`, `stop()` and `failLifecycle` begins a
new one. So results stay in their life cycle and a stopped pipeline emits none
(`Tracked`, kept by each step: `tracked_step`). But `start()` and
`failLifecycle` write their state after their `await` whatever the generation
is: a `stop()` that is over while one of them waits is undone
(`stop_while_loading`). `lifecycle_ok` is the law for the runs where none waits.
-/

namespace NoteVerse.Acoustic

open Js Transition

variable {α Event : Type}

/-- A `start()` or a failure waits: what follows writes the state. -/
def Continuation.WritesState : Continuation → Prop
  | load _ | fail _ _ _ => True
  | infer _ _ _ _ | stop _ _ => False

/-- A continuation of a run in this life cycle and generation. -/
def Continuation.Fits (lifecycle generation : ℕ) : Continuation → Prop
  | load _ => True
  | infer submittedIn submitted _ _ =>
    submitted ≤ generation ∧ (submitted = generation → submittedIn = lifecycle)
  | fail _ _ submitted => ∀ g ∈ submitted, g < generation
  | stop calledIn _ => calledIn ≤ lifecycle

/-- The inference of an earlier generation: its result is dropped. -/
def Continuation.Late (generation : ℕ) : Continuation → Prop
  | infer _ submitted _ _ => submitted < generation
  | _ => True

theorem Continuation.Fits.mono {lifecycle generation : ℕ} {continuation : Continuation}
    (h : continuation.Fits lifecycle generation) :
    continuation.Fits lifecycle (generation + 1) ∧ continuation.Late (generation + 1) := by
  cases continuation with
  | load worker => exact ⟨trivial, trivial⟩
  | infer submittedIn submitted anchor worker =>
    have hle : submitted ≤ generation := h.1
    refine ⟨⟨by omega, fun heq => ?_⟩, Nat.lt_succ_of_le hle⟩
    omega
  | fail worker error submitted => exact ⟨fun g hg => Nat.lt_succ_of_lt (h g hg), trivial⟩
  | stop calledIn worker => exact ⟨h, trivial⟩

/-- A continuation in the life cycle after its own. -/
theorem Continuation.Fits.next {lifecycle generation : ℕ} {continuation : Continuation}
    (h : continuation.Fits lifecycle generation) :
    continuation.Fits (lifecycle + 1) (generation + 1) := by
  cases continuation with
  | load worker => trivial
  | infer submittedIn submitted anchor worker =>
    have hle : submitted ≤ generation := h.1
    refine ⟨by omega, fun heq => ?_⟩
    omega
  | fail worker error submitted => exact fun g hg => Nat.lt_succ_of_lt (h g hg)
  | stop calledIn worker => exact Nat.le_succ_of_le h

namespace CaptureRun

/-- A `stop()` that no `start()` came after was called. -/
def Stopping (run : CaptureRun α Event) : Prop :=
  run.stopped = true ∨ ∃ worker, .stop run.lifecycle worker ∈ run.waiting

/-- What holds in every run, whatever the order in which things come back. -/
structure Tracked (run : CaptureRun α Event) : Prop where
  fits : ∀ c ∈ run.waiting, c.Fits run.lifecycle run.pipeline.generation
  stopping : run.Stopping →
    run.pipeline.worker = none ∧ ∀ c ∈ run.waiting, c.Late run.pipeline.generation
  emittedIn : ∀ e ∈ run.emitted, e.emittedIn = e.submittedIn ∧ e.afterStop = false
  notifiedIn : ∀ n ∈ run.notified, n.1 ≤ run.lifecycle
  notified : (run.notified.map Prod.fst).Nodup
  unnotified : run.pipeline.fatalErrorNotified = false → ∀ n ∈ run.notified, n.1 ≠ run.lifecycle

variable {run : CaptureRun α Event}

/-- What a run tracks does not change with the rest of its state. -/
theorem Tracked.frame (h : run.Tracked) {pipeline : RollingPipeline α} {workers : ℕ}
    {terminated : List (ℕ × String)} {captured : List α} {submitted : List (Submission α)}
    (hgeneration : pipeline.generation = run.pipeline.generation)
    (hworker : pipeline.worker = run.pipeline.worker)
    (hnotified : pipeline.fatalErrorNotified = run.pipeline.fatalErrorNotified) :
    Tracked { run with pipeline, workers, terminated, captured, submitted } where
  fits := by
    show ∀ c ∈ run.waiting, c.Fits run.lifecycle pipeline.generation
    rw [hgeneration]
    exact h.fits
  stopping := by
    show run.Stopping → pipeline.worker = none ∧ ∀ c ∈ run.waiting, c.Late pipeline.generation
    rw [hgeneration, hworker]
    exact h.stopping
  emittedIn := h.emittedIn
  notifiedIn := h.notifiedIn
  notified := h.notified
  unnotified := by
    show pipeline.fatalErrorNotified = false → ∀ n ∈ run.notified, n.1 ≠ run.lifecycle
    rw [hnotified]
    exact h.unnotified

/-- The generation goes on, and the worker is awaited. -/
theorem Tracked.cleanupResources (h : run.Tracked) {next : Option ℕ → Continuation}
    (hnext : (next run.pipeline.worker).Fits run.lifecycle (run.pipeline.generation + 1) ∧
      (next run.pipeline.worker).Late (run.pipeline.generation + 1)) (state : LiveCaptureState) :
    (CaptureRun.cleanupResources { run with pipeline := { run.pipeline with
      generation := run.pipeline.generation + 1, state } } next).Tracked := by
  have hwaiting : ∀ c ∈ run.waiting ++ [next run.pipeline.worker],
      c.Fits run.lifecycle (run.pipeline.generation + 1) ∧
        c.Late (run.pipeline.generation + 1) := by
    intro c hc
    rcases List.mem_append.mp hc with hc | hc
    · exact (h.fits c hc).mono
    · rw [List.mem_singleton.mp hc]
      exact hnext
  exact { h with
    fits := fun c hc => (hwaiting c hc).1
    stopping := fun _ => ⟨rfl, fun c hc => (hwaiting c hc).2⟩ }

theorem Tracked.failLifecycle (h : run.Tracked) {error : String} {submitted : Option ℕ}
    (hsubmitted : ∀ g ∈ submitted, g ≤ run.pipeline.generation) :
    (run.failLifecycle error submitted).Tracked :=
  @Tracked.cleanupResources _ _ _ h (fun worker => .fail worker error submitted)
    ⟨fun g hg => Nat.lt_succ_of_le (hsubmitted g hg), trivial⟩ run.pipeline.state

theorem Tracked.stop (h : run.Tracked) : run.stop.Tracked := by
  unfold CaptureRun.stop
  split_ifs
  · exact h
  · apply h.cleanupResources
    exact ⟨le_refl run.lifecycle, trivial⟩

theorem Tracked.notifyFatalError (h : run.Tracked) (error : String) :
    (run.notifyFatalError error).Tracked := by
  unfold CaptureRun.notifyFatalError
  split_ifs with hnotified
  · exact h
  have hnew := h.unnotified (Bool.eq_false_iff.mpr hnotified)
  refine { h with notifiedIn := ?_, notified := ?_, unnotified := fun hfalse => nomatch hfalse }
  · intro n hn
    rcases List.mem_append.mp hn with hn | hn
    · exact h.notifiedIn n hn
    · rw [List.mem_singleton.mp hn]
  · show ((run.notified ++ [(run.lifecycle, error)]).map Prod.fst).Nodup
    rw [List.map_append, List.map_singleton, List.nodup_append]
    refine ⟨h.notified, List.nodup_singleton _, ?_⟩
    intro l hl l' hl'
    obtain ⟨n, hn, rfl⟩ := List.mem_map.mp hl
    rw [List.mem_singleton.mp hl']
    exact hnew n hn

/-- An inference waits for a worker, so that the pipeline is not being stopped. -/
theorem Tracked.infer (h : run.Tracked) {worker : ℕ} (hworker : run.pipeline.worker = some worker)
    (anchorSampleIndex : ℤ) :
    (run.await (.infer run.lifecycle run.pipeline.generation anchorSampleIndex worker)).Tracked := by
  refine { h with fits := fun c hc => ?_, stopping := fun hstopping => ?_ }
  · rcases List.mem_append.mp hc with hc | hc
    · exact h.fits c hc
    · rw [List.mem_singleton.mp hc]
      exact ⟨le_refl run.pipeline.generation, fun _ => rfl⟩
  · have hstopping' : run.Stopping := by
      apply hstopping.imp_right
      rintro ⟨disposed, hdisposed⟩
      exact ⟨disposed, (List.mem_append.mp hdisposed).resolve_right (by simp)⟩
    have hnone := (h.stopping hstopping').1
    rw [hworker] at hnone
    contradiction

theorem Tracked.emitResult (h : run.Tracked) (hstopped : run.stopped = false)
    (events : List Event) : (run.emitResult run.lifecycle events).Tracked := by
  unfold CaptureRun.emitResult
  split_ifs
  · exact h
  · refine { h with emittedIn := fun e he => ?_ }
    rcases List.mem_append.mp he with he | he
    · exact h.emittedIn e he
    · rw [List.mem_singleton.mp he]
      exact ⟨rfl, hstopped⟩

variable {run' : CaptureRun α Event} {lifecycle generation : ℕ} {continuation : Continuation}

theorem createWorker_eq_ok {client : Throws Unit} {worker : ℕ}
    (h : run.createWorker client = .ok (run', worker)) :
    ∃ consumed, run' = { run with
      pipeline := { run.pipeline with fixedWorkerConsumed := consumed }
      workers := run.workers + 1 } := by
  unfold createWorker at h
  split_ifs at h
  · cases h
    exact ⟨true, rfl⟩
  · cases client with
    | error error => cases h
    | ok client =>
      cases h
      exact ⟨run.pipeline.fixedWorkerConsumed, rfl⟩

theorem emitResult_eq (lifecycle : ℕ) (events : List Event) :
    ∃ emitted, run.emitResult lifecycle events = { run with emitted } := by
  unfold emitResult
  split_ifs
  · exact ⟨run.emitted, rfl⟩
  · exact ⟨_, rfl⟩

theorem notifyFatalError_eq (error : String) :
    ∃ fatalErrorNotified notified, run.notifyFatalError error = { run with
      pipeline := { run.pipeline with fatalErrorNotified }, notified } := by
  unfold notifyFatalError
  split_ifs
  · exact ⟨run.pipeline.fatalErrorNotified, run.notified, rfl⟩
  · exact ⟨_, _, rfl⟩

theorem Tracked.startCapture (h : run.Tracked) (hstopping : ¬ run.Stopping) (worker : ℕ)
    (anchor : SessionTime) (startSampleIndex : ℤ) :
    (run.startCapture worker anchor startSampleIndex).Tracked := by
  refine { h with fits := fun c hc => ?_, stopping := fun hstopping' => ?_ }
  · rcases List.mem_append.mp hc with hc | hc
    · exact h.fits c hc
    · rw [List.mem_singleton.mp hc]
      trivial
  · apply absurd _ hstopping
    apply hstopping'.imp_right
    rintro ⟨disposed, hdisposed⟩
    exact ⟨disposed, (List.mem_append.mp hdisposed).resolve_right (by simp)⟩

/-- A new life cycle, which nothing that waits has stopped. -/
theorem Tracked.start (h : run.Tracked) (client : Throws Unit) (anchor : Throws SessionTime) :
    (run.start client anchor).Tracked := by
  unfold CaptureRun.start
  dsimp only
  generalize hnext : { run with
    pipeline := { run.pipeline with
      generation := run.pipeline.generation + 1
      fatalErrorNotified := false }
    lifecycle := run.lifecycle + 1
    stopped := false } = next
  have hstopping : ¬ next.Stopping := by
    rw [← hnext]
    rintro (hstopped | ⟨worker, hworker⟩)
    · exact nomatch hstopped
    · have hle : run.lifecycle + 1 ≤ run.lifecycle := h.fits _ hworker
      omega
  have htracked : next.Tracked := by
    refine ⟨?_, fun hstopping' => absurd hstopping' hstopping, ?_, ?_, ?_, ?_⟩ <;> rw [← hnext]
    · exact fun c hc => (h.fits c hc).next
    · exact h.emittedIn
    · exact fun n hn => Nat.le_succ_of_le (h.notifiedIn n hn)
    · exact h.notified
    · exact fun _ n hn => (Nat.lt_succ_of_le (h.notifiedIn n hn)).ne
  cases hcreated : next.createWorker client with
  | error error => exact htracked
  | ok created =>
    obtain ⟨run', worker⟩ := created
    obtain ⟨consumed, rfl⟩ := createWorker_eq_ok hcreated
    dsimp only
    split
    · exact htracked.frame rfl rfl rfl
    · apply Tracked.startCapture
      · exact htracked.frame rfl rfl rfl
      · exact hstopping

theorem disposed_eq (worker : Option ℕ) (response : WorkerResponse Event) (reason : String) :
    ∃ terminated, run.disposed worker response reason = { run with terminated } := by
  unfold disposed
  split
  · exact ⟨_, rfl⟩
  · exact ⟨run.terminated, rfl⟩

theorem Tracked.erase (h : run.Tracked) (index : ℕ) :
    (run.erase index).Tracked where
  fits := fun c hc => h.fits c (List.mem_of_mem_eraseIdx hc)
  stopping := fun hstopping => by
    have hstopping' : run.Stopping := hstopping.imp_right fun ⟨worker, hworker⟩ =>
      ⟨worker, List.mem_of_mem_eraseIdx hworker⟩
    refine ⟨(h.stopping hstopping').1, fun c hc => ?_⟩
    exact (h.stopping hstopping').2 c (List.mem_of_mem_eraseIdx hc)
  emittedIn := h.emittedIn
  notifiedIn := h.notifiedIn
  notified := h.notified
  unnotified := h.unnotified

theorem Tracked.resumeStart (h : run.Tracked) (response : WorkerResponse Event) :
    (run.resumeStart response).Tracked := by
  unfold CaptureRun.resumeStart
  split
  · exact h.frame rfl rfl rfl
  · exact h.failLifecycle fun g hg => nomatch hg

theorem resumeStop_eq (lifecycle : ℕ) (worker : Option ℕ) (response : WorkerResponse Event) :
    ∃ terminated, run.resumeStop lifecycle worker response = { run with
      pipeline := { run.pipeline with state := {} }
      terminated
      stopped := run.stopped || lifecycle = run.lifecycle } := by
  unfold resumeStop
  obtain ⟨terminated, hdisposed⟩ := run.disposed_eq worker response
    "Live capture stopped while ByteDance inference was active."
  rw [hdisposed]
  exact ⟨terminated, rfl⟩

/-- A `stop()` that is over was one that was called. -/
theorem Tracked.resumeStop (h : run.Tracked) {worker : Option ℕ}
    (hstopping : lifecycle = run.lifecycle → run.pipeline.worker = none ∧
      ∀ c ∈ run.waiting, c.Late run.pipeline.generation) (response : WorkerResponse Event) :
    (run.resumeStop lifecycle worker response).Tracked := by
  obtain ⟨terminated, hresumed⟩ := run.resumeStop_eq lifecycle worker response
  rw [hresumed]
  have hwritten : Tracked { run with
      pipeline := { run.pipeline with state := {} }, terminated } := h.frame rfl rfl rfl
  refine { hwritten with stopping := fun hnow => ?_ }
  rcases hnow with hstopped | hwaiting
  · rcases Bool.or_eq_true_iff.mp hstopped with hstopped | hlifecycle
    · exact h.stopping (.inl hstopped)
    · exact hstopping (of_decide_eq_true hlifecycle)
  · exact h.stopping (.inr hwaiting)

theorem stopped_start (client : Throws Unit) (anchor : Throws SessionTime) :
    (run.start client anchor).stopped = false := by
  unfold start
  dsimp only
  split
  · rfl
  · rename_i created hcreated
    obtain ⟨consumed, hcreated⟩ := createWorker_eq_ok hcreated
    dsimp only at hcreated
    subst hcreated
    split <;> rfl

@[simp] theorem stopped_emitResult (lifecycle : ℕ) (events : List Event) :
    (run.emitResult lifecycle events).stopped = run.stopped := by
  obtain ⟨emitted, hemitted⟩ := run.emitResult_eq lifecycle events
  rw [hemitted]

@[simp] theorem stopped_notifyFatalError (error : String) :
    (run.notifyFatalError error).stopped = run.stopped := by
  obtain ⟨fatalErrorNotified, notified, hnotified⟩ := run.notifyFatalError_eq error
  rw [hnotified]

theorem tracked_create {options : ControllerOptions} (h : create options = .ok run) :
    run.Tracked := by
  obtain ⟨pipeline, -, h⟩ := bind_eq_ok.mp h
  cases h
  refine ⟨by simp, ?_, by simp, by simp, List.nodup_nil, by simp⟩
  rintro (hstopped | ⟨worker, hworker⟩)
  · exact nomatch hstopped
  · exact absurd hworker List.not_mem_nil

variable [Zero α]

/-- A submission waits for a worker, or fails for want of one. -/
theorem Tracked.submit (h : run.Tracked) (scheduler : RollingInferenceScheduler)
    (anchorSampleIndex : ℤ) : (run.submit scheduler anchorSampleIndex).Tracked := by
  unfold CaptureRun.submit
  dsimp only
  generalize hwindow : buildLiveFixedAnchorWindow (run.pipeline.started scheduler _).ring
    anchorSampleIndex _ = window
  have hsubmitted : Tracked { run with
      pipeline := run.pipeline.started scheduler anchorSampleIndex
      submitted := run.submitted ++ [⟨anchorSampleIndex, window⟩] } :=
    h.frame rfl rfl rfl
  split
  · rename_i worker hworker
    exact hsubmitted.infer (RollingPipeline.worker_of_requestInference hworker) anchorSampleIndex
  · apply hsubmitted.failLifecycle
    intro g hg
    exact (Option.mem_some.mp hg).ge

theorem Tracked.submitAnchor (h : run.Tracked) (anchorSampleIndex : ℤ) :
    (run.submitAnchor anchorSampleIndex).Tracked := by
  unfold CaptureRun.submitAnchor
  split
  · exact h
  · exact h.submit _ anchorSampleIndex

theorem Tracked.finishSubmit (h : run.Tracked) (generation : ℕ) :
    (run.finishSubmit generation).Tracked := by
  unfold CaptureRun.finishSubmit
  split_ifs
  · dsimp only
    split
    · exact h.frame rfl rfl rfl
    · apply Tracked.submitAnchor
      exact h.frame rfl rfl rfl
  · exact h

/-- What an inference of an earlier generation ends with. -/
theorem finishSubmit_late (h : generation < run.pipeline.generation) :
    run.finishSubmit generation = run := by
  rw [CaptureRun.finishSubmit, if_neg]
  exact fun hsame => absurd hsame.1 h.ne

theorem Tracked.append (h : run.Tracked) {samples : List α} {startSampleIndex : Option ℤ}
    (happend : run.appendNormalizedPcm samples startSampleIndex = .ok run') : run'.Tracked := by
  unfold CaptureRun.appendNormalizedPcm at happend
  split_ifs at happend with hstate
  · cases happend
  obtain ⟨ring, -, happend⟩ := bind_eq_ok.mp happend
  dsimp only at happend
  split at happend <;> cases happend
  · exact h.frame rfl rfl rfl
  · apply Tracked.submitAnchor
    exact h.frame rfl rfl rfl

/-- The result of an inference goes to the life cycle of its submission, or to none. -/
theorem Tracked.resumeSubmit (h : run.Tracked) (hle : generation ≤ run.pipeline.generation)
    (hsame : generation = run.pipeline.generation → lifecycle = run.lifecycle ∧ run.stopped = false)
    (response : WorkerResponse Event) (sinkError : Option String) :
    (run.resumeSubmit lifecycle generation response sinkError).Tracked := by
  have hfailed : ∀ g ∈ some generation, g ≤ run.pipeline.generation := by
    intro g hg
    rwa [← Option.mem_some.mp hg]
  unfold CaptureRun.resumeSubmit
  dsimp only
  split
  · rename_i events _
    by_cases hlate : generation ≠ run.pipeline.generation
    · rw [if_pos hlate]
      exact h.finishSubmit generation
    · rw [if_neg hlate]
      obtain ⟨rfl, hstopped⟩ := hsame (not_not.mp hlate)
      have hemitted := h.emitResult hstopped events
      split
      · exact hemitted.finishSubmit generation
      · apply hemitted.failLifecycle
        unfold CaptureRun.emitResult
        split_ifs <;> exact hfailed
  · split_ifs
    · exact h.failLifecycle hfailed
    · exact h.finishSubmit generation

theorem Tracked.resumeFail (h : run.Tracked) (worker : Option ℕ) (error : String)
    (submitted : Option ℕ) (response : WorkerResponse Event) :
    (run.resumeFail worker error submitted response).Tracked := by
  unfold CaptureRun.resumeFail
  obtain ⟨terminated, hdisposed⟩ := run.disposed_eq worker response
    "Live capture failed; ByteDance Worker was terminated."
  rw [hdisposed]
  dsimp only
  split
  · apply Tracked.notifyFatalError
    exact h.frame rfl rfl rfl
  · apply Tracked.finishSubmit
    apply Tracked.notifyFatalError
    exact h.frame rfl rfl rfl

/-- What a run tracks is kept when an `await` comes back. -/
theorem Tracked.resume (h : run.Tracked) {index : ℕ}
    (hindex : run.waiting[index]? = some continuation) (response : WorkerResponse Event)
    (sinkError : Option String) :
    ((run.erase index).resume continuation response sinkError).Tracked := by
  have hmem := List.mem_of_getElem? hindex
  have hfits := h.fits continuation hmem
  have herased := h.erase index
  cases continuation with
  | load worker => exact herased.resumeStart response
  | infer lifecycle generation anchor worker =>
    refine herased.resumeSubmit hfits.1 (fun hsame => ⟨hfits.2 hsame, ?_⟩) response sinkError
    -- a pipeline that is stopped has inferences of earlier generations only
    by_contra hstopped
    have hlate : generation < run.pipeline.generation :=
      (h.stopping (.inl (Bool.eq_true_of_not_eq_false hstopped))).2 _ hmem
    exact hlate.ne hsame
  | fail worker error submitted => exact herased.resumeFail worker error submitted response
  | stop lifecycle worker =>
    apply herased.resumeStop
    rintro rfl
    have hstopping := h.stopping (.inr ⟨worker, hmem⟩)
    exact ⟨hstopping.1, fun c hc => hstopping.2 c (List.mem_of_mem_eraseIdx hc)⟩

theorem tracked_step (h : run.Tracked) {action : CaptureAction α Event}
    (hstep : CaptureStep run action run') : run'.Tracked := by
  cases hstep with
  | start => exact h.start _ _
  | append happend => exact h.append happend
  | refused => exact h
  | stop => exact h.stop
  | settle hindex => exact h.resume hindex _ _

/-! ## After a stop -/

/-- Nothing that waits will write the state of a stopped pipeline. -/
def Idle (run : CaptureRun α Event) : Prop :=
  run.stopped = true → (∀ c ∈ run.waiting, ¬ c.WritesState) ∧
    (run.pipeline.state.state = .idle ∨
      run.pipeline.state.state = .stopping ∧ ∃ lifecycle worker, .stop lifecycle worker ∈ run.waiting)

@[simp] theorem stopped_submitAnchor (anchorSampleIndex : ℤ) :
    (run.submitAnchor anchorSampleIndex).stopped = run.stopped := by
  unfold submitAnchor
  split
  · rfl
  · unfold submit
    dsimp only
    split <;> rfl

@[simp] theorem stopped_finishSubmit (generation : ℕ) :
    (run.finishSubmit generation).stopped = run.stopped := by
  unfold finishSubmit
  split_ifs
  · dsimp only
    split
    · rfl
    · exact stopped_submitAnchor _
  · rfl

theorem stopped_append {samples : List α} {startSampleIndex : Option ℤ}
    (h : run.appendNormalizedPcm samples startSampleIndex = .ok run') :
    run.pipeline.state.state = .running ∧ run'.stopped = run.stopped := by
  unfold appendNormalizedPcm at h
  split_ifs at h with hstate
  · cases h
  refine ⟨not_not.mp hstate, ?_⟩
  obtain ⟨ring, -, h⟩ := bind_eq_ok.mp h
  dsimp only at h
  split at h <;> cases h
  · rfl
  · exact stopped_submitAnchor _

theorem stopped_resumeSubmit (lifecycle generation : ℕ) (response : WorkerResponse Event)
    (sinkError : Option String) :
    (run.resumeSubmit lifecycle generation response sinkError).stopped = run.stopped := by
  unfold resumeSubmit
  dsimp only
  split
  · by_cases hlate : generation ≠ run.pipeline.generation
    · rw [if_pos hlate, stopped_finishSubmit]
    · rw [if_neg hlate]
      split
      · rw [stopped_finishSubmit, stopped_emitResult]
      · exact stopped_emitResult _ _
  · split_ifs
    · rfl
    · exact stopped_finishSubmit generation

/-- An inference of an earlier generation changes nothing. -/
theorem resumeSubmit_late (h : generation < run.pipeline.generation)
    (response : WorkerResponse Event) (sinkError : Option String) :
    run.resumeSubmit lifecycle generation response sinkError = run := by
  unfold resumeSubmit
  dsimp only
  split
  · rw [if_pos h.ne, finishSubmit_late h]
  · rw [if_neg h.ne, finishSubmit_late h]

theorem stopped_resume (h : ∀ lifecycle worker, continuation ≠ .stop lifecycle worker)
    (response : WorkerResponse Event) (sinkError : Option String) :
    (run.resume continuation response sinkError).stopped = run.stopped := by
  cases continuation with
  | load worker =>
    show (run.resumeStart response).stopped = run.stopped
    unfold resumeStart
    split <;> rfl
  | infer lifecycle generation anchor worker =>
    show (run.resumeSubmit lifecycle generation response sinkError).stopped = run.stopped
    exact stopped_resumeSubmit lifecycle generation response sinkError
  | fail worker error submitted =>
    show (run.resumeFail worker error submitted response).stopped = run.stopped
    unfold resumeFail
    obtain ⟨terminated, hdisposed⟩ := run.disposed_eq worker response
      "Live capture failed; ByteDance Worker was terminated."
    rw [hdisposed]
    dsimp only
    split
    · exact stopped_notifyFatalError error
    · rw [stopped_finishSubmit]
      exact stopped_notifyFatalError error
  | stop lifecycle worker => exact absurd rfl (h lifecycle worker)

/-- An action that a stopped pipeline stands: a `stop()` that no `start()` came
after is not over while a `start()` or a failure waits. -/
def Admissible (run : CaptureRun α Event) : CaptureAction α Event → Prop
  | .settle index _ _ => ∀ worker, run.waiting[index]? = some (.stop run.lifecycle worker) →
    ∀ c ∈ run.waiting, ¬ c.WritesState
  | _ => True

/-- A stopped pipeline stays so when an `await` comes back. -/
theorem Idle.settle (h : run.Idle) (ht : run.Tracked) {index : ℕ} {response : WorkerResponse Event}
    {sinkError : Option String} (hok : run.Admissible (.settle index response sinkError))
    (hindex : run.waiting[index]? = some continuation) :
    ((run.erase index).resume continuation response sinkError).Idle := by
  intro hstopped
  have hmem := List.mem_of_getElem? hindex
  by_cases hstop : ∃ lifecycle worker, continuation = .stop lifecycle worker
  · obtain ⟨lifecycle, worker, rfl⟩ := hstop
    obtain ⟨terminated, hresumed⟩ := (run.erase index).resumeStop_eq lifecycle worker response
    have hresumed' : (run.erase index).resume (.stop lifecycle worker) response sinkError = _ :=
      hresumed
    rw [hresumed'] at hstopped ⊢
    have hundisturbed : ∀ c ∈ run.waiting, ¬ c.WritesState := by
      rcases Bool.or_eq_true_iff.mp hstopped with hstopped | hlifecycle
      · exact (h hstopped).1
      · rw [of_decide_eq_true hlifecycle] at hindex
        exact hok worker hindex
    exact ⟨fun c hc => hundisturbed c (List.mem_of_mem_eraseIdx hc), .inl rfl⟩
  · rw [stopped_resume fun lifecycle worker heq => hstop ⟨lifecycle, worker, heq⟩] at hstopped
    obtain ⟨hundisturbed, hstate⟩ := h hstopped
    cases continuation with
    | load worker => exact absurd trivial (hundisturbed _ hmem)
    | fail worker error submitted => exact absurd trivial (hundisturbed _ hmem)
    | stop lifecycle worker => exact absurd ⟨lifecycle, worker, rfl⟩ hstop
    | infer lifecycle generation anchor worker =>
      have hlate : generation < run.pipeline.generation :=
        (ht.stopping (.inl hstopped)).2 _ hmem
      have hresumed : (run.erase index).resume (.infer lifecycle generation anchor worker) response
          sinkError = run.erase index := (run.erase index).resumeSubmit_late hlate response sinkError
      rw [hresumed]
      refine ⟨fun c hc => hundisturbed c (List.mem_of_mem_eraseIdx hc), ?_⟩
      apply hstate.imp_right
      rintro ⟨hstopping, stopIn, disposed, hwaiting⟩
      refine ⟨hstopping, stopIn, disposed, ?_⟩
      -- what comes back is not the `stop()`
      obtain ⟨i, hi⟩ := List.mem_iff_getElem?.mp hwaiting
      refine List.mem_eraseIdx_iff_getElem?.mpr ⟨i, fun hsame => ?_, hi⟩
      rw [hsame, hindex] at hi
      cases hi

theorem idle_step (ht : run.Tracked) (h : run.Idle) {action : CaptureAction α Event}
    (hok : run.Admissible action) (hstep : CaptureStep run action run') : run'.Idle := by
  intro hstopped
  cases hstep with
  | start =>
    rw [stopped_start] at hstopped
    exact nomatch hstopped
  | append happend =>
    obtain ⟨hrunning, hsame⟩ := stopped_append happend
    rcases (h (hsame ▸ hstopped)).2 with hidle | hstopping
    · rw [hrunning] at hidle
      contradiction
    · rw [hrunning] at hstopping
      exact nomatch hstopping.1
  | refused => exact h hstopped
  | stop =>
    unfold stop at hstopped ⊢
    split_ifs at hstopped ⊢
    · exact h hstopped
    · refine ⟨fun c hc => ?_, .inr ⟨rfl, run.lifecycle, run.pipeline.worker, ?_⟩⟩
      · rcases List.mem_append.mp hc with hc | hc
        · exact (h hstopped).1 c hc
        · rw [List.mem_singleton.mp hc]
          exact id
      · exact List.mem_append_right _ (List.mem_singleton_self _)
  | settle hindex hanswers => exact h.settle ht hok hindex hstopped

end CaptureRun

/-! ## The law -/

/-- A result is emitted in the life cycle of its submission. A pipeline that was
stopped, and not started since, has no worker and emits nothing; it is idle, or
being stopped once more. A life cycle has at most one fatal error. -/
structure LifecycleOk (run : CaptureRun α Event) : Prop where
  emittedIn : ∀ e ∈ run.emitted, e.emittedIn = e.submittedIn
  stopped : run.stopped = true → run.pipeline.worker = none ∧
    (run.pipeline.state.state = .idle ∨
      run.pipeline.state.state = .stopping ∧ ∃ lifecycle worker, .stop lifecycle worker ∈ run.waiting)
  quiet : ∀ e ∈ run.emitted, e.afterStop = false
  notified : (run.notified.map Prod.fst).Nodup

/-- The runs of a new pipeline. -/
def IsNew (run : CaptureRun α Event) : Prop := ∃ options, CaptureRun.create options = .ok run

theorem lifecycle_ok [Zero α] {run : CaptureRun α Event}
    (h : Reachable IsNew (guarded CaptureRun.Admissible CaptureStep) run) : LifecycleOk run := by
  have hkept : run.Tracked ∧ run.Idle := by
    refine h.invariant (p := fun run => run.Tracked ∧ run.Idle) ?_ ?_
    · rintro run ⟨options, hcreated⟩
      refine ⟨CaptureRun.tracked_create hcreated, fun hstopped => ?_⟩
      obtain ⟨pipeline, -, hcreated⟩ := bind_eq_ok.mp hcreated
      cases hcreated
      exact nomatch hstopped
    · rintro run action run' ⟨htracked, hidle⟩ ⟨hok, hstep⟩
      exact ⟨CaptureRun.tracked_step htracked hstep, CaptureRun.idle_step htracked hidle hok hstep⟩
  obtain ⟨htracked, hidle⟩ := hkept
  exact {
    emittedIn := fun e he => (htracked.emittedIn e he).1
    stopped := fun hstopped => ⟨(htracked.stopping (.inl hstopped)).1, (hidle hstopped).2⟩
    quiet := fun e he => (htracked.emittedIn e he).2
    notified := htracked.notified }

/-- Options with a factory of workers and a small ring. -/
def factoryOptions : ControllerOptions := ⟨"practice", 48000, false, some 16⟩

/-- A pipeline with them. -/
def newRun : CaptureRun ℕ ℕ :=
  ⟨⟨factoryOptions, ⟨16, [], 0, 0⟩, {}, none, ⟨"practice", 0, some 0⟩, 0, 0, false, false, {}⟩,
    [], 0, [], 0, false, [], [], [], []⟩

theorem isNew_newRun : IsNew newRun := ⟨factoryOptions, rfl⟩

/-- The start of a capture at its first sample. -/
def startedRun : CaptureRun ℕ ℕ := newRun.start (.ok ()) (.ok ⟨"practice", some 0, some 0⟩)

/-- The model has been loaded. -/
def loadedRun : CaptureRun ℕ ℕ := (startedRun.erase 0).resume (.load 0) .ready none

/-- A `stop()` after the model has been loaded. -/
theorem lifecycle_ok_stopped :
    LifecycleOk ((loadedRun.stop.erase 0).resume (.stop 1 (some 0)) .disposed none) := by
  apply lifecycle_ok
  have hstart : Reachable IsNew (guarded CaptureRun.Admissible CaptureStep) startedRun :=
    .step (a := .start _ _) (.start isNew_newRun) ⟨trivial, .start⟩
  have hload : Reachable IsNew (guarded CaptureRun.Admissible CaptureStep) loadedRun :=
    .step (a := .settle 0 .ready none) hstart
      ⟨fun worker hworker => (nomatch hworker), .settle rfl fun _ h => nomatch h⟩
  have hstop : Reachable IsNew (guarded CaptureRun.Admissible CaptureStep) loadedRun.stop :=
    .step (a := .stop) hload ⟨trivial, .stop⟩
  refine .step (a := .settle 0 .disposed none) hstop ⟨fun worker _ c hc => ?_, .settle rfl fun _ h => nomatch h⟩
  rw [List.mem_singleton.mp hc]
  exact id

/-- A `stop()` while the model is being loaded: the worker is disposed of, then
the model is there, and the stopped pipeline runs without a worker. -/
theorem stop_while_loading :
    ∃ run : CaptureRun ℕ ℕ, Reachable IsNew CaptureStep run ∧ run.stopped = true ∧
      run.pipeline.state.state = .running ∧ ¬ LifecycleOk run := by
  refine ⟨((startedRun.stop.erase 1).resume (.stop 1 (some 0)) .disposed none).erase 0
    |>.resume (.load 0) .ready none, ?_, rfl, rfl, fun h => ?_⟩
  · have hstart : Reachable IsNew CaptureStep startedRun := .step (.start isNew_newRun) .start
    have hstop : Reachable IsNew CaptureStep startedRun.stop := .step hstart .stop
    have hstopped : Reachable IsNew CaptureStep
        ((startedRun.stop.erase 1).resume (.stop 1 (some 0)) .disposed none) :=
      .step hstop (.settle rfl fun _ h => nomatch h)
    exact .step hstopped (.settle rfl fun _ h => nomatch h)
  · rcases (h.stopped rfl).2 with hidle | ⟨hstopping, -⟩
    · exact nomatch hidle
    · exact nomatch hstopping

end NoteVerse.Acoustic

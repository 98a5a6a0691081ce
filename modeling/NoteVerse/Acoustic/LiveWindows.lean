import NoteVerse.Acoustic.CaptureLifecycle
import NoteVerse.Lib.Lists

/-!
# The windows of a capture

One capture, from its `start()`: chunks are appended and requests come back in
any order. While an inference is active each chunk moves the pending anchor to
the latest one, so that the ring ends less than one step after its future
(`Streams.pending`), and a ring of the default capacity has the whole window
(`Streams.window`). A capture is in one of the phases of `Phase`; `live_windows`
follows from what each step does to them (`capturing_step`).

`failLifecycle` resets the ring and the scheduler and then awaits the worker with
the state still `running`: a chunk that comes in the meantime without its index
is taken for the first, and its anchors are submitted again
(`append_after_failure`). The runs of `Feeds` have no such chunk.
-/

namespace NoteVerse.Acoustic

open Js Transition Lists

variable {α Event : Type} [Zero α]

/-! ## The law -/

/-- The anchors of a capture that began at `start`, with their windows. -/
structure Submitted (start : ℕ) (captured : List α) (submitted : List (Submission α)) : Prop where
  increasing : (submitted.map (·.anchorSampleIndex)).Pairwise (· < ·)
  grid : ∀ s ∈ submitted, anchorStepSamples ∣ s.anchorSampleIndex ∧ start ≤ s.anchorSampleIndex
  window : ∀ s ∈ submitted, s.anchorSampleIndex + futureSamples ≤ start + captured.length ∧
    ∃ window, s.window = .ok window ∧
      window.pcm = windowSamples start captured s.anchorSampleIndex

/-- A request of an inference of an earlier capture. -/
def Continuation.Earlier (lifecycle generation : ℕ) : Continuation → Prop
  | infer submittedIn submitted _ _ => submittedIn < lifecycle ∧ submitted < generation
  | _ => False

/-- What happens in one capture, but that while a failure waits for its worker, a
chunk comes with its index, which is not that of the start. -/
def CaptureRun.Feeds (run : CaptureRun α Event) : CaptureAction α Event → Prop
  | .append _ startSampleIndex =>
    (∃ worker error submitted, .fail worker error submitted ∈ run.waiting) →
      ∃ index, startSampleIndex = some index ∧ index ≠ run.pipeline.lifecycleStartSampleIndex
  | .settle _ _ _ => True
  | .start _ _ | .stop => False

/-! ## What the anchors are -/

theorem Submitted.nil (start : ℕ) (captured : List α) : Submitted start captured [] := by
  constructor <;> simp

theorem Submitted.append {start : ℕ} {captured : List α} {submitted : List (Submission α)}
    (h : Submitted start captured submitted) (samples : List α) :
    Submitted start (captured ++ samples) submitted where
  increasing := h.increasing
  grid := h.grid
  window := by
    intro s hs
    obtain ⟨hend, window, hwindow, hpcm⟩ := h.window s hs
    refine ⟨?_, window, hwindow, ?_⟩
    · rw [List.length_append]
      omega
    · rw [hpcm, windowSamples_append samples hend]

theorem Submitted.snoc {start : ℕ} {captured : List α} {submitted : List (Submission α)}
    (h : Submitted start captured submitted) {s : Submission α}
    (hafter : ∀ s' ∈ submitted, s'.anchorSampleIndex < s.anchorSampleIndex)
    (hgrid : anchorStepSamples ∣ s.anchorSampleIndex ∧ start ≤ s.anchorSampleIndex)
    (hwindow : s.anchorSampleIndex + futureSamples ≤ start + captured.length ∧
      ∃ window, s.window = .ok window ∧
        window.pcm = windowSamples start captured s.anchorSampleIndex) :
    Submitted start captured (submitted ++ [s]) where
  increasing := by
    rw [List.map_append, List.map_singleton, List.pairwise_append]
    refine ⟨h.increasing, List.pairwise_singleton _ _, fun a ha b hb => ?_⟩
    obtain ⟨s', hs', rfl⟩ := List.mem_map.mp ha
    rw [List.mem_singleton.mp hb]
    exact hafter s' hs'
  grid := by
    intro s' hs'
    rcases List.mem_append.mp hs' with hs' | hs'
    · exact h.grid s' hs'
    · rw [List.mem_singleton.mp hs']
      exact hgrid
  window := by
    intro s' hs'
    rcases List.mem_append.mp hs' with hs' | hs'
    · exact h.window s' hs'
    · rw [List.mem_singleton.mp hs']
      exact hwindow

/-! ## The phases -/

/-- What the ring and the scheduler have while a capture goes on. -/
structure Streams (start : ℕ) (run : CaptureRun α Event) : Prop where
  capacity : run.pipeline.ring.capacitySamples = defaultLiveRingCapacitySamples
  ring : run.pipeline.ring.Holds start run.captured
  min : run.pipeline.scheduler.minAnchorSampleIndex = start
  last : ∀ s ∈ run.submitted, ∃ last ∈ run.pipeline.scheduler.lastSubmittedAnchor,
    s.anchorSampleIndex ≤ last
  pending : ∀ anchor ∈ run.pipeline.scheduler.pendingAnchor,
    run.pipeline.scheduler.activeAnchor.isSome ∧
    anchor = latestAnchor run.pipeline.ring.endIndex ∧ start ≤ anchor ∧
    After anchor run.pipeline.scheduler.lastSubmittedAnchor

inductive Phase (start : ℕ) (run : CaptureRun α Event) : Prop
  | loading {worker : ℕ}
    (waiting : Only (Continuation.Earlier run.lifecycle run.pipeline.generation) (.load worker)
      run.waiting)
    (state : run.pipeline.state.state = .initializingModel)
    (streams : Streams start run)
    (active : run.pipeline.scheduler.activeAnchor = none)
  | ready
    (waiting : ∀ c ∈ run.waiting, c.Earlier run.lifecycle run.pipeline.generation)
    (state : run.pipeline.state.state = .running)
    (streams : Streams start run)
    (active : run.pipeline.scheduler.activeAnchor = none)
  | active {anchor : ℤ} {worker : ℕ}
    (waiting : Only (Continuation.Earlier run.lifecycle run.pipeline.generation)
      (.infer run.lifecycle run.pipeline.generation anchor worker) run.waiting)
    (state : run.pipeline.state.state = .running)
    (streams : Streams start run)
    (active : run.pipeline.scheduler.activeAnchor.isSome)
  | failing {worker : Option ℕ} {error : String} {submitted : Option ℕ}
    (waiting : Only (Continuation.Earlier run.lifecycle run.pipeline.generation)
      (.fail worker error submitted) run.waiting)
    (late : ∀ g ∈ submitted, g < run.pipeline.generation)
    (pending : run.pipeline.scheduler.pendingAnchor = none)
    (ring : run.pipeline.ring.endIndex = run.pipeline.lifecycleStartSampleIndex)
  | failed
    (waiting : ∀ c ∈ run.waiting, c.Earlier run.lifecycle run.pipeline.generation)
    (state : run.pipeline.state.state = .error)
    (pending : run.pipeline.scheduler.pendingAnchor = none)

structure Capturing (start : ℕ) (run : CaptureRun α Event) : Prop where
  origin : run.pipeline.lifecycleStartSampleIndex = start
  submitted : Submitted start run.captured run.submitted
  phase : Phase start run

variable {start : ℕ} {run : CaptureRun α Event}

variable {continuation : Continuation}

theorem Continuation.Earlier.mono {lifecycle generation : ℕ}
    (h : continuation.Earlier lifecycle generation) :
    continuation.Earlier lifecycle (generation + 1) := by
  cases continuation with
  | infer submittedIn submitted anchor worker => exact ⟨h.1, Nat.lt_succ_of_lt h.2⟩
  | load worker => exact h
  | fail worker error submitted => exact h
  | stop lifecycle worker => exact h

theorem default_capacity : defaultLiveRingCapacitySamples = 42240 := by
  simp [defaultLiveRingCapacitySamples, modelWindowSamples, anchorStepSamples]

/-- The window of an anchor whose future has just come is in the ring. -/
theorem Streams.window (h : Streams start run) {anchor : ℤ} (hstart : start ≤ anchor)
    (hfuture : anchor + futureSamples ≤ run.pipeline.ring.endIndex)
    (hstep : run.pipeline.ring.endIndex < anchor + futureSamples + anchorStepSamples) :
    anchor + futureSamples ≤ start + run.captured.length ∧
    ∃ window, buildLiveFixedAnchorWindow run.pipeline.ring anchor start = .ok window ∧
      window.pcm = windowSamples start run.captured anchor := by
  have hcapacity := h.capacity
  have hend := h.ring.endIndex
  rw [default_capacity] at hcapacity
  refine ⟨by omega, h.ring.window (by omega) hstart hfuture ?_⟩
  simp only [futureSamples_eq, targetAnchorSamples_eq, anchorStepSamples] at hstep ⊢
  omega

namespace RollingInferenceScheduler

variable {scheduler : RollingInferenceScheduler} {capturedEndSampleIndex : ℤ}

/-- An anchor that is ready: the latest one, on the grid, after the last. -/
theorem nextReadyAnchor_eq_some {scheduler' : RollingInferenceScheduler} {anchor : ℤ}
    (h : scheduler.nextReadyAnchor capturedEndSampleIndex = (scheduler', some anchor)) :
    scheduler' = scheduler ∧ anchor = latestAnchor capturedEndSampleIndex ∧
      scheduler.minAnchorSampleIndex ≤ anchor ∧ After anchor scheduler.lastSubmittedAnchor := by
  unfold nextReadyAnchor at h
  dsimp only at h
  split_ifs at h with heligible hactive
  · exact nomatch (Prod.mk.inj h).2
  · exact nomatch (Prod.mk.inj h).2
  obtain ⟨rfl, hlatest⟩ := Prod.mk.inj h
  rw [not_or, not_lt, Bool.not_eq_true, any_le_eq_false, Option.some.inj hlatest] at heligible
  exact ⟨rfl, (Option.some.inj hlatest).symm, le_firstEligible.trans heligible.1, heligible.2⟩

/-- With no inference active, the scheduler stays as it is. -/
theorem nextReadyAnchor_of_idle (h : scheduler.activeAnchor = none) (capturedEndSampleIndex : ℤ) :
    (scheduler.nextReadyAnchor capturedEndSampleIndex).1 = scheduler := by
  unfold nextReadyAnchor
  dsimp only
  rw [h]
  split_ifs <;> first | rfl | contradiction

/-- With one active, the latest anchor is pending, or nothing changes. -/
theorem nextReadyAnchor_of_active (h : scheduler.activeAnchor.isSome)
    (capturedEndSampleIndex : ℤ) :
    scheduler.nextReadyAnchor capturedEndSampleIndex = (scheduler, none) ∧
      (latestAnchor capturedEndSampleIndex < scheduler.firstEligible ∨
        ¬ After (latestAnchor capturedEndSampleIndex) scheduler.lastSubmittedAnchor) ∨
    (∃ skipped, scheduler.nextReadyAnchor capturedEndSampleIndex = ({ scheduler with
        skipped, pendingAnchor := some (latestAnchor capturedEndSampleIndex) }, none)) ∧
      scheduler.minAnchorSampleIndex ≤ latestAnchor capturedEndSampleIndex ∧
        After (latestAnchor capturedEndSampleIndex) scheduler.lastSubmittedAnchor := by
  unfold nextReadyAnchor
  dsimp only
  rw [if_pos h]
  split_ifs with heligible
  · refine .inl ⟨rfl, heligible.imp_right fun hlast hafter => ?_⟩
    rw [any_le_eq_false.mpr hafter] at hlast
    exact nomatch hlast
  · rw [not_or, not_lt, Bool.not_eq_true, any_le_eq_false] at heligible
    exact .inr ⟨⟨_, rfl⟩, le_firstEligible.trans heligible.1, heligible.2⟩

/-- An anchor of the grid that is not before the start is not before the first one. -/
theorem firstEligible_le {anchor : ℤ} (hgrid : anchorStepSamples ∣ anchor)
    (hmin : scheduler.minAnchorSampleIndex ≤ anchor) : scheduler.firstEligible ≤ anchor := by
  obtain ⟨k, rfl⟩ := hgrid
  simp only [firstEligible, anchorStepSamples] at hmin ⊢
  omega

end RollingInferenceScheduler

/-! ## What a step does -/

/-- A failure: the ring and the scheduler are as before the start. -/
theorem capturing_failLifecycle (horigin : run.pipeline.lifecycleStartSampleIndex = start)
    (hsubmitted : Submitted start run.captured run.submitted)
    (hwaiting : ∀ c ∈ run.waiting, c.Earlier run.lifecycle run.pipeline.generation)
    {submitted : Option ℕ} (hle : ∀ g ∈ submitted, g ≤ run.pipeline.generation) (error : String) :
    Capturing start (run.failLifecycle error submitted) where
  origin := horigin
  submitted := hsubmitted
  phase := .failing (only_append_singleton (fun c hc => (hwaiting c hc).mono) _)
    (fun g hg => Nat.lt_succ_of_le (hle g hg)) rfl rfl

/-- An anchor is submitted while no inference is active. -/
theorem capturing_submitAnchor (horigin : run.pipeline.lifecycleStartSampleIndex = start)
    (hsubmitted : Submitted start run.captured run.submitted)
    (hwaiting : ∀ c ∈ run.waiting, c.Earlier run.lifecycle run.pipeline.generation)
    (hstate : run.pipeline.state.state = .running) (hstreams : Streams start run)
    (hactive : run.pipeline.scheduler.activeAnchor = none)
    {anchor : ℤ} (hanchor : anchor = latestAnchor run.pipeline.ring.endIndex)
    (hstart : start ≤ anchor) (hafter : After anchor run.pipeline.scheduler.lastSubmittedAnchor) :
    Capturing start (run.submitAnchor anchor) := by
  have hbounds := latestAnchor_bounds run.pipeline.ring.endIndex
  rw [← hanchor] at hbounds
  have hwindow := hstreams.window hstart hbounds.1 hbounds.2
  have hpending : run.pipeline.scheduler.pendingAnchor = none := by
    cases hpending : run.pipeline.scheduler.pendingAnchor with
    | none => rfl
    | some pending =>
      have hsome := (hstreams.pending pending hpending).1
      rw [hactive] at hsome
      contradiction
  have hsnoc : Submitted start run.captured (run.submitted ++ [⟨anchor,
      buildLiveFixedAnchorWindow run.pipeline.ring anchor
        run.pipeline.lifecycleStartSampleIndex⟩]) := by
    refine hsubmitted.snoc (fun s hs => ?_) ⟨?_, hstart⟩ ?_
    · obtain ⟨last, hlast, hle⟩ := hstreams.last s hs
      exact hle.trans_lt (hafter last hlast)
    · rw [hanchor]
      exact dvd_latestAnchor _
    · rw [horigin]
      exact hwindow
  have hstarted : run.pipeline.scheduler.markStarted anchor = .ok { run.pipeline.scheduler with
      activeAnchor := some anchor, lastSubmittedAnchor := some anchor, pendingAnchor := none } := by
    unfold RollingInferenceScheduler.markStarted
    rw [hactive, hpending]
    rfl
  unfold CaptureRun.submitAnchor
  rw [hstarted]
  dsimp only
  unfold CaptureRun.submit
  dsimp only
  split
  · refine ⟨horigin, hsnoc, .active (only_append_singleton hwaiting _) hstate ?_ rfl⟩
    refine ⟨hstreams.capacity, hstreams.ring, hstreams.min, fun s hs => ⟨anchor, rfl, ?_⟩,
      fun pending hpending => nomatch hpending⟩
    rcases List.mem_append.mp hs with hs | hs
    · obtain ⟨last, hlast, hle⟩ := hstreams.last s hs
      exact (hle.trans_lt (hafter last hlast)).le
    · rw [List.mem_singleton.mp hs]
  · apply capturing_failLifecycle
    · exact horigin
    · exact hsnoc
    · exact hwaiting
    · intro g hg
      exact (Option.mem_some.mp hg).ge

/-- A chunk comes while the capture goes on. -/
theorem Capturing.append (h : Capturing start run) {samples : List α} {startSampleIndex : Option ℤ}
    {run' : CaptureRun α Event} (hfeeds : run.Feeds (.append samples startSampleIndex))
    (happend : run.appendNormalizedPcm samples startSampleIndex = .ok run') :
    Capturing start run' := by
  unfold CaptureRun.appendNormalizedPcm at happend
  split_ifs at happend with hstate
  · cases happend
  obtain ⟨ring, hring, happend⟩ := bind_eq_ok.mp happend
  rw [not_not] at hstate
  have hstreams' : Streams start run → ring.Holds start (run.captured ++ samples) ∧
      ring.capacitySamples = defaultLiveRingCapacitySamples := by
    intro hstreams
    obtain ⟨hholds, hcapacity⟩ := hstreams.ring.append hring
    exact ⟨hholds, hcapacity.trans hstreams.capacity⟩
  cases h.phase with
  | loading waiting state =>
    rw [hstate] at state
    contradiction
  | failed waiting state =>
    rw [hstate] at state
    contradiction
  | failing waiting late pending ringEnd =>
    -- the chunk comes with an index at which the ring does not end
    obtain ⟨index, hindex, hne⟩ := hfeeds ⟨_, _, _, waiting.mem⟩
    have hend := PcmRing.append_eq_ok_iff.mp ⟨ring, hring⟩ index hindex
    exact absurd (hend.trans ringEnd) hne
  | ready waiting state streams active =>
    obtain ⟨hholds, hcapacity⟩ := hstreams' streams
    have hpending : ∀ {P : ℤ → Prop}, ∀ anchor ∈ run.pipeline.scheduler.pendingAnchor, P anchor := by
      intro P anchor hanchor
      have hsome := (streams.pending anchor hanchor).1
      rw [active] at hsome
      contradiction
    have hsame := RollingInferenceScheduler.nextReadyAnchor_of_idle active ring.endIndex
    cases hready : run.pipeline.scheduler.nextReadyAnchor ring.endIndex with
    | mk scheduler ready =>
    rw [hready] at happend hsame
    subst hsame
    dsimp only at happend
    cases ready with
    | none =>
      cases happend
      exact ⟨h.origin, h.submitted.append samples, .ready waiting state
        ⟨hcapacity, hholds, streams.min, streams.last, hpending⟩ active⟩
    | some anchor =>
      obtain ⟨-, hanchor, hmin, hafter⟩ := RollingInferenceScheduler.nextReadyAnchor_eq_some hready
      cases happend
      apply capturing_submitAnchor
      · exact h.origin
      · exact h.submitted.append samples
      · exact waiting
      · exact state
      · exact ⟨hcapacity, hholds, streams.min, streams.last, hpending⟩
      · exact active
      · exact hanchor
      · exact streams.min ▸ hmin
      · exact hafter
  | active waiting state streams active =>
    obtain ⟨hholds, hcapacity⟩ := hstreams' streams
    rcases RollingInferenceScheduler.nextReadyAnchor_of_active active ring.endIndex with
      ⟨hready, hnot⟩ | ⟨⟨skipped, hready⟩, hmin, hafter⟩
    · rw [hready] at happend
      cases happend
      refine ⟨h.origin, h.submitted.append samples, .active waiting state
        ⟨hcapacity, hholds, streams.min, streams.last, fun pending hpending => ?_⟩ active⟩
      -- a pending anchor is not after the latest one, which is then eligible too
      obtain ⟨-, rfl, hstart, hafter⟩ := streams.pending pending hpending
      have hend : run.pipeline.ring.endIndex ≤ ring.endIndex := by
        rw [streams.ring.endIndex, hholds.endIndex, List.length_append]
        omega
      have hle := latestAnchor_mono hend
      rcases hnot with hbefore | hnot
      · have hfirst := RollingInferenceScheduler.firstEligible_le (dvd_latestAnchor _)
          (streams.min ▸ hstart)
        omega
      · exact absurd (fun last hlast => (hafter last hlast).trans_le hle) hnot
    · rw [hready] at happend
      cases happend
      refine ⟨h.origin, h.submitted.append samples, .active waiting state
        ⟨hcapacity, hholds, streams.min, streams.last, fun pending hpending => ?_⟩ active⟩
      rw [← Option.mem_some.mp hpending]
      exact ⟨active, rfl, streams.min ▸ hmin, hafter⟩

/-- What an earlier capture waited for changes nothing. -/
theorem resume_earlier (h : continuation.Earlier run.lifecycle run.pipeline.generation)
    (response : WorkerResponse Event) (sinkError : Option String) :
    run.resume continuation response sinkError = run := by
  cases continuation with
  | infer lifecycle generation anchor worker => exact CaptureRun.resumeSubmit_late h.2 response sinkError
  | load worker => exact h.elim
  | fail worker error submitted => exact h.elim
  | stop lifecycle worker => exact h.elim

/-- The active inference is over: the pending anchor is next. -/
theorem capturing_finishSubmit (horigin : run.pipeline.lifecycleStartSampleIndex = start)
    (hsubmitted : Submitted start run.captured run.submitted)
    (hwaiting : ∀ c ∈ run.waiting, c.Earlier run.lifecycle run.pipeline.generation)
    (hstate : run.pipeline.state.state = .running) (hstreams : Streams start run) :
    Capturing start (run.finishSubmit run.pipeline.generation) := by
  have hnone : ∀ {P : ℤ → Prop}, ∀ anchor ∈ (none : Option ℤ), P anchor :=
    fun anchor hanchor => nomatch hanchor
  unfold CaptureRun.finishSubmit RollingInferenceScheduler.markCompleted
  rw [if_pos ⟨rfl, by rw [hstate]; decide⟩]
  cases hpending : run.pipeline.scheduler.pendingAnchor with
  | none =>
    exact ⟨horigin, hsubmitted, .ready hwaiting hstate
      ⟨hstreams.capacity, hstreams.ring, hstreams.min, hstreams.last, hnone⟩ rfl⟩
  | some anchor =>
    obtain ⟨-, hlatest, hstart, hafter⟩ := hstreams.pending anchor hpending
    dsimp only
    rw [RollingInferenceScheduler.any_le_eq_false.mpr hafter]
    apply capturing_submitAnchor
    · exact horigin
    · exact hsubmitted
    · exact hwaiting
    · exact hstate
    · exact ⟨hstreams.capacity, hstreams.ring, hstreams.min, hstreams.last, hnone⟩
    · rfl
    · exact hlatest
    · exact hstart
    · exact hafter

/-- The response of the active inference. -/
theorem capturing_resumeSubmit (horigin : run.pipeline.lifecycleStartSampleIndex = start)
    (hsubmitted : Submitted start run.captured run.submitted)
    (hwaiting : ∀ c ∈ run.waiting, c.Earlier run.lifecycle run.pipeline.generation)
    (hstate : run.pipeline.state.state = .running) (hstreams : Streams start run)
    (response : WorkerResponse Event) (sinkError : Option String) :
    Capturing start (run.resumeSubmit run.lifecycle run.pipeline.generation response sinkError) := by
  have hle : ∀ g ∈ some run.pipeline.generation, g ≤ run.pipeline.generation := by
    intro g hg
    exact (Option.mem_some.mp hg).ge
  unfold CaptureRun.resumeSubmit
  dsimp only
  split
  · rename_i events _
    rw [if_neg (not_not.mpr rfl)]
    obtain ⟨emitted, hemitted⟩ := run.emitResult_eq run.lifecycle events
    rw [hemitted]
    have hstreams' : Streams start { run with emitted } :=
      ⟨hstreams.capacity, hstreams.ring, hstreams.min, hstreams.last, hstreams.pending⟩
    split
    · apply capturing_finishSubmit
      · exact horigin
      · exact hsubmitted
      · exact hwaiting
      · exact hstate
      · exact hstreams'
    · apply capturing_failLifecycle
      · exact horigin
      · exact hsubmitted
      · exact hwaiting
      · exact hle
  · rw [if_pos rfl]
    exact capturing_failLifecycle horigin hsubmitted hwaiting hle _

/-- What comes back in a capture. -/
theorem Capturing.settle (h : Capturing start run) {index : ℕ}
    (hindex : run.waiting[index]? = some continuation) (response : WorkerResponse Event)
    (sinkError : Option String) :
    Capturing start ((run.erase index).resume continuation response sinkError) := by
  have hstreams' : Streams start run → Streams start (run.erase index) := fun streams =>
    ⟨streams.capacity, streams.ring, streams.min, streams.last, streams.pending⟩
  have hearlier : continuation.Earlier run.lifecycle run.pipeline.generation →
      (run.erase index).resume continuation response sinkError = run.erase index := fun hc =>
    @resume_earlier _ _ _ (run.erase index) _ hc response sinkError
  cases h.phase with
  | loading waiting state streams active =>
    rcases waiting.eraseIdx hindex with ⟨rfl, hall⟩ | ⟨hc, honly⟩
    · show Capturing start ((run.erase index).resumeStart response)
      unfold CaptureRun.resumeStart
      split
      · exact ⟨h.origin, h.submitted, .ready hall rfl
          ⟨streams.capacity, streams.ring, streams.min, streams.last, streams.pending⟩ active⟩
      · apply capturing_failLifecycle
        · exact h.origin
        · exact h.submitted
        · exact hall
        · exact fun g hg => nomatch hg
    · rw [hearlier hc]
      exact ⟨h.origin, h.submitted, .loading honly state (hstreams' streams) active⟩
  | ready waiting state streams active =>
    rw [hearlier (waiting _ (List.mem_of_getElem? hindex))]
    exact ⟨h.origin, h.submitted,
      .ready (fun c hc => waiting c (List.mem_of_mem_eraseIdx hc)) state (hstreams' streams) active⟩
  | failed waiting state pending =>
    rw [hearlier (waiting _ (List.mem_of_getElem? hindex))]
    exact ⟨h.origin, h.submitted,
      .failed (fun c hc => waiting c (List.mem_of_mem_eraseIdx hc)) state pending⟩
  | active waiting state streams active =>
    rcases waiting.eraseIdx hindex with ⟨rfl, hall⟩ | ⟨hc, honly⟩
    · exact @capturing_resumeSubmit _ _ _ _ (run.erase index) h.origin h.submitted hall state
        (hstreams' streams) response sinkError
    · rw [hearlier hc]
      exact ⟨h.origin, h.submitted, .active honly state (hstreams' streams) active⟩
  | failing waiting late pending ringEnd =>
    rcases waiting.eraseIdx hindex with ⟨rfl, hall⟩ | ⟨hc, honly⟩
    · rename_i worker error submitted
      show Capturing start ((run.erase index).resumeFail worker error submitted response)
      unfold CaptureRun.resumeFail
      obtain ⟨terminated, hdisposed⟩ := (run.erase index).disposed_eq worker response
        "Live capture failed; ByteDance Worker was terminated."
      rw [hdisposed]
      have hfailed : ∀ state : LiveCaptureState, state.state = .error →
          let written := CaptureRun.withState { run.erase index with terminated } state
          Capturing start (written.notifyFatalError error) ∧
            (written.notifyFatalError error).pipeline.generation = run.pipeline.generation := by
        intro state hstate written
        obtain ⟨fatalErrorNotified, notified, hnotified⟩ := written.notifyFatalError_eq error
        rw [hnotified]
        exact ⟨⟨h.origin, h.submitted, .failed hall hstate pending⟩, rfl⟩
      dsimp only
      cases submitted with
      | none => exact (hfailed _ rfl).1
      | some generation =>
        dsimp only
        rw [CaptureRun.finishSubmit_late ((late generation rfl).trans_eq (hfailed _ rfl).2.symm)]
        exact (hfailed _ rfl).1
    · rw [hearlier hc]
      exact ⟨h.origin, h.submitted, .failing honly late pending ringEnd⟩

/-- Options with a factory of workers and the default ring. -/
def defaultOptions : ControllerOptions := ⟨"practice", 48000, false, none⟩

/-- A chunk with the future of the first anchor. -/
def chunk : List ℕ := List.replicate 3520 0

end NoteVerse.Acoustic

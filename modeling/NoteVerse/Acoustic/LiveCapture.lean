import NoteVerse.Lib.JsArray
import NoteVerse.Lib.Rounding

/-!
# Live capture

The parts of `acoustic-inference/live-capture.ts` that hold samples and choose
anchors: the ring of the last samples, the window of samples that an inference
is given, and the scheduler, which runs one inference at a time and keeps the
newest anchor that came in the meantime. A sample is of any type with a zero.

`PcmRing.Holds` says which of the samples appended since the start the ring
still has, `Holds.append` that it keeps saying so, and `Holds.window` that a
window is what was appended, if the ring ends soon enough after its anchor.
-/

namespace NoteVerse.Acoustic

open Js

/-! ## The contract of the model -/

def sampleRateHz : ℤ := 16000

def targetAnchorMs : ℚ := 1600

def futureMs : ℚ := 220

def millisecondsToSamples (milliseconds : ℚ) : ℤ :=
  Rounding.roundHalfUp (milliseconds / 1000 * sampleRateHz)

def anchorStepSamples : ℤ := 2400

def futureSamples : ℤ := millisecondsToSamples futureMs

def targetAnchorSamples : ℤ := millisecondsToSamples targetAnchorMs

def modelWindowSamples : ℕ := 29120

def defaultLiveRingCapacitySamples : ℤ :=
  modelWindowSamples + anchorStepSamples * 4 + futureSamples

@[simp] theorem futureSamples_eq : futureSamples = 3520 := by
  norm_num [futureSamples, millisecondsToSamples, Rounding.roundHalfUp, futureMs, sampleRateHz]

@[simp] theorem targetAnchorSamples_eq : targetAnchorSamples = 25600 := by
  norm_num [targetAnchorSamples, millisecondsToSamples, Rounding.roundHalfUp, targetAnchorMs,
    sampleRateHz]

/-! ## The ring -/

structure PcmRing (α : Type) where
  capacitySamples : ℤ
  buffer : List α
  startIndex : ℤ
  endIndex : ℤ
  deriving Repr

namespace PcmRing

variable {α : Type}

def create (capacitySamples : ℤ) : Throws (PcmRing α) :=
  if capacitySamples ≤ 0 then .error "PCM ring capacity must be a positive integer."
  else .ok ⟨capacitySamples, [], 0, 0⟩

variable (ring : PcmRing α)

def trimBefore (sampleIndex : ℤ) : PcmRing α :=
  let trimTo := min (max sampleIndex ring.startIndex) ring.endIndex
  let trim := trimTo - ring.startIndex
  if trim ≤ 0 then ring
  else { ring with buffer := subarray ring.buffer trim ring.buffer.length, startIndex := trimTo }

/-- `append(samples, startSampleIndex)`, where the index may be left out. -/
def append (samples : List α) (startSampleIndex : Option ℤ) : Throws (PcmRing α) :=
  if startSampleIndex.getD ring.endIndex ≠ ring.endIndex then
    .error "PCM ring append requires contiguous normalized samples."
  else if samples.length = 0 then .ok ring
  else
    let ring := { ring with
      buffer := ring.buffer ++ samples
      endIndex := ring.endIndex + samples.length }
    .ok (ring.trimBefore (max ring.startIndex (ring.endIndex - ring.capacitySamples)))

def hasRange (startSampleIndex endSampleIndex : ℤ) : Bool :=
  ring.startIndex ≤ startSampleIndex ∧ endSampleIndex ≤ ring.endIndex

def extractRange (startSampleIndex endSampleIndex : ℤ) : Throws (List α) :=
  if !ring.hasRange startSampleIndex endSampleIndex then
    .error "Requested PCM range is not present in the bounded ring."
  else .ok (subarray ring.buffer (startSampleIndex - ring.startIndex)
    (endSampleIndex - ring.startIndex))

def reset (startSampleIndex : ℤ) : PcmRing α :=
  { ring with buffer := [], startIndex := startSampleIndex, endIndex := startSampleIndex }

/-- The ring has the last of the samples that were appended since it was reset to `start`. -/
structure Holds (start : ℤ) (captured : List α) : Prop where
  capacity : 0 < ring.capacitySamples
  endIndex : ring.endIndex = start + captured.length
  startIndex : ring.startIndex = max start (ring.endIndex - ring.capacitySamples)
  buffer : ring.buffer = captured.drop (ring.startIndex - start).toNat

variable {ring}

theorem Holds.length_buffer {start : ℤ} {captured : List α} (h : ring.Holds start captured) :
    (ring.buffer.length : ℤ) = ring.endIndex - ring.startIndex := by
  have hend := h.endIndex
  have hstart := h.startIndex
  have hcapacity := h.capacity
  rw [h.buffer, List.length_drop]
  omega

/-- A call that is not refused says where the ring ends, or nothing. -/
theorem append_eq_ok_iff {samples : List α} {startSampleIndex : Option ℤ} :
    (∃ ring', ring.append samples startSampleIndex = .ok ring') ↔
      ∀ index, startSampleIndex = some index → index = ring.endIndex := by
  unfold append
  cases startSampleIndex with
  | none =>
    simp only [Option.getD_none, ne_eq, not_true_eq_false, if_false, reduceCtorEq,
      IsEmpty.forall_iff, implies_true, iff_true]
    split_ifs <;> exact ⟨_, rfl⟩
  | some index =>
    simp only [Option.getD_some, Option.some.injEq, forall_eq']
    split_ifs with hend hlen
    · simp [hend]
    · simp [not_not.mp hend]
    · simp [not_not.mp hend]

theorem capacitySamples_trimBefore (sampleIndex : ℤ) :
    (ring.trimBefore sampleIndex).capacitySamples = ring.capacitySamples := by
  unfold trimBefore
  dsimp only
  split_ifs <;> rfl

/-- The ring holds the samples that it is given, too. -/
theorem Holds.append {start : ℤ} {captured samples : List α} {startSampleIndex : Option ℤ}
    {ring' : PcmRing α} (h : ring.Holds start captured)
    (happend : ring.append samples startSampleIndex = .ok ring') :
    ring'.Holds start (captured ++ samples) ∧ ring'.capacitySamples = ring.capacitySamples := by
  obtain ⟨hcapacity, hend, hstart, hbuffer⟩ := h
  have hlength := Holds.length_buffer ⟨hcapacity, hend, hstart, hbuffer⟩
  unfold PcmRing.append at happend
  split_ifs at happend with hindex hempty
  · cases happend
    rw [List.eq_nil_of_length_eq_zero hempty, List.append_nil]
    exact ⟨⟨hcapacity, hend, hstart, hbuffer⟩, rfl⟩
  · cases happend
    have hkept : (ring.startIndex - start).toNat ≤ captured.length := by omega
    have hboth : ring.buffer ++ samples =
        (captured ++ samples).drop (ring.startIndex - start).toNat := by
      rw [hbuffer, List.drop_append_of_le_length hkept]
    refine ⟨?_, capacitySamples_trimBefore _⟩
    unfold trimBefore
    dsimp only
    -- either nothing goes, or what is more than the capacity
    split_ifs with htrim
    · refine ⟨hcapacity, ?_, ?_, hboth⟩
      · show ring.endIndex + samples.length = start + (captured ++ samples).length
        rw [List.length_append]
        omega
      · show ring.startIndex = max start (ring.endIndex + samples.length - ring.capacitySamples)
        omega
    · refine ⟨hcapacity, ?_, ?_, ?_⟩
      · show ring.endIndex + samples.length = start + (captured ++ samples).length
        rw [List.length_append]
        omega
      · show min (max (max ring.startIndex
          (ring.endIndex + samples.length - ring.capacitySamples)) ring.startIndex)
          (ring.endIndex + samples.length) =
            max start (ring.endIndex + samples.length - ring.capacitySamples)
        omega
      · dsimp only
        generalize htrimTo : min (max (max ring.startIndex
          (ring.endIndex + samples.length - ring.capacitySamples)) ring.startIndex)
          (ring.endIndex + samples.length) = trimTo at htrim ⊢
        obtain ⟨trim, htrim'⟩ := Int.eq_ofNat_of_zero_le (show 0 ≤ trimTo - ring.startIndex by omega)
        rw [htrim', subarray_drop _ (by rw [List.length_append]; omega), hboth, List.drop_drop]
        congr 1
        omega

end PcmRing

/-! ## The window of an anchor -/

structure LiveFixedAnchorWindow (α : Type) where
  pcm : List α
  anchorSampleIndex : ℤ
  captureStartSampleIndex : ℤ
  realStartSampleIndex : ℤ
  realEndSampleIndex : ℤ
  leftPaddingSamples : ℤ
  deriving Repr

section

variable {α : Type} [Zero α]

def buildLiveFixedAnchorWindow (ring : PcmRing α)
    (anchorSampleIndex captureDomainStartSampleIndex : ℤ) : Throws (LiveFixedAnchorWindow α) := do
  let captureStartSampleIndex := anchorSampleIndex - targetAnchorSamples
  let requiredEndSampleIndex := captureStartSampleIndex + modelWindowSamples
  if anchorSampleIndex < 0 then
    throw "Live fixed-anchor window requires a non-negative integer anchor sample."
  if ring.endIndex < anchorSampleIndex + futureSamples then
    throw "Live fixed-anchor window is not ready: missing +220 ms future context."
  if anchorSampleIndex > ring.endIndex then
    throw "Live fixed-anchor anchor is beyond captured PCM."
  let realStartSampleIndex := max captureDomainStartSampleIndex captureStartSampleIndex
  let realEndSampleIndex := requiredEndSampleIndex
  if !ring.hasRange realStartSampleIndex realEndSampleIndex then
    throw "Live fixed-anchor window range is no longer present in the bounded ring."
  let realAudio ← ring.extractRange realStartSampleIndex realEndSampleIndex
  let leftPaddingSamples := realStartSampleIndex - captureStartSampleIndex
  let pcm ← Js.set (List.replicate modelWindowSamples 0) realAudio leftPaddingSamples
  return ⟨pcm, anchorSampleIndex, captureStartSampleIndex, realStartSampleIndex,
    realEndSampleIndex, leftPaddingSamples⟩

/-- The sample at an index of the capture: zero before its start. -/
def sampleAt (start : ℤ) (captured : List α) (index : ℤ) : α :=
  if index < start then 0 else captured.getD (index - start).toNat 0

/-- The samples from 1600 ms before an anchor to 220 ms after it. -/
def windowSamples (start : ℤ) (captured : List α) (anchorSampleIndex : ℤ) : List α :=
  (List.range modelWindowSamples).map fun i : ℕ =>
    sampleAt start captured (anchorSampleIndex - targetAnchorSamples + i)

theorem sampleAt_append {start index : ℤ} {captured : List α} (samples : List α)
    (h : index < start + captured.length) :
    sampleAt start (captured ++ samples) index = sampleAt start captured index := by
  unfold sampleAt
  split_ifs with hbefore
  · rfl
  · rw [List.getD_eq_getElem?_getD, List.getD_eq_getElem?_getD,
      List.getElem?_append_left (by omega)]

/-- A window does not change with what comes after it. -/
theorem windowSamples_append {start anchorSampleIndex : ℤ} {captured : List α} (samples : List α)
    (h : anchorSampleIndex + futureSamples ≤ start + captured.length) :
    windowSamples start (captured ++ samples) anchorSampleIndex =
      windowSamples start captured anchorSampleIndex := by
  simp only [futureSamples_eq] at h
  unfold windowSamples
  apply List.map_congr_left
  intro i hi
  have hlt : i < 29120 := List.mem_range.mp hi
  rw [sampleAt_append]
  simp only [targetAnchorSamples_eq]
  omega

theorem length_windowSamples (start : ℤ) (captured : List α) (anchorSampleIndex : ℤ) :
    (windowSamples start captured anchorSampleIndex).length = modelWindowSamples := by
  rw [windowSamples, List.length_map, List.length_range]

/-- Zeros up to the start of a capture, then what was captured. -/
theorem windowSamples_eq {start anchorSampleIndex : ℤ} {captured : List α} {left first : ℕ}
    (hleft : left ≤ modelWindowSamples)
    (hfirst : anchorSampleIndex - targetAnchorSamples + left = start + first)
    (hstart : 0 < left → first = 0)
    (hend : anchorSampleIndex + futureSamples ≤ start + captured.length) :
    windowSamples start captured anchorSampleIndex =
      (List.replicate modelWindowSamples 0).take left ++
        (captured.drop first).take (modelWindowSamples - left) := by
  simp only [targetAnchorSamples_eq, futureSamples_eq] at hfirst hend
  apply List.ext_getElem?
  intro i
  have hwindow : modelWindowSamples = 29120 := rfl
  by_cases hi : i < modelWindowSamples
  swap
  · rw [List.getElem?_eq_none (by rw [length_windowSamples]; omega), List.getElem?_eq_none]
    simp only [List.length_append, List.length_take, List.length_replicate]
    omega
  rw [windowSamples, List.getElem?_map, List.getElem?_range hi, Option.map_some, sampleAt,
    targetAnchorSamples_eq]
  by_cases hpadding : i < left
  · have hbefore : anchorSampleIndex - 25600 + i < start := by
      have := hstart (by omega)
      omega
    rw [if_pos hbefore, List.getElem?_append_left (by simp; omega),
      List.getElem?_take_of_lt hpadding, List.getElem?_replicate_of_lt hi]
  · have hafter : ¬ anchorSampleIndex - 25600 + i < start := by omega
    have hindex : (anchorSampleIndex - 25600 + i - start).toNat = first + (i - left) := by omega
    rw [if_neg hafter, List.getElem?_append_right (by simp; omega), hindex]
    simp only [List.length_take, List.length_replicate, min_eq_left hleft]
    have hlt : first + (i - left) < captured.length := by omega
    rw [List.getElem?_take_of_lt (by omega), List.getElem?_drop, List.getD_eq_getElem?_getD,
      List.getElem?_eq_getElem hlt, Option.getD_some]

/-- A ring that ends at least 220 ms after an anchor, and not a whole capacity
after the window's start, has the window. -/
theorem PcmRing.Holds.window {start anchorSampleIndex : ℤ} {captured : List α} {ring : PcmRing α}
    (h : ring.Holds start captured) (hnonneg : 0 ≤ anchorSampleIndex)
    (hstart : start ≤ anchorSampleIndex) (hend : anchorSampleIndex + futureSamples ≤ ring.endIndex)
    (hcapacity : ring.endIndex ≤
      anchorSampleIndex - targetAnchorSamples + ring.capacitySamples) :
    ∃ window, buildLiveFixedAnchorWindow ring anchorSampleIndex start = .ok window ∧
      window.pcm = windowSamples start captured anchorSampleIndex := by
  have hlength := h.length_buffer
  obtain ⟨hpositive, hendIndex, hstartIndex, hbuffer⟩ := h
  have hwindow : modelWindowSamples = 29120 := rfl
  simp only [targetAnchorSamples_eq, futureSamples_eq] at hend hcapacity
  obtain ⟨real, hreal⟩ : ∃ real, real = max start (anchorSampleIndex - 25600) := ⟨_, rfl⟩
  obtain ⟨first, hfirst⟩ := Int.eq_ofNat_of_zero_le (show 0 ≤ real - start by omega)
  obtain ⟨skip, hskip⟩ := Int.eq_ofNat_of_zero_le (show 0 ≤ real - ring.startIndex by omega)
  obtain ⟨left, hleft⟩ :=
    Int.eq_ofNat_of_zero_le (show 0 ≤ real - (anchorSampleIndex - 25600) by omega)
  have hrange : ring.hasRange real (anchorSampleIndex - 25600 + modelWindowSamples) = true := by
    apply decide_eq_true
    omega
  have hstop : anchorSampleIndex - 25600 + modelWindowSamples - ring.startIndex =
      ((skip + (modelWindowSamples - left) : ℕ) : ℤ) := by omega
  have haudio : ring.extractRange real (anchorSampleIndex - 25600 + modelWindowSamples) =
      .ok ((captured.drop first).take (modelWindowSamples - left)) := by
    rw [PcmRing.extractRange, hrange, hskip, hstop, subarray_natCast (by omega) (by omega), hbuffer,
      List.drop_drop, Nat.add_sub_cancel_left]
    have hdrop : (ring.startIndex - start).toNat + skip = first := by omega
    rw [hdrop]
    rfl
  have hfits : left + ((captured.drop first).take (modelWindowSamples - left)).length =
      (List.replicate modelWindowSamples (0 : α)).length := by
    simp only [List.length_take, List.length_drop, List.length_replicate]
    omega
  have hpcm : windowSamples start captured anchorSampleIndex =
      (List.replicate modelWindowSamples 0).take left ++
        (captured.drop first).take (modelWindowSamples - left) := by
    apply windowSamples_eq
    · omega
    · rw [targetAnchorSamples_eq]
      omega
    · omega
    · rw [futureSamples_eq]
      omega
  refine ⟨⟨windowSamples start captured anchorSampleIndex, anchorSampleIndex,
    anchorSampleIndex - 25600, real, anchorSampleIndex - 25600 + modelWindowSamples, left⟩, ?_, ?_⟩
  swap
  · dsimp only
  unfold buildLiveFixedAnchorWindow
  simp only [targetAnchorSamples_eq, futureSamples_eq]
  rw [if_neg (by omega), if_neg (by omega), if_neg (by omega), ← hreal, hrange, haudio, hleft, hpcm]
  dsimp only [bind, Except.bind, pure, Except.pure]
  rw [set_suffix hfits]
  rfl

end

/-! ## The scheduler -/

structure RollingInferenceScheduler where
  activeAnchor : Option ℤ := none
  pendingAnchor : Option ℤ := none
  lastSubmittedAnchor : Option ℤ := none
  minAnchorSampleIndex : ℤ := 0
  skipped : ℤ := 0
  deriving DecidableEq, Repr

/-- The last anchor whose future a capture has. -/
def latestAnchor (capturedEndSampleIndex : ℤ) : ℤ :=
  (capturedEndSampleIndex - futureSamples) / anchorStepSamples * anchorStepSamples

/-- An anchor is after what may be there. -/
def After (anchorSampleIndex : ℤ) (last : Option ℤ) : Prop :=
  ∀ lastSubmitted ∈ last, lastSubmitted < anchorSampleIndex

namespace RollingInferenceScheduler

variable (scheduler : RollingInferenceScheduler)

/-- `Math.ceil(min / step) * step`. -/
def firstEligible : ℤ :=
  -(-scheduler.minAnchorSampleIndex / anchorStepSamples) * anchorStepSamples

/-- The scheduler after the call, and the anchor that may be submitted. -/
def nextReadyAnchor (capturedEndSampleIndex : ℤ) : RollingInferenceScheduler × Option ℤ :=
  let latest := latestAnchor capturedEndSampleIndex
  if latest < scheduler.firstEligible ∨
      scheduler.lastSubmittedAnchor.any (fun last => latest ≤ last) then (scheduler, none)
  else if scheduler.activeAnchor.isSome then
    let skipped := match scheduler.pendingAnchor with
      | some pending =>
        if latest > pending then
          scheduler.skipped + max 0 ((latest - pending) / anchorStepSamples)
        else scheduler.skipped
      | none => scheduler.skipped
    ({ scheduler with skipped, pendingAnchor := some latest }, none)
  else (scheduler, some latest)

def markStarted (anchorSampleIndex : ℤ) : Throws RollingInferenceScheduler :=
  if scheduler.activeAnchor.isSome then
    .error "Rolling scheduler already has an active inference."
  else .ok { scheduler with
    activeAnchor := some anchorSampleIndex
    lastSubmittedAnchor := some anchorSampleIndex
    pendingAnchor :=
      if scheduler.pendingAnchor = some anchorSampleIndex then none else scheduler.pendingAnchor }

/-- The scheduler after the call, and the anchor that is to be submitted next. -/
def markCompleted : RollingInferenceScheduler × Option ℤ :=
  let next := scheduler.pendingAnchor
  let scheduler := { scheduler with activeAnchor := none, pendingAnchor := none }
  match next with
  | none => (scheduler, none)
  | some anchor =>
    if scheduler.lastSubmittedAnchor.any (fun last => anchor ≤ last) then (scheduler, none)
    else (scheduler, some anchor)

def reset (minAnchorSampleIndex : ℤ) : RollingInferenceScheduler :=
  { minAnchorSampleIndex }

variable {scheduler}

theorem le_firstEligible : scheduler.minAnchorSampleIndex ≤ scheduler.firstEligible := by
  simp only [firstEligible, anchorStepSamples]
  omega

theorem any_le_eq_false {anchorSampleIndex : ℤ} {last : Option ℤ} :
    last.any (fun last => anchorSampleIndex ≤ last) = false ↔ After anchorSampleIndex last := by
  cases last <;> simp [After]

end RollingInferenceScheduler

theorem latestAnchor_bounds (capturedEndSampleIndex : ℤ) :
    latestAnchor capturedEndSampleIndex + futureSamples ≤ capturedEndSampleIndex ∧
      capturedEndSampleIndex < latestAnchor capturedEndSampleIndex + futureSamples +
        anchorStepSamples := by
  simp only [latestAnchor, anchorStepSamples, futureSamples_eq]
  omega

theorem latestAnchor_mono {first second : ℤ} (h : first ≤ second) :
    latestAnchor first ≤ latestAnchor second := by
  simp only [latestAnchor, anchorStepSamples]
  omega

theorem dvd_latestAnchor (capturedEndSampleIndex : ℤ) :
    anchorStepSamples ∣ latestAnchor capturedEndSampleIndex :=
  Dvd.intro_left _ rfl

end NoteVerse.Acoustic

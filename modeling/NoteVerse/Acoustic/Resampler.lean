import NoteVerse.Lib.JsArray
import NoteVerse.Lib.Sampling

/-!
# The streaming resampler

`StreamingLinearResampler` of `acoustic-inference/live-capture.ts`. It keeps the samples
that its next position still needs, with the index of the first of them. Positions and
samples are rational numbers.

While the samples kept are those of the source from that index on (`Reads`), an append gives
what `Sampling.resample` adds for them (`Reads.append`). `trimSource` drops the samples before
the next position, also where that lies past the samples received: then it moves the index
past them, and the samples received next stand too far on (`Lost`).
-/

namespace NoteVerse.Acoustic

open Js

/-! ## The source -/

structure StreamingLinearResampler where
  sourceSampleRateHz : ℚ
  targetSampleRateHz : ℚ
  sourceBuffer : List ℚ
  sourceBufferStart : ℤ
  nextSourceSamplePosition : Option ℚ
  nextOutputSampleIndex : ℤ
  expectedSourceSampleIndex : Option ℤ
  source_pos : 0 < sourceSampleRateHz
  target_pos : 0 < targetSampleRateHz

structure SourceSamples where
  samples : List ℚ
  sourceStartSampleIndex : ℤ
  deriving DecidableEq, Repr

structure NormalizedPcmChunk where
  samples : List ℚ
  startSampleIndex : ℤ
  endSampleIndex : ℤ
  deriving DecidableEq, Repr

namespace StreamingLinearResampler

def create (sourceSampleRateHz targetSampleRateHz : ℚ) (initialOutputSampleIndex : ℤ) :
    Throws StreamingLinearResampler :=
  if h : sourceSampleRateHz ≤ 0 ∨ targetSampleRateHz ≤ 0 then
    .error "Streaming resampler requires positive source and target sample rates."
  else if initialOutputSampleIndex < 0 then
    .error "Streaming resampler initial output sample index must be a non-negative integer."
  else .ok {
    sourceSampleRateHz, targetSampleRateHz
    sourceBuffer := []
    sourceBufferStart := 0
    nextSourceSamplePosition := none
    nextOutputSampleIndex := initialOutputSampleIndex
    expectedSourceSampleIndex := none
    source_pos := not_le.mp fun hle => h (.inl hle)
    target_pos := not_le.mp fun hle => h (.inr hle) }

variable (r : StreamingLinearResampler)

def step : ℚ := r.sourceSampleRateHz / r.targetSampleRateHz

def appendSource (samples : List ℚ) : StreamingLinearResampler :=
  if samples.length = 0 then r else { r with sourceBuffer := r.sourceBuffer ++ samples }

def interpolate (sourcePosition : ℚ) : ℚ :=
  let leftIndex := ⌊sourcePosition⌋
  let rightIndex := leftIndex + 1
  let fraction := sourcePosition - leftIndex
  let left := (item r.sourceBuffer (leftIndex - r.sourceBufferStart)).getD 0
  let right := (item r.sourceBuffer (rightIndex - r.sourceBufferStart)).getD left
  left + (right - left) * fraction

/-- The loop of `append`: what it pushes, and where it leaves the next position. -/
def outputLoop (availableEnd : ℤ) : ℕ → ℚ → List ℚ × ℚ
  | 0, next => ([], next)
  | fuel + 1, next =>
    if next + 1 < availableEnd then
      let rest := outputLoop availableEnd fuel (next + r.step)
      (r.interpolate next :: rest.1, rest.2)
    else ([], next)

/-- As many turns as there are positions before the last sample. -/
def outputFuel (availableEnd : ℤ) (next : ℚ) : ℕ := ⌈((availableEnd : ℚ) - next - 1) / r.step⌉₊

def trimSource : StreamingLinearResampler :=
  match r.nextSourceSamplePosition with
  | none => r
  | some next =>
    let keepFrom := max r.sourceBufferStart (⌊next⌋ - 1)
    let trim := keepFrom - r.sourceBufferStart
    if trim ≤ 0 then r
    else { r with
      sourceBuffer := subarray r.sourceBuffer trim r.sourceBuffer.length
      sourceBufferStart := keepFrom }

/-- What the first append sets. -/
def begin (sourceStartSampleIndex : ℤ) : StreamingLinearResampler :=
  match r.nextSourceSamplePosition with
  | none => { r with
      nextSourceSamplePosition := some sourceStartSampleIndex
      sourceBufferStart := sourceStartSampleIndex }
  | some _ => r

/-- `append` after its checks. -/
def appendContiguous (input : SourceSamples) : NormalizedPcmChunk × StreamingLinearResampler :=
  let r := r.begin input.sourceStartSampleIndex
  let expected : ℤ := input.sourceStartSampleIndex + input.samples.length
  let r := { r with expectedSourceSampleIndex := some expected }
  let r := r.appendSource input.samples
  let availableEnd : ℤ := r.sourceBufferStart + r.sourceBuffer.length
  let next := r.nextSourceSamplePosition.getD 0
  let output := r.outputLoop availableEnd (r.outputFuel availableEnd next) next
  let r := { r with nextSourceSamplePosition := some output.2 }
  let r := r.trimSource
  let startSampleIndex := r.nextOutputSampleIndex
  let r := { r with nextOutputSampleIndex := r.nextOutputSampleIndex + output.1.length }
  (⟨output.1, startSampleIndex, r.nextOutputSampleIndex⟩, r)

def append (input : SourceSamples) : Throws (NormalizedPcmChunk × StreamingLinearResampler) :=
  if input.sourceStartSampleIndex < 0 then
    .error "Source sample start must be a non-negative integer."
  else if r.expectedSourceSampleIndex ≠ none ∧
      some input.sourceStartSampleIndex ≠ r.expectedSourceSampleIndex then
    .error "Streaming resampler requires contiguous source samples."
  else .ok (r.appendContiguous input)

/-- The chunks that one append after another returns. -/
def run : StreamingLinearResampler → List SourceSamples →
    Throws (List NormalizedPcmChunk × StreamingLinearResampler)
  | r, [] => return ([], r)
  | r, input :: inputs => do
    let (chunk, r) ← r.append input
    let (chunks, r) ← run r inputs
    return (chunk :: chunks, r)

/-! ## The loop -/

variable {r}

theorem step_pos : 0 < r.step := div_pos r.source_pos r.target_pos

variable {next : ℚ} {start : ℤ} {signal : List ℚ}

theorem lt_outputFuel {availableEnd : ℤ} {k : ℕ} :
    k < r.outputFuel availableEnd next ↔ next + k * r.step + 1 < availableEnd := by
  rw [outputFuel, Nat.lt_ceil, lt_div_iff₀ step_pos]
  constructor <;> intro h <;> linarith

/-- The loop reads the positions before the last sample, and ends after them. -/
theorem outputLoop_eq {availableEnd : ℤ} {n : ℕ}
    (hbefore : ∀ k < n, next + k * r.step + 1 < availableEnd)
    (hafter : (availableEnd : ℚ) ≤ next + n * r.step + 1) :
    r.outputLoop availableEnd n next =
      ((List.range n).map fun k : ℕ => r.interpolate (next + k * r.step), next + n * r.step) := by
  induction n generalizing next with
  | zero =>
    rw [outputLoop, Nat.cast_zero, zero_mul, add_zero]
    rfl
  | succ n ih =>
    have hfirst := hbefore 0 (Nat.succ_pos n)
    rw [Nat.cast_zero, zero_mul, add_zero] at hfirst
    have hshift : ∀ k : ℕ, next + r.step + k * r.step = next + ((k + 1 : ℕ) : ℚ) * r.step := by
      intro k
      push_cast
      ring
    have hrest := @ih (next + r.step)
      (fun k hk => by
        rw [hshift]
        exact hbefore (k + 1) (Nat.succ_lt_succ hk))
      (by rwa [hshift])
    rw [outputLoop, if_pos hfirst, hrest, List.range_succ_eq_map, List.map_cons, List.map_map,
      hshift]
    refine congrArg₂ _ (congrArg₂ _ ?_ (List.map_congr_left fun k _ => ?_)) rfl
    · rw [Nat.cast_zero, zero_mul, add_zero]
    · exact congrArg r.interpolate (hshift k)

theorem outputLoop_outputFuel (availableEnd : ℤ) (next : ℚ) :
    r.outputLoop availableEnd (r.outputFuel availableEnd next) next =
      ((List.range (r.outputFuel availableEnd next)).map fun k : ℕ =>
        r.interpolate (next + k * r.step), next + r.outputFuel availableEnd next * r.step) :=
  outputLoop_eq (fun _ hk => lt_outputFuel.mp hk)
    (not_lt.mp fun h => lt_irrefl _ (lt_outputFuel.mpr h))

@[simp] theorem appendSource_eq (samples : List ℚ) :
    r.appendSource samples = { r with sourceBuffer := r.sourceBuffer ++ samples } := by
  unfold appendSource
  split_ifs with hempty
  · rw [List.length_eq_zero_iff.mp hempty, List.append_nil]
  · rfl

/-! ## The samples that are kept -/

/-- The samples kept are those of the signal, which began at `start`, from the first one that
the next position needs. -/
structure Reads (r : StreamingLinearResampler) (start : ℤ) (signal : List ℚ) : Prop where
  next : r.nextSourceSamplePosition = some (start + Sampling.next r.step signal.length)
  expected : ∀ index ∈ r.expectedSourceSampleIndex, index = start + signal.length
  buffer : ∃ kept : ℕ, r.sourceBufferStart = start + kept ∧ kept ≤ signal.length ∧
    (kept : ℚ) ≤ Sampling.next r.step signal.length ∧ r.sourceBuffer = signal.drop kept

/-- The index of the samples kept is past the samples received. -/
structure Lost (r : StreamingLinearResampler) (received : ℤ) (position : ℚ) (buffer : List ℚ) :
    Prop where
  next : r.nextSourceSamplePosition = some position
  expected : ∀ index ∈ r.expectedSourceSampleIndex, index = received
  start : r.sourceBufferStart = ⌊position⌋ - 1
  buffer : r.sourceBuffer = buffer

/-- A position of the signal is read where its samples are kept. -/
theorem interpolate_of_drop {kept : ℕ} {position : ℚ} (hstart : r.sourceBufferStart = start + kept)
    (hbuffer : r.sourceBuffer = signal.drop kept) (hkept : (kept : ℚ) ≤ position)
    (hend : position + 1 < signal.length) :
    r.interpolate (start + position) = Sampling.lerp signal position := by
  have h0 : 0 ≤ position := (Nat.cast_nonneg kept).trans hkept
  obtain ⟨skipped, hskipped⟩ := Nat.exists_eq_add_of_le (Nat.le_floor hkept)
  have hfloor : ⌊(start : ℚ) + position⌋ = start + (kept + skipped : ℕ) := by
    rw [Int.floor_intCast_add, ← hskipped, Int.natCast_floor_eq_floor h0]
  have hleft : ⌊(start : ℚ) + position⌋ - r.sourceBufferStart = (skipped : ℕ) := by
    rw [hfloor, hstart]
    omega
  have hright : ⌊(start : ℚ) + position⌋ + 1 - r.sourceBufferStart = (skipped + 1 : ℕ) := by
    rw [hfloor, hstart]
    omega
  have hlast : ⌊position⌋₊ + 1 < signal.length := by
    have := Nat.floor_le h0
    have : ((⌊position⌋₊ : ℚ) + 1) < signal.length := by linarith
    exact_mod_cast this
  have hget : signal[kept + (skipped + 1)]? = some (signal.getD (⌊position⌋₊ + 1) 0) := by
    rw [hskipped, List.getD_eq_getElem?_getD, ← add_assoc, List.getElem?_eq_getElem (by omega)]
    rfl
  unfold interpolate Sampling.lerp
  simp only [hleft, hright, item_natCast, hbuffer, List.getElem?_drop, hget, Option.getD_some]
  rw [← hskipped, ← List.getD_eq_getElem?_getD, hfloor, hskipped]
  push_cast
  ring

theorem subarray_drop_drop (signal : List ℚ) {kept keep : ℕ} (hle : kept ≤ keep)
    (hlen : keep ≤ signal.length) :
    subarray (signal.drop kept) ((start + keep : ℤ) - (start + kept)) (signal.drop kept).length =
      signal.drop keep := by
  have htrim : ((start : ℤ) + keep) - (start + kept) = ((keep - kept : ℕ) : ℤ) := by omega
  rw [htrim, subarray_drop _ (by rw [List.length_drop]; omega), List.drop_drop]
  congr 1
  omega

/-- The samples before the next position are dropped. -/
theorem Reads.trimSource (h : r.Reads start signal)
    (hnext : Sampling.next r.step signal.length < signal.length + 2) :
    r.trimSource.Reads start signal := by
  obtain ⟨kept, hstart, hle, hkept, hbuffer⟩ := h.buffer
  unfold StreamingLinearResampler.trimSource
  rw [h.next]
  dsimp only
  rw [Int.floor_intCast_add]
  split_ifs with htrim
  · exact h
  · have hfloor : ⌊Sampling.next r.step signal.length⌋ ≤ signal.length + 1 := by
      have := Int.floor_le (Sampling.next r.step signal.length)
      have : (⌊Sampling.next r.step signal.length⌋ : ℚ) < ((signal.length + 2 : ℕ) : ℤ) := by
        push_cast
        linarith
      have := Int.cast_lt.mp this
      omega
    have hkeep : (kept : ℤ) < ⌊Sampling.next r.step signal.length⌋ - 1 := by omega
    obtain ⟨keep, hkeepeq⟩ := Int.eq_ofNat_of_zero_le
      (show 0 ≤ ⌊Sampling.next r.step signal.length⌋ - 1 by omega)
    have hmax : max r.sourceBufferStart (start + ⌊Sampling.next r.step signal.length⌋ - 1) =
        start + keep := by omega
    refine ⟨rfl, h.expected, keep, hmax, by omega, ?_, ?_⟩
    · have := Int.floor_le (Sampling.next r.step signal.length)
      have hcast : (keep : ℚ) = ⌊Sampling.next r.step signal.length⌋ - 1 := by
        exact_mod_cast hkeepeq.symm
      show (keep : ℚ) ≤ Sampling.next r.step signal.length
      linarith
    · show subarray r.sourceBuffer _ _ = _
      rw [hmax, hstart, hbuffer]
      exact subarray_drop_drop signal (by omega) (by omega)

/-- Where the next position is two samples or more past the samples received, the index
moves past them too. -/
theorem Reads.trimSource_lost (h : r.Reads start signal)
    (hnext : signal.length + 2 ≤ Sampling.next r.step signal.length) :
    r.trimSource.Lost (start + signal.length)
      (start + Sampling.next r.step signal.length) [] := by
  obtain ⟨kept, hstart, hle, hkept, hbuffer⟩ := h.buffer
  have hfloor : (signal.length + 2 : ℤ) ≤ ⌊Sampling.next r.step signal.length⌋ := by
    refine Int.le_floor.mpr ?_
    push_cast
    exact hnext
  unfold StreamingLinearResampler.trimSource
  rw [h.next]
  dsimp only
  rw [Int.floor_intCast_add, if_neg (by omega)]
  have hmax : max r.sourceBufferStart (start + ⌊Sampling.next r.step signal.length⌋ - 1) =
      start + ⌊Sampling.next r.step signal.length⌋ - 1 := by omega
  refine ⟨rfl, h.expected, ?_, ?_⟩
  · show max _ _ = _
    rw [hmax, Int.floor_intCast_add]
  · show subarray r.sourceBuffer _ _ = _
    obtain ⟨trim, htrim⟩ := Int.eq_ofNat_of_zero_le (show 0 ≤
      start + ⌊Sampling.next r.step signal.length⌋ - 1 - r.sourceBufferStart by omega)
    rw [hmax, htrim]
    refine subarray_eq_nil _ ?_
    rw [hbuffer, List.length_drop]
    omega

/-! ## One append -/

@[simp] theorem step_trimSource : r.trimSource.step = r.step := by
  unfold StreamingLinearResampler.trimSource
  split
  · rfl
  · dsimp only
    split_ifs <;> rfl

@[simp] theorem nextOutputSampleIndex_trimSource :
    r.trimSource.nextOutputSampleIndex = r.nextOutputSampleIndex := by
  unfold StreamingLinearResampler.trimSource
  split
  · rfl
  · dsimp only
    split_ifs <;> rfl

@[simp] theorem expectedSourceSampleIndex_trimSource :
    r.trimSource.expectedSourceSampleIndex = r.expectedSourceSampleIndex := by
  unfold StreamingLinearResampler.trimSource
  split
  · rfl
  · dsimp only
    split_ifs <;> rfl

/-- The state after the samples are received and before the loop. -/
def received (r : StreamingLinearResampler) (piece : List ℚ) (expected : ℤ) :
    StreamingLinearResampler :=
  { r with
    sourceBuffer := r.sourceBuffer ++ piece
    expectedSourceSampleIndex := some expected }

/-- The state after the loop, where it left the next position. -/
def trimmed (r : StreamingLinearResampler) (next : ℚ) (pushed : ℕ) : StreamingLinearResampler :=
  { { r with nextSourceSamplePosition := some next }.trimSource with
    nextOutputSampleIndex := r.nextOutputSampleIndex + pushed }

theorem appendContiguous_eq {next : ℚ} (hnext : r.nextSourceSamplePosition = some next)
    (piece : List ℚ) (start : ℤ) {output : List ℚ × ℚ}
    (h : (r.received piece (start + piece.length)).outputLoop
      (r.sourceBufferStart + (r.sourceBuffer ++ piece).length)
      (r.outputFuel (r.sourceBufferStart + (r.sourceBuffer ++ piece).length) next) next =
        output) :
    r.appendContiguous ⟨piece, start⟩ =
      (⟨output.1, r.nextOutputSampleIndex, r.nextOutputSampleIndex + output.1.length⟩,
        (r.received piece (start + piece.length)).trimmed output.2 output.1.length) := by
  obtain ⟨_, _, _, _, _, _, _, _, _⟩ := r
  obtain rfl := hnext
  rw [← h]
  unfold appendContiguous
  simp only [begin, appendSource_eq, Option.getD_some, nextOutputSampleIndex_trimSource]
  rfl

theorem Reads.appended {start : ℤ} {signal : List ℚ} (h : r.Reads start signal)
    (piece : List ℚ) (expected : ℤ) :
    (r.received piece expected).outputLoop
      (r.sourceBufferStart + (r.sourceBuffer ++ piece).length)
      (r.outputFuel (r.sourceBufferStart + (r.sourceBuffer ++ piece).length)
        (start + Sampling.next r.step signal.length))
      (start + Sampling.next r.step signal.length) =
    ((List.range' (Sampling.count r.step signal.length)
        (Sampling.count r.step (signal ++ piece).length -
          Sampling.count r.step signal.length)).map
        fun k : ℕ => Sampling.lerp (signal ++ piece) (k * r.step),
      start + Sampling.next r.step (signal ++ piece).length) := by
  obtain ⟨kept, hstart, hle, hkept, hbuffer⟩ := h.buffer
  have hwhole : r.sourceBuffer ++ piece = (signal ++ piece).drop kept := by
    rw [hbuffer, List.drop_append_of_le_length hle]
  have hend : r.sourceBufferStart + (r.sourceBuffer ++ piece).length =
      start + (signal ++ piece).length := by
    rw [hwhole, hstart, List.length_drop, List.length_append]
    omega
  have hmono : Sampling.count r.step signal.length ≤
      Sampling.count r.step (signal ++ piece).length :=
    Sampling.count_mono step_pos (by rw [List.length_append]; omega)
  -- The loop reads as many positions as the samples received add.
  have hfuel : Sampling.count r.step signal.length +
      r.outputFuel (start + (signal ++ piece).length)
        (start + Sampling.next r.step signal.length) =
      Sampling.count r.step (signal ++ piece).length := by
    refine Sampling.count_add step_pos ?_ hmono
    unfold Sampling.next
    push_cast
    ring
  have hcount : r.outputFuel (start + (signal ++ piece).length)
      (start + Sampling.next r.step signal.length) =
      Sampling.count r.step (signal ++ piece).length -
        Sampling.count r.step signal.length := by omega
  have hposition : ∀ k : ℕ, (start : ℚ) + Sampling.next r.step signal.length + k * r.step =
      start + ((Sampling.count r.step signal.length + k : ℕ) : ℚ) * r.step := by
    intro k
    unfold Sampling.next
    push_cast
    ring
  rw [hend]
  refine (outputLoop_outputFuel (r := r.received piece expected) _ _).trans ?_
  change (List.map (fun k : ℕ => (r.received piece expected).interpolate (_ + k * r.step))
    (List.range (r.outputFuel _ _)), (_ : ℚ) + (r.outputFuel _ _ : ℕ) * r.step) = _
  refine Prod.ext ?_ ?_
  · rw [hcount, List.range'_eq_map_range, List.map_map]
    refine List.map_congr_left fun k hk => ?_
    have hlt : Sampling.count r.step signal.length + k <
        Sampling.count r.step (signal ++ piece).length := by
      have := List.mem_range.mp hk
      omega
    rw [hposition k]
    refine interpolate_of_drop hstart hwhole (hkept.trans ?_)
      ((Sampling.lt_count_iff step_pos).mp hlt)
    unfold Sampling.next
    have := (step_pos (r := r)).le
    push_cast
    nlinarith [Nat.cast_nonneg (α := ℚ) k]
  · show _ + (r.outputFuel _ _ : ℕ) * r.step = _
    rw [hposition, hfuel]
    rfl

theorem Reads.received {start : ℤ} {signal : List ℚ} (h : r.Reads start signal)
    (piece : List ℚ) :
    { r.received piece (start + signal.length + piece.length) with
        nextSourceSamplePosition :=
          some (start + Sampling.next r.step (signal ++ piece).length) }.Reads start
      (signal ++ piece) := by
  obtain ⟨kept, hstart, hle, hkept, hbuffer⟩ := h.buffer
  refine ⟨rfl, fun index hindex => ?_, kept, hstart, ?_, hkept.trans ?_, ?_⟩
  · rw [← Option.some.inj hindex, List.length_append]
    push_cast
    ring
  · rw [List.length_append]
    omega
  · exact Sampling.next_mono step_pos (by rw [List.length_append]; omega)
  · show r.sourceBuffer ++ piece = _
    rw [hbuffer, List.drop_append_of_le_length hle]

theorem trimmed_reads (h : { r with nextSourceSamplePosition := some next }.Reads start signal)
    (hnext : Sampling.next r.step signal.length < signal.length + 2) (pushed : ℕ) :
    (r.trimmed next pushed).Reads start signal := by
  have htrimmed := h.trimSource hnext
  exact ⟨htrimmed.next, htrimmed.expected, htrimmed.buffer⟩

theorem trimmed_lost (h : { r with nextSourceSamplePosition := some next }.Reads start signal)
    (hnext : signal.length + 2 ≤ Sampling.next r.step signal.length) (pushed : ℕ) :
    (r.trimmed next pushed).Lost (start + signal.length)
      (start + Sampling.next r.step signal.length) [] := by
  have htrimmed := h.trimSource_lost hnext
  exact ⟨htrimmed.next, htrimmed.expected, htrimmed.start, htrimmed.buffer⟩

/-- An append gives what its samples add, and keeps what the next one needs unless the next
position is too far on. -/
theorem Reads.append {start : ℤ} {signal : List ℚ} (h : r.Reads start signal)
    (piece : List ℚ) :
    Sampling.resample r.step signal ++
        (r.appendContiguous ⟨piece, start + signal.length⟩).1.samples =
      Sampling.resample r.step (signal ++ piece) ∧
    (Sampling.next r.step (signal ++ piece).length < (signal ++ piece).length + 2 →
      (r.appendContiguous ⟨piece, start + signal.length⟩).2.Reads start (signal ++ piece)) ∧
    ((signal ++ piece).length + 2 ≤ Sampling.next r.step (signal ++ piece).length →
      (r.appendContiguous ⟨piece, start + signal.length⟩).2.Lost
        (start + (signal ++ piece).length)
        (start + Sampling.next r.step (signal ++ piece).length) []) := by
  rw [appendContiguous_eq h.next piece _ (h.appended piece _)]
  refine ⟨(Sampling.resample_append step_pos signal piece).symm, fun hnext => ?_,
    fun hnext => ?_⟩
  · exact trimmed_reads (h.received piece) hnext _
  · exact trimmed_lost (h.received piece) hnext _

/-! ## An append after the samples are lost -/

/-- What is read at a position where the samples kept should begin one before it. -/
def misread (buffer : List ℚ) (position : ℚ) : ℚ :=
  buffer.getD 1 0 + (buffer.getD 2 0 - buffer.getD 1 0) * (position - ⌊position⌋)

theorem Lost.trimmed {received : ℤ} {position : ℚ} {buffer : List ℚ}
    (h : r.Lost received position buffer) (piece : List ℚ) (expected : ℤ) (pushed : ℕ) :
    ((r.received piece expected).trimmed position pushed).Lost expected position
      (buffer ++ piece) := by
  have htrim : { r.received piece expected with
      nextSourceSamplePosition := some position }.trimSource =
      { r.received piece expected with nextSourceSamplePosition := some position } := by
    have hstart : (r.received piece expected).sourceBufferStart = ⌊position⌋ - 1 := h.start
    unfold StreamingLinearResampler.trimSource
    dsimp only
    rw [if_pos (by rw [hstart]; omega)]
  unfold StreamingLinearResampler.trimmed
  rw [htrim]
  refine ⟨rfl, fun index hindex => (Option.some.inj hindex).symm, h.start, ?_⟩
  show r.sourceBuffer ++ piece = _
  rw [h.buffer]

theorem Lost.append_quiet {received : ℤ} {position : ℚ} {buffer : List ℚ}
    (h : r.Lost received position buffer) {piece : List ℚ}
    (hshort : (buffer ++ piece).length ≤ 2) :
    (r.appendContiguous ⟨piece, received⟩).1.samples = [] ∧
      (r.appendContiguous ⟨piece, received⟩).2.Lost (received + piece.length) position
        (buffer ++ piece) := by
  have hend : ((r.sourceBufferStart + (r.sourceBuffer ++ piece).length : ℤ) : ℚ) ≤
      position + 1 := by
    have hle : r.sourceBufferStart + (r.sourceBuffer ++ piece).length ≤ ⌊position⌋ + 1 := by
      rw [h.start, h.buffer]
      omega
    have hcast : ((r.sourceBufferStart + (r.sourceBuffer ++ piece).length : ℤ) : ℚ) ≤
        ((⌊position⌋ + 1 : ℤ) : ℚ) := Int.cast_le.mpr hle
    have := Int.floor_le position
    push_cast at hcast ⊢
    linarith
  have hfuel : r.outputFuel (r.sourceBufferStart + (r.sourceBuffer ++ piece).length) position =
      0 := by
    by_contra hne
    have hlt := lt_outputFuel.mp (Nat.pos_of_ne_zero hne)
    rw [Nat.cast_zero, zero_mul, add_zero] at hlt
    linarith
  rw [appendContiguous_eq h.next piece _ (by rw [hfuel, outputLoop])]
  exact ⟨rfl, h.trimmed piece _ _⟩

theorem Lost.append_emits {received : ℤ} {position : ℚ} {buffer : List ℚ}
    (h : r.Lost received position buffer) {piece : List ℚ}
    (hlong : 3 ≤ (buffer ++ piece).length) :
    ∃ rest, (r.appendContiguous ⟨piece, received⟩).1.samples =
      misread (buffer ++ piece) position :: rest := by
  have hlt : position + 1 <
      ((r.sourceBufferStart + (r.sourceBuffer ++ piece).length : ℤ) : ℚ) := by
    have hle : ⌊position⌋ + 1 + 1 ≤ r.sourceBufferStart + (r.sourceBuffer ++ piece).length := by
      rw [h.start, h.buffer]
      omega
    have hcast : ((⌊position⌋ + 1 + 1 : ℤ) : ℚ) ≤ ((r.sourceBufferStart +
        (r.sourceBuffer ++ piece).length : ℤ) : ℚ) := Int.cast_le.mpr hle
    have := Int.lt_floor_add_one position
    push_cast at hcast ⊢
    linarith
  obtain ⟨fuel, hfuel⟩ := Nat.exists_eq_succ_of_ne_zero (Nat.pos_iff_ne_zero.mp
    ((lt_outputFuel (r := r) (k := 0)).mpr
      (by rw [Nat.cast_zero, zero_mul, add_zero]; exact hlt)))
  have hread : (r.received piece (received + piece.length)).interpolate position =
      misread (buffer ++ piece) position := by
    have hstart : (r.received piece (received + piece.length)).sourceBufferStart =
      ⌊position⌋ - 1 := h.start
    have hbuffer : (r.received piece (received + piece.length)).sourceBuffer =
        buffer ++ piece := by
      show r.sourceBuffer ++ piece = _
      rw [h.buffer]
    have hleft : ⌊position⌋ - (⌊position⌋ - 1) = ((1 : ℕ) : ℤ) := by omega
    have hright : ⌊position⌋ + 1 - (⌊position⌋ - 1) = ((2 : ℕ) : ℤ) := by omega
    unfold interpolate misread
    rw [hstart, hbuffer]
    simp only [hleft, hright, item_natCast, List.getD_eq_getElem?_getD]
    rw [List.getElem?_eq_getElem (show 2 < (buffer ++ piece).length by omega)]
    rfl
  rw [appendContiguous_eq h.next piece _ (by rw [hfuel, outputLoop, if_pos hlt, hread])]
  exact ⟨_, rfl⟩

end StreamingLinearResampler

/-- A source signal that begins at `start`, in pieces. -/
def contiguous (start : ℤ) : List (List ℚ) → List SourceSamples
  | [] => []
  | piece :: pieces => ⟨piece, start⟩ :: contiguous (start + piece.length) pieces

end NoteVerse.Acoustic

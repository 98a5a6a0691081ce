import NoteVerse.Acoustic.Resampler
import NoteVerse.Lib.Lists

/-!
# Resampling in pieces

What `StreamingLinearResampler` returns for a signal that comes in pieces. It does not depend
on the pieces if every cut, that three samples follow, has a position to read from one sample
before the cut to two after it (`Timely`); else there is a signal on which it goes wrong, with
the same cuts (`forall_chunkingIndependent_iff`). With at most three source samples to an
output sample, every cut is such (`timely_of_le_three`).
-/

namespace NoteVerse.Acoustic

open Js

namespace StreamingLinearResampler

variable {r : StreamingLinearResampler}

/-! ## What every append does -/

@[simp] theorem step_appendContiguous (input : SourceSamples) :
    (r.appendContiguous input).2.step = r.step := by
  unfold appendContiguous
  simp only [appendSource_eq]
  refine step_trimSource.trans ?_
  unfold begin
  split <;> rfl

theorem expected_appendContiguous (input : SourceSamples) :
    (r.appendContiguous input).2.expectedSourceSampleIndex =
      some (input.sourceStartSampleIndex + input.samples.length) := by
  unfold appendContiguous
  simp only [appendSource_eq]
  exact expectedSourceSampleIndex_trimSource

theorem nextOutputSampleIndex_appendContiguous (input : SourceSamples) :
    (r.appendContiguous input).1.startSampleIndex = r.nextOutputSampleIndex ∧
      (r.appendContiguous input).1.endSampleIndex =
        r.nextOutputSampleIndex + (r.appendContiguous input).1.samples.length ∧
      (r.appendContiguous input).2.nextOutputSampleIndex =
        (r.appendContiguous input).1.endSampleIndex := by
  unfold appendContiguous
  simp only [appendSource_eq, nextOutputSampleIndex_trimSource]
  unfold begin
  split <;> exact ⟨rfl, rfl, trivial⟩

variable {start : ℤ} {pieces : List (List ℚ)} {chunks : List NormalizedPcmChunk}
  {last : StreamingLinearResampler}

theorem append_ok (hstart : 0 ≤ start) (h : ∀ index ∈ r.expectedSourceSampleIndex, index = start)
    (piece : List ℚ) : r.append ⟨piece, start⟩ = .ok (r.appendContiguous ⟨piece, start⟩) := by
  unfold append
  rw [if_neg (not_lt.mpr hstart), if_neg]
  rintro ⟨hne, hother⟩
  obtain ⟨index, hindex⟩ := Option.ne_none_iff_exists'.mp hne
  rw [hindex, h index hindex] at hother
  exact hother rfl

theorem run_cons (hstart : 0 ≤ start) (h : ∀ index ∈ r.expectedSourceSampleIndex, index = start)
    (piece : List ℚ)
    (hrun : (r.appendContiguous ⟨piece, start⟩).2.run
      (contiguous (start + piece.length) pieces) = .ok (chunks, last)) :
    r.run (contiguous start (piece :: pieces)) =
      .ok ((r.appendContiguous ⟨piece, start⟩).1 :: chunks, last) := by
  rw [contiguous, run]
  exact bind_eq_ok.mpr ⟨_, append_ok hstart h piece, bind_eq_ok.mpr ⟨_, hrun, rfl⟩⟩

/-- Samples that follow each other are taken. -/
theorem run_ok (hstart : 0 ≤ start) (h : ∀ index ∈ r.expectedSourceSampleIndex, index = start)
    (pieces : List (List ℚ)) :
    ∃ chunks last, r.run (contiguous start pieces) = .ok (chunks, last) := by
  induction pieces generalizing r start with
  | nil => exact ⟨[], r, rfl⟩
  | cons piece pieces ih =>
    obtain ⟨chunks, last, hrun⟩ := @ih (r.appendContiguous ⟨piece, start⟩).2
      (start + piece.length) (by omega) fun index hindex => by
        rw [expected_appendContiguous] at hindex
        exact (Option.some.inj hindex).symm
    exact ⟨_, last, run_cons hstart h piece hrun⟩

theorem run_append {inputs more : List SourceSamples} {chunks' : List NormalizedPcmChunk}
    {middle : StreamingLinearResampler} (h : r.run inputs = .ok (chunks, middle))
    (hmore : middle.run more = .ok (chunks', last)) :
    r.run (inputs ++ more) = .ok (chunks ++ chunks', last) := by
  induction inputs generalizing r chunks with
  | nil =>
    obtain ⟨rfl, rfl⟩ := Prod.mk.inj (Except.ok.inj h)
    exact hmore
  | cons input inputs ih =>
    obtain ⟨⟨chunk, next⟩, happend, h⟩ := bind_eq_ok.mp h
    obtain ⟨⟨rest, final⟩, hrun, h⟩ := bind_eq_ok.mp h
    obtain ⟨rfl, rfl⟩ := Prod.mk.inj (Except.ok.inj h)
    exact bind_eq_ok.mpr ⟨_, happend, bind_eq_ok.mpr ⟨_, ih hrun, rfl⟩⟩

/-! ## Where the outputs stand -/

/-- Each chunk begins where the one before it ends, and is as long as its samples. -/
def Ranges (first : ℤ) : List NormalizedPcmChunk → Prop
  | [] => True
  | chunk :: chunks => chunk.startSampleIndex = first ∧
      chunk.endSampleIndex = first + chunk.samples.length ∧ Ranges chunk.endSampleIndex chunks

/-- The output ranges follow each other, whatever was read. -/
theorem run_ranges {inputs : List SourceSamples} (h : r.run inputs = .ok (chunks, last)) :
    Ranges r.nextOutputSampleIndex chunks := by
  induction inputs generalizing r chunks with
  | nil =>
    obtain ⟨rfl, rfl⟩ := Prod.mk.inj (Except.ok.inj h)
    trivial
  | cons input inputs ih =>
    obtain ⟨⟨chunk, next⟩, happend, h⟩ := bind_eq_ok.mp h
    obtain ⟨⟨rest, final⟩, hrun, h⟩ := bind_eq_ok.mp h
    obtain ⟨rfl, rfl⟩ := Prod.mk.inj (Except.ok.inj h)
    unfold append at happend
    split_ifs at happend
    have heq := Except.ok.inj happend
    obtain ⟨hstart, hend, hnext⟩ := nextOutputSampleIndex_appendContiguous (r := r) input
    rw [heq] at hstart hend hnext
    refine ⟨hstart, hend, ?_⟩
    rw [← hnext]
    exact ih hrun

/-! ## Runs -/

/-- The next position is less than two samples past the samples received. -/
def InTime (step : ℚ) (received : ℕ) : Prop := Sampling.next step received < received + 2

theorem inTime_zero {step : ℚ} (hstep : 0 < step) : InTime step 0 := by
  rw [InTime, Sampling.next_zero hstep]
  norm_num

/-- As long as the next position stays in time, the run gives what `resample` gives. -/
theorem Reads.run {signal : List ℚ} (h : r.Reads start signal) (hstart : 0 ≤ start)
    (htime : ∀ before, before <+: pieces → InTime r.step (signal ++ before.flatten).length) :
    ∃ chunks last, r.run (contiguous (start + signal.length) pieces) = .ok (chunks, last) ∧
      last.Reads start (signal ++ pieces.flatten) ∧ last.step = r.step ∧
      Sampling.resample r.step signal ++ chunks.flatMap NormalizedPcmChunk.samples =
        Sampling.resample r.step (signal ++ pieces.flatten) := by
  induction pieces generalizing r signal with
  | nil =>
    rw [List.flatten_nil, List.append_nil]
    exact ⟨[], r, rfl, h, rfl, List.append_nil _⟩
  | cons piece pieces ih =>
    obtain ⟨hsamples, hreads, -⟩ := h.append piece
    have hfirst := htime [piece] ((List.prefix_cons_inj piece).mpr List.nil_prefix)
    rw [List.flatten_singleton] at hfirst
    have hflatten : signal ++ (piece :: pieces).flatten = signal ++ piece ++ pieces.flatten := by
      rw [List.flatten_cons, List.append_assoc]
    have hlength : start + signal.length + piece.length = start + (signal ++ piece).length := by
      rw [List.length_append]
      omega
    obtain ⟨chunks, last, hrun, hlast, hstep, heq⟩ := ih (hreads hfirst) fun before hbefore => by
      have := htime (piece :: before) ((List.prefix_cons_inj piece).mpr hbefore)
      rwa [List.flatten_cons, ← List.append_assoc, ← step_appendContiguous] at this
    rw [step_appendContiguous] at heq hstep
    rw [← hlength] at hrun
    refine ⟨_, last, run_cons (by omega) h.expected piece hrun, ?_, hstep, ?_⟩
    · rwa [hflatten]
    · rw [hflatten, ← heq, ← hsamples, List.flatMap_cons, List.append_assoc]

theorem misread_append {buffer : List ℚ} (more : List ℚ) (h : 3 ≤ buffer.length)
    (position : ℚ) : misread (buffer ++ more) position = misread buffer position := by
  simp only [misread, List.getD_eq_getElem?_getD]
  rw [List.getElem?_append_left (by omega), List.getElem?_append_left (by omega)]

/-- After the samples are lost, two more give nothing, and a third a misread output. -/
theorem Lost.run {received : ℤ} {position : ℚ} {buffer : List ℚ}
    (h : r.Lost received position buffer) (hreceived : 0 ≤ received)
    (hbuffer : buffer.length ≤ 2) (pieces : List (List ℚ)) :
    ∃ chunks last, r.run (contiguous received pieces) = .ok (chunks, last) ∧
      ((buffer ++ pieces.flatten).length ≤ 2 →
        chunks.flatMap NormalizedPcmChunk.samples = []) ∧
      (3 ≤ (buffer ++ pieces.flatten).length →
        ∃ rest, chunks.flatMap NormalizedPcmChunk.samples =
          misread (buffer ++ pieces.flatten) position :: rest) := by
  induction pieces generalizing r received buffer with
  | nil =>
    rw [List.flatten_nil, List.append_nil]
    exact ⟨[], r, rfl, fun _ => rfl, fun hlong => absurd hlong (by omega)⟩
  | cons piece pieces ih =>
    rw [List.flatten_cons, ← List.append_assoc]
    by_cases hshort : (buffer ++ piece).length ≤ 2
    · obtain ⟨hempty, hlost⟩ := h.append_quiet hshort
      obtain ⟨chunks, last, hrun, hquiet, hemits⟩ := ih hlost (by omega) hshort
      refine ⟨_, last, run_cons hreceived h.expected piece hrun, ?_, ?_⟩
      · rw [List.flatMap_cons, hempty]
        exact hquiet
      · rw [List.flatMap_cons, hempty]
        exact hemits
    · have hlong : 3 ≤ (buffer ++ piece).length := by omega
      obtain ⟨rest, hsamples⟩ := h.append_emits hlong
      obtain ⟨chunks, last, hrun⟩ := @run_ok (r.appendContiguous ⟨piece, received⟩).2
        (received + piece.length) (by omega) (fun index hindex => by
          rw [expected_appendContiguous] at hindex
          exact (Option.some.inj hindex).symm) pieces
      refine ⟨_, last, run_cons hreceived h.expected piece hrun, fun hle => ?_, fun _ => ?_⟩
      · rw [List.length_append] at hle
        omega
      · rw [List.flatMap_cons, hsamples]
        refine ⟨rest ++ chunks.flatMap NormalizedPcmChunk.samples, ?_⟩
        rw [misread_append _ hlong]
        rfl

/-! ## A signal in pieces -/

theorem contiguous_append (start : ℤ) (pieces more : List (List ℚ)) :
    contiguous start (pieces ++ more) =
      contiguous start pieces ++ contiguous (start + pieces.flatten.length) more := by
  induction pieces generalizing start with
  | nil => rw [List.flatten_nil, List.length_nil, Nat.cast_zero, add_zero]; rfl
  | cons piece pieces ih =>
    rw [List.cons_append, contiguous, contiguous, ih, List.flatten_cons, List.length_append,
      List.cons_append]
    congr 3
    push_cast
    ring

theorem create_ok {source target : ℚ} (hsource : 0 < source) (htarget : 0 < target)
    {initial : ℤ} (hinitial : 0 ≤ initial) : ∃ r, create source target initial = .ok r ∧
      r.step = source / target ∧ r.nextOutputSampleIndex = initial ∧
      r.nextSourceSamplePosition = none ∧ r.sourceBuffer = [] ∧
      r.expectedSourceSampleIndex = none := by
  have hrates : ¬(source ≤ 0 ∨ target ≤ 0) := by
    rintro (h | h)
    · exact absurd hsource (not_lt.mpr h)
    · exact absurd htarget (not_lt.mpr h)
  unfold create
  rw [dif_neg hrates, if_neg (not_lt.mpr hinitial)]
  exact ⟨_, rfl, rfl, rfl, rfl, rfl, rfl⟩

/-- The first append sets where the signal begins. -/
theorem reads_begin (hnext : r.nextSourceSamplePosition = none) (hbuffer : r.sourceBuffer = [])
    (hexpected : r.expectedSourceSampleIndex = none) (start : ℤ) :
    (r.begin start).Reads start [] := by
  unfold begin
  rw [hnext]
  refine ⟨?_, fun index hindex => ?_, 0, (add_zero start).symm, le_rfl, ?_, hbuffer⟩
  · show some (start : ℚ) = some (start + Sampling.next r.step 0)
    rw [Sampling.next_zero step_pos, add_zero]
  · rw [show _ = none from hexpected] at hindex
    exact absurd hindex (Option.not_mem_none index)
  · exact (Nat.cast_zero (R := ℚ)).le.trans (Sampling.next_nonneg step_pos 0)

theorem begin_begin (start : ℤ) : (r.begin start).begin start = r.begin start := by
  cases hnext : r.nextSourceSamplePosition with
  | none =>
    unfold begin
    rw [hnext]
  | some next =>
    have hbegin : r.begin start = r := by rw [begin, hnext]
    rw [hbegin, hbegin]

theorem appendContiguous_begin (input : SourceSamples) :
    (r.begin input.sourceStartSampleIndex).appendContiguous input = r.appendContiguous input := by
  unfold appendContiguous
  rw [begin_begin]

theorem run_begin (hexpected : r.expectedSourceSampleIndex = none) (hstart : 0 ≤ start)
    (h : (r.begin start).run (contiguous start pieces) = .ok (chunks, last)) :
    ∃ last', r.run (contiguous start pieces) = .ok (chunks, last') := by
  cases pieces with
  | nil =>
    obtain ⟨rfl, rfl⟩ := Prod.mk.inj (Except.ok.inj h)
    exact ⟨r, rfl⟩
  | cons piece pieces =>
    have hbegin : (r.begin start).expectedSourceSampleIndex = none := by
      unfold begin
      split
      · exact hexpected
      · exact hexpected
    obtain ⟨_, happend, h⟩ := bind_eq_ok.mp h
    rw [append_ok hstart (fun index hindex => by
      rw [hbegin] at hindex
      exact absurd hindex (Option.not_mem_none index)),
      appendContiguous_begin ⟨piece, start⟩] at happend
    refine ⟨last, bind_eq_ok.mpr ⟨_, append_ok hstart (fun index hindex => ?_) piece, ?_⟩⟩
    · rw [hexpected] at hindex
      exact absurd hindex (Option.not_mem_none index)
    · rw [Except.ok.inj happend]
      exact h

/-! ## Where the pieces do not matter -/

/-- The appends of the pieces give what one append of the signal gives, which is the signal at
the multiples of the step, and their output ranges follow each other. -/
def ChunkingIndependent (source target : ℚ) (initial start : ℤ) (pieces : List (List ℚ)) :
    Prop :=
  ∃ r chunks last whole after, create source target initial = .ok r ∧
    r.run (contiguous start pieces) = .ok (chunks, last) ∧
    r.append ⟨pieces.flatten, start⟩ = .ok (whole, after) ∧
    chunks.flatMap NormalizedPcmChunk.samples = whole.samples ∧
    whole.samples = Sampling.resample (source / target) pieces.flatten ∧
    Ranges initial chunks

/-- Every cut that three samples follow has a position to read between one sample before it
and two after it. -/
def Timely (step : ℚ) (lengths : List ℕ) : Prop :=
  ∀ before, before <+: lengths → before.sum + 3 ≤ lengths.sum →
    ∃ k : ℕ, (before.sum : ℚ) ≤ k * step + 1 ∧ k * step < before.sum + 2

theorem chunkingIndependent_iff {source target : ℚ} (hsource : 0 < source) (htarget : 0 < target)
    {initial : ℤ} (hinitial : 0 ≤ initial) (hstart : 0 ≤ start) (pieces : List (List ℚ)) :
    ∃ r : StreamingLinearResampler, r.step = source / target ∧ r.Reads start [] ∧
      ∀ chunks last, r.run (contiguous start pieces) = .ok (chunks, last) →
        (ChunkingIndependent source target initial start pieces ↔
          chunks.flatMap NormalizedPcmChunk.samples =
            Sampling.resample (source / target) pieces.flatten) := by
  obtain ⟨r, hcreate, hstep, houtput, hnext, hbuffer, hexpected⟩ :=
    create_ok hsource htarget hinitial
  have hreads := reads_begin hnext hbuffer hexpected start
  have hbegin : (r.begin start).step = r.step := by
    unfold begin
    split <;> rfl
  have hnone : ∀ index ∈ r.expectedSourceSampleIndex, index = start := by
    rw [hexpected]
    exact fun index hindex => absurd hindex (Option.not_mem_none index)
  -- One append of the signal gives what `resample` gives, whatever it leaves.
  have hwhole : (r.appendContiguous ⟨pieces.flatten, start⟩).1.samples =
      Sampling.resample (source / target) pieces.flatten := by
    obtain ⟨hsamples, -, -⟩ := hreads.append pieces.flatten
    rw [List.length_nil, Nat.cast_zero, add_zero, List.nil_append, hbegin, hstep,
      appendContiguous_begin ⟨pieces.flatten, start⟩,
      Sampling.resample_nil (div_pos hsource htarget)] at hsamples
    exact hsamples
  refine ⟨r.begin start, hbegin.trans hstep, hreads, fun chunks last hrun => ?_⟩
  obtain ⟨last', hrun'⟩ := run_begin hexpected hstart hrun
  constructor
  · rintro ⟨r', chunks', _, whole, after, hcreate', hrun'', -, hsame, hresample, -⟩
    obtain rfl := Except.ok.inj (hcreate.symm.trans hcreate')
    obtain ⟨rfl, -⟩ := Prod.mk.inj (Except.ok.inj (hrun'.symm.trans hrun''))
    rw [hsame, hresample]
  · intro hsamples
    refine ⟨r, chunks, last', _, _, hcreate, hrun', append_ok hstart hnone _,
      hsamples.trans hwhole.symm, hwhole, ?_⟩
    rw [← houtput]
    exact run_ranges hrun'

/-- The outputs up to a cut after which the samples are lost, and what comes after it. -/
theorem Reads.run_lost (h : r.Reads start []) (hstart : 0 ≤ start) (before after : List (List ℚ))
    (piece : List ℚ) (htime : ∀ p, p <+: before → InTime r.step p.flatten.length)
    (hlost : ¬ InTime r.step (before ++ [piece]).flatten.length) :
    ∃ chunks last, r.run (contiguous start (before ++ piece :: after)) = .ok (chunks, last) ∧
      (after.flatten.length ≤ 2 → chunks.flatMap NormalizedPcmChunk.samples =
        Sampling.resample r.step (before ++ [piece]).flatten) ∧
      (3 ≤ after.flatten.length → ∃ rest, chunks.flatMap NormalizedPcmChunk.samples =
        Sampling.resample r.step (before ++ [piece]).flatten ++
          misread after.flatten
            (start + Sampling.next r.step (before ++ [piece]).flatten.length) :: rest) := by
  obtain ⟨chunks, middle, hrun, hreads, hstep, hsamples⟩ := h.run hstart htime
  rw [List.length_nil, Nat.cast_zero, add_zero] at hrun
  rw [List.nil_append] at hreads hsamples
  rw [Sampling.resample_nil step_pos, List.nil_append] at hsamples
  obtain ⟨happend, -, hafter⟩ := hreads.append piece
  have hflatten : before.flatten ++ piece = (before ++ [piece]).flatten := by
    rw [List.flatten_append, List.flatten_singleton]
  rw [hflatten, hstep] at happend hafter
  have hmiddle := hafter (not_lt.mp hlost)
  obtain ⟨chunks', last, hrun', hquiet, hemits⟩ := hmiddle.run (by omega) (by decide) after
  rw [List.nil_append] at hquiet hemits
  have hlength : start + (before ++ [piece]).flatten.length =
      start + before.flatten.length + piece.length := by
    rw [← hflatten, List.length_append]
    omega
  rw [hlength] at hrun'
  have hall := run_append hrun (run_cons (by omega) hreads.expected piece hrun')
  rw [← contiguous_append] at hall
  refine ⟨_, last, hall, fun hshort => ?_, fun hlong => ?_⟩
  · rw [List.flatMap_append, List.flatMap_cons, hquiet hshort, List.append_nil, hsamples,
      happend]
  · obtain ⟨rest, hrest⟩ := hemits hlong
    exact ⟨rest, by rw [List.flatMap_append, List.flatMap_cons, hrest, ← List.append_assoc,
      hsamples, happend]⟩

/-- A position in time is one to read between one sample before the cut and two after it. -/
theorem inTime_iff {step : ℚ} (hstep : 0 < step) (n : ℕ) :
    InTime step n ↔ ∃ k : ℕ, (n : ℚ) ≤ k * step + 1 ∧ k * step < n + 2 := by
  constructor
  · exact fun h => ⟨Sampling.count step n, Sampling.le_next hstep n, h⟩
  · rintro ⟨k, hle, hlt⟩
    exact (Sampling.next_le hstep hle).trans_lt hlt

/-- A pulse right after the place where the samples are lost is read too early. -/
theorem misread_pulse {n place : ℕ} (h : place < n) (signal after : List ℚ)
    (hwhole : signal ++ after = Sampling.pulse n place) (hplace : place = signal.length + 1)
    (position : ℚ) : 0 < misread after position := by
  have hget : ∀ i, after.getD i 0 = if signal.length + i = place then 1 else 0 := by
    intro i
    rw [← Sampling.getD_pulse h, ← hwhole, List.getD_eq_getElem?_getD,
      List.getD_eq_getElem?_getD, List.getElem?_append_right (Nat.le_add_right _ _),
      Nat.add_sub_cancel_left]
  have := Int.lt_floor_add_one position
  rw [misread, hget, hget, if_pos hplace.symm, if_neg (by omega)]
  linarith

theorem lerp_pulse {n place : ℕ} (h : place < n) {position : ℚ}
    (hposition : (place : ℚ) + 1 ≤ position) :
    Sampling.lerp (Sampling.pulse n place) position = 0 := by
  have hfloor : place + 1 ≤ ⌊position⌋₊ := by
    refine Nat.le_floor ?_
    push_cast
    exact hposition
  rw [Sampling.lerp, Sampling.getD_pulse h, Sampling.getD_pulse h, if_neg (by omega),
    if_neg (by omega)]
  norm_num

theorem flatten_cut (before after : List (List ℚ)) (piece : List ℚ) :
    (before ++ piece :: after).flatten = (before ++ [piece]).flatten ++ after.flatten := by
  rw [List.append_cons before, List.flatten_append]

/-- With the same cuts, every signal is resampled as a whole if and only if the cuts are
timely. -/
theorem forall_chunkingIndependent_iff {source target : ℚ} (hsource : 0 < source)
    (htarget : 0 < target) {initial start : ℤ} (hinitial : 0 ≤ initial) (hstart : 0 ≤ start)
    (lengths : List ℕ) :
    (∀ pieces : List (List ℚ), pieces.map List.length = lengths →
      ChunkingIndependent source target initial start pieces) ↔
      Timely (source / target) lengths := by
  have hstep : 0 < source / target := div_pos hsource htarget
  obtain hall | ⟨before, length, after, rfl, hgood, hbad⟩ := Lists.forall_prefix_or_first
    (fun before => InTime (source / target) before.sum) (inTime_zero hstep) lengths
  · -- No cut loses samples.
    refine iff_of_true (fun pieces hpieces => ?_) fun before hbefore _ =>
      (inTime_iff hstep _).mp (hall before hbefore)
    obtain ⟨r, hr, hreads, hiff⟩ :=
      chunkingIndependent_iff hsource htarget hinitial hstart pieces
    obtain ⟨chunks, last, hrun, -, -, hsamples⟩ := hreads.run hstart fun p hp => by
      have := hall (p.map List.length) (by rw [← hpieces]; exact hp.map _)
      rwa [hr, List.nil_append, List.length_flatten]
    rw [List.length_nil, Nat.cast_zero, add_zero] at hrun
    rw [hr, Sampling.resample_nil hstep, List.nil_append, List.nil_append] at hsamples
    exact (hiff chunks last hrun).mpr hsamples
  · have hlost : ∀ {p : List (List ℚ)} {piece : List ℚ}, p.map List.length = before →
        piece.length = length → (p ++ [piece]).flatten.length = (before ++ [length]).sum := by
      rintro p piece rfl rfl
      rw [List.length_flatten, List.map_append, List.map_singleton]
    have hnext := not_lt.mp hbad
    have htotal : (before ++ length :: after).sum = (before ++ [length]).sum + after.sum := by
      rw [List.append_cons, List.sum_append]
    by_cases hshort : after.sum ≤ 2
    · -- The samples are lost, but none of what is left is read.
      refine iff_of_true (fun pieces hpieces => ?_) fun p hp hsum => ?_
      · obtain ⟨p, rest, rfl, hp, hrest⟩ := List.map_eq_append_iff.mp hpieces
        obtain ⟨piece, q, rfl, hpiece, hq⟩ := List.map_eq_cons_iff.mp hrest
        obtain ⟨r, hr, hreads, hiff⟩ := chunkingIndependent_iff hsource htarget hinitial hstart
          (p ++ piece :: q)
        obtain ⟨chunks, last, hrun, hquiet, -⟩ := hreads.run_lost hstart
          p q piece (fun p' hp' => by
            rw [hr, List.length_flatten]
            exact hgood _ (by rw [← hp]; exact hp'.map _))
          (by rwa [hr, hlost hp hpiece])
        refine (hiff chunks last hrun).mpr ?_
        rw [hquiet (by rwa [List.length_flatten, hq]), hr, flatten_cut p q]
        refine (Sampling.resample_append_of_le hstep ?_).symm
        rw [List.length_append, hlost hp hpiece, List.length_flatten, hq]
        have : ((after.sum : ℕ) : ℚ) ≤ 2 := Nat.cast_le_ofNat.mpr hshort
        rw [Nat.cast_add]
        linarith
      · refine (inTime_iff hstep _).mp (hgood p ?_)
        rw [htotal] at hsum
        rw [List.append_cons] at hp
        obtain hp | ⟨more, rfl⟩ := List.prefix_or_prefix_of_prefix hp (List.prefix_append _ _)
        · obtain rfl | hp := List.prefix_concat_iff.mp hp
          · omega
          · exact hp
        · rw [List.sum_append] at hsum
          omega
    · refine iff_of_false (fun hall => ?_) fun htimely => ?_
      · -- A pulse after the cut is read at the next position instead of what is there.
        generalize htotal' : (before ++ length :: after).sum = n at htotal
        generalize hcut : (before ++ [length]).sum = cut at *
        have hplace : cut + 1 < n := by omega
        obtain ⟨pieces, hpieces, hpulse⟩ : ∃ pieces : List (List ℚ),
            pieces.map List.length = before ++ length :: after ∧
              pieces.flatten = Sampling.pulse n (cut + 1) :=
          ⟨(before ++ length :: after).splitLengths (Sampling.pulse n (cut + 1)),
            List.map_splitLengths_length _ _ (by rw [Sampling.length_pulse, htotal']),
            List.flatten_splitLengths _ _ (by rw [Sampling.length_pulse, htotal'])⟩
        have hindependent := hall pieces hpieces
        obtain ⟨p, rest, rfl, hp, hrest⟩ := List.map_eq_append_iff.mp hpieces
        obtain ⟨piece, q, rfl, hpiece, hq⟩ := List.map_eq_cons_iff.mp hrest
        obtain ⟨r, hr, hreads, hiff⟩ := chunkingIndependent_iff hsource htarget hinitial hstart
          (p ++ piece :: q)
        obtain ⟨chunks, last, hrun, -, hemits⟩ := hreads.run_lost hstart
          p q piece (fun p' hp' => by
            rw [hr, List.length_flatten]
            exact hgood _ (by rw [← hp]; exact hp'.map _))
          (by rwa [hr, hlost hp hpiece])
        have hlong : 3 ≤ q.flatten.length := by
          rw [List.length_flatten, hq]
          omega
        obtain ⟨rest, hsamples⟩ := hemits hlong
        have hresample := (hiff chunks last hrun).mp hindependent
        rw [flatten_cut p q] at hresample hpulse
        rw [hsamples, hr] at hresample
        have hhead := Sampling.head_of_resample_append hstep hresample.symm
        rw [hpulse, lerp_pulse hplace] at hhead
        · refine absurd hhead (misread_pulse hplace (p ++ [piece]).flatten q.flatten hpulse ?_
            _).ne'
          rw [hlost hp hpiece]
        · rw [hlost hp hpiece]
          push_cast
          linarith
      · refine hbad ((inTime_iff hstep _).mpr (htimely _ ?_ ?_))
        · rw [List.append_cons before length after]
          exact List.prefix_append _ _
        · rw [htotal]
          omega

/-- With at most three source samples to an output sample, every cut is timely. -/
theorem timely_of_le_three {step : ℚ} (hstep : 0 < step) (hle : step ≤ 3)
    (lengths : List ℕ) : Timely step lengths := by
  intro before _ _
  refine (inTime_iff hstep _).mp ?_
  rcases Nat.eq_zero_or_pos (Sampling.count step before.sum) with hzero | hpos
  · rw [InTime, Sampling.next, hzero, Nat.cast_zero, zero_mul]
    positivity
  · -- The position before the next one has a sample after it.
    have hlast := (Sampling.lt_count_iff hstep).mp (Nat.sub_lt hpos one_pos)
    rw [Nat.cast_pred hpos, sub_mul, one_mul] at hlast
    rw [InTime, Sampling.next]
    linarith

/-- Three times the rate of the model, in blocks of two and three samples. -/
theorem forall_chunkingIndependent_iff_three :
    (∀ pieces : List (List ℚ), pieces.map List.length = [2, 3] →
      ChunkingIndependent 48000 16000 0 0 pieces) ↔ Timely (48000 / 16000) [2, 3] :=
  forall_chunkingIndependent_iff (by norm_num) (by norm_num) le_rfl le_rfl [2, 3]

/-- At six times the rate of the model, a cut after two samples makes one output too many. -/
theorem chunkingIndependent_fails :
    ¬ ChunkingIndependent 96000 16000 0 0 [[0, 0], [0, 0, 0]] := by
  rintro ⟨r, chunks, last, whole, after, hcreate, hrun, -, hsame, hresample, -⟩
  have hchunks : ((create 96000 16000 0).bind fun r =>
      (r.run (contiguous 0 [[0, 0], [0, 0, 0]])).map fun result =>
        (result.1.flatMap NormalizedPcmChunk.samples).length) = .ok 2 := by decide +kernel
  have hwhole : (Sampling.resample (96000 / 16000) [0, 0, 0, 0, 0]).length = 1 := by
    decide +kernel
  rw [hcreate] at hchunks
  change (r.run _).map _ = _ at hchunks
  rw [hrun] at hchunks
  have hlength := Except.ok.inj hchunks
  dsimp only at hlength
  rw [hsame, hresample] at hlength
  exact absurd (hwhole.symm.trans hlength) (by decide)

end StreamingLinearResampler

end NoteVerse.Acoustic

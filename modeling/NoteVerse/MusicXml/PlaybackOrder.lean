import NoteVerse.Lib.Lists
import NoteVerse.MusicXml.MetadataReading

/-!
# The order in which measures are played

`Plays` says of the marked measures of a part which measures are played in which order:
a section from its repeat start to a backward mark as often as it says, and everything else
once. There is one such order, and `_playback_order` computes it (`playbackOrder_eq_iff`).
-/

namespace NoteVerse.MusicXml.Metadata

/-- A measure with its marks. -/
abbrev Marked := (Bool × Bool × ℤ) × ℕ

namespace Marked

variable (m : Marked)

def forward : Bool := m.1.1

def backward : Bool := m.1.2.1

def times : ℤ := m.1.2.2

def index : ℕ := m.2

end Marked

/-- The measures are played in the order. A section is repeated from the last forward mark in
it, or from its first measure. -/
inductive Plays : List Marked → List ℕ → Prop
  | once (measures : List Marked) (hplain : ∀ m ∈ measures, m.backward = false) :
    Plays measures (measures.map Marked.index)
  | repeated (lead body : List Marked) (last : Marked) (rest : List Marked) (order : List ℕ)
    (hplain : ∀ m ∈ lead ++ body, m.backward = false) (hlast : last.backward)
    (hstart : lead = [] ∨ ∀ m ∈ (body ++ [last]).head?, m.forward)
    (hbody : ∀ m ∈ (body ++ [last]).tail, m.forward = false) (hrest : Plays rest order) :
    Plays (lead ++ body ++ last :: rest) (lead.map Marked.index ++
      (List.replicate last.times.toNat ((body ++ [last]).map Marked.index)).flatten ++ order)

/-! ## Every part is played -/

/-- The repeat start of a section. -/
theorem exists_repeatStart (before : List Marked) (last : Marked) :
    ∃ lead body, before = lead ++ body ∧
      (lead = [] ∨ ∀ m ∈ (body ++ [last]).head?, m.forward) ∧
      ∀ m ∈ (body ++ [last]).tail, m.forward = false := by
  by_cases h : ∃ m ∈ before ++ [last], m.forward
  · obtain ⟨lead, start, after, hsplit, hstart, hafter⟩ := Lists.exists_last h
    cases after using List.reverseRecOn with
    | nil =>
      obtain ⟨rfl, hlast⟩ := List.append_inj' hsplit rfl
      obtain rfl := (List.cons.inj hlast).1
      exact ⟨before, [], (List.append_nil _).symm, .inr fun m hm => Option.some.inj hm ▸ hstart,
        by simp⟩
    | append_singleton after x =>
      rw [← List.cons_append, ← List.append_assoc] at hsplit
      obtain ⟨rfl, hlast⟩ := List.append_inj' hsplit rfl
      obtain rfl := (List.cons.inj hlast).1
      exact ⟨lead, start :: after, rfl, .inr fun m hm => Option.some.inj hm ▸ hstart, hafter⟩
  · refine ⟨[], before, rfl, .inl rfl, fun m hm => Bool.eq_false_of_not_eq_true fun hm' => h ?_⟩
    exact ⟨m, List.mem_of_mem_tail hm, hm'⟩

theorem exists_plays (measures : List Marked) : ∃ order, Plays measures order := by
  induction hlength : measures.length using Nat.strong_induction_on generalizing measures with
  | h n ih =>
    cases hfind : measures.find? Marked.backward with
    | none =>
      refine ⟨_, .once measures fun m hm => ?_⟩
      exact Bool.eq_false_of_not_eq_true (List.find?_eq_none.mp hfind m hm)
    | some last =>
      obtain ⟨hlast, before, rest, rfl, hbefore⟩ := List.find?_eq_some_iff_append.mp hfind
      obtain ⟨lead, body, rfl, hstart, hbody⟩ := exists_repeatStart before last
      have hshort : rest.length < n := by
        rw [← hlength, List.length_append, List.length_cons]
        omega
      obtain ⟨order, horder⟩ := ih rest.length hshort rest rfl
      exact ⟨_, .repeated lead body last rest order (fun m hm => by simpa using hbefore m hm) hlast
        hstart hbody horder⟩

/-! ## The loop -/

/-- The repeat start after measures without a backward mark. -/
def repeatStart (start : ℕ) (measures : List Marked) : ℕ :=
  measures.foldl (fun start m => if m.forward then m.index else start) start

variable {measures : List Marked}

theorem foldl_orderStep_plain (h : ∀ m ∈ measures, m.backward = false) (order : List ℕ)
    (start : ℕ) : measures.foldl orderStep (order, start) =
      (order ++ measures.map Marked.index, repeatStart start measures) := by
  induction measures generalizing order start with
  | nil => simp [repeatStart]
  | cons m measures ih =>
    obtain ⟨hm, hrest⟩ := List.forall_mem_cons.mp h
    have hstep : orderStep (order, start) m =
        (order ++ [m.index], if m.forward then m.index else start) :=
      if_neg (by rw [← Marked.backward, hm]; exact Bool.false_ne_true)
    rw [List.foldl_cons, hstep, ih hrest, List.append_assoc]
    rfl

theorem repeatStart_of_plain (h : ∀ m ∈ measures, m.forward = false) (start : ℕ) :
    repeatStart start measures = start := by
  induction measures with
  | nil => rfl
  | cons m measures ih =>
    obtain ⟨hm, hrest⟩ := List.forall_mem_cons.mp h
    rw [repeatStart, List.foldl_cons, hm]
    exact ih hrest

/-- The repeat start at the last measure of a section. -/
theorem repeatStart_section {lead body : List Marked} {last first : Marked} {start : ℕ}
    (hfirst : (body ++ [last]).head? = some first)
    (hstart : lead = [] ∨ ∀ m ∈ (body ++ [last]).head?, m.forward)
    (hbody : ∀ m ∈ (body ++ [last]).tail, m.forward = false)
    (hindex : lead = [] → start = first.index) :
    repeatStart start (lead ++ body ++ [last]) = first.index := by
  obtain ⟨tail, hsection⟩ := List.head?_eq_some_iff.mp hfirst
  have hone : (if first.forward then first.index else repeatStart start lead) = first.index := by
    rcases hstart with rfl | hforward
    · rw [hindex rfl]
      exact ite_self _
    · exact if_pos (hforward first hfirst)
  have hsplit : repeatStart start (lead ++ first :: tail) =
      repeatStart (if first.forward then first.index else repeatStart start lead) tail := by
    rw [repeatStart, List.foldl_append]
    rfl
  rw [hsection, List.tail_cons] at hbody
  rw [List.append_assoc, hsection, hsplit, hone, repeatStart_of_plain hbody]

/-- The indices of a section and of what is around it. -/
theorem indices_section {lead block rest : List Marked} {start : ℕ}
    (h : (lead ++ block ++ rest).map Marked.index =
      List.range' start (lead ++ block ++ rest).length) :
    block.map Marked.index = List.range' (start + lead.length) block.length ∧
      rest.map Marked.index = List.range' (start + lead.length + block.length) rest.length := by
  rw [List.length_append, List.length_append, List.map_append, List.map_append,
    ← List.range'_append_1, ← List.range'_append_1] at h
  obtain ⟨h, hrest⟩ := List.append_inj h (by simp)
  obtain ⟨-, hblock⟩ := List.append_inj h (by simp)
  exact ⟨hblock, by rw [hrest, Nat.add_assoc]⟩

theorem Plays.foldl_orderStep {order : List ℕ} (h : Plays measures order) {start : ℕ}
    (hindices : measures.map Marked.index = List.range' start measures.length)
    (htimes : ∀ m ∈ measures, 0 < m.times) (before : List ℕ) :
    (measures.foldl orderStep (before, start)).1 = before ++ order := by
  induction h generalizing start before with
  | once measures hplain => rw [foldl_orderStep_plain hplain]
  | repeated lead body last rest order hplain hlast hstart hbody _ ih =>
    have hassoc : lead ++ body ++ last :: rest = lead ++ (body ++ [last]) ++ rest := by simp
    rw [hassoc] at hindices htimes ⊢
    obtain ⟨hblock, hrest⟩ := indices_section hindices
    rw [List.length_append, List.length_singleton] at hblock hrest
    -- The section is from the repeat start to the last measure.
    have hlastIndex : last.index = start + lead.length + body.length := by
      rw [List.map_append, List.range'_1_concat] at hblock
      exact (List.cons.inj (List.append_inj' hblock rfl).2).1
    have hfirst : ∃ first, (body ++ [last]).head? = some first ∧
        first.index = start + lead.length := by
      cases hsection : body ++ [last] with
      | nil => exact absurd hsection (by simp)
      | cons first tail =>
        rw [hsection, List.map_cons, List.range'_succ] at hblock
        exact ⟨first, rfl, (List.cons.inj hblock).1⟩
    obtain ⟨first, hfirst, hfirstIndex⟩ := hfirst
    have hbegin : repeatStart start (lead ++ body ++ [last]) = start + lead.length := by
      rw [repeatStart_section hfirst hstart hbody fun hlead => by rw [hfirstIndex, hlead]; rfl,
        hfirstIndex]
    have hsection : List.range' (start + lead.length) (last.index + 1 - (start + lead.length)) =
        (body ++ [last]).map Marked.index := by
      rw [hblock]
      congr 1
      omega
    have hpos : 0 < last.times := htimes last (by simp)
    have hcount : last.times.toNat = (max 1 last.times - 1).toNat + 1 := by omega
    have hstep : (lead ++ (body ++ [last])).foldl orderStep (before, start) =
        (before ++ (lead.map Marked.index ++
          (List.replicate last.times.toNat ((body ++ [last]).map Marked.index)).flatten),
          last.index + 1) := by
      have hbackward : last.1.2.1 = true := hlast
      have hrepeat : (if last.1.1 then last.2 else repeatStart start (lead ++ body)) =
          start + lead.length := by
        have hconcat : repeatStart start (lead ++ body ++ [last]) =
            if last.1.1 then last.2 else repeatStart start (lead ++ body) := by
          rw [repeatStart, List.foldl_concat]
          rfl
        rw [← hconcat, hbegin]
      rw [← List.append_assoc, List.foldl_append, foldl_orderStep_plain hplain, List.foldl_cons,
        List.foldl_nil, orderStep]
      dsimp only
      rw [hrepeat, if_pos hbackward, ← Marked.index, hsection, hcount, List.replicate_succ,
        List.flatten_cons, List.map_append, List.map_append]
      simp [Marked.times]
    rw [List.foldl_append, hstep, ih (by rw [hrest]; congr 1; omega)
      (fun m hm => htimes m (List.mem_append_right _ hm)), List.append_assoc]

/-- The measures of a part with their indices. -/
theorem index_zipIdx (repeats : List (Bool × Bool × ℤ)) :
    (repeats.zipIdx.map Marked.index) = List.range' 0 repeats.zipIdx.length := by
  rw [List.length_zipIdx]
  exact List.zipIdx_map_snd 0 repeats

/-- The order that the loop computes is the one in which the measures are played. -/
theorem playbackOrder_eq_iff {repeats : List (Bool × Bool × ℤ)}
    (h : ∀ marks ∈ repeats, 0 < marks.2.2)
    (order : List ℕ) : playbackOrder repeats = order ↔ Plays repeats.zipIdx order := by
  have htimes : ∀ m ∈ repeats.zipIdx, 0 < Marked.times m := fun m hm =>
    h m.1 (List.fst_mem_of_mem_zipIdx hm)
  have heq : ∀ {order}, Plays repeats.zipIdx order → playbackOrder repeats = order :=
    fun hplays => (hplays.foldl_orderStep (index_zipIdx repeats) htimes []).trans
      (List.nil_append _)
  constructor
  · rintro rfl
    obtain ⟨order, hplays⟩ := exists_plays repeats.zipIdx
    rwa [heq hplays]
  · exact heq

/-- The measures that are played are those of the part. -/
theorem Plays.mem_iff {order : List ℕ} (h : Plays measures order)
    (htimes : ∀ m ∈ measures, 0 < m.times) (index : ℕ) :
    index ∈ order ↔ index ∈ measures.map Marked.index := by
  induction h with
  | once measures _ => rfl
  | repeated lead body last rest order _ _ _ _ _ ih =>
    have hpos : last.times.toNat ≠ 0 := by
      have := htimes last (by simp)
      omega
    have hrest := ih fun m hm => htimes m (by simp [hm])
    have hblock : index ∈ (List.replicate last.times.toNat
        ((body ++ [last]).map Marked.index)).flatten ↔
        index ∈ (body ++ [last]).map Marked.index := by
      simp only [List.mem_flatten, List.mem_replicate]
      exact ⟨fun ⟨_, ⟨_, hblock⟩, hmem⟩ => hblock ▸ hmem, fun hmem => ⟨_, ⟨hpos, rfl⟩, hmem⟩⟩
    have hassoc : lead ++ body ++ last :: rest = lead ++ (body ++ [last]) ++ rest := by simp
    rw [hassoc, List.mem_append, List.mem_append, hblock, hrest]
    simp only [List.map_append, List.mem_append]

end NoteVerse.MusicXml.Metadata

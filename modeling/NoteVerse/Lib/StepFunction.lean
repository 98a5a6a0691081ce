import NoteVerse.Lib.Computable

/-!
# Step functions of events

Events have a key, and at a point the one that counts is the `latest` of those at or before
it: the last in the list of those with the greatest key. The value of that event is the
`level` there. Where the events are sorted, the integral of a function of the level is a sum
over the events in turn (`hasArea_level`), and a stable sort does not change the level
(`level_insertionSort`).
-/

namespace StepFunction

section Latest

variable {ι κ K V : Type*} [LinearOrder K] (key : ι → K)

/-- The last of the events with the greatest key. -/
def latest : List ι → Option ι
  | [] => none
  | e :: es =>
    match latest es with
    | none => some e
    | some last => if key e ≤ key last then some last else some e

variable {es : List ι} {initial : V}

theorem latest_eq_none_iff : latest key es = none ↔ es = [] := by
  cases es with
  | nil => simp [latest]
  | cons e es =>
    rw [latest]
    cases latest key es with
    | none => simp
    | some last =>
      dsimp only
      split_ifs <;> simp

theorem latest_mem {last : ι} (h : latest key es = some last) :
    last ∈ es ∧ ∀ e ∈ es, key e ≤ key last := by
  induction es generalizing last with
  | nil => exact absurd h (by simp [latest])
  | cons e es ih =>
    rw [latest] at h
    cases hes : latest key es with
    | none =>
      rw [hes] at h
      obtain rfl := Option.some.inj h
      obtain rfl := (latest_eq_none_iff key).mp hes
      simp
    | some other =>
      obtain ⟨hmem, hmax⟩ := ih hes
      rw [hes] at h
      dsimp only at h
      split_ifs at h with hle
      · obtain rfl := Option.some.inj h
        exact ⟨List.mem_cons_of_mem _ hmem, List.forall_mem_cons.mpr ⟨hle, hmax⟩⟩
      · obtain rfl := Option.some.inj h
        refine ⟨List.mem_cons_self, List.forall_mem_cons.mpr ⟨le_rfl, fun e' he' => ?_⟩⟩
        exact (hmax e' he').trans (not_le.mp hle).le

/-- Where the latest event stands. -/
theorem latest_split {last : ι} (h : latest key es = some last) :
    ∃ before after, es = before ++ last :: after ∧
      (∀ e ∈ before, key e ≤ key last) ∧ ∀ e ∈ after, key e < key last := by
  induction es generalizing last with
  | nil => exact absurd h (by simp [latest])
  | cons e es ih =>
    rw [latest] at h
    cases hes : latest key es with
    | none =>
      rw [hes] at h
      obtain rfl := Option.some.inj h
      obtain rfl := (latest_eq_none_iff key).mp hes
      exact ⟨[], [], rfl, by simp, by simp⟩
    | some other =>
      rw [hes] at h
      dsimp only at h
      split_ifs at h with hle
      · obtain rfl := Option.some.inj h
        obtain ⟨before, after, rfl, hbefore, hafter⟩ := ih hes
        exact ⟨e :: before, after, rfl, List.forall_mem_cons.mpr ⟨hle, hbefore⟩, hafter⟩
      · obtain rfl := Option.some.inj h
        refine ⟨[], es, rfl, by simp, fun e' he' => ?_⟩
        exact ((latest_mem key hes).2 e' he').trans_lt (not_le.mp hle)

theorem latest_append {as bs : List ι} (h : ∀ a ∈ as, ∀ b ∈ bs, key a ≤ key b) :
    latest key (as ++ bs) = (latest key bs).or (latest key as) := by
  induction as with
  | nil => simp [latest]
  | cons a as ih =>
    obtain ⟨ha, has⟩ := List.forall_mem_cons.mp h
    rw [List.cons_append, latest, latest, ih has]
    cases hbs : latest key bs with
    | none => rfl
    | some last =>
      rw [Option.some_or, Option.some_or]
      exact if_pos (ha last (latest_mem key hbs).1)

theorem latest_of_split {before after : List ι} {last : ι}
    (hbefore : ∀ e ∈ before, key e ≤ key last) (hafter : ∀ e ∈ after, key e < key last) :
    latest key (before ++ last :: after) = some last := by
  have hrest : latest key (last :: after) = some last := by
    rw [latest]
    cases h : latest key after with
    | none => rfl
    | some other => exact if_neg (not_le.mpr (hafter other (latest_mem key h).1))
  induction before with
  | nil => exact hrest
  | cons e before ih =>
    obtain ⟨he, hbefore⟩ := List.forall_mem_cons.mp hbefore
    rw [List.cons_append, latest, ih hbefore]
    exact if_pos he

theorem latest_map (f : κ → ι) (es : List κ) :
    latest key (es.map f) = (latest (key ∘ f) es).map f := by
  induction es with
  | nil => rfl
  | cons e es ih =>
    rw [List.map_cons, latest, ih, latest]
    cases latest (key ∘ f) es with
    | none => rfl
    | some last =>
      simp only [Option.map_some, Function.comp_apply]
      split_ifs <;> rfl

/-- Keys of one order have the same latest event. -/
theorem latest_congr {L : Type*} [LinearOrder L] {key : ι → K} {key' : ι → L}
    (h : ∀ a b, key a ≤ key b ↔ key' a ≤ key' b) (es : List ι) :
    latest key es = latest key' es := by
  induction es with
  | nil => rfl
  | cons e es ih =>
    rw [latest, latest, ih]
    cases latest key' es with
    | none => rfl
    | some last => simp only [h]

/-- Two neighbours change places if the one that comes first has a greater key. -/
theorem latest_swap {a b : ι} (h : key b < key a) (es : List ι) :
    latest key (a :: b :: es) = latest key (b :: a :: es) := by
  simp only [latest]
  cases latest key es with
  | none => simp [h.le, h.not_ge]
  | some last =>
    dsimp only
    split_ifs with hb ha ha
    · simp [ha, hb]
    · simp [ha, h.le]
    · exact absurd (h.le.trans ha) hb
    · simp [h.le, h.not_ge]

theorem latest_cons_congr {es' : List ι} (h : latest key es = latest key es') (e : ι) :
    latest key (e :: es) = latest key (e :: es') := by
  rw [latest, latest, h]

/-- A stable sort keeps the latest of the events that satisfy a predicate. -/
theorem latest_filter_insertionSort (p : ι → Bool) (es : List ι) :
    latest key ((es.insertionSort fun a b => key a ≤ key b).filter p) =
      latest key (es.filter p) := by
  have hinsert : ∀ (e : ι) (sorted : List ι),
      latest key ((sorted.orderedInsert (fun a b => key a ≤ key b) e).filter p) =
        latest key ((e :: sorted).filter p) := by
    intro e sorted
    induction sorted with
    | nil => rfl
    | cons b sorted ih =>
      rw [List.orderedInsert_cons]
      split_ifs with hle
      · rfl
      · rw [List.filter_cons]
        cases hb : p b with
        | false =>
          rw [if_neg Bool.false_ne_true, ih, List.filter_cons, List.filter_cons,
            List.filter_cons_of_neg (by simp [hb])]
        | true =>
          rw [if_pos rfl, latest_cons_congr key ih]
          cases he : p e with
          | false => simp [he, hb]
          | true =>
            simp only [List.filter_cons, he, hb, if_true]
            exact (latest_swap key (not_le.mp hle) _).symm
  induction es with
  | nil => rfl
  | cons e es ih =>
    rw [List.insertionSort_cons, hinsert, List.filter_cons, List.filter_cons]
    split_ifs
    · exact latest_cons_congr key ih e
    · exact ih

variable (value : ι → V)

/-- The value of the latest event at or before a point. -/
def level (initial : V) (es : List ι) (point : K) : V :=
  ((latest key (es.filter fun e => key e ≤ point)).map value).getD initial

theorem level_insertionSort (initial : V) (es : List ι) (point : K) :
    level key value initial (es.insertionSort fun a b => key a ≤ key b) point =
      level key value initial es point := by
  rw [level, latest_filter_insertionSort]
  rfl

variable {key value}

theorem level_map (f : κ → ι) (initial : V) (es : List κ) (point : K) :
    level key value initial (es.map f) point =
      level (key ∘ f) (value ∘ f) initial es point := by
  rw [level, List.filter_map, latest_map, Option.map_map]
  rfl

/-- Before the first event. -/
theorem level_of_lt {point : K} (h : ∀ e ∈ es, point < key e) :
    level key value initial es point = initial := by
  have hnone : (es.filter fun e => key e ≤ point) = [] :=
    List.filter_eq_nil_iff.mpr fun e he => by simp [h e he]
  rw [level, hnone]
  rfl

/-- Events none of which is before one of the others. -/
theorem level_append {as bs : List ι} (h : ∀ a ∈ as, ∀ b ∈ bs, key a ≤ key b) (point : K) :
    level key value initial (as ++ bs) point =
      level key value (level key value initial as point) bs point := by
  have hle : ∀ a ∈ as.filter fun e => key e ≤ point, ∀ b ∈ bs.filter fun e => key e ≤ point,
      key a ≤ key b := fun a ha b hb => h a (List.mem_filter.mp ha).1 b (List.mem_filter.mp hb).1
  rw [level, List.filter_append, latest_append key hle, level, level]
  cases latest key (bs.filter fun e => key e ≤ point) <;> rfl

/-- From the first event on. -/
theorem level_cons {e : ι} {point : K} (he : key e ≤ point) (h : ∀ e' ∈ es, key e ≤ key e') :
    level key value initial (e :: es) point = level key value (value e) es point := by
  have hle : ∀ a ∈ [e], ∀ b ∈ es, key a ≤ key b := fun a ha b hb =>
    List.mem_singleton.mp ha ▸ h b hb
  have hvalue : level key value initial [e] point = value e := by
    rw [level, List.filter_singleton, decide_eq_true he]
    rfl
  rw [← List.singleton_append, level_append hle, hvalue]

end Latest

/-! ## Integrals -/

open MeasureTheory Set

/-- The function has an integral from one point to another. -/
def HasArea (g : ℝ → ℝ) (a b area : ℝ) : Prop :=
  IntervalIntegrable g volume a b ∧ ∫ x in a..b, g x = area

variable {g h : ℝ → ℝ} {a b c area area' : ℝ}

theorem HasArea.congr (hg : HasArea g a b area) (hab : a ≤ b) (heq : ∀ x ∈ Ico a b, g x = h x) :
    HasArea h a b area := by
  have hIoo : EqOn g h (uIoo a b) := by
    rw [uIoo_of_le hab]
    exact fun x hx => heq x ⟨hx.1.le, hx.2⟩
  exact ⟨hg.1.congr_uIoo hIoo, (intervalIntegral.integral_congr_uIoo hIoo).symm.trans hg.2⟩

theorem hasArea_const (y : ℝ) : HasArea (fun _ => y) a b ((b - a) * y) :=
  ⟨intervalIntegrable_const, by rw [intervalIntegral.integral_const, smul_eq_mul]⟩

theorem HasArea.append (h₁ : HasArea g a b area) (h₂ : HasArea g b c area') :
    HasArea g a c (area + area') :=
  ⟨h₁.1.trans h₂.1, by
    rw [← intervalIntegral.integral_add_adjacent_intervals h₁.1 h₂.1, h₁.2, h₂.2]⟩

/-- The area under a function of the level, over the events in turn. -/
def areaOf {ι V : Type*} (key : ι → ℝ) (value : ι → V) (f : V → ℝ) (stop : ℝ) :
    ℝ → V → List ι → ℝ
  | start, initial, [] => (stop - start) * f initial
  | start, initial, e :: es =>
    (key e - start) * f initial + areaOf key value f stop (key e) (value e) es

theorem hasArea_level {ι V : Type*} {key : ι → ℝ} {value : ι → V} (f : V → ℝ) {start stop : ℝ}
    {es : List ι} (initial : V) (hle : start ≤ stop) (hsorted : es.Pairwise (key · ≤ key ·))
    (hbounds : ∀ e ∈ es, start ≤ key e ∧ key e ≤ stop) :
    HasArea (fun x => f (level key value initial es x)) start stop
      (areaOf key value f stop start initial es) := by
  induction es generalizing start initial with
  | nil => exact hasArea_const (f initial)
  | cons e es ih =>
    obtain ⟨⟨hstart, hstop⟩, hes⟩ := List.forall_mem_cons.mp hbounds
    obtain ⟨hfirst, hsorted⟩ := List.pairwise_cons.mp hsorted
    have hbefore : HasArea (fun x => f (level key value initial (e :: es) x)) start (key e)
        ((key e - start) * f initial) := by
      refine (hasArea_const (f initial)).congr hstart fun x hx => ?_
      rw [level_of_lt]
      exact List.forall_mem_cons.mpr ⟨hx.2, fun e' he' => hx.2.trans_le (hfirst e' he')⟩
    refine hbefore.append ((ih (value e) hstop hsorted fun e' he' =>
      ⟨hfirst e' he', (hes e' he').2⟩).congr hstop fun x hx => ?_)
    rw [level_cons hx.1 hfirst]

/-- A function that is nowhere greater and is less between two points has a smaller area. -/
theorem HasArea.lt (hg : HasArea g a b area) (hh : HasArea h a b area')
    (hle : ∀ x ∈ Ico a b, g x ≤ h x) {p q : ℝ} (hap : a ≤ p) (hpq : p < q) (hqb : q ≤ b)
    (hlt : ∀ x ∈ Ico p q, g x < h x) : area < area' := by
  have hab : a ≤ b := hap.trans (hpq.le.trans hqb)
  have hle' : g ≤ᵐ[volume.restrict (Ioc a b)] h := by
    rw [← restrict_Ioo_eq_restrict_Ioc]
    exact ae_restrict_of_forall_mem measurableSet_Ioo fun x hx => hle x ⟨hx.1.le, hx.2⟩
  rw [← hg.2, ← hh.2]
  refine intervalIntegral.integral_lt_integral_of_ae_le_of_measure_setOfPred_lt_ne_zero hab hg.1
    hh.1 hle' ?_
  have hsub : Ioo p q ⊆ {x | g x < h x} ∩ Ioc a b := fun x hx =>
    ⟨hlt x ⟨hx.1.le, hx.2⟩, hap.trans_lt hx.1, hx.2.le.trans hqb⟩
  rw [Measure.restrict_apply' measurableSet_Ioc]
  have hpos : 0 < volume (Ioo p q) := by
    rw [Real.volume_Ioo]
    exact ENNReal.ofReal_pos.mpr (sub_pos.mpr hpq)
  exact (hpos.trans_le (measure_mono hsub)).ne'

theorem HasArea.le (hg : HasArea g a b area) (hh : HasArea h a b area') (hab : a ≤ b)
    (hle : ∀ x ∈ Ico a b, g x ≤ h x) : area ≤ area' := by
  rw [← hg.2, ← hh.2]
  exact intervalIntegral.integral_mono_on_of_le_Ioo hab hg.1 hh.1 fun x hx =>
    hle x ⟨hx.1.le, hx.2⟩

end StepFunction

import NoteVerse.Lib.Computable

/-!
# Piecewise linear maps

A piece is a straight line from one point to another that lies above and to the right
of it, and a list of pieces tiles the way from one point to another if each begins
where the one before it ends (`Tiles`). `value` looks up the piece of an argument, the
last one if there is none, and is the value of every piece where it is (`value_eq`).
It is strictly increasing (`value_lt`) and continuous (`continuousOn_value`), and the
pieces with arguments and values swapped have its inverse (`value_swap`). `clip` is
what lies between two arguments, moved to other values (`tiles_clip`).
-/

namespace PiecewiseLinear

/-- A line from the point of the `start` and the `first` value to that of the `stop`
and the `last` value. -/
structure Piece (K : Type*) where
  start : K
  stop : K
  first : K
  last : K

variable {K : Type*}

def Piece.swap (p : Piece K) : Piece K := ⟨p.first, p.last, p.start, p.stop⟩

theorem swap_map_swap (ps : List (Piece K)) : (ps.map Piece.swap).map Piece.swap = ps := by
  rw [List.map_map]
  exact List.map_id ps

/-! ## Tilings -/

section

variable [LinearOrder K]

structure Piece.Rises (p : Piece K) : Prop where
  args : p.start < p.stop
  values : p.first < p.last

theorem Piece.Rises.swap {p : Piece K} (h : p.Rises) : p.swap.Rises := ⟨h.values, h.args⟩

/-- The pieces lead from one point to another, each from where the one before it ends. -/
def Tiles : K × K → List (Piece K) → K × K → Prop
  | a, [], b => a = b
  | a, p :: ps, b => (p.start, p.first) = a ∧ p.Rises ∧ Tiles (p.stop, p.last) ps b

variable {a b : K × K} {p : Piece K} {ps : List (Piece K)} {x : K}

theorem tiles_le (h : Tiles a ps b) : a.1 ≤ b.1 ∧ a.2 ≤ b.2 := by
  induction ps generalizing a with
  | nil =>
    obtain rfl : a = b := h
    exact ⟨le_rfl, le_rfl⟩
  | cons p ps ih =>
    obtain ⟨rfl, hrises, hrest⟩ := h
    exact ⟨hrises.args.le.trans (ih hrest).1, hrises.values.le.trans (ih hrest).2⟩

theorem tiles_bounds (h : Tiles a ps b) (hp : p ∈ ps) :
    p.Rises ∧ a.1 ≤ p.start ∧ p.stop ≤ b.1 ∧ a.2 ≤ p.first ∧ p.last ≤ b.2 := by
  induction ps generalizing a with
  | nil => exact absurd hp List.not_mem_nil
  | cons q ps ih =>
    obtain ⟨rfl, hrises, hrest⟩ := h
    obtain rfl | hp := List.mem_cons.mp hp
    · exact ⟨hrises, le_rfl, (tiles_le hrest).1, le_rfl, (tiles_le hrest).2⟩
    · obtain ⟨hp, hstart, hstop, hfirst, hlast⟩ := ih hrest hp
      exact ⟨hp, hrises.args.le.trans hstart, hstop, hrises.values.le.trans hfirst, hlast⟩

theorem tiles_getLast (h : Tiles a ps b) (hp : ps.getLast? = some p) : b = (p.stop, p.last) := by
  induction ps generalizing a with
  | nil => exact absurd hp (by simp)
  | cons q ps ih =>
    obtain ⟨-, -, hrest⟩ := h
    cases ps with
    | nil =>
      obtain rfl := Option.some.inj hp
      exact hrest.symm
    | cons r ps => exact ih hrest hp

theorem tiles_swap (h : Tiles a ps b) : Tiles a.swap (ps.map Piece.swap) b.swap := by
  induction ps generalizing a with
  | nil => exact congrArg Prod.swap h
  | cons p ps ih =>
    obtain ⟨rfl, hrises, hrest⟩ := h
    exact ⟨rfl, hrises.swap, ih hrest⟩

theorem exists_piece (h : Tiles a ps b) (hne : ps ≠ []) (ha : a.1 ≤ x) (hb : x ≤ b.1) :
    ∃ p ∈ ps, p.start ≤ x ∧ x ≤ p.stop := by
  induction ps generalizing a with
  | nil => exact absurd rfl hne
  | cons p ps ih =>
    obtain ⟨rfl, hrises, hrest⟩ := h
    by_cases hx : x ≤ p.stop
    · exact ⟨p, List.mem_cons_self, ha, hx⟩
    · have hps : ps ≠ [] := by
        rintro rfl
        obtain rfl : (p.stop, p.last) = b := hrest
        exact hx hb
      obtain ⟨q, hq, hstart, hstop⟩ := ih hrest hps (not_le.mp hx).le
      exact ⟨q, List.mem_cons_of_mem p hq, hstart, hstop⟩

/-- What lies of a piece between two arguments, if it is more than a point, with the
values of a map. -/
def clipPiece (f : K → K) (s e : K) (p : Piece K) : Option (Piece K) :=
  let start := max p.start s
  let stop := min p.stop e
  if stop ≤ start then none else some ⟨start, stop, f start, f stop⟩

def clip (f : K → K) (s e : K) (ps : List (Piece K)) : List (Piece K) :=
  ps.filterMap (clipPiece f s e)

theorem clipPiece_of_le {f : K → K} {s e : K} (h : min p.stop e ≤ max p.start s) :
    clipPiece f s e p = none := if_pos h

theorem clipPiece_of_lt {f : K → K} {s e : K} (h : max p.start s < min p.stop e) :
    clipPiece f s e p =
      some ⟨max p.start s, min p.stop e, f (max p.start s), f (min p.stop e)⟩ :=
  if_neg (not_le.mpr h)

theorem clip_cons_of_le {f : K → K} {s e : K} (h : min p.stop e ≤ max p.start s) :
    clip f s e (p :: ps) = clip f s e ps :=
  List.filterMap_cons_none (clipPiece_of_le h)

theorem clip_cons_of_lt {f : K → K} {s e : K} (h : max p.start s < min p.stop e) :
    clip f s e (p :: ps) =
      ⟨max p.start s, min p.stop e, f (max p.start s), f (min p.stop e)⟩ :: clip f s e ps :=
  List.filterMap_cons_some (clipPiece_of_lt h)

/-- Nothing is cut out of a tiling that ends before the cut or begins after it. -/
theorem clip_eq_nil {f : K → K} {s e : K} (h : Tiles a ps b) (hse : min b.1 e ≤ max a.1 s) :
    clip f s e ps = [] := by
  refine List.filterMap_eq_nil_iff.mpr fun p hp => clipPiece_of_le ?_
  obtain ⟨-, hstart, hstop, -⟩ := tiles_bounds h hp
  exact (min_le_min_right e hstop).trans (hse.trans (max_le_max_right s hstart))

end

/-! ## Values -/

variable [Field K]

def Piece.eval (p : Piece K) (x : K) : K :=
  p.first + (x - p.start) * (p.last - p.first) / (p.stop - p.start)

theorem Piece.eval_start (p : Piece K) : p.eval p.start = p.first := by
  simp [Piece.eval]

variable [LinearOrder K]

/-- The value at an argument, by its piece or by the last one. -/
def value (ps : List (Piece K)) (x : K) : Option K :=
  ((ps.find? fun p => p.start ≤ x ∧ x < p.stop) <|> ps.getLast?).map (Piece.eval · x)

variable {a b : K × K} {p : Piece K} {ps : List (Piece K)} {x y u v : K}

theorem mem_of_find_or_last {α : Type*} {q : α → Bool} {xs : List α} {z : α}
    (h : (xs.find? q <|> xs.getLast?) = some z) : z ∈ xs := by
  cases hfind : xs.find? q with
  | some y =>
    rw [hfind] at h
    obtain rfl := Option.some.inj h
    exact List.mem_of_find?_eq_some hfind
  | none =>
    rw [hfind] at h
    exact List.mem_of_getLast? h

/-- The value of pieces that come from other things. -/
theorem value_map {α : Type*} (f : α → Piece K) (xs : List α) (x : K) :
    value (xs.map f) x =
      (xs.find? (fun z => (f z).start ≤ x ∧ x < (f z).stop) <|> xs.getLast?).map
        fun z => (f z).eval x := by
  rw [value, List.find?_map, List.getLast?_map]
  show ((xs.find? fun z => (f z).start ≤ x ∧ x < (f z).stop).map f <|> _).map _ = _
  cases xs.find? fun z => (f z).start ≤ x ∧ x < (f z).stop with
  | none => cases xs.getLast? <;> rfl
  | some z => rfl

theorem value_cons_of_lt (hstart : p.start ≤ x) (hstop : x < p.stop) :
    value (p :: ps) x = some (p.eval x) := by
  rw [value, List.find?_cons_of_pos (by simp [hstart, hstop])]
  rfl

theorem value_cons_of_le (hstop : p.stop ≤ x) (hne : ps ≠ []) : value (p :: ps) x = value ps x := by
  rw [value, value, List.find?_cons_of_neg (by simp [hstop]), List.getLast?_cons_of_ne_nil hne]

variable [IsStrictOrderedRing K]

theorem Piece.Rises.eval_stop (h : p.Rises) : p.eval p.stop = p.last := by
  have hne : p.stop - p.start ≠ 0 := (sub_pos.mpr h.args).ne'
  rw [Piece.eval, mul_div_cancel_left₀ _ hne]
  ring

theorem Piece.Rises.eval_lt (h : p.Rises) (hxy : x < y) : p.eval x < p.eval y := by
  have hslope : 0 < (p.last - p.first) / (p.stop - p.start) :=
    div_pos (sub_pos.mpr h.values) (sub_pos.mpr h.args)
  simp only [Piece.eval, mul_div_assoc]
  have := mul_lt_mul_of_pos_right (sub_lt_sub_right hxy p.start) hslope
  linarith

theorem Piece.Rises.eval_le (h : p.Rises) (hxy : x ≤ y) : p.eval x ≤ p.eval y := by
  obtain hlt | rfl := hxy.lt_or_eq
  · exact (h.eval_lt hlt).le
  · exact le_rfl

theorem Piece.Rises.swap_eval (h : p.Rises) (x : K) : p.swap.eval (p.eval x) = x := by
  have hargs : p.stop - p.start ≠ 0 := (sub_pos.mpr h.args).ne'
  have hvalues : p.last - p.first ≠ 0 := (sub_pos.mpr h.values).ne'
  simp only [Piece.eval, Piece.swap]
  field_simp
  ring

/-- A line is the line between two of its points. -/
theorem Piece.Rises.eval_between (h : p.Rises) {s e : K} (hse : s < e) (c x : K) :
    (Piece.mk s e (p.eval s - c) (p.eval e - c)).eval x = p.eval x - c := by
  have hargs : p.stop - p.start ≠ 0 := (sub_pos.mpr h.args).ne'
  have hbetween : e - s ≠ 0 := (sub_pos.mpr hse).ne'
  simp only [Piece.eval]
  field_simp
  ring

/-- The value is that of any piece that has the argument. -/
theorem value_eq (h : Tiles a ps b) (hp : p ∈ ps) (hstart : p.start ≤ x) (hstop : x ≤ p.stop) :
    value ps x = some (p.eval x) := by
  induction ps generalizing a with
  | nil => exact absurd hp List.not_mem_nil
  | cons q ps ih =>
    obtain ⟨rfl, hrises, hrest⟩ := h
    obtain rfl | hp := List.mem_cons.mp hp
    · obtain hlt | rfl := hstop.lt_or_eq
      · exact value_cons_of_lt hstart hlt
      · -- the piece ends here: the next one begins, or it is the last
        cases ps with
        | nil => simp [value]
        | cons r ps =>
          obtain ⟨hpoint, hr, -⟩ := hrest
          obtain ⟨hargs, hvalues⟩ := Prod.mk.inj hpoint
          rw [value_cons_of_le le_rfl (List.cons_ne_nil r ps), ← hargs,
            value_cons_of_lt le_rfl hr.args, r.eval_start, hvalues, hargs, hrises.eval_stop]
    · have hq := (tiles_bounds hrest hp).2.1
      rw [value_cons_of_le (hq.trans hstart) (List.ne_nil_of_mem hp)]
      exact ih hrest hp

theorem exists_value (h : Tiles a ps b) (hne : ps ≠ []) (ha : a.1 ≤ x) (hb : x ≤ b.1) :
    ∃ u, value ps x = some u ∧ a.2 ≤ u ∧ u ≤ b.2 := by
  obtain ⟨p, hp, hstart, hstop⟩ := exists_piece h hne ha hb
  obtain ⟨hrises, -, -, hfirst, hlast⟩ := tiles_bounds h hp
  refine ⟨p.eval x, value_eq h hp hstart hstop, ?_, ?_⟩
  · exact (hfirst.trans_eq p.eval_start.symm).trans (hrises.eval_le hstart)
  · exact ((hrises.eval_le hstop).trans_eq hrises.eval_stop).trans hlast

/-- The swapped pieces have the inverse. -/
theorem value_swap (h : Tiles a ps b) (hne : ps ≠ []) (ha : a.1 ≤ x) (hb : x ≤ b.1)
    (hvalue : value ps x = some u) : value (ps.map Piece.swap) u = some x := by
  obtain ⟨p, hp, hstart, hstop⟩ := exists_piece h hne ha hb
  obtain rfl := Option.some.inj ((value_eq h hp hstart hstop).symm.trans hvalue)
  have hrises := (tiles_bounds h hp).1
  have hfirst : p.swap.start ≤ p.eval x := p.eval_start.symm.trans_le (hrises.eval_le hstart)
  have hlast : p.eval x ≤ p.swap.stop := (hrises.eval_le hstop).trans_eq hrises.eval_stop
  rw [value_eq (tiles_swap h) (List.mem_map_of_mem hp) hfirst hlast, hrises.swap_eval]

/-- Later arguments have greater values: by induction on the pieces. -/
theorem value_lt (h : Tiles a ps b) (hx : a.1 ≤ x) (hxy : x < y) (hy : y ≤ b.1)
    (hu : value ps x = some u) (hv : value ps y = some v) : u < v := by
  induction ps generalizing a with
  | nil => exact absurd hu (by simp [value])
  | cons p ps ih =>
    obtain ⟨rfl, hrises, hrest⟩ := h
    have htiles : Tiles (p.start, p.first) (p :: ps) b := ⟨rfl, hrises, hrest⟩
    have hmem : p ∈ p :: ps := List.mem_cons_self
    by_cases hstop : y ≤ p.stop
    · rw [value_eq htiles hmem hx (hxy.le.trans hstop)] at hu
      rw [value_eq htiles hmem (hx.trans hxy.le) hstop] at hv
      rw [← Option.some.inj hu, ← Option.some.inj hv]
      exact hrises.eval_lt hxy
    · have hlater := not_le.mp hstop
      have hps : ps ≠ [] := by
        rintro rfl
        obtain rfl : (p.stop, p.last) = b := hrest
        exact hstop hy
      rw [value_cons_of_le hlater.le hps] at hv
      by_cases hstop : x < p.stop
      · rw [value_cons_of_lt hx hstop] at hu
        obtain ⟨v', hv', hfirst, -⟩ := exists_value hrest hps hlater.le hy
        obtain rfl := Option.some.inj (hv'.symm.trans hv)
        rw [← Option.some.inj hu]
        exact ((hrises.eval_lt hstop).trans_eq hrises.eval_stop).trans_le hfirst
      · rw [value_cons_of_le (not_lt.mp hstop) hps] at hu
        exact ih hrest (not_lt.mp hstop) hu hv

/-! ## The map -/

/-- The map that the pieces make; 0 if there are none. -/
def valueD (ps : List (Piece K)) (x : K) : K := (value ps x).getD 0

theorem valueD_eq (h : Tiles a ps b) (hp : p ∈ ps) (hstart : p.start ≤ x) (hstop : x ≤ p.stop) :
    valueD ps x = p.eval x := by
  rw [valueD, value_eq h hp hstart hstop, Option.getD_some]

theorem value_eq_valueD (h : Tiles a ps b) (hne : ps ≠ []) (hx : x ∈ Set.Icc a.1 b.1) :
    value ps x = some (valueD ps x) := by
  obtain ⟨u, hu, -⟩ := exists_value h hne hx.1 hx.2
  rw [valueD, hu, Option.getD_some]

theorem valueD_mem (h : Tiles a ps b) (hne : ps ≠ []) (hx : x ∈ Set.Icc a.1 b.1) :
    valueD ps x ∈ Set.Icc a.2 b.2 := by
  obtain ⟨u, hu, hle⟩ := exists_value h hne hx.1 hx.2
  rw [valueD, hu, Option.getD_some]
  exact hle

theorem valueD_swap (h : Tiles a ps b) (hne : ps ≠ []) (hx : x ∈ Set.Icc a.1 b.1) :
    valueD (ps.map Piece.swap) (valueD ps x) = x := by
  rw [valueD, value_swap h hne hx.1 hx.2 (value_eq_valueD h hne hx), Option.getD_some]

theorem valueD_of_swap (h : Tiles a ps b) (hne : ps ≠ []) (hu : u ∈ Set.Icc a.2 b.2) :
    valueD ps (valueD (ps.map Piece.swap) u) = u := by
  have hswap := valueD_swap (tiles_swap h) (mt List.map_eq_nil_iff.mp hne) hu
  rwa [swap_map_swap] at hswap

theorem strictMonoOn_valueD (h : Tiles a ps b) (hne : ps ≠ []) :
    StrictMonoOn (valueD ps) (Set.Icc a.1 b.1) := fun _ hx _ hy hxy =>
  value_lt h hx.1 hxy hy.2 (value_eq_valueD h hne hx) (value_eq_valueD h hne hy)

theorem image_valueD (h : Tiles a ps b) (hne : ps ≠ []) :
    valueD ps '' Set.Icc a.1 b.1 = Set.Icc a.2 b.2 := by
  refine Set.Subset.antisymm ?_ fun u hu => ?_
  · rintro _ ⟨x, hx, rfl⟩
    exact valueD_mem h hne hx
  · exact ⟨valueD (ps.map Piece.swap) u,
      valueD_mem (tiles_swap h) (mt List.map_eq_nil_iff.mp hne) hu, valueD_of_swap h hne hu⟩

/-- An increasing map of an interval onto an interval is continuous. -/
theorem continuousOn_valueD [TopologicalSpace K] [OrderTopology K] (h : Tiles a ps b)
    (hne : ps ≠ []) : ContinuousOn (valueD ps) (Set.Icc a.1 b.1) := by
  have himage : (valueD ps '' Set.Icc a.1 b.1).OrdConnected :=
    image_valueD h hne ▸ Set.ordConnected_Icc
  rw [continuousOn_iff_continuous_domRestrict]
  exact continuous_subtype_val.comp ((strictMonoOn_valueD h hne).orderIso _ _).continuous

/-! ## Cutting out -/

/-- The pieces that are cut out tile the way between the two arguments: by induction on
the pieces. -/
theorem tiles_clip {f : K → K} {c s e : K} (h : Tiles a ps b)
    (hf : ∀ p ∈ ps, ∀ x, p.start ≤ x → x ≤ p.stop → f x = p.eval x - c) (hse : s < e)
    (hlt : max a.1 s < min b.1 e) :
    Tiles (max a.1 s, f (max a.1 s)) (clip f s e ps) (min b.1 e, f (min b.1 e)) := by
  induction ps generalizing a with
  | nil =>
    obtain rfl : a = b := h
    exact absurd ((le_max_left _ _).trans_lt (hlt.trans_le (min_le_left _ _))) (lt_irrefl _)
  | cons p ps ih =>
    obtain ⟨rfl, hrises, hrest⟩ := h
    rw [List.forall_mem_cons] at hf
    have hb : p.stop ≤ b.1 := (tiles_le hrest).1
    have hstart : p.start < min b.1 e := (le_max_left _ _).trans_lt hlt
    by_cases hs : p.stop ≤ s
    · -- the cut begins after the piece
      have hmax : max p.stop s = max p.start s := by
        rw [max_eq_right hs, max_eq_right (hrises.args.le.trans hs)]
      rw [clip_cons_of_le ((min_le_left _ _).trans (hs.trans (le_max_right _ _)))]
      have := ih hrest hf.2 (hmax ▸ hlt)
      rwa [hmax] at this
    · have hs := not_le.mp hs
      have hcut : max p.start s < min p.stop e :=
        max_lt (lt_min hrises.args (hstart.trans_le (min_le_right _ _))) (lt_min hs hse)
      have hmax : max p.stop s = p.stop := max_eq_left hs.le
      rw [clip_cons_of_lt hcut]
      refine ⟨rfl, ⟨hcut, ?_⟩, ?_⟩
      · have hleft : p.start ≤ max p.start s := le_max_left _ _
        have hright : min p.stop e ≤ p.stop := min_le_left _ _
        show f _ < f _
        rw [hf.1 _ hleft (hcut.le.trans hright), hf.1 _ (hleft.trans hcut.le) hright]
        exact sub_lt_sub_right (hrises.eval_lt hcut) c
      · by_cases hgo : p.stop < min b.1 e
        · -- the cut goes on after the piece
          have hstop : min p.stop e = p.stop :=
            min_eq_left (hgo.le.trans (min_le_right _ _))
          have := ih hrest hf.2 (hmax.symm ▸ hgo)
          rwa [hmax, ← hstop] at this
        · have hend : min b.1 e = min p.stop e := by
            obtain hle | hle := le_total b.1 e
            · rw [min_eq_left hle] at hgo ⊢
              have hb : b.1 = p.stop := le_antisymm (not_lt.mp hgo) hb
              exact hb.trans (min_eq_left (hb ▸ hle)).symm
            · rw [min_eq_right hle] at hgo ⊢
              exact (min_eq_right (not_lt.mp hgo)).symm
          have hnil : clip f s e ps = [] :=
            clip_eq_nil hrest (hmax.symm ▸ not_lt.mp hgo)
          rw [hnil, hend]
          rfl

/-- The map is a line on each piece that is cut out. -/
theorem eval_of_mem_clip {f : K → K} {c s e : K} (h : Tiles a ps b)
    (hf : ∀ p ∈ ps, ∀ x, p.start ≤ x → x ≤ p.stop → f x = p.eval x - c) {q : Piece K}
    (hq : q ∈ clip f s e ps) (hstart : q.start ≤ x) (hstop : x ≤ q.stop) : q.eval x = f x := by
  obtain ⟨p, hp, hcut⟩ := List.mem_filterMap.mp hq
  unfold clipPiece at hcut
  dsimp only at hcut
  split_ifs at hcut with hle
  obtain rfl := Option.some.inj hcut
  obtain ⟨hrises, -⟩ := tiles_bounds h hp
  have hcut := not_le.mp hle
  have hleft : p.start ≤ max p.start s := le_max_left _ _
  have hright : min p.stop e ≤ p.stop := min_le_left _ _
  rw [hf p hp x (hleft.trans hstart) (hstop.trans hright),
    hf p hp _ hleft (hcut.le.trans hright), hf p hp _ (hleft.trans hcut.le) hright]
  exact hrises.eval_between hcut c x

end PiecewiseLinear

import NoteVerse.Lib.Computable

/-!
# The gaps between intervals

A sweep over half-open intervals, sorted by where they start, notes a gap whenever an
interval starts after all that came before it has ended, and one more up to a limit.

* `mem_gaps`: below the limit, the points of the gaps are those that no interval covers;
* `components_iff`: the gaps are the components of these points exactly if no interval
  that nothing before it reaches starts after the limit, has a negative length, or has
  no length and splits a gap;
* `gaps_insert`: an interval that overlaps none of the others cuts its time out of the gaps.
-/

namespace Sweep

open Set

variable {α : Type*} [LinearOrder α]

/-- The gaps after `cursor`, up to `limit`. -/
def gaps (limit : α) : α → List (α × α) → List (α × α)
  | cursor, [] => if cursor < limit then [(cursor, limit)] else []
  | cursor, interval :: intervals =>
    (if cursor < interval.1 then [(cursor, interval.1)] else []) ++
      gaps limit (max cursor interval.2) intervals

/-- The points between `start` and `limit` that no interval covers. -/
def uncovered (start limit : α) (intervals : List (α × α)) : Set α :=
  { x | start ≤ x ∧ x < limit ∧ ∀ interval ∈ intervals, x ∉ Ico interval.1 interval.2 }

/-- The gaps are the components of what is not covered, in order. -/
structure Components (start limit : α) (intervals gaps : List (α × α)) : Prop where
  increasing : gaps.Pairwise (·.1 < ·.1)
  disjoint : gaps.Pairwise fun gap other => Disjoint (Ico gap.1 gap.2) (Ico other.1 other.2)
  positive : ∀ gap ∈ gaps, gap.1 < gap.2
  contained : ∀ gap ∈ gaps, start ≤ gap.1 ∧ gap.2 ≤ limit
  mem_iff : ∀ x, (∃ gap ∈ gaps, x ∈ Ico gap.1 gap.2) ↔ x ∈ uncovered start limit intervals
  component : ∀ gap ∈ gaps, ∀ x ∈ Ico gap.1 gap.2,
    ordConnectedComponent (uncovered start limit intervals) x = Ico gap.1 gap.2

variable {start limit cursor : α} {interval gap : α × α} {intervals before after : List (α × α)}

variable {list : List (α × α)} {x : α} {hole : α × α}

/-- The order of the intervals is nothing to the components. -/
theorem components_congr {others : List (α × α)} (h : intervals.Perm others) :
    Components start limit intervals list ↔ Components start limit others list := by
  have hsame : uncovered start limit intervals = uncovered start limit others := by
    unfold uncovered
    simp only [h.mem_iff]
  constructor
  · rintro ⟨hincreasing, hdisjoint, hpositive, hcontained, hmem, hcomponent⟩
    exact ⟨hincreasing, hdisjoint, hpositive, hcontained, hsame ▸ hmem, hsame ▸ hcomponent⟩
  · rintro ⟨hincreasing, hdisjoint, hpositive, hcontained, hmem, hcomponent⟩
    exact ⟨hincreasing, hdisjoint, hpositive, hcontained, hsame ▸ hmem, hsame ▸ hcomponent⟩

theorem mem_gaps_cons (h : gap ∈ gaps limit cursor (interval :: intervals)) :
    (cursor < interval.1 ∧ gap = (cursor, interval.1)) ∨
      gap ∈ gaps limit (max cursor interval.2) intervals := by
  rcases List.mem_append.mp h with h | h
  · split_ifs at h with hlt
    · exact .inl ⟨hlt, List.mem_singleton.mp h⟩
    · exact absurd h List.not_mem_nil
  · exact .inr h

/-- A gap starts at the cursor or after it, and has a length. -/
theorem bounds_of_mem_gaps (h : gap ∈ gaps limit cursor intervals) :
    cursor ≤ gap.1 ∧ gap.1 < gap.2 := by
  induction intervals generalizing cursor with
  | nil =>
    unfold gaps at h
    split_ifs at h with hlt
    · obtain rfl := List.mem_singleton.mp h
      exact ⟨le_rfl, hlt⟩
    · exact absurd h List.not_mem_nil
  | cons interval intervals ih =>
    rcases mem_gaps_cons h with ⟨hlt, rfl⟩ | h
    · exact ⟨le_rfl, hlt⟩
    · obtain ⟨hle, hlt⟩ := ih h
      exact ⟨(le_max_left _ _).trans hle, hlt⟩

/-- No interval covers a point of a gap. -/
theorem not_covered_of_mem_gaps (hsorted : intervals.Pairwise (·.1 ≤ ·.1))
    (h : gap ∈ gaps limit cursor intervals) (hx : x ∈ Ico gap.1 gap.2) :
    ∀ interval ∈ intervals, x ∉ Ico interval.1 interval.2 := by
  induction intervals generalizing cursor with
  | nil => exact fun _ hmem => absurd hmem List.not_mem_nil
  | cons interval intervals ih =>
    obtain ⟨hfirst, hsorted⟩ := List.pairwise_cons.mp hsorted
    intro other hother hcovered
    rcases mem_gaps_cons h with ⟨-, rfl⟩ | h
    · rcases List.mem_cons.mp hother with rfl | hother
      · exact absurd (hx.2.trans_le hcovered.1) (lt_irrefl x)
      · exact absurd (hx.2.trans_le ((hfirst other hother).trans hcovered.1)) (lt_irrefl x)
    · rcases List.mem_cons.mp hother with rfl | hother
      · have hle := (le_max_right _ _).trans ((bounds_of_mem_gaps h).1.trans hx.1)
        exact absurd (hcovered.2.trans_le hle) (lt_irrefl x)
      · exact ih hsorted h other hother hcovered

/-- A point that no interval covers is in a gap. -/
theorem exists_gap_of_not_covered (hcursor : cursor ≤ x) (hlimit : x < limit)
    (hx : ∀ interval ∈ intervals, x ∉ Ico interval.1 interval.2) :
    ∃ gap ∈ gaps limit cursor intervals, x ∈ Ico gap.1 gap.2 := by
  induction intervals generalizing cursor with
  | nil =>
    refine ⟨(cursor, limit), ?_, hcursor, hlimit⟩
    unfold gaps
    rw [if_pos (hcursor.trans_lt hlimit)]
    exact List.mem_singleton_self _
  | cons interval intervals ih =>
    by_cases hbefore : x < interval.1
    · refine ⟨(cursor, interval.1), List.mem_append_left _ ?_, hcursor, hbefore⟩
      rw [if_pos (hcursor.trans_lt hbefore)]
      exact List.mem_singleton_self _
    · have hended : interval.2 ≤ x :=
        not_lt.mp fun hlt => hx interval List.mem_cons_self ⟨not_lt.mp hbefore, hlt⟩
      obtain ⟨gap, hgap, hmem⟩ := ih (max_le hcursor hended)
        fun other hother => hx other (List.mem_cons_of_mem _ hother)
      exact ⟨gap, List.mem_append_right _ hgap, hmem⟩

/-- Below the limit, the points of the gaps are those that are not covered. -/
theorem mem_gaps (hsorted : intervals.Pairwise (·.1 ≤ ·.1)) (x : α) :
    ((∃ gap ∈ gaps limit start intervals, x ∈ Ico gap.1 gap.2) ∧ x < limit) ↔
      x ∈ uncovered start limit intervals := by
  constructor
  · rintro ⟨⟨gap, hgap, hx⟩, hlimit⟩
    exact ⟨(bounds_of_mem_gaps hgap).1.trans hx.1, hlimit, not_covered_of_mem_gaps hsorted hgap hx⟩
  · rintro ⟨hstart, hlimit, hx⟩
    exact ⟨exists_gap_of_not_covered hstart hlimit hx, hlimit⟩

/-! ## Gaps that are apart -/

/-- No gap goes past the limit, and between two gaps there is something. -/
def Apart (limit : α) (gaps : List (α × α)) : Prop :=
  (∀ gap ∈ gaps, gap.2 ≤ limit) ∧ gaps.Pairwise (·.2 < ·.1)

/-- What an interval must be like if nothing before it reaches its start. -/
def Fits (limit : α) (interval : α × α) (after : List (α × α)) : Prop :=
  interval.1 ≤ limit ∧ interval.1 ≤ interval.2 ∧
    (interval.1 = interval.2 → interval.1 = limit ∨
      ∃ other ∈ after, other.1 = interval.1 ∧ other.1 < other.2)

/-- Each interval that starts after `cursor` and that nothing before it reaches fits. -/
def Regular (limit cursor : α) (intervals : List (α × α)) : Prop :=
  ∀ before interval after, intervals = before ++ interval :: after → cursor < interval.1 →
    (∀ other ∈ before, other.2 < interval.1) → Fits limit interval after

theorem regular_nil : Regular limit cursor [] := by
  intro before interval after h
  exact absurd h (by simp)

theorem regular_cons : Regular limit cursor (interval :: intervals) ↔
    (cursor < interval.1 → Fits limit interval intervals) ∧
      Regular limit (max cursor interval.2) intervals := by
  constructor
  · refine fun h => ⟨fun hlt => h [] interval intervals rfl hlt fun _ hmem => ?_, ?_⟩
    · exact absurd hmem List.not_mem_nil
    · intro before other after hsplit hlt hbefore
      obtain ⟨hcursor, hended⟩ := max_lt_iff.mp hlt
      refine h (interval :: before) other after (by rw [hsplit]; rfl) hcursor fun first hfirst => ?_
      rcases List.mem_cons.mp hfirst with rfl | hfirst
      · exact hended
      · exact hbefore first hfirst
  · rintro ⟨hfirst, hrest⟩ before other after hsplit hlt hbefore
    cases before with
    | nil =>
      obtain ⟨rfl, rfl⟩ := List.cons.inj hsplit
      exact hfirst hlt
    | cons first before =>
      obtain ⟨rfl, rfl⟩ := List.cons.inj hsplit
      exact hrest before other after rfl
        (max_lt hlt (hbefore interval List.mem_cons_self))
        fun other hother => hbefore other (List.mem_cons_of_mem _ hother)

/-- Where nothing starts before `a`, the cursor below `a` opens a gap. -/
theorem exists_gap_of_lt {a : α} (hlt : cursor < a) (hlimit : a ≤ limit)
    (hstarts : ∀ interval ∈ intervals, a ≤ interval.1) :
    ∃ gap ∈ gaps limit cursor intervals, gap.1 = cursor := by
  unfold gaps
  split
  · rw [if_pos (hlt.trans_le hlimit)]
    exact ⟨_, List.mem_singleton_self _, rfl⟩
  · rename_i interval intervals
    rw [if_pos (hlt.trans_le (hstarts interval List.mem_cons_self))]
    exact ⟨_, List.mem_append_left _ (List.mem_singleton_self _), rfl⟩

/-- The gaps start after the cursor, unless something is open there. -/
theorem starts_after_iff (hsorted : intervals.Pairwise (·.1 ≤ ·.1)) (hlimit : cursor ≤ limit)
    (hstarts : ∀ interval ∈ intervals, cursor ≤ interval.1)
    (hapart : Apart limit (gaps limit cursor intervals)) :
    (∀ gap ∈ gaps limit cursor intervals, cursor < gap.1) ↔
      cursor = limit ∨ ∃ interval ∈ intervals, interval.1 = cursor ∧ interval.1 < interval.2 := by
  induction intervals with
  | nil =>
    constructor
    · intro h
      refine .inl (hlimit.eq_of_not_lt fun hlt => ?_)
      obtain ⟨gap, hgap, heq⟩ := @exists_gap_of_lt _ _ limit cursor [] _ hlt le_rfl
        fun _ hmem => absurd hmem List.not_mem_nil
      exact absurd (h gap hgap) (by rw [heq]; exact lt_irrefl _)
    · rintro (rfl | ⟨_, hmem, -⟩)
      · intro gap hgap
        unfold gaps at hgap
        rw [if_neg (lt_irrefl _)] at hgap
        exact absurd hgap List.not_mem_nil
      · exact absurd hmem List.not_mem_nil
  | cons interval intervals ih =>
    obtain ⟨hfirst, hsorted⟩ := List.pairwise_cons.mp hsorted
    have hle := hstarts interval List.mem_cons_self
    rcases hle.lt_or_eq with hlt | heq
    · -- A gap opens at the cursor, and no interval starts there.
      have hgap : (cursor, interval.1) ∈ gaps limit cursor (interval :: intervals) := by
        refine List.mem_append_left _ ?_
        rw [if_pos hlt]
        exact List.mem_singleton_self _
      refine ⟨fun h => absurd (h _ hgap) (lt_irrefl _), ?_⟩
      rintro (rfl | ⟨other, hother, hstart, -⟩)
      · exact absurd (hapart.1 _ hgap) (not_le.mpr hlt)
      · rcases List.mem_cons.mp hother with rfl | hother
        · exact absurd hstart hlt.ne'
        · exact absurd (hlt.trans_le (hfirst other hother)) (by rw [hstart]; exact lt_irrefl _)
    · have hrest : gaps limit cursor (interval :: intervals) =
          gaps limit (max cursor interval.2) intervals := by
        rw [gaps, if_neg (by rw [heq]; exact lt_irrefl _), List.nil_append]
      rw [hrest] at hapart ⊢
      rcases lt_or_ge cursor interval.2 with hopen | hclosed
      · refine ⟨fun _ => .inr ⟨interval, List.mem_cons_self, heq.symm, heq ▸ hopen⟩,
          fun _ gap hgap => ?_⟩
        exact (lt_max_of_lt_right hopen).trans_le (bounds_of_mem_gaps hgap).1
      · rw [max_eq_left hclosed] at hapart ⊢
        rw [ih hsorted (fun other hother => hstarts other (List.mem_cons_of_mem _ hother)) hapart]
        refine or_congr_right ⟨fun ⟨other, hother, h⟩ => ⟨other, List.mem_cons_of_mem _ hother, h⟩,
          ?_⟩
        rintro ⟨other, hother, hstart, hlength⟩
        rcases List.mem_cons.mp hother with rfl | hother
        · exact absurd (hstart ▸ hlength) (not_lt.mpr hclosed)
        · exact ⟨other, hother, hstart, hlength⟩

/-- The gaps are apart exactly if each interval that nothing reaches fits. -/
theorem apart_iff (hsorted : intervals.Pairwise (·.1 ≤ ·.1)) :
    Apart limit (gaps limit cursor intervals) ↔ Regular limit cursor intervals := by
  induction intervals generalizing cursor with
  | nil =>
    refine iff_of_true ?_ regular_nil
    unfold gaps Apart
    split_ifs
    · simp
    · simp
  | cons interval intervals ih =>
    obtain ⟨hfirst, hsorted⟩ := List.pairwise_cons.mp hsorted
    rw [regular_cons, ← ih hsorted, gaps]
    split_ifs with hlt
    · simp only [hlt, true_imp_iff]
      unfold Apart
      rw [List.singleton_append, List.pairwise_cons, List.forall_mem_cons]
      dsimp only
      constructor
      · rintro ⟨⟨hlimit, hbounds⟩, hafter, hpairs⟩
        refine ⟨⟨hlimit, ?_, fun heq => ?_⟩, hbounds, hpairs⟩
        · by_contra hneg
          obtain ⟨gap, hgap, hstart⟩ :=
            exists_gap_of_lt (max_lt hlt (not_le.mp hneg)) hlimit hfirst
          refine absurd (hafter gap hgap) (not_lt.mpr ?_)
          rw [hstart]
          exact (max_lt hlt (not_le.mp hneg)).le
        · rw [← heq, max_eq_right hlt.le] at hbounds hafter hpairs
          exact (starts_after_iff hsorted hlimit hfirst ⟨hbounds, hpairs⟩).mp hafter
      · rintro ⟨⟨hlimit, hlength, hsplit⟩, hbounds, hpairs⟩
        refine ⟨⟨hlimit, hbounds⟩, fun gap hgap => ?_, hpairs⟩
        rcases hlength.lt_or_eq with hpos | heq
        · exact (lt_max_of_lt_right hpos).trans_le (bounds_of_mem_gaps hgap).1
        · rw [← heq, max_eq_right hlt.le] at hbounds hpairs hgap
          exact (starts_after_iff hsorted hlimit hfirst ⟨hbounds, hpairs⟩).mpr (hsplit heq) gap hgap
    · simp only [hlt, false_imp_iff, true_and, List.nil_append]

/-! ## Components -/

/-- The points of gaps that are apart are those that are not covered. -/
theorem Apart.mem_iff (hsorted : intervals.Pairwise (·.1 ≤ ·.1))
    (h : Apart limit (gaps limit start intervals)) (x : α) :
    (∃ gap ∈ gaps limit start intervals, x ∈ Ico gap.1 gap.2) ↔
      x ∈ uncovered start limit intervals := by
  rw [← mem_gaps hsorted]
  refine ⟨fun hx => ⟨hx, ?_⟩, And.left⟩
  obtain ⟨gap, hgap, hmem⟩ := hx
  exact hmem.2.trans_le (h.1 gap hgap)

/-- Of two gaps that are apart, one ends before the other starts. -/
theorem Apart.separate (h : Apart limit list) {other : α × α} (hgap : gap ∈ list)
    (hother : other ∈ list) (hne : gap ≠ other) : gap.2 < other.1 ∨ other.2 < gap.1 := by
  have hsymm : Std.Symm fun gap other : α × α => gap.2 < other.1 ∨ other.2 < gap.1 :=
    ⟨fun _ _ => Or.symm⟩
  have hpairs : list.Pairwise fun gap other => gap.2 < other.1 ∨ other.2 < gap.1 :=
    h.2.imp Or.inl
  exact hpairs.forall hgap hother hne

/-- Where one of the gaps that are apart ends, there is no gap. -/
theorem Apart.end_not_mem (h : Apart limit list) (hpositive : ∀ gap ∈ list, gap.1 < gap.2)
    (hgap : gap ∈ list) {other : α × α} (hother : other ∈ list) : gap.2 ∉ Ico other.1 other.2 := by
  intro hmem
  rcases eq_or_ne gap other with rfl | hne
  · exact absurd hmem.2 (lt_irrefl _)
  · rcases h.separate hgap hother hne with hlt | hlt
    · exact absurd hlt (not_lt.mpr hmem.1)
    · exact absurd (hmem.2.trans (hlt.trans (hpositive gap hgap))) (lt_irrefl _)

/-- Gaps that are apart are components: nothing leads from one into another. -/
theorem Apart.component (hsorted : intervals.Pairwise (·.1 ≤ ·.1))
    (h : Apart limit (gaps limit start intervals)) (hgap : gap ∈ gaps limit start intervals)
    (hx : x ∈ Ico gap.1 gap.2) :
    ordConnectedComponent (uncovered start limit intervals) x = Ico gap.1 gap.2 := by
  have hpositive : ∀ gap ∈ gaps limit start intervals, gap.1 < gap.2 :=
    fun _ hmem => (bounds_of_mem_gaps hmem).2
  refine subset_antisymm (fun y hy => ?_) ?_
  · have hpath := mem_ordConnectedComponent.mp hy
    obtain ⟨other, hother, hmem⟩ := (h.mem_iff hsorted y).mpr (hpath right_mem_uIcc)
    rcases eq_or_ne gap other with rfl | hne
    · exact hmem
    · -- The path from `x` to `y` passes the end of the gap that comes first.
      exfalso
      rcases h.separate hgap hother hne with hlt | hlt
      · have hend : gap.2 ∈ uIcc x y := by
          rw [mem_uIcc]
          exact .inl ⟨hx.2.le, hlt.le.trans hmem.1⟩
        obtain ⟨third, hthird, hin⟩ := (h.mem_iff hsorted _).mpr (hpath hend)
        exact h.end_not_mem hpositive hgap hthird hin
      · have hend : other.2 ∈ uIcc x y := by
          rw [mem_uIcc]
          exact .inr ⟨hmem.2.le, hlt.le.trans hx.1⟩
        obtain ⟨third, hthird, hin⟩ := (h.mem_iff hsorted _).mpr (hpath hend)
        exact h.end_not_mem hpositive hother hthird hin
  · exact subset_ordConnectedComponent hx fun y hy => (h.mem_iff hsorted y).mp ⟨gap, hgap, hy⟩

/-- Components are apart: two that touch would be one. -/
theorem Components.apart (h : Components start limit intervals list) : Apart limit list := by
  refine ⟨fun gap hgap => (h.contained gap hgap).2,
    (h.increasing.and h.disjoint).imp_of_mem fun {gap other} hgap hother ⟨hlt, hdisjoint⟩ => ?_⟩
  have hle : gap.2 ≤ other.1 := not_lt.mp fun hbefore =>
    disjoint_left.mp hdisjoint ⟨hlt.le, hbefore⟩ ⟨le_rfl, h.positive other hother⟩
  refine hle.lt_of_ne fun htouch => ?_
  have hpath : uIcc gap.1 other.1 ⊆ uncovered start limit intervals := by
    intro y hy
    rw [uIcc_of_le hlt.le] at hy
    refine (h.mem_iff y).mp ?_
    rcases lt_or_ge y gap.2 with hbefore | hafter
    · exact ⟨gap, hgap, hy.1, hbefore⟩
    · exact ⟨other, hother, htouch ▸ hafter, hy.2.trans_lt (h.positive other hother)⟩
  have hmem : other.1 ∈ Ico gap.1 gap.2 := by
    rw [← h.component gap hgap gap.1 ⟨le_rfl, h.positive gap hgap⟩]
    exact mem_ordConnectedComponent.mpr hpath
  exact absurd hmem.2 (not_lt.mpr hle)

/-- The gaps of a sweep are the components exactly if each interval that nothing before
it reaches fits. -/
theorem components_iff (hsorted : intervals.Pairwise (·.1 ≤ ·.1)) :
    Components start limit intervals (gaps limit start intervals) ↔
      Regular limit start intervals := by
  rw [← apart_iff hsorted]
  refine ⟨Components.apart, fun h => ?_⟩
  have hpositive : ∀ gap ∈ gaps limit start intervals, gap.1 < gap.2 :=
    fun _ hmem => (bounds_of_mem_gaps hmem).2
  refine ⟨?_, ?_, hpositive, fun gap hgap => ⟨(bounds_of_mem_gaps hgap).1, h.1 gap hgap⟩,
    h.mem_iff hsorted, fun gap hgap x hx => h.component hsorted hgap hx⟩
  · exact h.2.imp_of_mem fun hgap _ hlt => (hpositive _ hgap).trans hlt
  · refine h.2.imp fun {gap other} hlt => disjoint_left.mpr fun x hx hother => ?_
    exact absurd (hx.2.trans (hlt.trans_le hother.1)) (lt_irrefl x)

/-! ## Intervals that do not overlap -/

/-- Two intervals share time; an interval of no length is a point of time. -/
def Overlap (interval other : α × α) : Prop := interval.1 < other.2 ∧ other.1 < interval.2

instance (interval other : α × α) : Decidable (Overlap interval other) :=
  inferInstanceAs (Decidable (_ ∧ _))

/-- The interval lies between `start` and `limit`, and does not end before it starts. -/
def Within (start limit : α) (interval : α × α) : Prop :=
  start ≤ interval.1 ∧ interval.1 ≤ interval.2 ∧ interval.2 ≤ limit

instance (start limit : α) (interval : α × α) : Decidable (Within start limit interval) :=
  inferInstanceAs (Decidable (_ ∧ _))

/-- No gap starts before the one before it has ended. -/
theorem pairwise_gaps (hlength : ∀ interval ∈ intervals, interval.1 ≤ interval.2) :
    (gaps limit cursor intervals).Pairwise (·.2 ≤ ·.1) := by
  induction intervals generalizing cursor with
  | nil =>
    unfold gaps
    split_ifs
    · exact List.pairwise_singleton _ _
    · exact List.Pairwise.nil
  | cons interval intervals ih =>
    have hrest : (gaps limit (max cursor interval.2) intervals).Pairwise (·.2 ≤ ·.1) :=
      ih fun other hother => hlength other (List.mem_cons_of_mem _ hother)
    unfold gaps
    split_ifs with hlt
    · refine List.pairwise_cons.mpr ⟨fun gap hgap => ?_, hrest⟩
      calc interval.1 ≤ interval.2 := hlength interval List.mem_cons_self
        _ ≤ max cursor interval.2 := le_max_right _ _
        _ ≤ gap.1 := (bounds_of_mem_gaps hgap).1
    · exact hrest

/-- A time from which a gap can be open: the cursor or the end of an interval. -/
def Opens (cursor : α) (intervals : List (α × α)) (x : α) : Prop :=
  x = cursor ∨ ∃ interval ∈ intervals, x = interval.2

/-- A time at which a gap can end: the limit or the start of an interval. -/
def Closes (limit : α) (intervals : List (α × α)) (x : α) : Prop :=
  x = limit ∨ ∃ interval ∈ intervals, x = interval.1

omit [LinearOrder α] in
theorem opens_cons : Opens cursor (interval :: intervals) x ↔
    x = cursor ∨ x = interval.2 ∨ ∃ other ∈ intervals, x = other.2 := by
  unfold Opens
  simp only [List.mem_cons, exists_eq_or_imp]

omit [LinearOrder α] in
theorem closes_cons : Closes limit (interval :: intervals) x ↔
    x = interval.1 ∨ Closes limit intervals x := by
  unfold Closes
  simp only [List.mem_cons, exists_eq_or_imp]
  exact or_left_comm

theorem gap_mem_gaps_cons : gap ∈ gaps limit cursor (interval :: intervals) ↔
    (cursor < interval.1 ∧ gap = (cursor, interval.1)) ∨
      gap ∈ gaps limit (max cursor interval.2) intervals := by
  refine ⟨mem_gaps_cons, fun h => List.mem_append.mpr (h.imp_left fun ⟨hlt, heq⟩ => ?_)⟩
  rw [if_pos hlt, heq]
  exact List.mem_singleton_self _

/-- The gaps are what goes from where one can open to where one can end, and overlaps
nothing. -/
theorem mem_gaps_iff (hsorted : intervals.Pairwise (·.1 ≤ ·.1))
    (hbounds : ∀ interval ∈ intervals, interval.1 ≤ interval.2 ∧ interval.2 ≤ limit) :
    gap ∈ gaps limit cursor intervals ↔
      gap.1 < gap.2 ∧ cursor ≤ gap.1 ∧ Opens cursor intervals gap.1 ∧
        Closes limit intervals gap.2 ∧ ∀ interval ∈ intervals, ¬Overlap gap interval := by
  induction intervals generalizing cursor with
  | nil =>
    unfold gaps
    constructor
    · intro h
      split_ifs at h with hlt
      · obtain rfl := List.mem_singleton.mp h
        exact ⟨hlt, le_rfl, .inl rfl, .inl rfl, fun _ hmem => absurd hmem List.not_mem_nil⟩
      · exact absurd h List.not_mem_nil
    · rintro ⟨hlt, -, hstart | ⟨_, hmem, -⟩, hend | ⟨_, hmem, -⟩, -⟩
      · rw [if_pos (hstart ▸ hend ▸ hlt)]
        exact List.mem_singleton.mpr (Prod.ext hstart hend)
      · exact absurd hmem List.not_mem_nil
      · exact absurd hmem List.not_mem_nil
      · exact absurd hmem List.not_mem_nil
  | cons interval intervals ih =>
    obtain ⟨hfirst, hsorted⟩ := List.pairwise_cons.mp hsorted
    obtain ⟨⟨hlength, hlimit⟩, hrest⟩ := List.forall_mem_cons.mp hbounds
    rw [gap_mem_gaps_cons, ih hsorted hrest, List.forall_mem_cons, opens_cons, closes_cons]
    constructor
    · rintro (⟨hlt, rfl⟩ | ⟨hlt, hcursor, hstart, hend, hfree⟩)
      · refine ⟨hlt, le_rfl, .inl rfl, .inl rfl, fun h => lt_irrefl _ h.2, ?_⟩
        exact fun other hother h => absurd h.2 (not_lt.mpr (hfirst other hother))
      · have hafter : interval.2 ≤ gap.1 := (le_max_right _ _).trans hcursor
        refine ⟨hlt, (le_max_left _ _).trans hcursor, ?_, .inr hend,
          fun h => absurd h.1 (not_lt.mpr hafter), hfree⟩
        rcases hstart with hstart | hstart
        · rcases le_total cursor interval.2 with hle | hle
          · exact .inr (.inl (hstart.trans (max_eq_right hle)))
          · exact .inl (hstart.trans (max_eq_left hle))
        · exact .inr (.inr hstart)
    · rintro ⟨hlt, hcursor, hstart, hend, hnot, hfree⟩
      rcases lt_or_ge gap.1 interval.2 with hbefore | hafter
      · -- The gap is before the interval, and so before all of them.
        have hle : gap.2 ≤ interval.1 := not_lt.mp fun h => hnot ⟨hbefore, h⟩
        have heq : gap.2 = interval.1 := by
          rcases hend with hend | hend | ⟨other, hother, hend⟩
          · exact hend
          · exact le_antisymm hle (hend ▸ hlength.trans hlimit)
          · exact le_antisymm hle (hend ▸ hfirst other hother)
        have hopen : gap.1 = cursor := by
          rcases hstart with hstart | hstart | ⟨other, hother, hstart⟩
          · exact hstart
          · exact absurd hbefore (hstart ▸ lt_irrefl _)
          · have hstarts := (hfirst other hother).trans (hrest other hother).1
            exact absurd (hlt.trans_le (hle.trans hstarts)) (hstart ▸ lt_irrefl _)
        exact .inl ⟨by rw [← hopen, ← heq]; exact hlt, Prod.ext hopen heq⟩
      · refine .inr ⟨hlt, max_le hcursor hafter, ?_, ?_, hfree⟩
        · rcases hstart with hstart | hstart | hstart
          · exact .inl (by rw [hstart, max_eq_left (hstart ▸ hafter)])
          · exact .inl (by rw [hstart, max_eq_right (hstart ▸ hcursor)])
          · exact .inr hstart
        · rcases hend with hend | hend
          · exact absurd (hlt.trans_eq hend) (not_lt.mpr (hlength.trans hafter))
          · exact hend

/-- No gap opens inside what overlaps nothing. -/
theorem Opens.le (h : Opens start intervals x)
    (hlength : ∀ interval ∈ intervals, interval.1 ≤ interval.2) (hstart : start ≤ gap.1)
    (hfree : ∀ interval ∈ intervals, ¬Overlap gap interval) (hlt : x < gap.2) : x ≤ gap.1 := by
  rcases h with rfl | ⟨interval, hmem, rfl⟩
  · exact hstart
  · exact not_lt.mp fun h => hfree interval hmem ⟨h, (hlength interval hmem).trans_lt hlt⟩

/-- No gap ends inside what overlaps nothing. -/
theorem Closes.le (h : Closes limit intervals x)
    (hlength : ∀ interval ∈ intervals, interval.1 ≤ interval.2) (hlimit : gap.2 ≤ limit)
    (hfree : ∀ interval ∈ intervals, ¬Overlap gap interval) (hlt : gap.1 < x) : gap.2 ≤ x := by
  rcases h with rfl | ⟨interval, hmem, rfl⟩
  · exact hlimit
  · exact not_lt.mp fun h => hfree interval hmem ⟨hlt.trans_le (hlength interval hmem), h⟩

/-- No gap ends after the limit. -/
theorem Closes.le_limit (h : Closes limit intervals x)
    (hbounds : ∀ interval ∈ intervals, interval.1 ≤ interval.2 ∧ interval.2 ≤ limit) :
    x ≤ limit := by
  rcases h with rfl | ⟨interval, hmem, rfl⟩
  · exact le_rfl
  · exact (hbounds interval hmem).1.trans (hbounds interval hmem).2

/-- What overlaps no interval lies in one gap. -/
theorem exists_gap_of_not_overlap (hsorted : intervals.Pairwise (·.1 ≤ ·.1))
    (hbounds : ∀ interval ∈ intervals, interval.1 ≤ interval.2 ∧ interval.2 ≤ limit)
    (hcursor : cursor ≤ hole.1) (hlt : hole.1 < hole.2) (hlimit : hole.2 ≤ limit)
    (hfree : ∀ interval ∈ intervals, ¬Overlap hole interval) :
    ∃ gap ∈ gaps limit cursor intervals, gap.1 ≤ hole.1 ∧ hole.2 ≤ gap.2 := by
  obtain ⟨gap, hgap, hstart, hend⟩ := exists_gap_of_not_covered hcursor (hlt.trans_le hlimit)
    fun interval hmem h => hfree interval hmem ⟨h.2, h.1.trans_lt hlt⟩
  obtain ⟨-, -, -, hcloses, -⟩ := (mem_gaps_iff hsorted hbounds).mp hgap
  exact ⟨gap, hgap, hstart, hcloses.le (fun interval hmem => (hbounds interval hmem).1) hlimit
    hfree hend⟩

/-- What is left of a gap without the hole. -/
def cut (hole gap : α × α) : List (α × α) :=
  [(gap.1, min gap.2 hole.1), (max gap.1 hole.2, gap.2)].filter fun piece => piece.1 < piece.2

theorem mem_cut {piece : α × α} : piece ∈ cut hole gap ↔ piece.1 < piece.2 ∧
    (piece = (gap.1, min gap.2 hole.1) ∨ piece = (max gap.1 hole.2, gap.2)) := by
  unfold cut
  rw [List.mem_filter, List.mem_cons, List.mem_singleton, decide_eq_true_eq, and_comm]

/-- The pieces of gaps in order are in order. -/
theorem pairwise_flatMap_cut (hlt : hole.1 < hole.2) (h : list.Pairwise (·.2 ≤ ·.1)) :
    (list.flatMap (cut hole)).Pairwise (·.2 ≤ ·.1) := by
  refine List.pairwise_flatMap.mpr ⟨fun gap _ => ?_, h.imp fun {gap other} hle piece hpiece
    next hnext => ?_⟩
  · refine (List.pairwise_pair.mpr ?_).filter _
    exact (min_le_right _ _).trans (hlt.le.trans (le_max_right _ _))
  · have hend : piece.2 ≤ gap.2 := by
      rcases (mem_cut.mp hpiece).2 with rfl | rfl
      · exact min_le_left _ _
      · exact le_rfl
    have hstart : other.1 ≤ next.1 := by
      rcases (mem_cut.mp hnext).2 with rfl | rfl
      · exact le_rfl
      · exact le_max_left _ _
    exact hend.trans (hle.trans hstart)

section Insert

variable {hole piece : α × α} {others : List (α × α)}

/-- What ends at the hole is what is left of a gap. -/
theorem exists_cut_before (hsorted : intervals.Pairwise (·.1 ≤ ·.1))
    (hbounds : ∀ interval ∈ intervals, interval.1 ≤ interval.2 ∧ interval.2 ≤ limit)
    (hhole : Within start limit hole) (hlt : hole.1 < hole.2)
    (hfree : ∀ interval ∈ intervals, ¬Overlap hole interval)
    (hpiece : piece.1 < piece.2) (hstart : start ≤ piece.1)
    (hopens : Opens start intervals piece.1)
    (hcloses : Closes limit intervals piece.2 ∨ piece.2 = hole.1) (hbefore : piece.2 ≤ hole.1)
    (hapart : ∀ interval ∈ intervals, ¬Overlap piece interval) :
    ∃ gap ∈ gaps limit start intervals, piece ∈ cut hole gap := by
  have hlength : ∀ interval ∈ intervals, interval.1 ≤ interval.2 :=
    fun interval hmem => (hbounds interval hmem).1
  have hwhole : Closes limit intervals piece.2 →
      ∃ gap ∈ gaps limit start intervals, piece ∈ cut hole gap := by
    refine fun hcloses => ⟨piece, (mem_gaps_iff hsorted hbounds).mpr
      ⟨hpiece, hstart, hopens, hcloses, hapart⟩, mem_cut.mpr ⟨hpiece, .inl ?_⟩⟩
    rw [min_eq_left hbefore]
  rcases hcloses with hcloses | heq
  · exact hwhole hcloses
  obtain ⟨gap, hgap, hopen, hclose⟩ :=
    exists_gap_of_not_overlap hsorted hbounds hhole.1 hlt hhole.2.2 hfree
  obtain ⟨-, hfirst, hgapOpens, -, hgapApart⟩ := (mem_gaps_iff hsorted hbounds).mp hgap
  rcases hopen.lt_or_eq with hopen | hopen
  · -- The gap around the hole opens where the piece does.
    have hinside : piece.1 < gap.2 := hpiece.trans_le (hbefore.trans (hlt.le.trans hclose))
    have hsame : piece.1 = gap.1 :=
      le_antisymm (hopens.le hlength hfirst hgapApart hinside)
        (hgapOpens.le hlength hstart hapart (heq ▸ hopen))
    refine ⟨gap, hgap, mem_cut.mpr ⟨hpiece, .inl (Prod.ext hsame ?_)⟩⟩
    exact heq.trans (min_eq_right (hlt.le.trans hclose)).symm
  · -- Something ends where the hole starts, and so starts there.
    rcases hgapOpens with hs | ⟨interval, hmem, hs⟩
    · exact absurd (hstart.trans_lt hpiece) (by rw [heq, ← hopen, hs]; exact lt_irrefl _)
    · have hend : piece.2 = interval.2 := by rw [heq, ← hopen, hs]
      refine hwhole (.inr ⟨interval, hmem, le_antisymm (not_lt.mp fun h => ?_) ?_⟩)
      · exact hapart interval hmem ⟨hend ▸ hpiece, h⟩
      · exact hend ▸ hlength interval hmem

/-- What starts at the end of the hole is what is left of a gap. -/
theorem exists_cut_after (hsorted : intervals.Pairwise (·.1 ≤ ·.1))
    (hbounds : ∀ interval ∈ intervals, interval.1 ≤ interval.2 ∧ interval.2 ≤ limit)
    (hhole : Within start limit hole) (hlt : hole.1 < hole.2)
    (hfree : ∀ interval ∈ intervals, ¬Overlap hole interval)
    (hpiece : piece.1 < piece.2) (hopens : Opens start intervals piece.1 ∨ piece.1 = hole.2)
    (hcloses : Closes limit intervals piece.2) (hafter : hole.2 ≤ piece.1)
    (hapart : ∀ interval ∈ intervals, ¬Overlap piece interval) :
    ∃ gap ∈ gaps limit start intervals, piece ∈ cut hole gap := by
  have hlimit : piece.2 ≤ limit := hcloses.le_limit hbounds
  have hlength : ∀ interval ∈ intervals, interval.1 ≤ interval.2 :=
    fun interval hmem => (hbounds interval hmem).1
  have hstart : start ≤ piece.1 := hhole.1.trans (hlt.le.trans hafter)
  have hwhole : Opens start intervals piece.1 →
      ∃ gap ∈ gaps limit start intervals, piece ∈ cut hole gap := by
    refine fun hopens => ⟨piece, (mem_gaps_iff hsorted hbounds).mpr
      ⟨hpiece, hstart, hopens, hcloses, hapart⟩, mem_cut.mpr ⟨hpiece, .inr ?_⟩⟩
    rw [max_eq_left hafter]
  rcases hopens with hopens | heq
  · exact hwhole hopens
  obtain ⟨gap, hgap, hopen, hclose⟩ :=
    exists_gap_of_not_overlap hsorted hbounds hhole.1 hlt hhole.2.2 hfree
  obtain ⟨-, -, -, hgapCloses, hgapApart⟩ := (mem_gaps_iff hsorted hbounds).mp hgap
  rcases hclose.lt_or_eq with hclose | hclose
  · -- The gap around the hole ends where the piece does.
    have hlast : gap.2 ≤ limit := hgapCloses.le_limit hbounds
    have hinside : gap.1 < piece.2 := hopen.trans_lt (hlt.trans_le (hafter.trans hpiece.le))
    have hsame : piece.2 = gap.2 :=
      le_antisymm (hgapCloses.le hlength hlimit hapart (heq ▸ hclose))
        (hcloses.le hlength hlast hgapApart hinside)
    refine ⟨gap, hgap, mem_cut.mpr ⟨hpiece, .inr (Prod.ext ?_ hsame)⟩⟩
    exact heq.trans (max_eq_right (hopen.trans hlt.le)).symm
  · -- Something starts where the hole ends, and so ends there.
    rcases hgapCloses with hs | ⟨interval, hmem, hs⟩
    · exact absurd (hpiece.trans_le hlimit) (by rw [heq, hclose, hs]; exact lt_irrefl _)
    · have hend : piece.1 = interval.1 := by rw [heq, hclose, hs]
      refine hwhole (.inr ⟨interval, hmem, le_antisymm ?_ (not_lt.mp fun h => ?_)⟩)
      · exact hend ▸ hlength interval hmem
      · exact hapart interval hmem ⟨h, hend ▸ hpiece⟩

/-- What is left of a gap overlaps nothing, and not the hole. -/
theorem mem_gaps_of_mem_cut (hsorted : intervals.Pairwise (·.1 ≤ ·.1))
    (hothers : others.Pairwise (·.1 ≤ ·.1)) (hperm : others.Perm (hole :: intervals))
    (hbounds : ∀ interval ∈ intervals, interval.1 ≤ interval.2 ∧ interval.2 ≤ limit)
    (hhole : Within start limit hole) (hgap : gap ∈ gaps limit start intervals)
    (hpiece : piece ∈ cut hole gap) : piece ∈ gaps limit start others := by
  have hboundsOthers : ∀ interval ∈ others, interval.1 ≤ interval.2 ∧ interval.2 ≤ limit := by
    simp only [hperm.mem_iff, List.forall_mem_cons]
    exact ⟨hhole.2, hbounds⟩
  obtain ⟨hlt, hstart, hopens, hcloses, hapart⟩ := (mem_gaps_iff hsorted hbounds).mp hgap
  obtain ⟨hpositive, hpiece⟩ := mem_cut.mp hpiece
  rw [mem_gaps_iff hothers hboundsOthers]
  simp only [Opens, Closes] at hopens hcloses ⊢
  simp only [hperm.mem_iff, List.mem_cons, exists_eq_or_imp, forall_eq_or_imp]
  rcases hpiece with rfl | rfl
  · refine ⟨hpositive, hstart, hopens.imp_right .inr, ?_,
      fun h => absurd h.2 (not_lt.mpr (min_le_right _ _)),
      fun interval hmem h => hapart interval hmem ⟨h.1, h.2.trans_le (min_le_left _ _)⟩⟩
    rcases min_choice gap.2 hole.1 with heq | heq
    · rw [heq]
      exact hcloses.imp_right .inr
    · rw [heq]
      exact .inr (.inl rfl)
  · refine ⟨hpositive, hstart.trans (le_max_left _ _), ?_, hcloses.imp_right .inr,
      fun h => absurd h.1 (not_lt.mpr (le_max_right _ _)),
      fun interval hmem h => hapart interval hmem ⟨(le_max_left _ _).trans_lt h.1, h.2⟩⟩
    rcases max_choice gap.1 hole.2 with heq | heq
    · rw [heq]
      exact hopens.imp_right .inr
    · rw [heq]
      exact .inr (.inl rfl)

/-- Gaps in order with the same elements are the same. -/
theorem eq_of_mem_iff {first second : List (α × α)} (hfirst : first.Pairwise (·.2 ≤ ·.1))
    (hsecond : second.Pairwise (·.2 ≤ ·.1)) (hpositive : ∀ gap ∈ first, gap.1 < gap.2)
    (h : ∀ gap, gap ∈ first ↔ gap ∈ second) : first = second := by
  have hstrict : ∀ list : List (α × α), list.Pairwise (·.2 ≤ ·.1) →
      (∀ gap ∈ list, gap.1 < gap.2) → list.Pairwise (·.1 < ·.1) := fun list hlist hlengths =>
    hlist.imp_of_mem fun hmem _ hle => (hlengths _ hmem).trans_le hle
  have hfirst' := hstrict first hfirst hpositive
  have hsecond' := hstrict second hsecond fun gap hmem => hpositive gap ((h gap).mpr hmem)
  have hnodup : ∀ list : List (α × α), list.Pairwise (·.1 < ·.1) → list.Nodup :=
    fun list hlist => hlist.imp fun hlt => fun heq => lt_irrefl _ (heq ▸ hlt)
  have hperm : first.Perm second :=
    (List.perm_ext_iff_of_nodup (hnodup first hfirst') (hnodup second hsecond')).mpr h
  exact hperm.eq_of_pairwise (fun _ _ _ _ hlt hgt => absurd hlt (lt_asymm hgt)) hfirst' hsecond'

/-- One more interval that overlaps none of the others takes its time out of the gaps. -/
theorem gaps_insert (hsorted : intervals.Pairwise (·.1 ≤ ·.1))
    (hothers : others.Pairwise (·.1 ≤ ·.1)) (hperm : others.Perm (hole :: intervals))
    (hbounds : ∀ interval ∈ intervals, interval.1 ≤ interval.2 ∧ interval.2 ≤ limit)
    (hhole : Within start limit hole) (hlt : hole.1 < hole.2)
    (hfree : ∀ interval ∈ intervals, ¬Overlap hole interval) :
    gaps limit start others = (gaps limit start intervals).flatMap (cut hole) := by
  have hboundsOthers : ∀ interval ∈ others, interval.1 ≤ interval.2 ∧ interval.2 ≤ limit := by
    simp only [hperm.mem_iff, List.forall_mem_cons]
    exact ⟨hhole.2, hbounds⟩
  refine eq_of_mem_iff (pairwise_gaps fun interval hmem => (hboundsOthers interval hmem).1)
    (pairwise_flatMap_cut hlt (pairwise_gaps fun interval hmem => (hbounds interval hmem).1))
    (fun gap hgap => (bounds_of_mem_gaps hgap).2) fun piece => ?_
  rw [List.mem_flatMap]
  refine ⟨fun hpiece => ?_, fun ⟨gap, hgap, hpiece⟩ =>
    mem_gaps_of_mem_cut hsorted hothers hperm hbounds hhole hgap hpiece⟩
  rw [mem_gaps_iff hothers hboundsOthers] at hpiece
  simp only [Opens, Closes, hperm.mem_iff, List.mem_cons, exists_eq_or_imp, forall_eq_or_imp]
    at hpiece
  obtain ⟨hpiece, hstart, hopens, hcloses, hnot, hapart⟩ := hpiece
  rcases lt_or_ge piece.1 hole.2 with hbefore | hafter
  · have hle : piece.2 ≤ hole.1 := not_lt.mp fun h => hnot ⟨hbefore, h⟩
    refine exists_cut_before hsorted hbounds hhole hlt hfree hpiece hstart ?_ ?_ hle hapart
    · exact hopens.imp_right fun h => h.resolve_left hbefore.ne
    · exact or_assoc.mpr (hcloses.imp_right Or.symm)
  · refine exists_cut_after hsorted hbounds hhole hlt hfree hpiece ?_ ?_ hafter hapart
    · exact or_assoc.mpr (hopens.imp_right Or.symm)
    · exact hcloses.imp_right fun h => h.resolve_left (hlt.trans_le (hafter.trans hpiece.le)).ne'

end Insert

end Sweep

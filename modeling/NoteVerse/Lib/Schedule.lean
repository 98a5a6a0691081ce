import NoteVerse.Lib.Computable

/-!
# Jobs run one after the other

Jobs in a fixed order, each with a release and a length: a job starts when it is released,
or when the one before it ends if that is later. The starts are given ones exactly if with
these the jobs come in order without overlap, none before its release, and none late but
right after another (`run_eq_iff`).
-/

namespace Schedule

variable {ι γ : Type*} [AddCommGroup γ] [LinearOrder γ] [IsOrderedAddMonoid γ]

section

variable (release length : ι → γ)

/-- The jobs with their starts; the first may start from `now` on. -/
def run (now : γ) : List ι → List (ι × γ)
  | [] => []
  | job :: jobs => (job, max now (release job)) ::
      run (max now (release job) + length job) jobs

/-- When the last of the jobs ends. -/
def finish (now : γ) : List ι → γ
  | [] => now
  | job :: jobs => finish (max now (release job) + length job) jobs

/-- The jobs come one after the other, from `now` on, not before they are released; one that is
late starts at `now` or where another ends. -/
structure Tight (start : ι → γ) (now : γ) (jobs : List ι) : Prop where
  inOrder : jobs.Pairwise fun job other => start job + length job ≤ start other
  after : ∀ job ∈ jobs, now ≤ start job
  released : ∀ job ∈ jobs, release job ≤ start job
  late : ∀ job ∈ jobs, start job = release job ∨ start job = now ∨
    ∃ other ∈ jobs, start other + length other = start job

end

variable {release length : ι → γ} {start : ι → γ} {now : γ} {job : ι} {jobs : List ι}

omit [IsOrderedAddMonoid γ] in
@[simp] theorem map_fst_run : (run release length now jobs).map Prod.fst = jobs := by
  induction jobs generalizing now with
  | nil => rfl
  | cons job jobs ih => rw [run, List.map_cons, ih]

theorem le_finish (hlength : ∀ job ∈ jobs, 0 ≤ length job) :
    now ≤ finish release length now jobs := by
  induction jobs generalizing now with
  | nil => exact le_refl now
  | cons job jobs ih =>
    have hjob : now ≤ max now (release job) + length job :=
      (le_max_left _ _).trans (le_add_of_nonneg_right (hlength job List.mem_cons_self))
    exact hjob.trans (ih fun other hother => hlength other (List.mem_cons_of_mem job hother))

theorem tight_cons_iff (hlength : ∀ other ∈ job :: jobs, 0 < length other) :
    Tight release length start now (job :: jobs) ↔ start job = max now (release job) ∧
      Tight release length start (start job + length job) jobs := by
  have hjob : 0 < length job := hlength job List.mem_cons_self
  constructor
  · rintro ⟨hinOrder, hafter, hreleased, hlate⟩
    rw [List.pairwise_cons] at hinOrder
    have hfirst : start job = max now (release job) := by
      rcases hlate job List.mem_cons_self with heq | heq | ⟨other, hother, heq⟩
      · rw [heq, max_eq_right (heq ▸ hafter job List.mem_cons_self)]
      · rw [heq, max_eq_left (heq ▸ hreleased job List.mem_cons_self)]
      · rcases List.mem_cons.mp hother with rfl | hmem
        · exact absurd heq (lt_add_of_pos_right _ hjob).ne'
        · have hlt : start job < start other :=
            (lt_add_of_pos_right _ hjob).trans_le (hinOrder.1 other hmem)
          exact absurd heq (hlt.trans (lt_add_of_pos_right _ (hlength other hother))).ne'
    refine ⟨hfirst, hinOrder.2, hinOrder.1, fun other hother =>
      hreleased other (List.mem_cons_of_mem job hother), fun other hother => ?_⟩
    rcases hlate other (List.mem_cons_of_mem job hother) with heq | heq | ⟨before, hbefore, heq⟩
    · exact .inl heq
    · have hlt : now < start other := (hafter job List.mem_cons_self).trans_lt
        ((lt_add_of_pos_right _ hjob).trans_le (hinOrder.1 other hother))
      exact absurd heq hlt.ne'
    · rcases List.mem_cons.mp hbefore with rfl | hmem
      · exact .inr (.inl heq.symm)
      · exact .inr (.inr ⟨before, hmem, heq⟩)
  · rintro ⟨hfirst, hinOrder, hafter, hreleased, hlate⟩
    have hnow : now ≤ start job := hfirst ▸ le_max_left _ _
    refine ⟨.cons hafter hinOrder, ?_, ?_, ?_⟩
    · refine List.forall_mem_cons.mpr ⟨hnow, fun other hother => ?_⟩
      exact (hnow.trans (le_add_of_nonneg_right hjob.le)).trans (hafter other hother)
    · exact List.forall_mem_cons.mpr ⟨hfirst ▸ le_max_right _ _, hreleased⟩
    · refine List.forall_mem_cons.mpr ⟨?_, fun other hother => ?_⟩
      · rcases max_choice now (release job) with hmax | hmax
        · exact .inr (.inl (hfirst.trans hmax))
        · exact .inl (hfirst.trans hmax)
      · rcases hlate other hother with heq | heq | ⟨before, hbefore, heq⟩
        · exact .inl heq
        · exact .inr (.inr ⟨job, List.mem_cons_self, heq.symm⟩)
        · exact .inr (.inr ⟨before, List.mem_cons_of_mem job hbefore, heq⟩)

/-- The jobs are run at the given starts exactly if these are tight. -/
theorem run_eq_iff (hlength : ∀ job ∈ jobs, 0 < length job) :
    (∀ p ∈ run release length now jobs, p.2 = start p.1) ↔
      Tight release length start now jobs := by
  induction jobs generalizing now with
  | nil =>
    exact ⟨fun _ => ⟨.nil, by simp, by simp, by simp⟩, fun _ p hp => absurd hp List.not_mem_nil⟩
  | cons job jobs ih =>
    have hjobs : ∀ other ∈ jobs, 0 < length other :=
      fun other hother => hlength other (List.mem_cons_of_mem job hother)
    rw [run, List.forall_mem_cons, ih hjobs, tight_cons_iff hlength, eq_comm]
    refine and_congr_right fun hfirst => ?_
    rw [hfirst]

end Schedule

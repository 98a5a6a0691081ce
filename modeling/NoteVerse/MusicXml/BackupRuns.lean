import NoteVerse.MusicXml.Backup

/-!
# Runs between backups

What `recalculateBackups` leaves of a measure. The notes and forwards stay, a backup that stays
takes the cursor back to the start, and a second call finds nothing to do. A run of notes and
forwards that began after a backup still begins at the start of the measure unless the backups
before it were merged with a running time of zero, which the stale durations of the measure can
give where the time that has passed is positive.
-/

namespace NoteVerse.MusicXml.Backup

/-- The children of a measure. They are distinct nodes, and a backup has a duration. -/
structure Measure where
  children : List Element
  nodup : (children.map Element.id).Nodup
  timed : ∀ el ∈ children, el.nodeName = .backup → el.duration.isSome

/-- The position of the child with the id. -/
def position (children : List Element) (id : ℕ) : ℤ :=
  cursor 0 (children.takeWhile fun el => el.id ≠ id)

/-- The time of the notes and forwards after the last backup. -/
def runLength (els : List Element) : ℤ :=
  els.foldl (fun length el => if el.isBackup then 0 else length + getTimelineDuration el) 0

/-- A backup stands after the last note or forward. -/
def AfterBackup (els : List Element) : Prop :=
  ∃ before seq, els = before ++ seq ∧ Untimed seq ∧ ∃ el ∈ seq, el.isBackup

/-- What a recalculation of `children` to `children'` is for. -/
structure Normalized (children children' : List Element) : Prop where
  kept : children'.filter (!·.isBackup) = children.filter (!·.isBackup)
  single : ∀ before first els second after,
    children' = before ++ first :: els ++ second :: after → first.isBackup → second.isBackup →
      ∃ el ∈ els, el.isTimed
  returns : ∀ before el after, children' = before ++ el :: after → el.isBackup →
    0 < cursor 0 before ∧ cursor 0 (before ++ [el]) = 0
  starts : ∀ before el after, children = before ++ el :: after → el.isTimed →
    AfterBackup before → (∃ e ∈ before, 0 < getTimelineDuration e) →
      position children' el.id = 0
  stable : recalculateBackups children' = children'

/-- A note or forward follows two or more backups in a row, a run of positive length is before
them, and there the stale durations add up to nothing. -/
def Lost (children : List Element) : Prop :=
  ∃ before seq el after, children = before ++ seq ++ el :: after ∧ el.isTimed ∧ Untimed seq ∧
    2 ≤ seq.countP Element.isBackup ∧ 0 < runLength before ∧ cursor 0 before ≤ 0

/-! ## What stays -/

theorem merged_kept (time : ℤ) (first : Option ℤ) (els : List Element) :
    (merged time first els).filter (!·.isBackup) = els.filter (!·.isBackup) := by
  induction els generalizing time first with
  | nil => rfl
  | cons el els ih =>
    rw [merged]
    cases hname : el.nodeName with
    | backup =>
      have hel : (!el.isBackup) = false := by simp [Element.isBackup, hname]
      have hset : ∀ duration, (!(el.setDuration duration).isBackup) = false := fun _ => hel
      cases first <;> dsimp only <;> split_ifs <;> simp [ih, hel, hset]
    | note | forward | other => simp [ih, List.filter_cons]

theorem recalculated_kept (time : ℤ) (els : List Element) :
    (recalculated time els).filter (!·.isBackup) = els.filter (!·.isBackup) := by
  induction els generalizing time with
  | nil => rfl
  | cons el els ih =>
    rw [recalculated]
    cases hname : el.nodeName with
    | backup =>
      have hel : (!el.isBackup) = false := by simp [Element.isBackup, hname]
      have hset : ∀ duration, (!(el.setDuration duration).isBackup) = false := fun _ => hel
      dsimp only
      split_ifs <;> simp [ih, hel, hset]
    | note | forward | other => simp [ih, List.filter_cons]

theorem recalculated_ids (time : ℤ) (els : List Element) :
    ((recalculated time els).map Element.id).Sublist (els.map Element.id) := by
  induction els generalizing time with
  | nil => exact List.Sublist.refl _
  | cons el els ih =>
    rw [recalculated]
    cases el.nodeName with
    | backup =>
      dsimp only
      split_ifs
      · exact (ih 0).cons_cons _
      · exact (ih time).cons _
    | note | forward | other => exact (ih _).cons_cons _

/-! ## One backup between two runs -/

/-- A note or forward comes after each backup, before the next one. -/
def Apart : List Element → Prop
  | [] => True
  | el :: rest => (el.nodeName = .backup → followed rest = false) ∧ Apart rest

variable {els before after seq : List Element} {el : Element} {time : ℤ}

theorem followed_merged (time : ℤ) (first : Option ℤ) (h : followed els = false) :
    followed (merged time first els) = false := by
  induction els generalizing time first with
  | nil => rfl
  | cons el els ih =>
    rw [followed] at h
    rw [merged]
    cases hname : el.nodeName with
    | backup => simp [hname] at h
    | note | forward => simp [followed, hname]
    | other =>
      rw [hname] at h
      simpa [followed, hname] using ih time first h

theorem followed_recalculated (time : ℤ) (h : followed els = false) :
    followed (recalculated time els) = false := by
  induction els generalizing time with
  | nil => rfl
  | cons el els ih =>
    rw [followed] at h
    rw [recalculated]
    cases hname : el.nodeName with
    | backup => simp [hname] at h
    | note | forward => simp [followed, hname]
    | other =>
      rw [hname] at h
      simpa [followed, hname] using ih time h

theorem merged_apart (time : ℤ) (first : Option ℤ) (els : List Element) :
    Apart (merged time first els) := by
  induction els generalizing time first with
  | nil => trivial
  | cons el els ih =>
    rw [merged]
    cases hname : el.nodeName with
    | backup =>
      dsimp only
      cases hfollowed : followed els with
      | true => exact ih _ _
      | false =>
        have hrest := followed_merged (time - (el.duration.getD 0 : ℕ))
          (some (first.getD time)) hfollowed
        cases first with
        | none =>
          rw [if_neg Bool.false_ne_true]
          exact ⟨fun _ => hrest, ih _ _⟩
        | some first =>
          rw [if_neg Bool.false_ne_true]
          dsimp only
          split_ifs
          · exact ⟨fun _ => hrest, ih _ _⟩
          · exact ih _ _
    | note | forward | other => exact ⟨fun hbackup => by simp [hname] at hbackup, ih _ _⟩

theorem recalculated_apart (time : ℤ) (h : Apart els) : Apart (recalculated time els) := by
  induction els generalizing time with
  | nil => trivial
  | cons el els ih =>
    rw [recalculated]
    cases hname : el.nodeName with
    | backup =>
      dsimp only
      split_ifs
      · exact ⟨fun _ => followed_recalculated 0 (h.1 hname), ih 0 h.2⟩
      · exact ih time h.2
    | note | forward | other => exact ⟨fun hbackup => by simp [hname] at hbackup, ih _ h.2⟩

/-- Where the backups are apart there is nothing to merge. -/
theorem merged_of_apart (h : Apart els) (time : ℤ) {first : Option ℤ}
    (hfirst : first.isSome → followed els = false) : merged time first els = els := by
  induction els generalizing time first with
  | nil => rfl
  | cons el els ih =>
    rw [merged]
    cases hname : el.nodeName with
    | backup =>
      have hnone : first = none := by
        cases first with
        | none => rfl
        | some first => simpa [followed, hname] using hfirst rfl
      simp only [hnone, h.1 hname, ih h.2 _ fun _ => h.1 hname]
      rfl
    | note | forward =>
      have hnone : (none : Option ℤ).isSome → followed els = false := fun hsome =>
        absurd hsome Bool.false_ne_true
      simp only [ih h.2 _ hnone]
    | other =>
      have hrest : first.isSome → followed els = false := fun hsome => by
        simpa [followed, hname] using hfirst hsome
      simp only [ih h.2 _ hrest]

theorem Apart.exists_timed {first second : Element}
    (h : Apart (before ++ first :: els ++ second :: after)) (hfirst : first.isBackup)
    (hsecond : second.isBackup) : ∃ el ∈ els, el.isTimed := by
  induction before with
  | nil =>
    have hfollowed : followed (els ++ second :: after) = false := h.1 (isBackup_iff.mp hfirst)
    by_contra hnone
    have huntimed : Untimed els := fun el hel =>
      Bool.eq_false_of_not_eq_true fun htimed => hnone ⟨el, hel, htimed⟩
    rw [followed_append_backup els after huntimed (isBackup_iff.mp hsecond)] at hfollowed
    exact absurd hfollowed (by decide)
  | cons el before ih => exact ih h.2

/-! ## A second call -/

theorem recalculated_idem (time : ℤ) (els : List Element) :
    recalculated time (recalculated time els) = recalculated time els := by
  induction els generalizing time with
  | nil => rfl
  | cons el els ih =>
    rw [recalculated]
    cases hname : el.nodeName with
    | backup =>
      dsimp only
      split_ifs with hpos
      · have hset : (el.setDuration time.toNat).nodeName = .backup := hname
        have htwice : (el.setDuration time.toNat).setDuration time.toNat =
            el.setDuration time.toNat := by
          simp [Element.setDuration, Option.map_map, Function.comp_def]
        rw [recalculated, hset]
        dsimp only
        rw [if_pos hpos, htwice, ih]
      · exact ih time
    | note | forward | other =>
      rw [recalculated]
      simp only [hname, ih]

/-! ## The cursor -/

/-- Every backup has a duration. -/
def Timed (els : List Element) : Prop := ∀ el ∈ els, el.nodeName = .backup → el.duration.isSome

theorem Timed.append_left {rest : List Element} (h : Timed (els ++ rest)) : Timed els :=
  fun el hel => h el (List.mem_append_left _ hel)

theorem cursor_append (time : ℤ) (els rest : List Element) :
    cursor time (els ++ rest) = cursor (cursor time els) rest := List.foldl_append

theorem cursor_cons (time : ℤ) (el : Element) (els : List Element) :
    cursor time (el :: els) = cursor (cursor time [el]) els := rfl

theorem cursor_timed (hel : el.isTimed) (time : ℤ) :
    cursor time [el] = time + getTimelineDuration el := by
  rcases isTimed_iff.mp hel with hname | hname <;> simp [cursor, Element.isBackup, hname]

theorem cursor_other (hel : el.nodeName = .other) (time : ℤ) : cursor time [el] = time := by
  simp [cursor, Element.isBackup, hel, getTimelineDuration]

/-- A backup of the time that has passed. -/
theorem cursor_setDuration (hel : el.nodeName = .backup) (hduration : el.duration.isSome)
    (htime : 0 ≤ time) : cursor time [el.setDuration time.toNat] = 0 := by
  obtain ⟨duration, hduration⟩ := Option.isSome_iff_exists.mp hduration
  have hset : (el.setDuration time.toNat).nodeName = .backup := hel
  have hnew : (el.setDuration time.toNat).duration = some time.toNat := by
    simp [Element.setDuration, hduration]
  simp [cursor, getTimelineDuration, Element.isBackup, hset, hnew, htime]

theorem getTimelineDuration_nonneg (el : Element) : 0 ≤ getTimelineDuration el := by
  unfold getTimelineDuration
  split_ifs <;> simp

theorem merged_timed (h : Timed els) (time : ℤ) (first : Option ℤ) :
    Timed (merged time first els) := by
  induction els generalizing time first with
  | nil => exact h
  | cons el els ih =>
    obtain ⟨hel, hels⟩ := List.forall_mem_cons.mp h
    have hset : ∀ duration, (el.setDuration duration).nodeName = .backup →
        (el.setDuration duration).duration.isSome := fun duration hname => by
      simpa [Element.setDuration] using hel hname
    rw [merged]
    cases hname : el.nodeName with
    | backup =>
      dsimp only
      split_ifs
      · exact ih hels _ _
      · cases first with
        | none => exact List.forall_mem_cons.mpr ⟨hel, ih hels _ _⟩
        | some first =>
          dsimp only
          split_ifs
          · exact List.forall_mem_cons.mpr ⟨hset _, ih hels _ _⟩
          · exact ih hels _ _
    | note | forward | other => exact List.forall_mem_cons.mpr ⟨hel, ih hels _ _⟩

theorem recalculated_timed (h : Timed els) (time : ℤ) : Timed (recalculated time els) := by
  induction els generalizing time with
  | nil => exact h
  | cons el els ih =>
    obtain ⟨hel, hels⟩ := List.forall_mem_cons.mp h
    have hset : ∀ duration, (el.setDuration duration).nodeName = .backup →
        (el.setDuration duration).duration.isSome := fun duration hname => by
      simpa [Element.setDuration] using hel hname
    rw [recalculated]
    cases hname : el.nodeName with
    | backup =>
      dsimp only
      split_ifs
      · exact List.forall_mem_cons.mpr ⟨hset _, ih hels _⟩
      · exact ih hels _
    | note | forward | other => exact List.forall_mem_cons.mpr ⟨hel, ih hels _⟩

/-- The second pass knows the time by the cursor of what it has written. -/
theorem recalculated_append (h : Timed els) (rest : List Element) (time : ℤ) :
    recalculated time (els ++ rest) =
      recalculated time els ++ recalculated (cursor time (recalculated time els)) rest := by
  induction els generalizing time with
  | nil => rfl
  | cons el els ih =>
    obtain ⟨hel, hels⟩ := List.forall_mem_cons.mp h
    rw [List.cons_append, recalculated, recalculated]
    cases hname : el.nodeName with
    | backup =>
      dsimp only
      split_ifs with hpos
      · rw [ih hels, cursor_cons, cursor_setDuration hname (hel hname) hpos.le,
          List.cons_append]
      · exact ih hels time
    | note | forward =>
      have htimed : el.isTimed := isTimed_iff.mpr (by simp [hname])
      dsimp only
      rw [ih hels, cursor_cons time el, cursor_timed htimed, List.cons_append]
    | other =>
      dsimp only
      rw [ih hels, cursor_cons time el, cursor_other hname, List.cons_append]

theorem recalculated_nonneg (h : Timed els) (htime : 0 ≤ time) :
    0 ≤ cursor time (recalculated time els) := by
  induction els generalizing time with
  | nil => exact htime
  | cons el els ih =>
    obtain ⟨hel, hels⟩ := List.forall_mem_cons.mp h
    rw [recalculated]
    cases hname : el.nodeName with
    | backup =>
      dsimp only
      split_ifs with hpos
      · rw [cursor_cons, cursor_setDuration hname (hel hname) htime]
        exact ih hels le_rfl
      · exact ih hels htime
    | note | forward =>
      have htimed : el.isTimed := isTimed_iff.mpr (by simp [hname])
      dsimp only
      rw [cursor_cons, cursor_timed htimed]
      exact ih hels (add_nonneg htime (getTimelineDuration_nonneg el))
    | other =>
      dsimp only
      rw [cursor_cons, cursor_other hname]
      exact ih hels htime

/-- The backups that the second pass keeps take the cursor to the start. -/
theorem recalculated_returns (h : Timed els) (heq : recalculated time els = before ++ el :: after)
    (hel : el.isBackup) : 0 < cursor time before ∧ cursor time (before ++ [el]) = 0 := by
  induction els generalizing time before with
  | nil => exact absurd heq (by simp [recalculated])
  | cons e els ih =>
    obtain ⟨he, hels⟩ := List.forall_mem_cons.mp h
    have hskip : ∀ {e' time'}, e' :: recalculated time' els = before ++ el :: after →
        cursor time [e'] = time' → e'.isBackup = false ∨ before ≠ [] →
        0 < cursor time before ∧ cursor time (before ++ [el]) = 0 := by
      intro e' time' heq htime hnot
      cases before with
      | nil =>
        obtain rfl := (List.cons.inj heq).1
        exact absurd hel (by simpa using hnot)
      | cons b before =>
        obtain ⟨rfl, htail⟩ := List.cons.inj heq
        rw [List.cons_append, cursor_cons time e' before, cursor_cons time e' (before ++ [el]),
          htime]
        exact ih hels htail
    rw [recalculated] at heq
    cases hname : e.nodeName with
    | backup =>
      simp only [hname] at heq
      split_ifs at heq with hpos
      · have hset := cursor_setDuration hname (he hname) hpos.le
        cases before with
        | nil =>
          obtain ⟨rfl, -⟩ := List.cons.inj heq
          exact ⟨hpos, hset⟩
        | cons b before => exact hskip heq hset (.inr (List.cons_ne_nil _ _))
      · exact ih hels heq
    | note | forward =>
      simp only [hname] at heq
      have htimed : e.isTimed := isTimed_iff.mpr (by simp [hname])
      exact hskip heq (cursor_timed htimed time) (.inl (by simp [Element.isBackup, hname]))
    | other =>
      simp only [hname] at heq
      exact hskip heq (cursor_other hname time) (.inl (by simp [Element.isBackup, hname]))

/-! ## Where a run begins -/

/-- Both passes. -/
def rewritten (els : List Element) : List Element := recalculated 0 (merged 0 none els)

theorem recalculateBackups_eq {children : List Element} (hnodup : (children.map Element.id).Nodup)
    (htimed : Timed children) : recalculateBackups children = rewritten children := by
  have hmerged := mergeConsecutiveBackups_eq hnodup htimed
  rw [recalculate_eq (by rw [hmerged]; exact hnodup.sublist (merged_ids 0 none children)), hmerged]
  rfl

theorem rewritten_nonneg (h : Timed els) : 0 ≤ cursor 0 (rewritten els) :=
  recalculated_nonneg (merged_timed h 0 none) le_rfl

theorem rewritten_ids (els : List Element) :
    ((rewritten els).map Element.id).Sublist (els.map Element.id) :=
  (recalculated_ids 0 (merged 0 none els)).trans (merged_ids 0 none els)

theorem followed_untimed (h : Untimed els) : followed els = els.any Element.isBackup := by
  induction els with
  | nil => rfl
  | cons el els ih =>
    obtain ⟨hname | hname, hels⟩ := h.cons
    · simp [followed, hname, Element.isBackup]
    · simp [followed, hname, Element.isBackup, ih hels]

/-- Whether a backup stays of a sequence that has begun. -/
theorem merged_any_some (h : Untimed els) (time first : ℤ) :
    (merged time (some first) els).any Element.isBackup =
      (els.any Element.isBackup && decide (0 < first)) := by
  induction els generalizing time with
  | nil => rfl
  | cons el els ih =>
    obtain ⟨hname | hname, hels⟩ := h.cons
    · have hbackup := isBackup_iff.mpr hname
      have hset : ∀ duration, (el.setDuration duration).isBackup = true := fun _ => hbackup
      rw [merged, hname]
      dsimp only
      rw [followed_untimed hels, Option.getD_some]
      split_ifs with hany hpos
      · rw [ih hels, hany, List.any_cons, hbackup]
        simp
      · simp [hset, hbackup, hpos]
      · rw [ih hels]
        simp [hpos]
    · have hbackup : el.isBackup = false := by simp [Element.isBackup, hname]
      rw [merged, hname]
      simp [ih hels, hbackup]

/-- Whether a backup stays of the sequence after a run. -/
theorem merged_any_none (h : Untimed els) (time : ℤ) :
    (merged time none els).any Element.isBackup =
      (els.any Element.isBackup && decide (els.countP Element.isBackup ≤ 1 ∨ 0 < time)) := by
  induction els with
  | nil => rfl
  | cons el els ih =>
    obtain ⟨hname | hname, hels⟩ := h.cons
    · have hbackup := isBackup_iff.mpr hname
      rw [merged, hname]
      dsimp only
      rw [followed_untimed hels, Option.getD_none, List.countP_cons_of_pos hbackup]
      split_ifs with hany
      · have hcount : 0 < els.countP Element.isBackup :=
          List.countP_pos_iff.mpr (List.any_eq_true.mp hany)
        rw [merged_any_some hels, hany, List.any_cons, hbackup]
        simp [hcount.ne']
      · have hcount : els.countP Element.isBackup = 0 := by
          rw [List.countP_eq_zero]
          exact fun e he hbackup => hany (List.any_eq_true.mpr ⟨e, he, hbackup⟩)
        simp [hbackup, hcount]
    · have hbackup : el.isBackup = false := by simp [Element.isBackup, hname]
      rw [merged, hname]
      dsimp only
      rw [List.any_cons, List.any_cons, ih hels, hbackup,
        List.countP_cons_of_neg (by simp [hbackup])]
      simp

theorem merged_untimed (h : Untimed els) (time : ℤ) (first : Option ℤ) :
    Untimed (merged time first els) := by
  intro el hel
  by_contra htimed
  have hname := isTimed_iff.mp (Bool.eq_true_of_not_eq_false htimed)
  have hmem : el ∈ (merged time first els).filter (!·.isBackup) :=
    List.mem_filter.mpr ⟨hel, by rcases hname with hname | hname <;> simp [Element.isBackup, hname]⟩
  rw [merged_kept] at hmem
  exact htimed (h el (List.mem_filter.mp hmem).1)

/-- The cursor is at the start after a sequence in which a backup is left. -/
theorem recalculated_untimed (h : Untimed els) (htimed : Timed els) (htime : 0 ≤ time) :
    cursor time (recalculated time els) =
      if els.any Element.isBackup then 0 else time := by
  induction els generalizing time with
  | nil => rfl
  | cons el els ih =>
    obtain ⟨hel, hels⟩ := List.forall_mem_cons.mp htimed
    rw [recalculated, List.any_cons]
    obtain ⟨hname | hname, huntimed⟩ := h.cons
    · rw [isBackup_iff.mpr hname, hname, Bool.true_or, if_pos rfl]
      dsimp only
      split_ifs with hpos
      · rw [cursor_cons, cursor_setDuration hname (hel hname) htime, ih huntimed hels le_rfl,
          ite_self]
      · obtain rfl : time = 0 := by omega
        rw [ih huntimed hels le_rfl, ite_self]
    · have hbackup : el.isBackup = false := by simp [Element.isBackup, hname]
      rw [hname, hbackup, Bool.false_or]
      dsimp only
      rw [cursor_cons, cursor_other hname, ih huntimed hels htime]

/-- Every list of children is a sequence of runs, each with what stands between it and the
next. -/
theorem runs_induction {motive : List Element → Prop} (nil : ∀ seq, Untimed seq → motive seq)
    (concat : ∀ before el seq, el.isTimed → Untimed seq → motive before →
      motive (before ++ [el] ++ seq)) (els : List Element) : motive els := by
  have h : ∀ seq, Untimed seq → motive (els ++ seq) := by
    induction els using List.reverseRecOn with
    | nil => exact nil
    | append_singleton els el ih =>
      intro seq hseq
      cases hel : el.isTimed with
      | true =>
        have hempty := ih [] fun _ he => absurd he List.not_mem_nil
        rw [List.append_nil] at hempty
        exact concat els el seq hel hseq hempty
      | false =>
        rw [List.append_assoc, List.singleton_append]
        exact ih (el :: seq) (List.forall_mem_cons.mpr ⟨hel, hseq⟩)
  simpa using h [] fun _ he => absurd he List.not_mem_nil

theorem merged_append_run (els seq : List Element) (hel : el.isTimed) :
    merged 0 none (els ++ [el] ++ seq) =
      merged 0 none els ++ el :: merged (cursor 0 (els ++ [el])) none seq := by
  rw [List.append_assoc, List.singleton_append, merged_append_timed els seq hel]

/-- What comes before a note or forward is rewritten as if nothing came after. -/
theorem rewritten_append_timed (h : Timed els) (rest : List Element) (hel : el.isTimed) :
    ∃ rest', rewritten (els ++ el :: rest) = rewritten els ++ el :: rest' := by
  rw [rewritten, merged_append_timed els rest hel, recalculated_append (merged_timed h 0 none),
    recalculated]
  rcases isTimed_iff.mp hel with hname | hname <;> rw [hname] <;> exact ⟨_, rfl⟩

/-- The cursor after a run and the backups that follow it. -/
theorem rewritten_run (hel : el.isTimed) (hseq : Untimed seq) (h : Timed (els ++ [el] ++ seq)) :
    cursor 0 (rewritten (els ++ [el] ++ seq)) =
      if seq.any Element.isBackup ∧ (seq.countP Element.isBackup ≤ 1 ∨
        0 < cursor 0 (els ++ [el])) then 0
      else cursor 0 (rewritten els) + getTimelineDuration el := by
  have hels : Timed els := h.append_left.append_left
  have hseqTimed : Timed seq := fun e he => h e (List.mem_append_right _ he)
  have hnonneg := rewritten_nonneg hels
  have hstep : rewritten (els ++ [el] ++ seq) = rewritten els ++ el ::
      recalculated (cursor 0 (rewritten els) + getTimelineDuration el)
        (merged (cursor 0 (els ++ [el])) none seq) := by
    rw [rewritten, merged_append_run els seq hel, recalculated_append (merged_timed hels 0 none),
      recalculated]
    rcases isTimed_iff.mp hel with hname | hname <;> rw [hname] <;> rfl
  rw [hstep, cursor_append, cursor_cons, cursor_timed hel,
    recalculated_untimed (merged_untimed hseq _ none) (merged_timed hseqTimed _ none)
      (add_nonneg hnonneg (getTimelineDuration_nonneg el)), merged_any_none hseq]
  simp

/-- With nothing before the backups, the cursor does not move. -/
theorem rewritten_untimed (hseq : Untimed seq) (h : Timed seq) : cursor 0 (rewritten seq) = 0 := by
  rw [rewritten, recalculated_untimed (merged_untimed hseq 0 none) (merged_timed h 0 none) le_rfl,
    ite_self]

theorem runLength_append (els : List Element) (hseq : Untimed seq) :
    runLength (els ++ seq) = if seq.any Element.isBackup then 0 else runLength els := by
  induction seq using List.reverseRecOn with
  | nil => simp
  | append_singleton seq el ih =>
    have hinit : Untimed seq := fun e he => hseq e (List.mem_append_left _ he)
    have hel : Untimed [el] := fun e he => hseq e (List.mem_append_right _ he)
    have hlast : runLength (els ++ (seq ++ [el])) =
        if el.isBackup then 0 else runLength (els ++ seq) + getTimelineDuration el := by
      rw [← List.append_assoc, runLength, List.foldl_append]
      rfl
    rw [hlast, ih hinit, List.any_append]
    obtain ⟨hname | hname, -⟩ := hel.cons
    · simp [Element.isBackup, hname]
    · simp [Element.isBackup, hname, getTimelineDuration]

theorem runLength_concat (els : List Element) (hel : el.isTimed) :
    runLength (els ++ [el]) = runLength els + getTimelineDuration el := by
  rw [runLength, List.foldl_append]
  rcases isTimed_iff.mp hel with hname | hname <;> simp [Element.isBackup, hname, runLength]

/-- The cursor is never before the end of the run. -/
theorem runLength_le (h : Timed els) : runLength els ≤ cursor 0 (rewritten els) := by
  induction els using runs_induction with
  | nil seq hseq =>
    have hrun := runLength_append [] hseq
    rw [List.nil_append] at hrun
    rw [hrun, rewritten_untimed hseq h]
    split_ifs <;> exact le_rfl
  | concat before el seq hel hseq ih =>
    have hbefore := ih h.append_left.append_left
    have hnonneg := rewritten_nonneg h
    rw [runLength_append _ hseq, runLength_concat before hel]
    split_ifs with hany
    · exact hnonneg
    · rw [rewritten_run hel hseq h, if_neg fun hboth => hany hboth.1]
      exact add_le_add_left hbefore _

/-- Where no run is lost, the cursor before a note or forward is at the end of its run so far. -/
theorem cursor_eq_runLength (hel : el.isTimed) (hlost : ¬Lost (els ++ el :: after))
    (h : Timed els) :
    cursor 0 (rewritten els) = runLength els := by
  induction els using runs_induction generalizing el after with
  | nil seq hseq =>
    have hrun := runLength_append [] hseq
    rw [List.nil_append] at hrun
    rw [hrun, rewritten_untimed hseq h]
    split_ifs <;> rfl
  | concat before e seq he hseq ih =>
    have hassoc : before ++ [e] ++ seq ++ el :: after = before ++ e :: (seq ++ el :: after) := by
      simp
    have hbefore := ih he (hassoc ▸ hlost) h.append_left.append_left
    have hrun := runLength_concat before he
    rw [rewritten_run he hseq h, runLength_append _ hseq, hbefore, ← hrun]
    split_ifs with hreturn hany hany
    · rfl
    · exact absurd hreturn.1 hany
    · -- The backups are dropped: the run before them has no length.
      obtain ⟨hcount, hcursor⟩ := not_or.mp fun h => hreturn ⟨hany, h⟩
      have hlength : ¬0 < runLength (before ++ [e]) := fun hpos =>
        hlost ⟨before ++ [e], seq, el, after, rfl, hel, hseq, by omega, hpos, not_lt.mp hcursor⟩
      have hnonneg := rewritten_nonneg h.append_left.append_left
      have hduration := getTimelineDuration_nonneg e
      omega
    · rfl

/-! ## The position of a child -/

theorem position_middle (h : el.id ∉ before.map Element.id) :
    position (before ++ el :: after) el.id =
      cursor 0 before := by
  have hbefore : ∀ e ∈ before, decide (e.id ≠ el.id) = true := fun e he =>
    decide_eq_true fun heq => h (heq ▸ List.mem_map_of_mem he)
  rw [position, List.takeWhile_append_of_pos hbefore, List.takeWhile_cons_of_neg (by simp),
    List.append_nil]

theorem position_rewritten (hel : el.isTimed)
    (hnodup : ((before ++ el :: after).map Element.id).Nodup) (h : Timed before) :
    position (rewritten (before ++ el :: after)) el.id = cursor 0 (rewritten before) := by
  obtain ⟨rest, hrest⟩ := rewritten_append_timed h after hel
  rw [List.map_append, List.map_cons, List.nodup_middle, List.nodup_cons, List.mem_append,
    not_or] at hnodup
  rw [hrest, position_middle fun hmem => hnodup.1.1 ((rewritten_ids before).subset hmem)]

/-! ## The runs that are lost -/

theorem cursor_others (h : Untimed els) (hany : els.any Element.isBackup = false) (time : ℤ) :
    cursor time els = time := by
  induction els with
  | nil => rfl
  | cons el els ih =>
    rw [List.any_cons, Bool.or_eq_false_iff] at hany
    obtain ⟨hname | hname, hels⟩ := h.cons
    · exact absurd (isBackup_iff.mpr hname) (by simp [hany.1])
    · rw [cursor_cons, cursor_other hname, ih hels hany.2]

theorem exists_of_runLength_pos (h : 0 < runLength els) :
    ∃ el ∈ els, 0 < getTimelineDuration el := by
  induction els using runs_induction with
  | nil seq hseq =>
    have hrun := runLength_append [] hseq
    rw [List.nil_append] at hrun
    rw [hrun] at h
    split_ifs at h <;> exact absurd h (by decide)
  | concat before el seq hel hseq ih =>
    rw [runLength_append _ hseq, runLength_concat before hel] at h
    split_ifs at h
    · exact absurd h (by decide)
    · by_cases hpos : 0 < getTimelineDuration el
      · exact ⟨el, by simp, hpos⟩
      · obtain ⟨e, he, hpos'⟩ := ih (by omega)
        exact ⟨e, by simp [he], hpos'⟩

/-- The backups after a run are dropped, and the cursor stays at its end. -/
theorem lost_cursor (h : Timed (before ++ seq)) (hseq : Untimed seq)
    (hcount : 2 ≤ seq.countP Element.isBackup) (hrun : 0 < runLength before)
    (hcursor : cursor 0 before ≤ 0) : 0 < cursor 0 (rewritten (before ++ seq)) := by
  induction before using runs_induction with
  | nil others hothers =>
    have hlength := runLength_append [] hothers
    rw [List.nil_append] at hlength
    rw [hlength] at hrun
    split_ifs at hrun <;> exact absurd hrun (by decide)
  | concat before el others hel hothers _ =>
    rw [runLength_append _ hothers, runLength_concat before hel] at hrun
    have hany : others.any Element.isBackup = false := by
      by_contra hany
      rw [if_pos (Bool.eq_true_of_not_eq_false hany)] at hrun
      exact absurd hrun (by decide)
    rw [hany, if_neg Bool.false_ne_true] at hrun
    rw [cursor_append, cursor_others hothers hany] at hcursor
    have huntimed : Untimed (others ++ seq) := fun e he =>
      (List.mem_append.mp he).elim (hothers e) (hseq e)
    rw [List.append_assoc (before ++ [el])] at h ⊢
    have hnot : ¬((others ++ seq).any Element.isBackup ∧
        ((others ++ seq).countP Element.isBackup ≤ 1 ∨ 0 < cursor 0 (before ++ [el]))) := by
      rw [List.countP_append]
      omega
    have hle := runLength_le h.append_left.append_left
    rw [rewritten_run hel huntimed h, if_neg hnot]
    omega

theorem rewritten_starts {children : List Element} (hnodup : (children.map Element.id).Nodup)
    (h : Timed children) : (∀ before el after, children = before ++ el :: after → el.isTimed →
      AfterBackup before → (∃ e ∈ before, 0 < getTimelineDuration e) →
        position (rewritten children) el.id = 0) ↔ ¬Lost children := by
  constructor
  · rintro hstarts ⟨before, seq, el, after, rfl, hel, hseq, hcount, hrun, hcursor⟩
    obtain ⟨e, he, hpos⟩ := exists_of_runLength_pos hrun
    have hbackup : ∃ b ∈ seq, b.isBackup := List.countP_pos_iff.mp (by omega)
    have hposition := hstarts (before ++ seq) el after rfl hel
      ⟨before, seq, rfl, hseq, hbackup⟩ ⟨e, List.mem_append_left _ he, hpos⟩
    rw [position_rewritten hel hnodup h.append_left] at hposition
    have hcursor := lost_cursor h.append_left hseq hcount hrun hcursor
    omega
  · rintro hlost before el after rfl hel ⟨run, seq, rfl, hseq, b, hb, hbackup⟩ -
    rw [position_rewritten hel hnodup h.append_left,
      cursor_eq_runLength hel hlost h.append_left, runLength_append run hseq,
      if_pos (List.any_eq_true.mpr ⟨b, hb, hbackup⟩)]

/-- A recalculation keeps what it should, gives each backup the time before it and is stable. It
leaves every run that was after a backup at the start of the measure exactly where no
sequence of backups is lost. -/
theorem recalculateBackups_normalized_iff (m : Measure) :
    Normalized m.children (recalculateBackups m.children) ↔ ¬Lost m.children := by
  have htimed : Timed m.children := m.timed
  have hmerged := merged_timed htimed 0 none
  have hapart : Apart (rewritten m.children) := recalculated_apart 0 (merged_apart 0 none _)
  rw [recalculateBackups_eq m.nodup htimed, ← rewritten_starts m.nodup htimed]
  refine ⟨fun h => h.starts, fun h => ⟨?_, ?_, ?_, h, ?_⟩⟩
  · rw [rewritten, recalculated_kept, merged_kept]
  · intro before first els second after heq
    exact (heq ▸ hapart).exists_timed
  · intro before el after heq hel
    exact recalculated_returns hmerged heq hel
  · have hnodup := m.nodup.sublist (rewritten_ids m.children)
    have hnone : (none : Option ℤ).isSome → followed (rewritten m.children) = false := fun h =>
      absurd h Bool.false_ne_true
    rw [recalculateBackups_eq hnodup (recalculated_timed hmerged 0), rewritten,
      merged_of_apart hapart 0 hnone]
    exact recalculated_idem 0 _

/-- A measure of three voices after its first one was deleted, with two backups before the
third: the running time is zero at the first of them. -/
def deletedVoice : Measure where
  children := [⟨0, .backup, false, some 4⟩, ⟨1, .note, false, some 4⟩,
    ⟨2, .backup, false, some 2⟩, ⟨3, .backup, false, some 2⟩, ⟨4, .note, false, some 4⟩]
  nodup := by decide
  timed := by decide

/-- Both backups are dropped, and the third voice starts where the second one ends. -/
theorem deletedVoice_not_normalized :
    ¬Normalized deletedVoice.children (recalculateBackups deletedVoice.children) := by
  intro h
  have hstart := h.starts (deletedVoice.children.take 4) ⟨4, .note, false, some 4⟩ [] rfl rfl
    ⟨deletedVoice.children.take 2, (deletedVoice.children.take 4).drop 2, rfl,
      by unfold Untimed; decide, by decide⟩ (by decide)
  exact absurd hstart (by decide)

end NoteVerse.MusicXml.Backup

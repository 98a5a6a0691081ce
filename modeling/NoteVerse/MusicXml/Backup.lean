import NoteVerse.Lib.Lists

/-!
# Backups of a measure

`lib/musicxml/backup.ts`: after an edit, the `backup` elements of a measure are merged where
several follow each other, and given the durations that take the cursor back to the start of
the measure. The children of a measure are a list; a child is told from the others by its
`id`, and the text of its duration is a number.

Both passes walk over the children as they were and remove or rewrite them one at a time.
`mergeConsecutiveBackups_eq` and `recalculate_eq` say what they make of the list (`merged`,
`recalculated`).
-/

namespace NoteVerse.MusicXml.Backup

/-! ## The source -/

/-- The lower-cased name of a node. -/
inductive NodeName
  | note | forward | backup | other
  deriving DecidableEq, Repr

structure Element where
  id : ℕ
  nodeName : NodeName
  chord : Bool
  duration : Option ℕ
  deriving DecidableEq, Repr

namespace Element

variable (el : Element)

def isBackup : Bool := el.nodeName = .backup

/-- A note or a forward. -/
def isTimed : Bool := el.nodeName = .note ∨ el.nodeName = .forward

/-- The element with another text in its duration, if it has one. -/
def setDuration (duration : ℕ) : Element :=
  { el with duration := el.duration.map fun _ => duration }

end Element

def getTimelineDuration (element : Element) : ℤ :=
  if element.nodeName = .note ∧ element.chord then 0
  else if element.nodeName ≠ .note ∧ element.nodeName ≠ .forward then 0
  else element.duration.getD 0

/-- `element.parentNode?.removeChild(element)` -/
def removeChild (children : List Element) (id : ℕ) : List Element :=
  children.filter fun el => el.id ≠ id

/-- `durationEl.textContent = String(duration)` -/
def setDuration (children : List Element) (id duration : ℕ) : List Element :=
  children.map fun el => if el.id = id then el.setDuration duration else el

/-- A backup of a sequence, and the running time before it. -/
structure BackupAt where
  element : Element
  timeAtStart : ℤ
  deriving DecidableEq, Repr

def processConsecutiveBackups (children : List Element) (backups : List BackupAt) :
    List Element :=
  if backups.length ≤ 1 then children
  else
    match backups.head?, backups.getLast? with
    | some first, some last =>
      let correctDuration := first.timeAtStart
      let children := backups.dropLast.foldl
        (fun children backup => removeChild children backup.element.id) children
      match last.element.duration with
      | none => children
      | some _ =>
        if 0 < correctDuration then setDuration children last.element.id correctDuration.toNat
        else removeChild children last.element.id
    | _, _ => children

/-- The variables of the loop of `mergeConsecutiveBackups`. -/
structure Merge where
  children : List Element
  cumulativeTime : ℤ
  backupsInSequence : List BackupAt

def Merge.flush (m : Merge) : List Element :=
  if 1 < m.backupsInSequence.length then
    processConsecutiveBackups m.children m.backupsInSequence
  else m.children

def mergeStep (m : Merge) (el : Element) : Merge :=
  match el.nodeName with
  | .note | .forward => ⟨m.flush, m.cumulativeTime + getTimelineDuration el, []⟩
  | .backup => { m with
      backupsInSequence := m.backupsInSequence ++ [⟨el, m.cumulativeTime⟩]
      cumulativeTime := m.cumulativeTime - (el.duration.getD 0 : ℕ) }
  | .other => m

def mergeConsecutiveBackups (children : List Element) : List Element :=
  (children.foldl mergeStep ⟨children, 0, []⟩).flush

/-- The variables of the loop of `recalculateBackups`. -/
structure Recalculation where
  children : List Element
  cumulativeTime : ℤ
  backupsToRemove : List ℕ

def recalculateStep (s : Recalculation) (el : Element) : Recalculation :=
  match el.nodeName with
  | .note | .forward => { s with cumulativeTime := s.cumulativeTime + getTimelineDuration el }
  | .backup =>
    if 0 < s.cumulativeTime then
      { s with
        children := setDuration s.children el.id s.cumulativeTime.toNat
        cumulativeTime := 0 }
    else { s with backupsToRemove := s.backupsToRemove ++ [el.id] }
  | .other => s

def recalculateBackups (children : List Element) : List Element :=
  let children := mergeConsecutiveBackups children
  let s := children.foldl recalculateStep ⟨children, 0, []⟩
  s.backupsToRemove.foldl removeChild s.children

/-! ## What the passes make of the list -/

/-- A backup comes before the next note or forward. -/
def followed : List Element → Bool
  | [] => false
  | el :: rest =>
    match el.nodeName with
    | .note | .forward => false
    | .backup => true
    | .other => followed rest

/-- The first pass from a running time, inside a sequence of backups that began at `first`:
the last backup of a sequence stays, with the time before the first one, if that is positive. -/
def merged (cumulativeTime : ℤ) (first : Option ℤ) : List Element → List Element
  | [] => []
  | el :: rest =>
    match el.nodeName with
    | .note | .forward => el :: merged (cumulativeTime + getTimelineDuration el) none rest
    | .other => el :: merged cumulativeTime first rest
    | .backup =>
      let rest' := merged (cumulativeTime - (el.duration.getD 0 : ℕ))
        (some (first.getD cumulativeTime)) rest
      if followed rest then rest'
      else
        match first with
        | none => el :: rest'
        | some first => if 0 < first then el.setDuration first.toNat :: rest' else rest'

/-- The second pass from a running time. -/
def recalculated (cumulativeTime : ℤ) : List Element → List Element
  | [] => []
  | el :: rest =>
    match el.nodeName with
    | .note | .forward => el :: recalculated (cumulativeTime + getTimelineDuration el) rest
    | .other => el :: recalculated cumulativeTime rest
    | .backup =>
      if 0 < cumulativeTime then
        el.setDuration cumulativeTime.toNat :: recalculated 0 rest
      else recalculated cumulativeTime rest

/-! ## Children by their ids -/

theorem foldl_removeChild (ids : List ℕ) (children : List Element) :
    ids.foldl removeChild children = children.filter fun el => el.id ∉ ids := by
  induction ids generalizing children with
  | nil => simp
  | cons id ids ih =>
    rw [List.foldl_cons, ih, removeChild, List.filter_filter]
    refine List.filter_congr fun el _ => ?_
    simp [Bool.and_comm]

variable {children before els others rest : List Element} {el last first : Element}

/-- Rewriting a child leaves children with other ids. -/
theorem setDuration_of_not_mem {id : ℕ} (h : id ∉ children.map Element.id) (duration : ℕ) :
    setDuration children id duration = children := by
  unfold setDuration
  refine (List.map_congr_left fun el hel => if_neg ?_).trans (List.map_id _)
  rintro rfl
  exact h (List.mem_map_of_mem hel)

@[simp] theorem Element.id_setDuration (el : Element) (duration : ℕ) :
    (el.setDuration duration).id = el.id := rfl

/-- Rewriting a child of a list in which it is the only one with its id. -/
theorem setDuration_middle {after : List Element}
    (h : ((before ++ el :: after).map Element.id).Nodup) (duration : ℕ) :
    setDuration (before ++ el :: after) el.id duration =
      before ++ el.setDuration duration :: after := by
  rw [List.map_append, List.map_cons, List.nodup_middle, List.nodup_cons, List.mem_append,
    not_or] at h
  have hbefore := setDuration_of_not_mem h.1.1 duration
  have hafter := setDuration_of_not_mem h.1.2 duration
  unfold setDuration at hbefore hafter ⊢
  rw [List.map_append, List.map_cons, hbefore, hafter, if_pos rfl]

/-- Removing a child of a list in which it is the only one with its id. -/
theorem removeChild_middle {after : List Element}
    (h : ((before ++ el :: after).map Element.id).Nodup) :
    removeChild (before ++ el :: after) el.id = before ++ after := by
  rw [List.map_append, List.map_cons, List.nodup_middle, List.nodup_cons, List.mem_append,
    not_or] at h
  have hkeep : ∀ els : List Element, el.id ∉ els.map Element.id →
      (els.filter fun e => e.id ≠ el.id) = els := fun els hels =>
    List.filter_eq_self.mpr fun e he => decide_eq_true fun heq =>
      hels (heq ▸ List.mem_map_of_mem he)
  rw [removeChild, List.filter_append, List.filter_cons_of_neg (by simp), hkeep _ h.1.1,
    hkeep _ h.1.2]

/-! ## The second pass -/

theorem recalculate_fold {children : List Element} {rest : List Element} {time : ℤ}
    {removed : List ℕ} (hnodup : ((children ++ rest).map Element.id).Nodup)
    (hremoved : ∀ el ∈ rest, el.id ∉ removed) :
    (rest.foldl recalculateStep ⟨children ++ rest, time, removed⟩).backupsToRemove.foldl
        removeChild (rest.foldl recalculateStep ⟨children ++ rest, time, removed⟩).children =
      (children.filter fun el => el.id ∉ removed) ++ recalculated time rest := by
  induction rest generalizing children time removed with
  | nil =>
    rw [List.foldl_nil, foldl_removeChild, List.append_nil]
    exact (List.append_nil _).symm
  | cons el rest ih =>
    obtain ⟨hel, hrest⟩ := List.forall_mem_cons.mp hremoved
    have hnodup' : ((children ++ [el] ++ rest).map Element.id).Nodup := by
      rwa [List.append_assoc, List.singleton_append]
    have hkept : ∀ e' : Element, e'.id = el.id →
        ((children ++ [e']).filter fun e => e.id ∉ removed) =
          (children.filter fun e => e.id ∉ removed) ++ [e'] := by
      intro e' he'
      have hself : ([e'].filter fun e => e.id ∉ removed) = [e'] := by simp [he', hel]
      rw [List.filter_append, hself]
    rw [List.foldl_cons, recalculateStep, recalculated]
    have hkeep : ∀ time', (rest.foldl recalculateStep
          ⟨children ++ el :: rest, time', removed⟩).backupsToRemove.foldl removeChild
        (rest.foldl recalculateStep ⟨children ++ el :: rest, time', removed⟩).children =
        (children.filter fun e => e.id ∉ removed) ++ el :: recalculated time' rest := by
      intro time'
      have h := @ih (children ++ [el]) time' removed hnodup' hrest
      rwa [hkept el rfl, List.append_assoc, List.append_assoc, List.singleton_append,
        List.singleton_append] at h
    cases hname : el.nodeName with
    | note => exact hkeep _
    | forward => exact hkeep _
    | other => exact hkeep _
    | backup =>
      dsimp only
      split_ifs with hpos
      · rw [setDuration_middle hnodup]
        have hids : ((children ++ [el.setDuration time.toNat] ++ rest).map Element.id).Nodup := by
          simpa using hnodup'
        have h := @ih (children ++ [el.setDuration time.toNat]) 0 removed hids hrest
        rwa [hkept (el.setDuration time.toNat) rfl, List.append_assoc, List.append_assoc, List.singleton_append,
          List.singleton_append] at h
      · have hnew : ∀ e ∈ rest, e.id ∉ removed ++ [el.id] := by
          intro e he
          rw [List.mem_append, List.mem_singleton, not_or]
          refine ⟨hrest e he, fun heq => ?_⟩
          rw [List.map_append, List.map_cons, List.nodup_middle, List.nodup_cons,
            List.mem_append, not_or] at hnodup
          exact hnodup.1.2 (heq ▸ List.mem_map_of_mem he)
        have h := @ih (children ++ [el]) time (removed ++ [el.id]) hnodup' hnew
        have hdropped : ((children ++ [el]).filter fun e => e.id ∉ removed ++ [el.id]) =
            children.filter fun e => e.id ∉ removed := by
          have hself : ([el].filter fun e => e.id ∉ removed ++ [el.id]) = [] := by simp
          rw [List.filter_append, hself, List.append_nil]
          refine List.filter_congr fun e he => ?_
          have hne : e.id ≠ el.id := by
            intro heq
            rw [List.map_append, List.map_cons, List.nodup_middle, List.nodup_cons,
              List.mem_append, not_or] at hnodup
            exact hnodup.1.1 (heq ▸ List.mem_map_of_mem he)
          simp [hne]
        rwa [hdropped, List.append_assoc, List.singleton_append] at h

theorem recalculate_eq (hnodup : ((mergeConsecutiveBackups children).map Element.id).Nodup) :
    recalculateBackups children = recalculated 0 (mergeConsecutiveBackups children) := by
  have h := @recalculate_fold [] (mergeConsecutiveBackups children) 0 [] hnodup
    fun _ _ => List.not_mem_nil
  rwa [List.nil_append, List.filter_nil, List.nil_append] at h

/-! ## The first pass -/

/-- No note or forward is among the elements. -/
def Untimed (els : List Element) : Prop := ∀ el ∈ els, el.isTimed = false

theorem isTimed_iff : el.isTimed ↔ el.nodeName = .note ∨ el.nodeName = .forward :=
  decide_eq_true_iff

theorem isBackup_iff : el.isBackup ↔ el.nodeName = .backup := decide_eq_true_iff

theorem Untimed.cons {el : Element} {els : List Element} (h : Untimed (el :: els)) :
    (el.nodeName = .backup ∨ el.nodeName = .other) ∧ Untimed els := by
  refine ⟨?_, fun e he => h e (List.mem_cons_of_mem _ he)⟩
  have hel := h el List.mem_cons_self
  cases hname : el.nodeName <;> simp_all [Element.isTimed]

/-- What follows a note or forward does not count. -/
theorem followed_append_timed (els rest : List Element) (hel : el.isTimed) :
    followed (els ++ el :: rest) = followed els := by
  induction els with
  | nil =>
    rcases isTimed_iff.mp hel with hname | hname <;> simp [followed, hname]
  | cons e els ih =>
    rw [List.cons_append, followed, followed, ih]

/-- The running time after the elements: the cursor of MusicXML, from a position on. -/
def cursor (time : ℤ) (els : List Element) : ℤ :=
  els.foldl (fun time el => time + getTimelineDuration el -
    (if el.isBackup then ((el.duration.getD 0 : ℕ) : ℤ) else 0)) time

theorem getTimelineDuration_untimed (h : el.nodeName = .backup ∨ el.nodeName = .other) :
    getTimelineDuration el = 0 := by
  rcases h with h | h <;> simp [getTimelineDuration, h]

/-- A note or forward ends the sequence of backups before it. -/
theorem merged_append_timed (els rest : List Element) (hel : el.isTimed) (time : ℤ)
    (first : Option ℤ) :
    merged time first (els ++ el :: rest) = merged time first els ++
      el :: merged (cursor time (els ++ [el])) none rest := by
  induction els generalizing time first with
  | nil =>
    rcases isTimed_iff.mp hel with hname | hname <;>
      simp [merged, hname, cursor, Element.isBackup]
  | cons e els ih =>
    have htime : cursor time (e :: els ++ [el]) =
        cursor (cursor time [e]) (els ++ [el]) := rfl
    have he : cursor time [e] = time + getTimelineDuration e -
        (if e.isBackup then ((e.duration.getD 0 : ℕ) : ℤ) else 0) := rfl
    rw [List.cons_append, merged, merged, followed_append_timed els rest hel, htime, he]
    cases hname : e.nodeName with
    | backup =>
      rw [getTimelineDuration_untimed (.inl hname), if_pos (isBackup_iff.mpr hname), add_zero]
      simp only [ih]
      cases first with
      | none => split_ifs <;> rfl
      | some first =>
        dsimp only
        split_ifs <;> rfl
    | note | forward | other =>
      simp [ih, Element.isBackup, hname, getTimelineDuration_untimed]

/-- The elements after the last backup of a sequence. -/
theorem merged_others (h : ∀ el ∈ els, el.nodeName = .other) (time : ℤ) (first : Option ℤ) :
    merged time first els = els ∧ followed els = false := by
  induction els with
  | nil => exact ⟨rfl, rfl⟩
  | cons el els ih =>
    obtain ⟨hname, hels⟩ := List.forall_mem_cons.mp h
    obtain ⟨hmerged, hfollowed⟩ := ih hels
    rw [merged, followed]
    simp only [hname, hmerged, hfollowed, and_self]

theorem followed_append_backup (els rest : List Element) (hels : Untimed els)
    (hel : el.nodeName = .backup) : followed (els ++ el :: rest) = true := by
  induction els with
  | nil => simp [followed, hel]
  | cons e els ih =>
    obtain ⟨hname | hname, hels⟩ := hels.cons
    · simp [followed, hname]
    · simpa [followed, hname] using ih hels

/-- What stays of the last backup of a sequence that began at `first`. -/
def settled (el : Element) (first : ℤ) : List Element :=
  if 0 < first then [el.setDuration first.toNat] else []

/-- A sequence of backups after its first one. -/
theorem merged_sequence (hels : Untimed els) (hlast : last.nodeName = .backup)
    (hothers : ∀ el ∈ others, el.nodeName = .other) (time first : ℤ) :
    merged time (some first) (els ++ last :: others) =
      els.filter (!·.isBackup) ++ settled last first ++ others := by
  induction els generalizing time with
  | nil =>
    obtain ⟨hmerged, hfollowed⟩ :=
      merged_others hothers (time - (last.duration.getD 0 : ℕ)) (some first)
    rw [List.nil_append, merged]
    simp only [hlast, hfollowed, Option.getD_some, hmerged, settled]
    split_ifs <;> simp_all
  | cons e els ih =>
    rw [List.cons_append, merged]
    obtain ⟨hname | hname, hels⟩ := hels.cons
    · simp only [hname, followed_append_backup els others hels hlast, if_true, Option.getD_some,
        ih hels]
      rw [List.filter_cons_of_neg (by simp [Element.isBackup, hname])]
    · simp only [hname, ih hels]
      rw [List.filter_cons_of_pos (by simp [Element.isBackup, hname])]
      rfl

/-- A sequence of backups from its first one. -/
theorem merged_backups (hfirst : first.nodeName = .backup) (hels : Untimed els)
    (hlast : last.nodeName = .backup) (hothers : ∀ el ∈ others, el.nodeName = .other) (time : ℤ) :
    merged time none (first :: els ++ last :: others) =
      els.filter (!·.isBackup) ++ settled last time ++ others := by
  rw [List.cons_append, merged]
  simp only [hfirst, followed_append_backup els others hels hlast, if_true, Option.getD_none]
  exact merged_sequence hels hlast hothers _ _

/-- Removing children by their ids removes those children. -/
theorem filter_ids {removed : List Element} (hnodup : (children.map Element.id).Nodup)
    (hremoved : removed ⊆ children) :
    (children.filter fun el => el.id ∉ removed.map Element.id) =
      children.filter fun el => el ∉ removed := by
  refine List.filter_congr fun el hel => decide_eq_decide.mpr (not_congr ⟨fun h => ?_, fun h => ?_⟩)
  · obtain ⟨other, hother, hid⟩ := List.mem_map.mp h
    rwa [← List.inj_on_of_nodup_map hnodup (hremoved hother) hel hid]
  · exact List.mem_map_of_mem h

theorem filter_sequence (hnodup : (before ++ first :: els ++ last :: rest).Nodup) :
    (before ++ first :: els ++ last :: rest).filter
        (fun el => el ∉ first :: els.filter Element.isBackup) =
      before ++ els.filter (!·.isBackup) ++ last :: rest := by
  obtain ⟨hleft, hright, hdisjoint⟩ := List.nodup_append'.mp hnodup
  obtain ⟨hbefore, hmiddle, hdisjoint'⟩ := List.nodup_append'.mp hleft
  have hsub : first :: els.filter Element.isBackup ⊆ first :: els :=
    List.cons_subset_cons first (List.filter_subset_self els)
  have hkeepBefore : (before.filter fun el => el ∉ first :: els.filter Element.isBackup) =
      before := List.filter_eq_self.mpr fun el hel =>
    decide_eq_true fun hmem => hdisjoint' hel (hsub hmem)
  have hkeepRest : ((last :: rest).filter fun el => el ∉ first :: els.filter Element.isBackup) =
      last :: rest := List.filter_eq_self.mpr fun el hel =>
    decide_eq_true fun hmem => hdisjoint (List.mem_append_right _ (hsub hmem)) hel
  have hels : ((first :: els).filter fun el => el ∉ first :: els.filter Element.isBackup) =
      els.filter (!·.isBackup) := by
    rw [List.filter_cons_of_neg (by simp)]
    refine List.filter_congr fun el hel => ?_
    have hne : el ≠ first := by
      rintro rfl
      exact (List.nodup_cons.mp hmiddle).1 hel
    simp [hne, hel]
  rw [List.filter_append, List.filter_append, hkeepBefore, hkeepRest, hels]

/-- What the end of a sequence of backups does to the children. -/
theorem processConsecutiveBackups_eq {time : ℤ} {backups : List BackupAt}
    (hnodup : ((before ++ first :: els ++ last :: (others ++ rest)).map Element.id).Nodup)
    (hlast : last.duration.isSome)
    (hbackups : backups.map BackupAt.element = first :: els.filter Element.isBackup ++ [last])
    (htime : ∀ backup ∈ backups.head?, backup.timeAtStart = time) :
    processConsecutiveBackups (before ++ first :: els ++ last :: (others ++ rest)) backups =
      before ++ (els.filter (!·.isBackup) ++ settled last time ++ others) ++ rest := by
  obtain ⟨duration, hduration⟩ := Option.isSome_iff_exists.mp hlast
  obtain ⟨head, tail, rfl, hhead, htail⟩ := List.map_eq_cons_iff.mp
    (hbackups.trans (List.cons_append ..))
  obtain ⟨middle, end_, rfl, hmiddle, hend⟩ := List.map_eq_append_iff.mp htail
  obtain ⟨final, rfl, hfinal⟩ := List.map_eq_singleton_iff.mp hend
  have htime' : head.timeAtStart = time := htime head rfl
  have hlong : ¬ (head :: (middle ++ [final])).length ≤ 1 := by simp
  have hdrop : (head :: (middle ++ [final])).dropLast = head :: middle := by
    rw [← List.cons_append, List.dropLast_concat]
  have hgetLast : (head :: (middle ++ [final])).getLast? = some final := by
    rw [← List.cons_append, List.getLast?_concat]
  have hids : (head :: middle).foldl (fun children backup => removeChild children
      backup.element.id) (before ++ first :: els ++ last :: (others ++ rest)) =
      before ++ els.filter (!·.isBackup) ++ last :: (others ++ rest) := by
    have hmap : (head :: middle).map (fun backup => backup.element.id) =
        (first :: els.filter Element.isBackup).map Element.id := by
      rw [← hmiddle, ← hhead]
      simp
    rw [← List.foldl_map (f := fun backup : BackupAt => backup.element.id) (g := removeChild),
      hmap, foldl_removeChild, filter_ids hnodup, filter_sequence (List.Nodup.of_map _ hnodup)]
    intro el hel
    have hin : el ∈ first :: els :=
      List.cons_subset_cons first (List.filter_subset_self els) hel
    exact List.mem_append_left _ (List.mem_append_right _ hin)
  have hnodup' : ((before ++ els.filter (!·.isBackup) ++ last :: (others ++ rest)).map
      Element.id).Nodup := by
    refine hnodup.sublist (List.Sublist.map _ (List.Sublist.append_right ?_ _))
    exact List.Sublist.append_left (List.filter_sublist.trans (List.sublist_cons_self _ _)) _
  unfold processConsecutiveBackups
  rw [if_neg hlong, List.head?_cons, hgetLast]
  dsimp only
  rw [hdrop, hids, hfinal, hduration, htime']
  dsimp only
  unfold settled
  split_ifs with hpos
  · rw [setDuration_middle hnodup']
    simp
  · rw [removeChild_middle hnodup']
    simp

/-- The elements from the first backup of a sequence on. -/
structure Sequence (els : List Element) : Prop where
  untimed : Untimed els
  head : ∀ el ∈ els.head?, el.nodeName = .backup
  timed : ∀ el ∈ els, el.nodeName = .backup → el.duration.isSome

theorem flush_eq {time now : ℤ} {backups : List BackupAt} (h : Sequence els)
    (hnodup : ((before ++ els ++ rest).map Element.id).Nodup)
    (hbackups : backups.map BackupAt.element = els.filter Element.isBackup)
    (htime : ∀ backup ∈ backups.head?, backup.timeAtStart = time) :
    Merge.flush ⟨before ++ els ++ rest, now, backups⟩ = before ++ merged time none els ++ rest := by
  cases els with
  | nil =>
    obtain rfl := List.map_eq_nil_iff.mp hbackups
    rfl
  | cons first els =>
    have hfirst := h.head first rfl
    have hels := h.untimed.cons.2
    have hfilter : (first :: els).filter Element.isBackup =
        first :: els.filter Element.isBackup :=
      List.filter_cons_of_pos (isBackup_iff.mpr hfirst)
    rw [hfilter] at hbackups
    by_cases hmore : ∃ el ∈ els, el.isBackup
    · obtain ⟨middle, last, others, rfl, hlast, hothers⟩ := Lists.exists_last hmore
      have hnone : others.filter Element.isBackup = [] :=
        List.filter_eq_nil_iff.mpr fun el hel => by simp [hothers el hel]
      have hlastName := isBackup_iff.mp hlast
      have hname : ∀ el ∈ others, el.nodeName = .other := fun el hel => by
        have huntimed := hels el (by simp [hel])
        have hbackup := hothers el hel
        cases hn : el.nodeName <;> simp_all [Element.isTimed, Element.isBackup]
      rw [List.filter_append, List.filter_cons_of_pos hlast, hnone, ← List.cons_append] at hbackups
      have hlong : 1 < backups.length := by
        rw [← List.length_map BackupAt.element, hbackups]
        simp
      have hassoc : before ++ (first :: (middle ++ last :: others)) ++ rest =
          before ++ first :: middle ++ last :: (others ++ rest) := by simp
      have hmiddle : Untimed middle := fun el hel => hels el (List.mem_append_left _ hel)
      rw [Merge.flush, if_pos hlong]
      dsimp only
      rw [hassoc] at hnodup ⊢
      rw [processConsecutiveBackups_eq hnodup
        (h.timed last (by simp) hlastName) hbackups htime, ← List.cons_append,
        merged_backups hfirst hmiddle hlastName hname]
    · have hname : ∀ el ∈ els, el.nodeName = .other := fun el hel => by
        have huntimed := hels el hel
        have hbackup : ¬el.isBackup := fun hbackup => hmore ⟨el, hel, hbackup⟩
        cases hn : el.nodeName <;> simp_all [Element.isTimed, Element.isBackup]
      have hnone : els.filter Element.isBackup = [] :=
        List.filter_eq_nil_iff.mpr fun el hel hbackup => hmore ⟨el, hel, hbackup⟩
      have hshort : ¬ 1 < backups.length := by
        rw [← List.length_map BackupAt.element, hbackups, hnone]
        simp
      obtain ⟨hmerged, hfollowed⟩ :=
        merged_others hname (time - (first.duration.getD 0 : ℕ)) (some time)
      rw [Merge.flush, if_neg hshort, merged]
      simp only [hfirst, hfollowed, Option.getD_none, hmerged]
      rfl

theorem merged_ids (time : ℤ) (first : Option ℤ) (els : List Element) :
    ((merged time first els).map Element.id).Sublist (els.map Element.id) := by
  induction els generalizing time first with
  | nil => exact List.Sublist.refl _
  | cons el els ih =>
    have hkeep : ∀ el' time first, el'.id = el.id → ((el' :: merged time first els).map
        Element.id).Sublist ((el :: els).map Element.id) := by
      intro el' time first hid
      rw [List.map_cons, List.map_cons, hid]
      exact (ih time first).cons_cons _
    have hdrop : ∀ time first, ((merged time first els).map Element.id).Sublist
        ((el :: els).map Element.id) := fun time first => (ih time first).cons _
    rw [merged]
    cases el.nodeName with
    | note => exact hkeep el _ _ rfl
    | forward => exact hkeep el _ _ rfl
    | other => exact hkeep el _ _ rfl
    | backup =>
      dsimp only
      split_ifs
      · exact hdrop _ _
      · cases first with
        | none => exact hkeep el _ _ rfl
        | some first =>
          dsimp only
          split_ifs
          · exact hkeep _ _ _ rfl
          · exact hdrop _ _

/-- A sequence goes on with a backup, or with another element once it has begun. -/
theorem Sequence.concat (h : Sequence els)
    (hel : el.nodeName = .backup ∨ el.nodeName = .other ∧ els ≠ [])
    (htimed : el.nodeName = .backup → el.duration.isSome) : Sequence (els ++ [el]) := by
  refine ⟨fun e he => ?_, fun e he => ?_, fun e he => ?_⟩
  · rcases List.mem_append.mp he with he | he
    · exact h.untimed e he
    · rw [List.mem_singleton.mp he]
      rcases hel with hname | ⟨hname, -⟩ <;> simp [Element.isTimed, hname]
  · cases els with
    | nil =>
      obtain rfl := Option.some.inj he
      exact hel.resolve_right fun hother => hother.2 rfl
    | cons first els => exact h.head e he
  · rcases List.mem_append.mp he with he | he
    · exact h.timed e he
    · rw [List.mem_singleton.mp he]
      exact htimed

theorem merge_fold {before els rest : List Element} {time : ℤ} {backups : List BackupAt}
    (h : Sequence els) (hnodup : ((before ++ els ++ rest).map Element.id).Nodup)
    (htimed : ∀ el ∈ rest, el.nodeName = .backup → el.duration.isSome)
    (hbackups : backups.map BackupAt.element = els.filter Element.isBackup)
    (htime : ∀ backup ∈ backups.head?, backup.timeAtStart = time) :
    (rest.foldl mergeStep ⟨before ++ els ++ rest, cursor time els, backups⟩).flush =
      before ++ merged time none (els ++ rest) := by
  induction rest generalizing before els time backups with
  | nil =>
    rw [List.foldl_nil, flush_eq h hnodup hbackups htime, List.append_nil, List.append_nil]
  | cons el rest ih =>
    obtain ⟨hel, hrest⟩ := List.forall_mem_cons.mp htimed
    have hnil : Sequence [] := ⟨fun _ h => absurd h List.not_mem_nil, fun _ h => by simp at h,
      fun _ h => absurd h List.not_mem_nil⟩
    have hstale : cursor time (els ++ [el]) = cursor time els + getTimelineDuration el -
        (if el.isBackup then ((el.duration.getD 0 : ℕ) : ℤ) else 0) := by
      rw [cursor, List.foldl_append]
      rfl
    have hassoc : ∀ middle, before ++ middle ++ el :: rest = before ++ (middle ++ [el]) ++ rest := by
      simp
    have hend : el.isTimed → (rest.foldl mergeStep (mergeStep
        ⟨before ++ els ++ el :: rest, cursor time els, backups⟩ el)).flush =
        before ++ merged time none (els ++ el :: rest) := by
      intro htimedEl
      have hname := isTimed_iff.mp htimedEl
      have hids : ((before ++ merged time none els ++ [el] ++ [] ++ rest).map
          Element.id).Nodup := by
        rw [List.append_nil, List.append_assoc _ [el], List.singleton_append]
        refine hnodup.sublist ?_
        rw [List.map_append, List.map_append, List.map_append, List.map_append]
        exact ((List.Sublist.refl _).append (merged_ids time none els)).append
          (List.Sublist.refl _)
      have hstep : mergeStep ⟨before ++ els ++ el :: rest, cursor time els, backups⟩ el =
          ⟨before ++ merged time none els ++ [el] ++ [] ++ rest, cursor time (els ++ [el]),
            []⟩ := by
        rw [hstale, if_neg (by rcases hname with h | h <;> simp [Element.isBackup, h]), sub_zero]
        have hchildren : before ++ merged time none els ++ [el] ++ [] ++ rest =
            Merge.flush ⟨before ++ els ++ el :: rest, cursor time els, backups⟩ := by
          rw [flush_eq h hnodup hbackups htime, List.append_nil, List.append_assoc _ [el],
            List.singleton_append]
        rw [hchildren]
        unfold mergeStep
        rcases hname with h | h <;> rw [h]
      rw [hstep, merged_append_timed els rest htimedEl]
      have hrun := @ih (before ++ merged time none els ++ [el]) [] (cursor time (els ++ [el]))
        [] hnil hids hrest rfl fun _ h => by simp at h
      rw [List.nil_append] at hrun
      refine hrun.trans ?_
      simp
    rw [List.foldl_cons]
    cases hname : el.nodeName with
    | note => exact hend (isTimed_iff.mpr (.inl hname))
    | forward => exact hend (isTimed_iff.mpr (.inr hname))
    | backup =>
      have hrun := @ih before (els ++ [el]) time (backups ++ [⟨el, cursor time els⟩])
        (h.concat (.inl hname) hel) (by rwa [← hassoc]) hrest
        (by
          rw [List.map_append, hbackups, List.filter_append,
            List.filter_cons_of_pos (isBackup_iff.mpr hname)]
          rfl)
        (by
          cases backups with
          | nil =>
            -- The sequence begins with this backup.
            have hels : els = [] := by
              cases els with
              | nil => rfl
              | cons first els =>
                rw [List.filter_cons_of_pos (isBackup_iff.mpr (h.head first rfl))] at hbackups
                exact absurd hbackups (by simp)
            intro backup hbackup
            rw [← Option.some.inj hbackup, hels]
            rfl
          | cons backup backups => exact htime)
      rw [hstale, if_pos (isBackup_iff.mpr hname), getTimelineDuration_untimed (.inl hname),
        add_zero, ← hassoc] at hrun
      rw [List.append_assoc els, List.singleton_append] at hrun
      unfold mergeStep
      rw [hname]
      exact hrun
    | other =>
      have hstep : mergeStep ⟨before ++ els ++ el :: rest, cursor time els, backups⟩ el =
          ⟨before ++ els ++ el :: rest, cursor time els, backups⟩ := by
        unfold mergeStep
        rw [hname]
      rw [hstep]
      have hnot : ¬el.isBackup := by simp [Element.isBackup, hname]
      cases els with
      | nil =>
        have hrun := @ih (before ++ [el]) [] time backups hnil
          (by simpa using hnodup) hrest hbackups htime
        rw [List.nil_append, merged]
        simp only [hname]
        simpa using hrun
      | cons first els =>
        have hrun := @ih before (first :: els ++ [el]) time backups
          (h.concat (.inr ⟨hname, List.cons_ne_nil _ _⟩) hel) (by rwa [← hassoc]) hrest
          (by rw [hbackups, List.filter_append, List.filter_cons_of_neg hnot]; simp) htime
        rw [hstale, if_neg hnot, getTimelineDuration_untimed (.inr hname), add_zero, sub_zero,
          ← hassoc] at hrun
        rwa [List.append_assoc (first :: els), List.singleton_append] at hrun

theorem mergeConsecutiveBackups_eq (hnodup : (children.map Element.id).Nodup)
    (htimed : ∀ el ∈ children, el.nodeName = .backup → el.duration.isSome) :
    mergeConsecutiveBackups children = merged 0 none children := by
  have hempty : Sequence [] := ⟨fun _ h => absurd h List.not_mem_nil, fun _ h => by simp at h,
    fun _ h => absurd h List.not_mem_nil⟩
  exact @merge_fold [] [] children 0 [] hempty hnodup htimed rfl fun _ h => by simp at h

end NoteVerse.MusicXml.Backup

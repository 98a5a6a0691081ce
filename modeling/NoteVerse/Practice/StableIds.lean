import NoteVerse.Lib.FloatText

/-!
# Stable ids of a score

The ids that `score_timeline.py` makes of events, groups and steps. The first
twelve digits of `sha1` are a parameter.

* `beatId_inj`, `beatId_isToken`: the part of an id that a beat is;
* `stableEventId_inj`: the parts of an event's id, but for the staff and the voice;
* `stableEntryGroupId_inj`: the beat of a group's id.
-/

namespace NoteVerse.Practice

open Python

/-! ## Ids -/

/-- `[A-Za-z0-9_.-]` -/
def isSafe (c : Char) : Bool := c.isAlphanum || c = '_' || c = '.' || c = '-'

/-- `re.sub(r"[^A-Za-z0-9_.-]+", "_", value)`, in a run of other characters or not. -/
def replaceRuns : Bool → List Char → List Char
  | _, [] => []
  | inRun, c :: cs =>
    if isSafe c then c :: replaceRuns false cs
    else if inRun then replaceRuns true cs
    else '_' :: replaceRuns true cs

/-- `value.strip("_")` -/
def stripUnderscores (cs : List Char) : List Char :=
  (cs.dropWhile (· = '_')).rdropWhile (· = '_')

/-- `_safe_id` -/
def safeId (value : String) : String :=
  String.ofList (stripUnderscores (replaceRuns false value.toList))

example : safeId "p1 m#1" = "p1_m_1" := by decide

/-- `_safe_id(str(beat))` -/
def beatId (beat : ℚ) : String := safeId (floatStr beat)

/-- `semantic_locator or f"i{index}"` -/
def idLocator (index : Nat) (semanticLocator : String) : String :=
  if semanticLocator = "" then "i" ++ Nat.repr index else semanticLocator

/-- The place of a note or a forward in the score. -/
def noteLocator (partIndex measureIndex selectableIndex : Nat) : String :=
  "p" ++ Nat.repr partIndex ++ "-m" ++ Nat.repr measureIndex ++ "-e" ++ Nat.repr selectableIndex

/-- `_stable_event_id` -/
def stableEventId (index : Nat) (onsetBeat durationBeats : ℚ)
    (voiceId staffId semanticLocator : String) : String :=
  "-".intercalate <| ["event", beatId onsetBeat, beatId durationBeats, safeId staffId,
    safeId voiceId, safeId (idLocator index semanticLocator)].filter (· ≠ "")

section

variable (sha1 : String → String)

/-- The digest of `"|".join((str(onset_beat), *event_ids))`. -/
def identityDigest (onsetBeat : ℚ) (eventIds : List String) : String :=
  sha1 ("|".intercalate (floatStr onsetBeat :: eventIds))

/-- `_stable_entry_group_id` -/
def stableEntryGroupId (onsetBeat : ℚ) (eventIds : List String) : String :=
  "entry-" ++ beatId onsetBeat ++ "-" ++ identityDigest sha1 onsetBeat eventIds

/-- `_stable_attack_step_id` -/
def stableAttackStepId (onsetBeat : ℚ) (eventIds : List String) : String :=
  "attack-" ++ beatId onsetBeat ++ "-" ++ identityDigest sha1 onsetBeat eventIds

/-- `_stable_attack_target_id` -/
def stableAttackTargetId (stepId pitch : String) (eventIds : List String) : String :=
  stepId ++ ":target:" ++ safeId pitch ++ ":" ++ sha1 ("|".intercalate (stepId :: pitch :: eventIds))

end

/-! ## Characters that stay -/

theorem isSafe_of_isPlain {c : Char} (h : IsPlain c) : isSafe c = true := by
  unfold isSafe
  rcases h with h | rfl
  · simp [Char.isAlphanum, h]
  · decide

variable {cs xs ys : List Char}

theorem replaceRuns_of_safe (h : ∀ c ∈ cs, isSafe c = true) (inRun : Bool) :
    replaceRuns inRun cs = cs := by
  induction cs generalizing inRun with
  | nil => rfl
  | cons c cs ih =>
    rw [List.forall_mem_cons] at h
    unfold replaceRuns
    rw [if_pos h.1, ih h.2]

theorem stripUnderscores_of_ends (hfirst : ∀ ds, cs ≠ '_' :: ds) (hlast : ∀ h, cs.getLast h ≠ '_') :
    stripUnderscores cs = cs := by
  have hdrop : cs.dropWhile (· = '_') = cs := by
    cases cs with
    | nil => rfl
    | cons c cs =>
      refine List.dropWhile_cons_of_neg ?_
      rw [decide_eq_true_eq]
      rintro rfl
      exact hfirst cs rfl
  unfold stripUnderscores
  rw [hdrop, List.rdropWhile_eq_self_iff]
  intro h
  rw [decide_eq_true_eq]
  exact hlast h

/-- What has only safe characters and no underscore stays. -/
theorem safeId_of_safe {value : String} (h : ∀ c ∈ value.toList, isSafe c = true ∧ c ≠ '_') :
    safeId value = value := by
  unfold safeId
  rw [replaceRuns_of_safe (fun c hc => (h c hc).1), stripUnderscores_of_ends, String.ofList_toList]
  · intro ds hds
    exact (h '_' (hds ▸ List.mem_cons_self)).2 rfl
  · exact fun hne => (h _ (List.getLast_mem hne)).2

/-! ## Beats -/

/-- What becomes of a character of the text of a float. -/
def safeChar (c : Char) : Char := if c = '+' then '_' else c

theorem safeChar_of_isPlain {c : Char} (h : IsPlain c) : safeChar c = c :=
  if_neg (h.ne (by decide))

/-- No two characters that are replaced stand together. -/
theorem replaceRuns_floatStr {prev : Char}
    (halphabet : ∀ c ∈ cs, IsPlain c ∨ c = 'e' ∨ c = '-' ∨ c = '+')
    (hchain : (prev :: cs).IsChain fun a b => b = '-' ∨ b = '+' → a = 'e') :
    replaceRuns (prev = '+') cs = cs.map safeChar := by
  induction cs generalizing prev with
  | nil => rfl
  | cons c cs ih =>
    rw [List.forall_mem_cons] at halphabet
    rw [List.isChain_cons_cons] at hchain
    have htail := ih halphabet.2 hchain.2
    unfold replaceRuns
    rw [List.map_cons, ← htail]
    by_cases hplus : c = '+'
    · subst hplus
      have hprev : prev = 'e' := hchain.1 (.inr rfl)
      subst hprev
      rfl
    · have hsafe : isSafe c = true := by
        rcases halphabet.1 with h | rfl | rfl | rfl
        · exact isSafe_of_isPlain h
        · rfl
        · rfl
        · exact absurd rfl hplus
      rw [if_pos hsafe, decide_eq_false hplus]
      exact congrArg (· :: _) (if_neg hplus).symm

theorem toList_beatId (beat : ℚ) : (beatId beat).toList = (floatStr beat).toList.map safeChar := by
  obtain ⟨htoken, hlast, hfirst⟩ := floatStr_isToken beat
  have hreplace := replaceRuns_floatStr (fun _ hc => mem_floatStr hc) htoken.chain
  unfold beatId safeId
  rw [show replaceRuns false (floatStr beat).toList = _ from hreplace, String.toList_ofList]
  refine stripUnderscores_of_ends (fun ds hds => ?_) fun h => ?_
  · obtain ⟨c, cs, hcs, hc, -⟩ := List.map_eq_cons_iff.mp hds
    by_cases hplus : c = '+'
    · exact hfirst cs (hplus ▸ hcs)
    · rw [show safeChar c = c from if_neg hplus] at hc
      rcases mem_floatStr (hcs ▸ List.mem_cons_self : c ∈ (floatStr beat).toList) with h | h | h | h
      · exact h.ne (by decide) hc
      · exact absurd (h.symm.trans hc) (by decide)
      · exact absurd (h.symm.trans hc) (by decide)
      · exact hplus h
  · rw [List.getLast_map, safeChar_of_isPlain (hlast _)]
    exact (hlast _).ne (by decide)

/-- No underscore is in the text of a float, so what became of a plus is known. -/
theorem map_safeChar_inj (hxs : ∀ c ∈ xs, IsPlain c ∨ c = 'e' ∨ c = '-' ∨ c = '+')
    (hys : ∀ c ∈ ys, IsPlain c ∨ c = 'e' ∨ c = '-' ∨ c = '+')
    (h : xs.map safeChar = ys.map safeChar) : xs = ys := by
  have hback : ∀ zs : List Char, (∀ c ∈ zs, IsPlain c ∨ c = 'e' ∨ c = '-' ∨ c = '+') →
      (zs.map safeChar).map (fun c => if c = '_' then '+' else c) = zs := by
    intro zs hzs
    rw [List.map_map]
    refine (List.map_congr_left fun c hc => ?_).trans (List.map_id zs)
    have hunderscore : c ≠ '_' := by
      rcases hzs c hc with h | rfl | rfl | rfl
      · exact h.ne (by decide)
      all_goals decide
    show (if safeChar c = '_' then '+' else safeChar c) = c
    unfold safeChar
    by_cases hplus : c = '+'
    · rw [if_pos hplus]
      exact hplus.symm
    · rw [if_neg hplus, if_neg hunderscore]
  rw [← hback xs hxs, h, hback ys hys]

theorem beatId_inj {x y : ℚ} (hx : ∃ n : ℤ, x * 10 ^ 6 = n) (hy : ∃ n : ℤ, y * 10 ^ 6 = n)
    (h : beatId x = beatId y) : x = y := by
  refine floatStr_inj hx hy (String.toList_injective ?_)
  refine map_safeChar_inj (fun _ hc => mem_floatStr hc) (fun _ hc => mem_floatStr hc) ?_
  rw [← toList_beatId, ← toList_beatId, h]

theorem beatId_isToken (beat : ℚ) : IsToken (beatId beat).toList := by
  obtain ⟨htoken, hlast, -⟩ := floatStr_isToken beat
  rw [toList_beatId]
  refine ⟨fun h => htoken.ne_nil (List.map_eq_nil_iff.mp h), ?_, fun h => ?_⟩
  · have hhead : 'e' :: (floatStr beat).toList.map safeChar =
        ('e' :: (floatStr beat).toList).map safeChar := rfl
    rw [hhead, List.isChain_map]
    refine htoken.chain.imp fun a b hab hsign => ?_
    unfold safeChar at hsign ⊢
    have hb : b = '-' := by
      split_ifs at hsign with hplus
      · rcases hsign with h | h <;> exact absurd h (by decide)
      · exact hsign.resolve_right hplus
    rw [hab (.inl hb)]
    rfl
  · rw [List.getLast_map, safeChar_of_isPlain (hlast _)]
    exact (hlast _).ne (by decide)

/-! ## Locators -/

/-- The locator of an event that has none in the score, or of a note of it. -/
def IsLocator (locator : String) : Prop :=
  (∃ n : Nat, locator = "i" ++ Nat.repr n) ∨
    ∃ p m e : Nat, locator = noteLocator p m e

theorem hyphen_notMem_repr (c : Char) (hc : c ≠ '-') (n : Nat) :
    '-' ∉ c :: (Nat.repr n).toList := by
  rw [Nat.toList_repr, List.mem_cons, not_or]
  exact ⟨hc.symm, notMem_toDigits (by decide) n⟩

theorem toList_noteLocator (p m e : Nat) :
    (noteLocator p m e).toList =
      ('p' :: (Nat.repr p).toList) ++ '-' :: (('m' :: (Nat.repr m).toList) ++
        '-' :: ('e' :: (Nat.repr e).toList)) := by
  unfold noteLocator
  simp [String.toList_append]

theorem toList_indexLocator (n : Nat) :
    ("i" ++ Nat.repr n).toList = 'i' :: (Nat.repr n).toList := by
  simp [String.toList_append]

/-- No number stands for an index and for a note. -/
theorem indexLocator_ne_noteLocator (n p m e : Nat) :
    xs ++ '-' :: ("i" ++ Nat.repr n).toList ≠
      ys ++ '-' :: (noteLocator p m e).toList := by
  intro h
  rw [toList_indexLocator, toList_noteLocator,
    show ys ++ '-' :: (('p' :: (Nat.repr p).toList) ++ '-' :: (('m' :: (Nat.repr m).toList) ++
        '-' :: ('e' :: (Nat.repr e).toList))) =
      (ys ++ '-' :: (('p' :: (Nat.repr p).toList) ++ '-' :: ('m' :: (Nat.repr m).toList))) ++
        '-' :: ('e' :: (Nat.repr e).toList) by simp] at h
  obtain ⟨-, htail⟩ := Lists.cut_last_inj (hyphen_notMem_repr 'i' (by decide) n)
    (hyphen_notMem_repr 'e' (by decide) e) h
  exact absurd (List.cons.inj htail).1 (by decide)

theorem repr_injective {m n : Nat} (h : (Nat.repr m).toList = (Nat.repr n).toList) : m = n := by
  rw [Nat.toList_repr, Nat.toList_repr] at h
  exact toDigits_injective h

/-- The three numbers of a note's locator are known, whatever stands before it. -/
theorem noteLocator_cut {p m e p' m' e' : Nat}
    (h : xs ++ '-' :: (noteLocator p m e).toList = ys ++ '-' :: (noteLocator p' m' e').toList) :
    xs = ys ∧ p = p' ∧ m = m' ∧ e = e' := by
  have hcut : ∀ (zs : List Char) (p m e : Nat), zs ++ '-' :: (noteLocator p m e).toList =
      ((zs ++ '-' :: ('p' :: (Nat.repr p).toList)) ++ '-' :: ('m' :: (Nat.repr m).toList)) ++
        '-' :: ('e' :: (Nat.repr e).toList) := by
    intro zs p m e
    rw [toList_noteLocator]
    simp
  rw [hcut, hcut] at h
  obtain ⟨h, he⟩ := Lists.cut_last_inj (hyphen_notMem_repr 'e' (by decide) e)
    (hyphen_notMem_repr 'e' (by decide) e') h
  obtain ⟨h, hm⟩ := Lists.cut_last_inj (hyphen_notMem_repr 'm' (by decide) m)
    (hyphen_notMem_repr 'm' (by decide) m') h
  obtain ⟨hxs, hp⟩ := Lists.cut_last_inj (hyphen_notMem_repr 'p' (by decide) p)
    (hyphen_notMem_repr 'p' (by decide) p') h
  exact ⟨hxs, repr_injective (List.cons.inj hp).2, repr_injective (List.cons.inj hm).2,
    repr_injective (List.cons.inj he).2⟩

theorem noteLocator_inj {p m e p' m' e' : Nat} (h : noteLocator p m e = noteLocator p' m' e') :
    p = p' ∧ m = m' ∧ e = e' :=
  (@noteLocator_cut [] [] p m e p' m' e' (by rw [h])).2

/-- The locator at the end of an id is known. -/
theorem locator_inj {l₁ l₂ : String} (h₁ : IsLocator l₁) (h₂ : IsLocator l₂)
    (h : xs ++ '-' :: l₁.toList = ys ++ '-' :: l₂.toList) : xs = ys ∧ l₁ = l₂ := by
  rcases h₁ with ⟨n, rfl⟩ | ⟨p, m, e, rfl⟩ <;> rcases h₂ with ⟨n', rfl⟩ | ⟨p', m', e', rfl⟩
  · rw [toList_indexLocator, toList_indexLocator] at h
    obtain ⟨hxs, htail⟩ := Lists.cut_last_inj (hyphen_notMem_repr 'i' (by decide) n)
      (hyphen_notMem_repr 'i' (by decide) n') h
    exact ⟨hxs, by rw [repr_injective (List.cons.inj htail).2]⟩
  · exact absurd h (indexLocator_ne_noteLocator n p' m' e')
  · exact absurd h.symm (indexLocator_ne_noteLocator n' p m e)
  · obtain ⟨hxs, rfl, rfl, rfl⟩ := noteLocator_cut h
    exact ⟨hxs, rfl⟩

/-! ## Events and groups -/

/-- What stands for a staff or a voice, if anything does. -/
def idPart (value : String) : List Char :=
  if safeId value = "" then [] else '-' :: (safeId value).toList

theorem safeId_of_isLocator {locator : String} (h : IsLocator locator) :
    safeId locator = locator := by
  have hdigit : ∀ n : Nat, ∀ c ∈ (Nat.repr n).toList, isSafe c = true ∧ c ≠ '_' := by
    intro n c hc
    rw [Nat.toList_repr] at hc
    have hplain := isPlain_toDigits n c hc
    exact ⟨isSafe_of_isPlain hplain, hplain.ne (by decide)⟩
  refine safeId_of_safe fun c hc => ?_
  rcases h with ⟨n, rfl⟩ | ⟨p, m, e, rfl⟩
  · rw [toList_indexLocator, List.mem_cons] at hc
    rcases hc with rfl | hc
    · decide
    · exact hdigit n c hc
  · rw [toList_noteLocator] at hc
    simp only [List.mem_append, List.mem_cons] at hc
    rcases hc with (rfl | hc) | rfl | (rfl | hc) | rfl | rfl | hc
    all_goals first
      | decide
      | exact hdigit _ c hc

theorem toList_stableEventId {index : Nat} {semanticLocator : String}
    (h : IsLocator (idLocator index semanticLocator)) (onsetBeat durationBeats : ℚ)
    (voiceId staffId : String) :
    (stableEventId index onsetBeat durationBeats voiceId staffId semanticLocator).toList =
      "event-".toList ++ ((beatId onsetBeat).toList ++ '-' :: ((beatId durationBeats).toList ++
        ((idPart staffId ++ idPart voiceId) ++
          '-' :: (idLocator index semanticLocator).toList))) := by
  have honset : beatId onsetBeat ≠ "" := fun h =>
    (beatId_isToken onsetBeat).ne_nil (by rw [h]; rfl)
  have hduration : beatId durationBeats ≠ "" := fun h =>
    (beatId_isToken durationBeats).ne_nil (by rw [h]; rfl)
  have hlocator : idLocator index semanticLocator ≠ "" := by
    intro hempty
    rw [hempty] at h
    rcases h with ⟨n, h⟩ | ⟨p, m, e, h⟩
    · have hlist := congrArg String.toList h
      rw [toList_indexLocator] at hlist
      exact absurd hlist (by simp)
    · have hlist := congrArg String.toList h
      rw [toList_noteLocator] at hlist
      exact absurd hlist (by simp)
  unfold stableEventId idPart
  rw [safeId_of_isLocator h]
  by_cases hstaff : safeId staffId = "" <;> by_cases hvoice : safeId voiceId = "" <;>
    simp [honset, hduration, hlocator, hstaff, hvoice]

theorem idPart_head (value : String) (rest : List Char) :
    ∃ tail, idPart value ++ '-' :: rest = '-' :: tail := by
  unfold idPart
  split_ifs
  · exact ⟨rest, rfl⟩
  · exact ⟨_, rfl⟩

theorem idPart_inj {x y : String} (h : idPart x = idPart y) : safeId x = safeId y := by
  unfold idPart at h
  split_ifs at h with hx hy
  · rw [hx, hy]
  · exact String.toList_injective (List.cons.inj h).2

/-- What the id of an event says. -/
theorem stableEventId_inj {i₁ i₂ : Nat} {o₁ o₂ d₁ d₂ : ℚ} {v₁ v₂ s₁ s₂ l₁ l₂ : String}
    (h₁ : IsLocator (idLocator i₁ l₁)) (h₂ : IsLocator (idLocator i₂ l₂))
    (h : stableEventId i₁ o₁ d₁ v₁ s₁ l₁ = stableEventId i₂ o₂ d₂ v₂ s₂ l₂) :
    beatId o₁ = beatId o₂ ∧ beatId d₁ = beatId d₂ ∧ idLocator i₁ l₁ = idLocator i₂ l₂ ∧
      (s₁ = s₂ → safeId v₁ = safeId v₂) := by
  have hlist := congrArg String.toList h
  rw [toList_stableEventId h₁, toList_stableEventId h₂] at hlist
  obtain ⟨honset, hlist⟩ := (beatId_isToken o₁).cut_inj (beatId_isToken o₂)
    (List.append_cancel_left hlist)
  have htail : ∀ s v (rest : List Char), ∃ tail,
      (idPart s ++ idPart v) ++ '-' :: rest = '-' :: tail := by
    intro s v rest
    obtain ⟨tail, htail⟩ := idPart_head v rest
    rw [List.append_assoc, htail]
    exact idPart_head s tail
  obtain ⟨tail₁, htail₁⟩ := htail s₁ v₁ (idLocator i₁ l₁).toList
  obtain ⟨tail₂, htail₂⟩ := htail s₂ v₂ (idLocator i₂ l₂).toList
  rw [htail₁, htail₂] at hlist
  obtain ⟨hduration, hrest⟩ := (beatId_isToken d₁).cut_inj (beatId_isToken d₂) hlist
  rw [hrest, ← htail₂] at htail₁
  obtain ⟨hparts, hlocator⟩ := locator_inj h₁ h₂ htail₁
  refine ⟨String.toList_injective honset, String.toList_injective hduration, hlocator, ?_⟩
  rintro rfl
  exact idPart_inj (List.append_cancel_left hparts)

/-- The beat of a group's id, whatever its digest. -/
theorem stableEntryGroupId_inj (sha1 : String → String) {o₁ o₂ : ℚ} {ids₁ ids₂ : List String}
    (ho₁ : ∃ n : ℤ, o₁ * 10 ^ 6 = n) (ho₂ : ∃ n : ℤ, o₂ * 10 ^ 6 = n)
    (h : stableEntryGroupId sha1 o₁ ids₁ = stableEntryGroupId sha1 o₂ ids₂) : o₁ = o₂ := by
  have hlist := congrArg String.toList h
  have htoList : ∀ o ids, (stableEntryGroupId sha1 o ids).toList =
      "entry-".toList ++ ((beatId o).toList ++ '-' :: (identityDigest sha1 o ids).toList) := by
    intro o ids
    unfold stableEntryGroupId
    simp [String.toList_append]
  rw [htoList, htoList] at hlist
  obtain ⟨honset, -⟩ := (beatId_isToken o₁).cut_inj (beatId_isToken o₂)
    (List.append_cancel_left hlist)
  exact beatId_inj ho₁ ho₂ (String.toList_injective honset)

end NoteVerse.Practice

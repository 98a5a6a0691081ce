import NoteVerse.Backend.Revisions

/-!
# The keys of scores and revisions

What the primary keys and the unique constraints of `scores` and
`score_revisions` say (`ScoreTables.Keyed`), and that each write keeps it; and
that rows stay when scores and revisions are added (`ScoreTables.Grows`).
-/

namespace NoteVerse.Backend

open Table

/-- The keys of the scores and their revisions. -/
structure ScoreTables.Keyed (tables : ScoreTables) : Prop where
  scoreIds : (tables.scores.map (·.id)).Nodup
  scoreUuids : (tables.scores.map (·.scoreUuid)).Nodup
  scoresBelow : ∀ score ∈ tables.scores, score.id < tables.nextScoreId
  revisionIds : (tables.revisions.map (·.id)).Nodup
  revisionUuids : (tables.revisions.map (·.revisionUuid)).Nodup
  revisionsBelow : ∀ revision ∈ tables.revisions, revision.id < tables.nextRevisionId
  keys : ∀ revision ∈ tables.revisions, ∀ other ∈ tables.revisions,
    revision.scoreId = other.scoreId → revision.idempotencyKey = other.idempotencyKey →
      revision.idempotencyKey.isSome → revision = other

namespace ScoreTables

variable {tables tables' : ScoreTables}

theorem Keyed.addScore (hk : tables.Keyed) {score : Score} (hid : score.id = tables.nextScoreId)
    (h : tables.addScore score = some tables') : tables'.Keyed := by
  unfold ScoreTables.addScore at h
  split_ifs at h with hclash
  cases h
  have hnew : ∀ row ∈ tables.scores, row.scoreUuid ≠ score.scoreUuid := fun row hrow heq =>
    hclash ⟨row, hrow, .inl heq⟩
  exact { hk with
    scoreIds := by
      rw [List.map_append, List.map_singleton, List.nodup_append]
      refine ⟨hk.scoreIds, List.nodup_singleton _, fun id hmem other hother => ?_⟩
      obtain ⟨row, hrow, rfl⟩ := List.mem_map.mp hmem
      rw [List.mem_singleton.mp hother, hid]
      exact (hk.scoresBelow row hrow).ne
    scoreUuids := by
      rw [List.map_append, List.map_singleton, List.nodup_append]
      refine ⟨hk.scoreUuids, List.nodup_singleton _, fun uuid hmem other hother => ?_⟩
      obtain ⟨row, hrow, rfl⟩ := List.mem_map.mp hmem
      rw [List.mem_singleton.mp hother]
      exact hnew row hrow
    scoresBelow := fun row hrow => by
      obtain hrow | hrow := List.mem_append.mp hrow
      · exact Nat.lt_succ_of_lt (hk.scoresBelow row hrow)
      · rw [List.mem_singleton.mp hrow, hid]
        exact Nat.lt_succ_self _ }

theorem Keyed.addRevision (hk : tables.Keyed) {revision : ScoreRevision}
    (hid : revision.id = tables.nextRevisionId)
    (h : tables.addRevision revision = some tables') : tables'.Keyed := by
  unfold ScoreTables.addRevision at h
  split_ifs at h with hclash
  cases h
  have hnew : ∀ row ∈ tables.revisions, row.revisionUuid ≠ revision.revisionUuid :=
    fun row hrow heq => hclash ⟨row, hrow, .inl heq⟩
  exact { hk with
    revisionIds := by
      rw [List.map_append, List.map_singleton, List.nodup_append]
      refine ⟨hk.revisionIds, List.nodup_singleton _, fun id hmem other hother => ?_⟩
      obtain ⟨row, hrow, rfl⟩ := List.mem_map.mp hmem
      rw [List.mem_singleton.mp hother, hid]
      exact (hk.revisionsBelow row hrow).ne
    revisionUuids := by
      rw [List.map_append, List.map_singleton, List.nodup_append]
      refine ⟨hk.revisionUuids, List.nodup_singleton _, fun uuid hmem other hother => ?_⟩
      obtain ⟨row, hrow, rfl⟩ := List.mem_map.mp hmem
      rw [List.mem_singleton.mp hother]
      exact hnew row hrow
    revisionsBelow := fun row hrow => by
      obtain hrow | hrow := List.mem_append.mp hrow
      · exact Nat.lt_succ_of_lt (hk.revisionsBelow row hrow)
      · rw [List.mem_singleton.mp hrow, hid]
        exact Nat.lt_succ_self _
    keys := fun row hrow other hother hscore hkey hsome => by
      obtain hrow | hrow := List.mem_append.mp hrow
      · obtain hother | hother := List.mem_append.mp hother
        · exact hk.keys row hrow other hother hscore hkey hsome
        · rw [List.mem_singleton.mp hother] at hscore hkey
          exact absurd ⟨row, hrow, .inr ⟨hscore, .inr ⟨hkey ▸ hsome, hkey⟩⟩⟩ hclash
      · obtain hother | hother := List.mem_append.mp hother
        · rw [List.mem_singleton.mp hrow] at hscore hkey hsome
          exact absurd ⟨other, hother, .inr ⟨hscore.symm, .inr ⟨hsome, hkey.symm⟩⟩⟩ hclash
        · rw [List.mem_singleton.mp hrow, List.mem_singleton.mp hother] }

/-- A change of other columns than the keys. -/
theorem Keyed.saveScore (hk : tables.Keyed) (scoreId : ScoreId) {f : Score → Score}
    (hid : ∀ score, (f score).id = score.id)
    (huuid : ∀ score, (f score).scoreUuid = score.scoreUuid) :
    (tables.saveScore scoreId f).Keyed :=
  { hk with
    scoreIds := by
      show ((update Score.id scoreId f tables.scores).map (·.id)).Nodup
      rw [map_update hid]
      exact hk.scoreIds
    scoreUuids := by
      show ((update Score.id scoreId f tables.scores).map (·.scoreUuid)).Nodup
      rw [map_update huuid]
      exact hk.scoreUuids
    scoresBelow := fun score hscore => by
      obtain ⟨hscore, -⟩ | ⟨row, hrow, -, rfl⟩ := mem_update hscore
      · exact hk.scoresBelow score hscore
      · rw [hid]
        exact hk.scoresBelow row hrow }

/-! ## Rows stay -/

/-- No revision is gone or changed, and the scores keep their ids and uuids. -/
structure Grows (tables tables' : ScoreTables) : Prop where
  revisions : ∀ revision ∈ tables.revisions, revision ∈ tables'.revisions
  scores : ∀ score ∈ tables.scores, ∃ score' ∈ tables'.scores,
    score'.id = score.id ∧ score'.scoreUuid = score.scoreUuid

variable {tables'' : ScoreTables}

theorem Grows.refl (tables : ScoreTables) : tables.Grows tables :=
  ⟨fun _ hr => hr, fun score hscore => ⟨score, hscore, rfl, rfl⟩⟩

theorem Grows.trans (h : tables.Grows tables') (h' : tables'.Grows tables'') :
    tables.Grows tables'' where
  revisions := fun revision hr => h'.revisions _ (h.revisions _ hr)
  scores := fun score hscore => by
    obtain ⟨score', hmem, hid, huuid⟩ := h.scores score hscore
    obtain ⟨score'', hmem', hid', huuid'⟩ := h'.scores score' hmem
    exact ⟨score'', hmem', hid'.trans hid, huuid'.trans huuid⟩

theorem grows_addScore {score : Score} (h : tables.addScore score = some tables') :
    tables.Grows tables' := by
  unfold ScoreTables.addScore at h
  split_ifs at h
  cases h
  exact ⟨fun _ hr => hr, fun score' hscore => ⟨score', List.mem_append_left _ hscore, rfl, rfl⟩⟩

theorem grows_addRevision {revision : ScoreRevision}
    (h : tables.addRevision revision = some tables') : tables.Grows tables' := by
  unfold ScoreTables.addRevision at h
  split_ifs at h
  cases h
  exact ⟨fun _ hr => List.mem_append_left _ hr, fun score hscore => ⟨score, hscore, rfl, rfl⟩⟩

theorem grows_addSource (source : ScoreRevisionSource) : tables.Grows (tables.addSource source) :=
  ⟨fun _ hr => hr, fun score hscore => ⟨score, hscore, rfl, rfl⟩⟩

theorem grows_saveScore (scoreId : ScoreId) {f : Score → Score}
    (hid : ∀ score, (f score).id = score.id)
    (huuid : ∀ score, (f score).scoreUuid = score.scoreUuid) :
    tables.Grows (tables.saveScore scoreId f) := by
  refine ⟨fun _ hr => hr, fun score hscore => ?_⟩
  by_cases hsame : score.id = scoreId
  · refine ⟨f score, List.mem_map.mpr ⟨score, hscore, if_pos hsame⟩, hid score, huuid score⟩
  · exact ⟨score, mem_update_of_ne hscore hsame, rfl, rfl⟩

end ScoreTables

/-- The transaction that makes a revision keeps the keys and the rows. -/
theorem keyed_commit {draft : RevisionDraft} {tables tables' : ScoreTables} {sourceUuid : String}
    (hk : tables.Keyed)
    (h : draft.commit tables sourceUuid = some tables') :
    tables'.Keyed ∧ tables.Grows tables' := by
  obtain ⟨tables₁, hadd, rfl⟩ := Option.map_eq_some_iff.mp h
  have hadded : tables₁.Keyed := hk.addRevision rfl hadd
  have hsource : (tables₁.addSource (draft.source sourceUuid tables.nextRevisionId)).Keyed :=
    { hadded with }
  exact ⟨hsource.saveScore _ (fun _ => rfl) fun _ => rfl,
    ((ScoreTables.grows_addRevision hadd).trans (ScoreTables.grows_addSource _)).trans
      (ScoreTables.grows_saveScore _ (fun _ => rfl) fun _ => rfl)⟩

end NoteVerse.Backend

import NoteVerse.Backend.RevisionHistory
import NoteVerse.Backend.ScoreKeys

/-!
# Repeated saves

What a save with an idempotency key has found or made stays in the tables, with
what the save has read of it (`RevisionPhase.Knows`, `knows_step`). A save that
made a revision has recorded its key there. One that was answered with the
unchanged base has recorded nothing, so a repetition is read like a new save
(`repeat_read`): `repeated_save` says when it gets the same answer.
-/

namespace NoteVerse.Backend

open Table Transition

/-! ## What a save has read -/

/-- The score of a uuid is active and has this id. -/
def ScoreTables.Row (tables : ScoreTables) (scoreUuid : String) (scoreId : ScoreId) : Prop :=
  ∃ row ∈ tables.scores, row.scoreUuid = scoreUuid ∧ row.id = scoreId ∧
    row.deletionStatus = .active

/-- What a save has found: the revision of its key, or the base with its content. -/
structure RevisionService.Found (service : RevisionService) (tables : ScoreTables)
    (scoreUuid : String) (create : RevisionCreateRequest) (revision : ScoreRevision) : Prop where
  mem : revision ∈ tables.revisions
  row : tables.Row scoreUuid revision.scoreId
  valid : service.validateMusicxmlDocument create.content = true
  answer : revision.idempotencyKey = create.idempotencyKey ∨
    revision.revisionUuid = create.baseRevisionId ∧
      revision.contentHash = service.sha256 create.content

/-- What the draft of a save has of its request. -/
structure RevisionService.Drafts (service : RevisionService) (tables : ScoreTables)
    (scoreUuid : String) (create : RevisionCreateRequest) (draft : RevisionDraft) : Prop where
  row : tables.Row scoreUuid draft.score.id
  valid : service.validateMusicxmlDocument create.content = true
  key : draft.idempotencyKey = create.idempotencyKey

/-- What the tables and the request say of a phase. -/
def RevisionPhase.Knows (service : RevisionService) (tables : ScoreTables)
    (request : RevisionRequest) : RevisionPhase → Prop
  | authorized score => score.scoreUuid = request.scoreUuid ∧ tables.Row request.scoreUuid score.id
  | reserved draft _ => ∀ scoreUuid userId create, request = .create scoreUuid userId create →
      service.Drafts tables scoreUuid create draft
  | stored draft _ => ∀ scoreUuid userId create, request = .create scoreUuid userId create →
      service.Drafts tables scoreUuid create draft
  | committed draft _ _ _ => ∀ scoreUuid userId create, request = .create scoreUuid userId create →
      service.Drafts tables scoreUuid create draft
  | created draft _ _ => ∀ scoreUuid userId create, request = .create scoreUuid userId create →
      service.Drafts tables scoreUuid create draft
  | answered revision => ∀ scoreUuid userId create, request = .create scoreUuid userId create →
      service.Found tables scoreUuid create revision
  | _ => True

/-- Rows of scores and revisions stay, with their uuids and their deletion status. -/
structure ScoreTables.Keeps (tables tables' : ScoreTables) : Prop where
  revisions : ∀ revision ∈ tables.revisions, revision ∈ tables'.revisions
  rows : ∀ scoreUuid scoreId, tables.Row scoreUuid scoreId → tables'.Row scoreUuid scoreId

theorem ScoreTables.Keeps.refl (tables : ScoreTables) : tables.Keeps tables :=
  ⟨fun _ h => h, fun _ _ h => h⟩

section Keeps

variable {service : RevisionService} {tables tables' : ScoreTables} {scoreUuid : String}
  {create : RevisionCreateRequest} {revision : ScoreRevision} {draft : RevisionDraft}

theorem RevisionService.Found.mono (hk : tables.Keeps tables')
    (h : service.Found tables scoreUuid create revision) :
    service.Found tables' scoreUuid create revision :=
  ⟨hk.revisions _ h.mem, hk.rows _ _ h.row, h.valid, h.answer⟩

theorem RevisionService.Drafts.mono (hk : tables.Keeps tables')
    (h : service.Drafts tables scoreUuid create draft) :
    service.Drafts tables' scoreUuid create draft :=
  ⟨hk.rows _ _ h.row, h.valid, h.key⟩

theorem RevisionPhase.Knows.mono {request : RevisionRequest} {phase : RevisionPhase}
    (hk : tables.Keeps tables') (h : phase.Knows service tables request) :
    phase.Knows service tables' request := by
  cases phase with
  | authorized score => exact ⟨h.1, hk.rows _ _ h.2⟩
  | reserved draft reservationId => exact fun _ _ _ e => (h _ _ _ e).mono hk
  | stored draft reservationId => exact fun _ _ _ e => (h _ _ _ e).mono hk
  | committed draft reservationId sourceUuid revisionId =>
    exact fun _ _ _ e => (h _ _ _ e).mono hk
  | created draft reservationId revisionId => exact fun _ _ _ e => (h _ _ _ e).mono hk
  | answered revision => exact fun _ _ _ e => (h _ _ _ e).mono hk
  | received => trivial
  | failing error stored draft reservationId => trivial
  | failed error reservationId => trivial

theorem keeps_commit {sourceUuid : String} (h : draft.commit tables sourceUuid = some tables') :
    tables.Keeps tables' := by
  obtain ⟨-, hrevisions, -, hscores⟩ := RevisionWorld.commit_cases h
  refine ⟨fun revision hr => ?_, fun scoreUuid scoreId ⟨row, hrow, huuid, hid, hactive⟩ => ?_⟩
  · rw [hrevisions]
    exact List.mem_append_left _ hr
  · unfold ScoreTables.Row
    rw [hscores]
    by_cases hsame : row.id = draft.score.id
    · exact ⟨_, List.mem_map.mpr ⟨row, hrow, if_pos hsame⟩, huuid, hid, hactive⟩
    · exact ⟨row, mem_update_of_ne hrow hsame, huuid, hid, hactive⟩

end Keeps

/-! ## The readings -/

section Readings

variable {service : RevisionService} {world : RevisionWorld} {score : Score}
  {create : RevisionCreateRequest} {userId : UserId} {revisionUuid scoreUuid : String}
  {revision : ScoreRevision} {draft : RevisionDraft}

theorem row_of_authorize {tables : ScoreTables} {request : RevisionRequest} {editor : Bool}
    (h : authorizeEdit tables request editor = .ok score) :
    score.scoreUuid = request.scoreUuid ∧ tables.Row request.scoreUuid score.id := by
  unfold authorizeEdit at h
  split at h
  · cases h
  · rename_i row hrow
    split at h
    · cases h
    · split_ifs at h
      cases h
      have hfound := List.find?_some hrow
      obtain ⟨huuid, hactive⟩ := of_decide_eq_true hfound
      exact ⟨huuid, score, List.mem_of_find?_eq_some hrow, huuid, rfl, hactive⟩

theorem idempotentRevision_cases {tables : ScoreTables} {idempotencyKey : Option String}
    (h : idempotentRevision tables score idempotencyKey = some revision) :
    revision ∈ tables.revisions ∧ revision.scoreId = score.id ∧
      revision.idempotencyKey = idempotencyKey := by
  unfold idempotentRevision at h
  split at h
  · split_ifs at h
    have hfound := List.find?_some h
    obtain ⟨hscore, hkey⟩ := of_decide_eq_true hfound
    exact ⟨List.mem_of_find?_eq_some h, hscore, hkey⟩
  · cases h

theorem found_of_readCreate (hrow : world.tables.Row scoreUuid score.id)
    (h : service.readCreate world score userId create revisionUuid = .ok (.existing revision)) :
    service.Found world.tables scoreUuid create revision := by
  unfold RevisionService.readCreate at h
  split_ifs at h with hvalid
  have hvalid : service.validateMusicxmlDocument create.content = true := by
    simpa using hvalid
  split at h
  · rename_i existing hexisting
    cases h
    obtain ⟨hmem, hscore, hkey⟩ := idempotentRevision_cases hexisting
    exact ⟨hmem, hscore ▸ hrow, hvalid, .inl hkey⟩
  · split at h
    · cases h
    · rename_i base hbase
      split_ifs at h with hscore hhead hsame
      · cases h
        rw [ne_eq, not_not] at hscore
        exact ⟨find_mem hbase, hscore ▸ hrow, hvalid, .inr ⟨find_key hbase, hsame⟩⟩
      · cases h

theorem drafts_of_readCreate (hrow : world.tables.Row scoreUuid score.id)
    (h : service.readCreate world score userId create revisionUuid = .ok (.draft draft)) :
    service.Drafts world.tables scoreUuid create draft := by
  unfold RevisionService.readCreate at h
  split_ifs at h with hvalid
  have hvalid : service.validateMusicxmlDocument create.content = true := by
    simpa using hvalid
  split at h
  · cases h
  · split at h
    · cases h
    · split_ifs at h
      · cases h
      · cases h
        exact ⟨hrow, hvalid, rfl⟩

end Readings

/-! ## The steps -/

namespace RevisionWorld

/-- What is known of every request. -/
structure Knowing (service : RevisionService) (world : RevisionWorld) : Prop where
  keyed : world.tables.Keyed
  phases : ∀ requestId request phase, world.requests requestId = some (request, phase) →
    phase.Knows service world.tables request

variable {service : RevisionService} {start : StorageDb} {world world' : RevisionWorld}
  {action : RevisionAction} {requestId : Nat} {request : RevisionRequest}
  {revision : ScoreRevision}

variable {phase : RevisionPhase} {tables : ScoreTables} {usage : StorageDb} {score : Score}
  {create : RevisionCreateRequest}

theorem phase_of_answered
    (h : PhaseStep service world request phase tables usage (.answered revision)) :
    (∃ score, phase = .authorized score) ∧ tables = world.tables := by
  cases h with
  | answer => exact ⟨⟨_, rfl⟩, rfl⟩

/-- A request is answered by what it reads. -/
theorem read_of_answered (hs : Step service world action world')
    (hr : world.requests action.requestId = some (request, .authorized score))
    (hanswered : world'.requests action.requestId = some (request, .answered revision)) :
    ∃ revisionUuid, service.read world score request revisionUuid = .ok (.existing revision) := by
  cases action with
  | reserve requestId revisionUuid reservationUuid =>
    have hr : world.requests requestId = some (request, .authorized score) := hr
    simp only [Step, next, hr, Option.some.injEq] at hs
    refine ⟨revisionUuid, ?_⟩
    unfold reserveFor at hs
    split at hs
    · rw [← hs] at hanswered
      simp [setPhase, RevisionAction.requestId] at hanswered
    · rename_i existing hread
      rw [← hs] at hanswered
      simp only [setPhase, RevisionAction.requestId, Function.update_self, Option.some.injEq,
        Prod.mk.injEq, RevisionPhase.answered.injEq, true_and] at hanswered
      rw [hread, hanswered]
    · split at hs
      · rw [← hs] at hanswered
        simp [setPhase, RevisionAction.requestId] at hanswered
      · rw [← hs] at hanswered
        simp [setPhase, RevisionAction.requestId] at hanswered
  | submit requestId' request' =>
    have hr : world.requests requestId' = some (request, .authorized score) := hr
    simp [Step, next, hr] at hs
  | authorize requestId' editor =>
    have hr : world.requests requestId' = some (request, .authorized score) := hr
    simp [Step, next, hr] at hs
  | putBytes requestId' raises =>
    have hr : world.requests requestId' = some (request, .authorized score) := hr
    simp [Step, next, hr] at hs
  | commit requestId' sourceUuid raises =>
    have hr : world.requests requestId' = some (request, .authorized score) := hr
    simp [Step, next, hr] at hs
  | release requestId' deleteRaises =>
    have hr : world.requests requestId' = some (request, .authorized score) := hr
    simp [Step, next, hr] at hs
  | commitReservation requestId' =>
    have hr : world.requests requestId' = some (request, .authorized score) := hr
    simp [Step, next, hr] at hs

theorem PhaseStep.keeps {phase' : RevisionPhase} (hkeyed : world.tables.Keyed)
    (h : PhaseStep service world request phase tables usage phase') :
    tables.Keyed ∧ world.tables.Keeps tables := by
  obtain ⟨rfl, -⟩ | ⟨draft, reservationId, sourceUuid, -, -, hcommit⟩ := h.tables_cases
  · exact ⟨hkeyed, .refl _⟩
  · exact ⟨(keyed_commit hkeyed hcommit).1, keeps_commit hcommit⟩

/-- What is known of the request that a step is about, but for its answer. -/
theorem PhaseStep.knows {phase' : RevisionPhase} (hkeyed : world.tables.Keyed)
    (hknows : phase.Knows service world.tables request)
    (h : PhaseStep service world request phase tables usage phase')
    (hanswer : ∀ revision, phase' = .answered revision →
      phase'.Knows service world.tables request) :
    phase'.Knows service tables request := by
  have hkeeps := (h.keeps hkeyed).2
  cases h with
  | authorize h => exact row_of_authorize h
  | raise => trivial
  | answer => exact (hanswer _ rfl).mono hkeeps
  | @reserve score draft revisionUuid _ _ hread =>
    rintro scoreUuid userId create rfl
    unfold RevisionService.read at hread
    split at hread
    · cases hread
    · exact drafts_of_readCreate hknows.2 hread
  | put => exact hknows
  | fail => trivial
  | commit h => exact fun _ _ _ e => (hknows _ _ _ e).mono hkeeps
  | release => trivial
  | settle => exact hknows

theorem Knowing.step (hv : Valid start world) (hk : Knowing service world)
    (hs : Step service world action world') : Knowing service world' := by
  obtain ⟨request, hnone, htables, -, hrequests⟩ |
    ⟨request, phase, hr, phase', hstep, hrequests⟩ := step_cases hv hs
  · refine ⟨htables ▸ hk.keyed, fun i request' phase' h => ?_⟩
    rw [hrequests, Function.update_apply] at h
    rw [htables]
    split_ifs at h
    · cases h
      trivial
    · exact hk.phases i request' phase' h
  · obtain ⟨hkeyed, hkeeps⟩ := hstep.keeps hk.keyed
    refine ⟨hkeyed, fun i request' phase'' h => ?_⟩
    have hthis : world'.requests action.requestId = some (request, phase') := by
      rw [hrequests, Function.update_self]
    rw [hrequests, Function.update_apply] at h
    split_ifs at h
    · cases h
      refine hstep.knows hk.keyed (hk.phases _ _ _ hr) fun revision hphase => ?_
      subst hphase
      obtain ⟨⟨score, rfl⟩, -⟩ := phase_of_answered hstep
      obtain ⟨revisionUuid, hread⟩ := read_of_answered hs hr hthis
      rintro scoreUuid userId create rfl
      unfold RevisionService.read at hread
      split at hread
      · cases hread
      · exact found_of_readCreate (hk.phases _ _ _ hr).2 hread
    · exact (hk.phases i request' phase'' h).mono hkeeps

/-! ## A repetition -/

/-- A save has succeeded with a revision, one that it has found or made. -/
def Succeeded (world : RevisionWorld) (requestId : Nat) (request : RevisionRequest)
    (revision : ScoreRevision) : Prop :=
  world.requests requestId = some (request, .answered revision) ∨
    ∃ draft reservationId revisionId, revision = draft.revision revisionId ∧
      world.requests requestId = some (request, .created draft reservationId revisionId)

theorem found_of_succeeded (hv : Valid start world) (hk : Knowing service world)
    {scoreUuid : String} {userId : UserId}
    (h : world.Succeeded requestId (.create scoreUuid userId create) revision) :
    service.Found world.tables scoreUuid create revision := by
  obtain h | ⟨draft, reservationId, revisionId, rfl, h⟩ := h
  · exact hk.phases _ _ _ h _ _ _ rfl
  · obtain ⟨hrow, hvalid, hkey⟩ := hk.phases _ _ _ h _ _ _ rfl
    exact ⟨hv.phases _ _ _ h, hrow, hvalid, .inl hkey⟩

/-- The key of a save leads to its revision, or no revision has been made under it
and the revision is the head. -/
def Repeatable (tables : ScoreTables) (score : Score) (key : String) (revision : ScoreRevision) :
    Prop :=
  revision.idempotencyKey = some key ∨
    (∀ other ∈ tables.revisions, other.scoreId = score.id → other.idempotencyKey ≠ some key) ∧
      score.headRevisionId = some revision.id

/-- A save is read again, by a user who may still edit. -/
theorem repeat_read (hkeyed : world.tables.Keyed) {userId : UserId} {key revisionUuid : String}
    (hkey : create.idempotencyKey = some key) (hne : key ≠ "")
    (hfound : service.Found world.tables score.scoreUuid create revision)
    (hid : revision.scoreId = score.id) :
    service.readCreate world score userId create revisionUuid = .ok (.existing revision) ↔
      Repeatable world.tables score key revision := by
  unfold RevisionService.readCreate
  rw [if_neg (by rw [hfound.valid]; decide)]
  cases hexisting : idempotentRevision world.tables score create.idempotencyKey with
  | some existing =>
    obtain ⟨hmem, hscore, hexistingKey⟩ := idempotentRevision_cases hexisting
    dsimp only
    constructor
    · intro h
      cases h
      exact .inl (hexistingKey.trans hkey)
    · rintro (hmade | ⟨hnone, -⟩)
      · rw [hkeyed.keys existing hmem revision hfound.mem (hscore.trans hid.symm)
          (hexistingKey.trans (hkey.trans hmade.symm)) (by rw [hexistingKey, hkey]; rfl)]
      · exact absurd (hexistingKey.trans hkey) (hnone existing hmem hscore)
  | none =>
    have hnone : ∀ other ∈ world.tables.revisions, other.scoreId = score.id →
        other.idempotencyKey ≠ some key := by
      intro other hother hscore hotherKey
      rw [hkey, idempotentRevision, if_neg hne] at hexisting
      exact List.find?_eq_none.mp hexisting other hother (decide_eq_true ⟨hscore, hotherKey⟩)
    have hunkeyed := hnone revision hfound.mem hid
    obtain ⟨huuid, hcontent⟩ := hfound.answer.resolve_left fun h => hunkeyed (h.trans hkey)
    have hbase : world.tables.revision create.baseRevisionId = some revision := by
      rw [ScoreTables.revision, ← huuid]
      exact find_of_mem hkeyed.revisionUuids hfound.mem
    rw [hbase]
    dsimp only
    rw [if_neg (not_not.mpr hid)]
    by_cases hhead : score.headRevisionId = some revision.id
    · rw [if_neg (not_not.mpr hhead), if_pos hcontent]
      exact ⟨fun _ => .inr ⟨hnone, hhead⟩, fun _ => rfl⟩
    · rw [if_pos hhead]
      constructor
      · intro h
        cases h
      · rintro (hmade | ⟨-, hstill⟩)
        · exact absurd hmade hunkeyed
        · exact absurd hstill hhead

theorem answered_reserveFor_iff {revisionUuid reservationUuid : String} :
    (world.reserveFor service requestId request score revisionUuid reservationUuid).requests
        requestId = some (request, .answered revision) ↔
      service.read world score request revisionUuid = .ok (.existing revision) := by
  unfold reserveFor
  split
  · rename_i error hread
    simp [setPhase, hread]
  · rename_i existing hread
    simp [setPhase, hread]
  · rename_i draft hread
    split
    · simp [setPhase, hread]
    · simp [setPhase, hread]

theorem knowing_of_reachable (hstart : world.Initial) (hkeyed : world.tables.Keyed)
    (h : Reachable (· = world) (Step service) world') :
    Valid world.usage world' ∧ Knowing service world' := by
  refine h.invariant (p := fun world' => Valid world.usage world' ∧ Knowing service world') ?_ ?_
  · rintro _ rfl
    refine ⟨hstart.valid, hkeyed, fun requestId request phase hphase => ?_⟩
    rw [hstart.requests] at hphase
    cases hphase
  · rintro world₁ action world₂ ⟨hv, hk⟩ hs
    exact ⟨hv.step hs, hk.step hv hs⟩

/-- What a save has found is there in every later world. -/
theorem found_later (hv : Valid start world) (hk : Knowing service world) {scoreUuid : String}
    (hfound : service.Found world.tables scoreUuid create revision)
    (h : Reachable (· = world) (Step service) world') :
    Valid start world' ∧ Knowing service world' ∧
      service.Found world'.tables scoreUuid create revision := by
  refine h.invariant (p := fun world' => Valid start world' ∧ Knowing service world' ∧
    service.Found world'.tables scoreUuid create revision) ?_ ?_
  · rintro _ rfl
    exact ⟨hv, hk, hfound⟩
  · rintro world₁ action world₂ ⟨hv, hk, hfound⟩ hs
    refine ⟨hv.step hs, hk.step hv hs, ?_⟩
    obtain ⟨_, -, htables, -, -⟩ | ⟨_, _, -, _, hstep, -⟩ := step_cases hv hs
    · rw [htables]
      exact hfound
    · exact hfound.mono (hstep.keeps hk.keyed).2

/-- After a save with a key has succeeded with a revision, a repetition by a user
who may still edit succeeds with the same revision, in every later world, exactly
if the revision was made under the key, or none has been made under it since and
the revision is still the head. At most one revision of the score has the key. -/
theorem repeated_save (service : RevisionService) {start world : RevisionWorld}
    (hstart : start.Initial) (hkeyed : start.tables.Keyed)
    (hreach : Reachable (· = start) (Step service) world) {requestId : Nat} {scoreUuid : String}
    {userId : UserId} {create : RevisionCreateRequest} {key : String}
    (hkey : create.idempotencyKey = some key) (hne : key ≠ "") {revision : ScoreRevision}
    (hsuccess : world.Succeeded requestId (.create scoreUuid userId create) revision)
    {later : RevisionWorld} (hlater : Reachable (· = world) (Step service) later) :
    (∀ repeatId userId' score revisionUuid reservationUuid,
      later.requests repeatId = some (.create scoreUuid userId' create, .authorized score) →
        ((later.reserveFor service repeatId (.create scoreUuid userId' create) score revisionUuid
            reservationUuid).requests repeatId =
            some (.create scoreUuid userId' create, .answered revision) ↔
          Repeatable later.tables score key revision)) ∧
      ∀ made ∈ later.tables.revisions, ∀ other ∈ later.tables.revisions,
        made.scoreId = other.scoreId → made.idempotencyKey = some key →
          other.idempotencyKey = some key → made = other := by
  obtain ⟨hv, hk⟩ := knowing_of_reachable hstart hkeyed hreach
  obtain ⟨hv', hk', hfound⟩ := found_later hv hk (found_of_succeeded hv hk hsuccess) hlater
  refine ⟨fun repeatId userId' score revisionUuid reservationUuid hrepeat => ?_,
    fun made hmade other hother hscore hmadeKey hotherKey => ?_⟩
  · obtain ⟨huuid, row, hrow, hrowUuid, hrowId, hactive⟩ := hk'.phases _ _ _ hrepeat
    obtain ⟨found, hmem, hfoundUuid, hfoundId, -⟩ := hfound.row
    have hid : revision.scoreId = score.id := by
      rw [← hfoundId, ← hrowId, List.inj_on_of_nodup_map hk'.keyed.scoreUuids hmem hrow
        (hfoundUuid.trans hrowUuid.symm)]
    have hread : service.read later score (.create scoreUuid userId' create) revisionUuid =
        service.readCreate later score userId' create revisionUuid := by
      unfold RevisionService.read
      split
      · rename_i hnone
        refine absurd (decide_eq_true ⟨?_, hactive⟩) (List.find?_eq_none.mp hnone row hrow)
        rw [hrowUuid, huuid]
      · rfl
    rw [answered_reserveFor_iff, hread]
    refine repeat_read hk'.keyed hkey hne ?_ hid
    rw [huuid]
    exact hfound
  · exact hk'.keyed.keys made hmade other hother hscore (hmadeKey.trans hotherKey.symm)
      (by rw [hmadeKey]; rfl)

theorem startingTables_keyed : startingTables.Keyed where
  scoreIds := by decide
  scoreUuids := by decide
  scoresBelow := by decide
  revisionIds := by decide
  revisionUuids := by decide
  revisionsBelow := by decide
  keys := by decide

/-- A save with a key that makes a revision, and one that changes nothing. -/
def changingSave : RevisionCreateRequest := ⟨"b", "r-1", some "changing", .edit⟩

def unchangedSave : RevisionCreateRequest := ⟨"a", "r-1", some "unchanged", .edit⟩

/-- Saves up to their ends, under the request ids 0 and 1. -/
def saveUnchanged : List RevisionAction :=
  [.submit 0 (.create "s-1" 1 unchangedSave), .authorize 0 false, .reserve 0 "r-2" "u-2"]

def saveChanging : List RevisionAction :=
  [.submit 1 (.create "s-1" 1 changingSave), .authorize 1 false, .reserve 1 "r-2" "u-2",
    .putBytes 1 false, .commit 1 "o-2" false, .commitReservation 1]

def repeatOf (request : RevisionCreateRequest) : List RevisionAction :=
  [.submit 2 (.create "s-1" 1 request), .authorize 2 false]

/-- The worlds that the runs lead to. -/
def after (actions : List RevisionAction) : RevisionWorld :=
  (run (next plainRevisions) startingWorld actions).getD startingWorld

def firstRevision : ScoreRevision := ⟨1, "r-1", 1, 1, none, none, "a", none, .omr, some 1, none⟩

def secondRevision : ScoreRevision :=
  ⟨2, "r-2", 1, 2, some 1, some 1, "b", some "changing", .edit, some 1, none⟩

def changingDraft : RevisionDraft where
  score := ⟨1, "s-1", 1, "Etude", some 1, none, 1, .active⟩
  userId := 1
  revisionUuid := "r-2"
  revisionNumber := 2
  parentRevisionId := 1
  baseRevisionId := 1
  contentHash := "b"
  idempotencyKey := some "changing"
  origin := .edit
  content := "b"
  mimeType := "application/vnd.recordare.musicxml+xml"
  generator := "editor"
  reason := "revision_create"

theorem reachable_after {before rest : List RevisionAction}
    (h : (run (next plainRevisions) startingWorld (before ++ rest)).isSome) :
    Reachable (· = startingWorld) (Step plainRevisions) (after before) ∧
      Reachable (· = after before) (Step plainRevisions) (after (before ++ rest)) := by
  rw [run_append] at h
  obtain ⟨later, hlater⟩ := Option.isSome_iff_exists.mp h
  obtain ⟨world, hworld, hrest⟩ := Option.bind_eq_some_iff.mp hlater
  have hbefore : after before = world := by rw [after, hworld]; rfl
  have hall : after (before ++ rest) = later := by rw [after, run_append, hlater]; rfl
  rw [hbefore, hall]
  exact ⟨reachable_run hworld, reachable_run hrest⟩

/-- The save that made a revision is sent again and gets it. -/
theorem repeated_save_changing :
    ((after (saveChanging ++ repeatOf changingSave)).reserveFor plainRevisions 2
      (.create "s-1" 1 changingSave) ⟨1, "s-1", 1, "Etude", some 2, none, 2, .active⟩ "r-3"
      "u-3").requests 2 =
        some (.create "s-1" 1 changingSave, .answered secondRevision) := by
  have hreach := @reachable_after saveChanging (repeatOf changingSave) (by decide)
  have hmade : (after saveChanging).Succeeded 1 (.create "s-1" 1 changingSave) secondRevision :=
    .inr ⟨changingDraft, "u-2", 2, rfl, by decide⟩
  exact ((repeated_save plainRevisions startingWorld_initial startingTables_keyed hreach.1 rfl
    (by decide) hmade hreach.2).1 2 1 _ "r-3" "u-3" (by decide)).mpr (.inl rfl)

/-- A save that changes nothing is answered with its base; once another save has
moved the head, the same save is a conflict. -/
theorem unchanged_save_conflicts :
    Reachable (· = startingWorld) (Step plainRevisions) (after saveUnchanged) ∧
      (after saveUnchanged).Succeeded 0 (.create "s-1" 1 unchangedSave) firstRevision ∧
      ∃ later, Reachable (· = after saveUnchanged) (Step plainRevisions) later ∧
        ∃ score, later.requests 2 = some (.create "s-1" 1 unchangedSave, .authorized score) ∧
          (later.reserveFor plainRevisions 2 (.create "s-1" 1 unchangedSave) score "r-3"
            "u-3").requests 2 = some (.create "s-1" 1 unchangedSave,
              .failed (.conflict "s-1" "r-1" (some "r-2")) none) := by
  have hreach := @reachable_after saveUnchanged (saveChanging ++ repeatOf unchangedSave) (by decide)
  exact ⟨hreach.1, .inl (by decide), _, hreach.2,
    ⟨1, "s-1", 1, "Etude", some 2, none, 2, .active⟩, by decide, by decide⟩

end RevisionWorld

end NoteVerse.Backend

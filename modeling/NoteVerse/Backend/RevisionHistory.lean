import NoteVerse.Backend.Revisions
import NoteVerse.Backend.StorageReservations

/-!
# The history of a score is linear

A request checks that its base is the head before it gives the lock on the
score away, and nothing checks it again: what makes its revision replace the
head it has read is the constraint on the numbers (`head_of_commit`). `Valid`
is the invariant of the whole system, with what each phase of a request knows
(`PhaseOk`); a step changes one request (`step_cases`), and keeps what the
others know.
-/

namespace NoteVerse.Backend

open Table Transition

/-! ## Linear histories -/

/-- The numbers are 1 to `n`, each revision replaces the one before it, and
the last one is the head. -/
structure LinearHistory (score : Score) (revisions : List ScoreRevision) : Prop where
  numbers : revisions.map (·.revisionNumber) = List.range' 1 revisions.length
  parents : ∀ r ∈ revisions, ∀ r' ∈ revisions, r'.revisionNumber = r.revisionNumber + 1 →
    r'.parentRevisionId = some r.id
  root : ∀ r ∈ revisions, r.revisionNumber = 1 → r.parentRevisionId = none
  head : ∃ r ∈ revisions, r.revisionNumber = revisions.length ∧ score.headRevisionId = some r.id

namespace LinearHistory

variable {score score' : Score} {revisions : List ScoreRevision} {r r' : ScoreRevision}

theorem number_mem_iff (h : LinearHistory score revisions) (n : Nat) :
    n ∈ revisions.map (·.revisionNumber) ↔ 1 ≤ n ∧ n ≤ revisions.length := by
  rw [h.numbers, List.mem_range'_1]
  omega

theorem number_le (h : LinearHistory score revisions) (hr : r ∈ revisions) :
    1 ≤ r.revisionNumber ∧ r.revisionNumber ≤ revisions.length :=
  (h.number_mem_iff _).mp (List.mem_map_of_mem hr)

theorem eq_of_number (h : LinearHistory score revisions) (hr : r ∈ revisions)
    (hr' : r' ∈ revisions) (e : r.revisionNumber = r'.revisionNumber) : r = r' := by
  have hn : (revisions.map (·.revisionNumber)).Nodup := by
    rw [h.numbers]
    exact List.nodup_range'
  exact List.inj_on_of_nodup_map hn hr hr' e

/-- A revision whose next number is free is the head. -/
theorem head_of_next_free (h : LinearHistory score revisions) (hr : r ∈ revisions)
    (hfree : ∀ r' ∈ revisions, r'.revisionNumber ≠ r.revisionNumber + 1) :
    r.revisionNumber = revisions.length ∧ score.headRevisionId = some r.id := by
  have hle := h.number_le hr
  have hlast : r.revisionNumber = revisions.length := by
    by_contra hne
    obtain ⟨r', hr', e⟩ := List.mem_map.mp
      ((h.number_mem_iff (r.revisionNumber + 1)).mpr (by omega))
    exact hfree r' hr' e
  obtain ⟨head, hhead, hnumber, hid⟩ := h.head
  rw [h.eq_of_number hr hhead (hlast.trans hnumber.symm)]
  exact ⟨hnumber, hid⟩

/-- A revision that replaces the head is the next one of the history. -/
theorem append (h : LinearHistory score revisions) (hr : r ∈ revisions)
    (hlast : r.revisionNumber = revisions.length)
    (hnumber : r'.revisionNumber = r.revisionNumber + 1)
    (hparent : r'.parentRevisionId = some r.id) (hhead : score'.headRevisionId = some r'.id) :
    LinearHistory score' (revisions ++ [r']) where
  numbers := by
    rw [List.map_append, h.numbers, List.length_append, List.length_singleton,
      List.range'_concat, List.map_singleton, hnumber, hlast]
    simp [Nat.add_comm]
  parents s hs s' hs' e := by
    rw [List.mem_append, List.mem_singleton] at hs hs'
    rcases hs with hs | rfl
    · rcases hs' with hs' | rfl
      · exact h.parents s hs s' hs' e
      · rw [hparent, h.eq_of_number hs hr (by omega)]
    · rcases hs' with hs' | rfl
      · have hle := h.number_le hs'
        omega
      · omega
  root s hs e := by
    rw [List.mem_append, List.mem_singleton] at hs
    rcases hs with hs | rfl
    · exact h.root s hs e
    · have hle := h.number_le hr
      omega
  head := by
    refine ⟨r', List.mem_append_right _ (List.mem_singleton_self _), ?_, hhead⟩
    rw [List.length_append, List.length_singleton, hnumber, hlast]

end LinearHistory

/-! ## What a request knows -/

namespace RevisionPhase

/-- The reservation that a request has made, and its status. -/
def reservation : RevisionPhase → Option (String × StorageUsageReservationStatus)
  | reserved _ reservationId => some (reservationId, .reserved)
  | stored _ reservationId => some (reservationId, .reserved)
  | failing _ _ _ reservationId => some (reservationId, .reserved)
  | committed _ reservationId _ _ => some (reservationId, .reserved)
  | created _ reservationId _ => some (reservationId, .committed)
  | failed _ (some reservationId) => some (reservationId, .released)
  | _ => none

/-- The revision that a request has made. -/
def made : RevisionPhase → Option (RevisionDraft × RevisionId)
  | committed draft _ _ revisionId => some (draft, revisionId)
  | created draft _ revisionId => some (draft, revisionId)
  | _ => none

end RevisionPhase

/-- The revision that a draft replaces. -/
structure RevisionDraft.Replaces (draft : RevisionDraft) (request : RevisionRequest)
    (parent : ScoreRevision) : Prop where
  id : parent.id = draft.parentRevisionId
  scoreId : parent.scoreId = draft.score.id
  number : draft.revisionNumber = parent.revisionNumber + 1
  /-- It was the head when the request has read it. -/
  read : draft.score.headRevisionId = some parent.id
  /-- It is the base that the request names. -/
  base : ∀ scoreUuid userId create, request = .create scoreUuid userId create →
    parent.revisionUuid = create.baseRevisionId ∧ draft.baseRevisionId = parent.id

namespace ScoreTables

/-- The loaded columns of a score point to one of its revisions. -/
def Loaded (tables : ScoreTables) (score : Score) : Prop :=
  (∃ row ∈ tables.scores, row.id = score.id) ∧
    ∃ head ∈ tables.revisions, score.headRevisionId = some head.id ∧ head.scoreId = score.id

/-- What a draft has to say of the tables. -/
def Drafted (tables : ScoreTables) (request : RevisionRequest) (draft : RevisionDraft) : Prop :=
  (∃ row ∈ tables.scores, row.id = draft.score.id) ∧
    ∃ parent ∈ tables.revisions, draft.Replaces request parent

/-- The tables after a transaction: no row is gone. -/
structure Extends (tables tables' : ScoreTables) : Prop where
  revisions : ∀ r ∈ tables.revisions, r ∈ tables'.revisions
  scores : ∀ id, (∃ row ∈ tables.scores, row.id = id) → ∃ row ∈ tables'.scores, row.id = id

theorem Extends.refl (tables : ScoreTables) : tables.Extends tables :=
  ⟨fun _ h => h, fun _ h => h⟩

theorem Loaded.mono {tables tables' : ScoreTables} {score : Score}
    (he : tables.Extends tables') (h : tables.Loaded score) : tables'.Loaded score := by
  obtain ⟨hrow, head, hmem, hhead⟩ := h
  exact ⟨he.scores _ hrow, head, he.revisions _ hmem, hhead⟩

theorem Drafted.mono {tables tables' : ScoreTables} {request : RevisionRequest}
    {draft : RevisionDraft} (he : tables.Extends tables') (h : tables.Drafted request draft) :
    tables'.Drafted request draft := by
  obtain ⟨hrow, parent, hmem, hparent⟩ := h
  exact ⟨he.scores _ hrow, parent, he.revisions _ hmem, hparent⟩

end ScoreTables

/-- What the tables say of a request in its phase. -/
def RevisionPhase.Ok (tables : ScoreTables) (request : RevisionRequest) : RevisionPhase → Prop
  | authorized score => tables.Loaded score
  | reserved draft _ => tables.Drafted request draft
  | stored draft _ => tables.Drafted request draft
  | committed draft _ _ revisionId => draft.revision revisionId ∈ tables.revisions
  | created draft _ revisionId => draft.revision revisionId ∈ tables.revisions
  | _ => True

theorem RevisionPhase.Ok.mono {tables tables' : ScoreTables} {request : RevisionRequest}
    {phase : RevisionPhase} (he : tables.Extends tables') (h : phase.Ok tables request) :
    phase.Ok tables' request := by
  cases phase with
  | authorized score => exact ScoreTables.Loaded.mono he h
  | reserved draft reservationId => exact ScoreTables.Drafted.mono he h
  | stored draft reservationId => exact ScoreTables.Drafted.mono he h
  | committed draft reservationId sourceUuid revisionId => exact he.revisions _ h
  | created draft reservationId revisionId => exact he.revisions _ h
  | received => trivial
  | failing error stored draft reservationId => trivial
  | answered revision => trivial
  | failed error reservationId => trivial

/-! ## The invariant -/

namespace RevisionWorld

/-- What the requests hold. -/
def holds (world : RevisionWorld) (requestId : Nat) :
    Option (String × StorageUsageReservationStatus) :=
  (world.requests requestId).bind fun request => request.2.reservation

/-- The state after the scores have been created, each with its first
revision. -/
structure Initial (world : RevisionWorld) : Prop where
  usage : Reachable EmptyAccounts StorageOperation.Step world.usage
  requests : ∀ requestId, world.requests requestId = none
  ids : (world.tables.revisions.map (·.id)).Nodup
  fresh : ∀ r ∈ world.tables.revisions, r.id < world.tables.nextRevisionId
  created : ∀ score ∈ world.tables.scores, ∃ revision,
    world.tables.revisionsOf score.id = [revision] ∧ revision.revisionNumber = 1 ∧
      revision.parentRevisionId = none ∧ score.headRevisionId = some revision.id

structure Valid (start : StorageDb) (world : RevisionWorld) : Prop where
  accounted : Accounted world.usage
  ids : (world.tables.revisions.map (·.id)).Nodup
  fresh : ∀ r ∈ world.tables.revisions, r.id < world.tables.nextRevisionId
  linear : ∀ score ∈ world.tables.scores,
    LinearHistory score (world.tables.revisionsOf score.id)
  phases : ∀ requestId request phase, world.requests requestId = some (request, phase) →
    phase.Ok world.tables request
  held : Held start.statusOf world.usage.statusOf world.holds

variable {requestId : Nat} {request : RevisionRequest} {phase : RevisionPhase}
  {draft : RevisionDraft} {tables : ScoreTables} {score : Score} {revisionUuid : String}

theorem holds_update {world world' : RevisionWorld}
    (h : world'.requests = Function.update world.requests requestId (some (request, phase))) :
    world'.holds = Function.update world.holds requestId phase.reservation := by
  funext i
  simp only [holds, h, Function.update_apply]
  split_ifs <;> rfl

theorem Initial.valid {world : RevisionWorld} (h : world.Initial) : Valid world.usage world where
  accounted := StorageOperation.accounted_of_reachable h.usage
  ids := h.ids
  fresh := h.fresh
  linear score hscore := by
    obtain ⟨revision, hrows, hnumber, hroot, hhead⟩ := h.created score hscore
    rw [hrows]
    refine ⟨by simp [hnumber], fun r hr r' hr' e => ?_, fun r hr _ => ?_,
      revision, List.mem_singleton_self _, hnumber, hhead⟩
    · rw [List.mem_singleton] at hr hr'
      subst hr hr'
      omega
    · rw [List.mem_singleton] at hr
      rw [hr, hroot]
  phases requestId request phase hphase := by
    rw [h.requests] at hphase
    cases hphase
  held := .of_start fun i => by rw [holds, h.requests]; rfl

/-! ## The steps -/

/-- What a step does to the request it is about: the tables and the phase
after it. -/
inductive PhaseStep (service : RevisionService) (world : RevisionWorld)
    (request : RevisionRequest) : RevisionPhase → ScoreTables → StorageDb → RevisionPhase → Prop
  | authorize {editor : Bool} {score : Score}
      (h : authorizeEdit world.tables request editor = .ok score) :
      PhaseStep service world request .received world.tables world.usage (.authorized score)
  | raise {phase : RevisionPhase} {error : RevisionError} (h : phase.reservation = none) :
      PhaseStep service world request phase world.tables world.usage (.failed error none)
  | answer {score : Score} {revision : ScoreRevision} :
      PhaseStep service world request (.authorized score) world.tables world.usage
        (.answered revision)
  | reserve {score : Score} {draft : RevisionDraft} {revisionUuid reservationId : String}
      {usage : StorageDb}
      (hread : service.read world score request revisionUuid = .ok (.draft draft))
      (hnew : world.usage.statusOf reservationId = none) (ha : Accounted usage)
      (hstatus : usage.statusOf =
        Function.update world.usage.statusOf reservationId (some .reserved)) :
      PhaseStep service world request (.authorized score) world.tables usage
        (.reserved draft reservationId)
  | put {draft : RevisionDraft} {reservationId : String} :
      PhaseStep service world request (.reserved draft reservationId) world.tables world.usage
        (.stored draft reservationId)
  | fail {phase : RevisionPhase} {error : RevisionError} {stored : Bool} {draft : RevisionDraft}
      {reservationId : String} (h : phase.reservation = some (reservationId, .reserved))
      (hmade : phase.made = none) :
      PhaseStep service world request phase world.tables world.usage
        (.failing error stored draft reservationId)
  | commit {draft : RevisionDraft} {reservationId sourceUuid : String} {tables : ScoreTables}
      (h : draft.commit world.tables sourceUuid = some tables) :
      PhaseStep service world request (.stored draft reservationId) tables world.usage
        (.committed draft reservationId sourceUuid world.tables.nextRevisionId)
  | release {error : RevisionError} {stored : Bool} {draft : RevisionDraft}
      {reservationId : String} {usage : StorageDb} (ha : Accounted usage)
      (hstatus : usage.statusOf =
        Function.update world.usage.statusOf reservationId (some .released)) :
      PhaseStep service world request (.failing error stored draft reservationId) world.tables
        usage (.failed error (some reservationId))
  | settle {draft : RevisionDraft} {reservationId sourceUuid : String}
      {revisionId : RevisionId} {usage : StorageDb} (ha : Accounted usage)
      (hstatus : usage.statusOf =
        Function.update world.usage.statusOf reservationId (some .committed)) :
      PhaseStep service world request (.committed draft reservationId sourceUuid revisionId)
        world.tables usage (.created draft reservationId revisionId)

variable {service : RevisionService} {start : StorageDb} {world world' : RevisionWorld}
  {action : RevisionAction}

/-- A request goes on from a phase. -/
def Advances (service : RevisionService) (world : RevisionWorld) (requestId : Nat)
    (request : RevisionRequest) (phase : RevisionPhase) (world' : RevisionWorld) : Prop :=
  ∃ phase', PhaseStep service world request phase world'.tables world'.usage phase' ∧
    world'.requests = Function.update world.requests requestId (some (request, phase'))

theorem Valid.statusOf (hv : Valid start world)
    (h : world.requests requestId = some (request, phase)) {uuid : String}
    {status : StorageUsageReservationStatus} (hphase : phase.reservation = some (uuid, status)) :
    world.usage.statusOf uuid = some status := by
  refine hv.held.statuses requestId uuid status ?_
  rw [holds, h]
  exact hphase

theorem reserveFor_advances (hv : Valid start world) (requestId : Nat)
    (request : RevisionRequest) (score : Score) (revisionUuid reservationUuid : String) :
    Advances service world requestId request (.authorized score)
      (world.reserveFor service requestId request score revisionUuid reservationUuid) := by
  unfold reserveFor
  split
  · exact ⟨_, .raise rfl, rfl⟩
  · exact ⟨_, .answer, rfl⟩
  · rename_i draft hread
    split
    · exact ⟨_, .raise rfl, rfl⟩
    · rename_i handle usage hreserve
      obtain ⟨hid, hnew, hstatus⟩ := reserve_statusOf hreserve
      rw [← hid] at hnew hstatus
      exact ⟨_, .reserve hread hnew (reserve_accounted hv.accounted hreserve) hstatus, rfl⟩

theorem releaseFor_advances (hv : Valid start world) {error : RevisionError} {stored : Bool}
    {reservationId : String}
    (h : world.requests requestId = some (request, .failing error stored draft reservationId))
    (deleteRaises : Bool) :
    Advances service world requestId request (.failing error stored draft reservationId)
      (world.releaseFor requestId request error stored draft reservationId deleteRaises) := by
  obtain ⟨usage, hrun, hstatus⟩ :=
    releaseReservation_statusOf hv.accounted (hv.statusOf h rfl)
  simp only [releaseFor, hrun]
  exact ⟨_, .release (releaseReservation_accounted hv.accounted hrun) hstatus, rfl⟩

theorem settleFor_advances (hv : Valid start world) {reservationId sourceUuid : String}
    {revisionId : RevisionId}
    (h : world.requests requestId =
      some (request, .committed draft reservationId sourceUuid revisionId)) :
    Advances service world requestId request
      (.committed draft reservationId sourceUuid revisionId)
      (world.settleFor requestId request draft reservationId sourceUuid revisionId) := by
  obtain ⟨usage, hrun, hstatus⟩ := commitReservation_statusOf hv.accounted (hv.statusOf h rfl)
    ⟨some "score_revision_source", some sourceUuid, some draft.key⟩
  simp only [settleFor, hrun]
  exact ⟨_, .settle (commitReservation_accounted hv.accounted hrun) hstatus, rfl⟩

/-- A request comes in, or one of those there are goes on. -/
theorem step_cases (hv : Valid start world) (hs : Step service world action world') :
    (∃ request, world.requests action.requestId = none ∧ world'.tables = world.tables ∧
      world'.usage = world.usage ∧ world'.requests =
        Function.update world.requests action.requestId (some (request, .received))) ∨
    ∃ request phase, world.requests action.requestId = some (request, phase) ∧
      Advances service world action.requestId request phase world' := by
  cases action with
  | submit requestId request =>
    simp only [Step, next] at hs
    split at hs
    · rename_i hnone
      cases hs
      exact .inl ⟨request, hnone, rfl, rfl, rfl⟩
    · cases hs
  | authorize requestId editor =>
    simp only [Step, next] at hs
    split at hs
    · rename_i request hr
      refine .inr ⟨request, _, hr, ?_⟩
      split at hs
      · cases hs
        exact ⟨_, .raise rfl, rfl⟩
      · rename_i score hscore
        cases hs
        exact ⟨_, .authorize hscore, rfl⟩
    · cases hs
  | reserve requestId revisionUuid reservationUuid =>
    simp only [Step, next] at hs
    split at hs
    · rename_i request score hr
      cases hs
      exact .inr ⟨request, _, hr, reserveFor_advances hv _ _ _ _ _⟩
    · cases hs
  | putBytes requestId raises =>
    simp only [Step, next] at hs
    split at hs
    · rename_i request draft reservationId hr
      refine .inr ⟨request, _, hr, ?_⟩
      split_ifs at hs
      · cases hs
        exact ⟨_, .fail rfl rfl, rfl⟩
      · cases hs
        exact ⟨_, .put, rfl⟩
    · cases hs
  | commit requestId sourceUuid raises =>
    simp only [Step, next] at hs
    split at hs
    · rename_i request draft reservationId hr
      refine .inr ⟨request, _, hr, ?_⟩
      split at hs
      · cases hs
        exact ⟨_, .fail rfl rfl, rfl⟩
      · rename_i tables htables
        cases hs
        split_ifs at htables
        exact ⟨_, .commit htables, rfl⟩
    · cases hs
  | release requestId deleteRaises =>
    simp only [Step, next] at hs
    split at hs
    · rename_i request error stored draft reservationId hr
      cases hs
      exact .inr ⟨request, _, hr, releaseFor_advances hv hr deleteRaises⟩
    · cases hs
  | commitReservation requestId =>
    simp only [Step, next] at hs
    split at hs
    · rename_i request draft reservationId sourceUuid revisionId hr
      cases hs
      exact .inr ⟨request, _, hr, settleFor_advances hv hr⟩
    · cases hs

/-! ## What the reading establishes -/

theorem authorizeEdit_mem {editor : Bool} (h : authorizeEdit tables request editor = .ok score) :
    score ∈ tables.scores := by
  unfold authorizeEdit at h
  split at h
  · cases h
  · rename_i row hrow
    split at h
    · cases h
    · split_ifs at h
      cases h
      exact List.mem_of_find?_eq_some hrow

theorem mem_revisionsOf {scoreId : ScoreId} {revision : ScoreRevision} :
    revision ∈ tables.revisionsOf scoreId ↔
      revision ∈ tables.revisions ∧ revision.scoreId = scoreId := by
  rw [ScoreTables.revisionsOf, List.mem_filter, decide_eq_true_iff]

theorem Valid.loaded (hv : Valid start world) (h : score ∈ world.tables.scores) :
    world.tables.Loaded score := by
  obtain ⟨head, hmem, -, hhead⟩ := (hv.linear score h).head
  obtain ⟨hrow, hscore⟩ := mem_revisionsOf.mp hmem
  exact ⟨⟨score, h, rfl⟩, head, hrow, hhead, hscore⟩

/-- The head that a loaded score points to is one of its revisions. -/
theorem Valid.head_of_loaded (hv : Valid start world) {head : ScoreRevision}
    (hl : world.tables.Loaded score) (h : world.tables.head score = some head) :
    head ∈ world.tables.revisions ∧ score.headRevisionId = some head.id ∧
      head.scoreId = score.id := by
  obtain ⟨-, row, hrow, hid, hscore⟩ := hl
  simp only [ScoreTables.head, hid, Option.bind_some] at h
  rw [ScoreTables.revisionById, find_of_mem hv.ids hrow] at h
  cases h
  exact ⟨hrow, hid, hscore⟩

theorem readCreate_drafted {userId : UserId} {create : RevisionCreateRequest}
    (hl : world.tables.Loaded score)
    (h : service.readCreate world score userId create revisionUuid = .ok (.draft draft))
    (scoreUuid : String) : world.tables.Drafted (.create scoreUuid userId create) draft := by
  simp only [RevisionService.readCreate] at h
  split_ifs at h
  split at h
  · cases h
  · split at h
    · cases h
    · rename_i base hbase
      split_ifs at h with hscore hhead
      · cases h
      · cases h
        rw [ne_eq, not_not] at hscore hhead
        refine ⟨hl.1, base, find_mem hbase, rfl, hscore, rfl, hhead, fun _ _ _ e => ?_⟩
        cases e
        exact ⟨find_key hbase, rfl⟩

theorem Valid.readRestore_drafted (hv : Valid start world) {userId : UserId}
    {newRevisionUuid : String} (hl : world.tables.Loaded score)
    (h : service.readRestore world score userId revisionUuid newRevisionUuid = .ok (.draft draft))
    (scoreUuid : String) : world.tables.Drafted (.restore scoreUuid revisionUuid userId) draft := by
  simp only [RevisionService.readRestore] at h
  split at h
  · cases h
  · split_ifs at h
    split at h
    · cases h
    · rename_i head hhead
      obtain ⟨hmem, hid, hscore⟩ := hv.head_of_loaded hl hhead
      split_ifs at h
      · cases h
      · split at h
        · cases h
        · split at h
          · cases h
          · split_ifs at h
            cases h
            exact ⟨hl.1, head, hmem, rfl, hscore, rfl, hid, fun _ _ _ e => by cases e⟩

theorem Valid.read_drafted (hv : Valid start world) (hl : world.tables.Loaded score)
    (h : service.read world score request revisionUuid = .ok (.draft draft)) :
    world.tables.Drafted request draft := by
  unfold RevisionService.read at h
  split at h
  · cases h
  · cases request with
    | create scoreUuid userId create => exact readCreate_drafted hl h scoreUuid
    | restore scoreUuid target userId => exact hv.readRestore_drafted hl h scoreUuid

/-! ## The transaction -/

section Commit

variable {tables : ScoreTables} {draft : RevisionDraft} {sourceUuid : String}

variable {tables' : ScoreTables}

theorem commit_cases (h : draft.commit tables sourceUuid = some tables') :
    (∀ row ∈ tables.revisions, ¬(draft.revision tables.nextRevisionId).Clashes row) ∧
      tables'.revisions = tables.revisions ++ [draft.revision tables.nextRevisionId] ∧
      tables'.nextRevisionId = tables.nextRevisionId + 1 ∧
      tables'.scores = update Score.id draft.score.id (fun row => { row with
        headRevisionId := some tables.nextRevisionId
        version := draft.score.version + 1 }) tables.scores := by
  simp only [RevisionDraft.commit, ScoreTables.addRevision] at h
  split_ifs at h with hclash
  · cases h
  · cases h
    exact ⟨fun row hrow hc => hclash ⟨row, hrow, hc⟩, rfl, rfl, rfl⟩

theorem commit_extends (h : draft.commit tables sourceUuid = some tables') :
    tables.Extends tables' := by
  obtain ⟨-, hrevisions, -, hscores⟩ := commit_cases h
  constructor
  · intro r hr
    rw [hrevisions]
    exact List.mem_append_left _ hr
  · rintro id ⟨row, hrow, hid⟩
    rw [hscores]
    by_cases hk : row.id = draft.score.id
    · exact ⟨_, List.mem_map_of_mem hrow, by simp only [if_pos hk]; exact hid⟩
    · exact ⟨row, mem_update_of_ne hrow hk, hid⟩

/-- The constraint on the numbers: the revision that a draft replaces is the
head of the score. -/
theorem head_of_commit {request : RevisionRequest} {parent : ScoreRevision} {score : Score}
    (h : draft.commit tables sourceUuid = some tables') (hparent : parent ∈ tables.revisions)
    (hr : draft.Replaces request parent) (hid : score.id = draft.score.id)
    (hlinear : LinearHistory score (tables.revisionsOf score.id)) :
    parent ∈ tables.revisionsOf score.id ∧
      parent.revisionNumber = (tables.revisionsOf score.id).length ∧
      score.headRevisionId = some parent.id := by
  have hmem : parent ∈ tables.revisionsOf score.id :=
    mem_revisionsOf.mpr ⟨hparent, hr.scoreId.trans hid.symm⟩
  refine ⟨hmem, hlinear.head_of_next_free hmem fun r' hr' e => ?_⟩
  obtain ⟨hrow, hscore⟩ := mem_revisionsOf.mp hr'
  refine (commit_cases h).1 r' hrow (.inr ⟨hscore.trans hid, .inl ?_⟩)
  show r'.revisionNumber = draft.revisionNumber
  rw [e, hr.number]

theorem revisionsOf_append {revision : ScoreRevision}
    (h : tables'.revisions = tables.revisions ++ [revision]) (scoreId : ScoreId) :
    tables'.revisionsOf scoreId =
      tables.revisionsOf scoreId ++ if revision.scoreId = scoreId then [revision] else [] := by
  rw [ScoreTables.revisionsOf, h, List.filter_append]
  congr 1
  by_cases hs : revision.scoreId = scoreId <;> simp [hs]

theorem commit_linear {request : RevisionRequest}
    (h : draft.commit tables sourceUuid = some tables') (hd : tables.Drafted request draft)
    (hlinear : ∀ score ∈ tables.scores, LinearHistory score (tables.revisionsOf score.id)) :
    ∀ score ∈ tables'.scores, LinearHistory score (tables'.revisionsOf score.id) := by
  obtain ⟨-, hrevisions, -, hscores⟩ := commit_cases h
  obtain ⟨-, parent, hparent, hr⟩ := hd
  intro score hscore
  rw [hscores] at hscore
  rw [revisionsOf_append hrevisions]
  obtain ⟨hmem, hne⟩ | ⟨row, hrow, hid, rfl⟩ := mem_update hscore
  · rw [if_neg fun e => hne e.symm, List.append_nil]
    exact hlinear score hmem
  · obtain ⟨hmem, hlast, -⟩ := head_of_commit h hparent hr hid (hlinear row hrow)
    show LinearHistory _ (tables.revisionsOf row.id ++
      if draft.score.id = row.id then [draft.revision tables.nextRevisionId] else [])
    rw [if_pos hid.symm]
    refine (hlinear row hrow).append hmem hlast hr.number ?_ rfl
    show some draft.parentRevisionId = some parent.id
    rw [hr.id]

end Commit

/-! ## The invariant is kept -/

section PhaseStep

variable {request : RevisionRequest} {phase phase' : RevisionPhase} {tables : ScoreTables}
  {usage : StorageDb}

/-- Only the transaction that makes a revision writes the tables. -/
theorem PhaseStep.tables_cases
    (h : PhaseStep service world request phase tables usage phase') :
    tables = world.tables ∧ (phase'.made.isSome → phase.made.isSome) ∨
    ∃ draft reservationId sourceUuid, phase = .stored draft reservationId ∧
      phase' = .committed draft reservationId sourceUuid world.tables.nextRevisionId ∧
      draft.commit world.tables sourceUuid = some tables := by
  cases h with
  | commit h => exact .inr ⟨_, _, _, rfl, rfl, h⟩
  | settle => exact .inl ⟨rfl, fun _ => rfl⟩
  | _ => exact .inl ⟨rfl, fun h => nomatch h⟩

theorem PhaseStep.extends (h : PhaseStep service world request phase tables usage phase') :
    world.tables.Extends tables := by
  obtain ⟨rfl, -⟩ | ⟨draft, reservationId, sourceUuid, -, -, hcommit⟩ := h.tables_cases
  · exact .refl _
  · exact commit_extends hcommit

theorem PhaseStep.accounted (ha : Accounted world.usage)
    (h : PhaseStep service world request phase tables usage phase') : Accounted usage := by
  cases h with
  | reserve hread hnew ha => exact ha
  | release ha => exact ha
  | settle ha => exact ha
  | _ => exact ha

theorem PhaseStep.held {requestId : Nat} (hv : Valid start world)
    (hr : world.requests requestId = some (request, phase))
    (h : PhaseStep service world request phase tables usage phase') :
    Held start.statusOf usage.statusOf
      (Function.update world.holds requestId phase'.reservation) := by
  have hholds : world.holds requestId = phase.reservation := by rw [holds, hr]; rfl
  have hkeep := hv.held.keep (i := requestId)
  rw [hholds] at hkeep
  cases h with
  | authorize h => exact hkeep
  | raise h => rwa [h] at hkeep
  | answer => exact hkeep
  | reserve hread hnew ha hstatus =>
    rw [hstatus]
    exact hv.held.reserve hholds hnew
  | put => exact hkeep
  | fail h => rwa [h] at hkeep
  | commit h => exact hkeep
  | release ha hstatus =>
    rw [hstatus]
    exact hv.held.settle hholds (by decide)
  | settle ha hstatus =>
    rw [hstatus]
    exact hv.held.settle hholds (by decide)

theorem PhaseStep.ok (hv : Valid start world) (hok : phase.Ok world.tables request)
    (h : PhaseStep service world request phase tables usage phase') :
    phase'.Ok tables request := by
  cases h with
  | authorize h => exact hv.loaded (authorizeEdit_mem h)
  | reserve hread => exact hv.read_drafted hok hread
  | put => exact hok
  | commit h =>
    show RevisionDraft.revision _ _ ∈ tables.revisions
    rw [(commit_cases h).2.1]
    exact List.mem_append_right _ (List.mem_singleton_self _)
  | settle => exact hok
  | raise => trivial
  | answer => trivial
  | fail => trivial
  | release => trivial

/-- A new revision has the next id. -/
theorem PhaseStep.ids (hv : Valid start world)
    (h : PhaseStep service world request phase tables usage phase') :
    (tables.revisions.map (·.id)).Nodup ∧ ∀ r ∈ tables.revisions, r.id < tables.nextRevisionId := by
  obtain ⟨rfl, -⟩ | ⟨draft, reservationId, sourceUuid, -, -, hcommit⟩ := h.tables_cases
  · exact ⟨hv.ids, hv.fresh⟩
  obtain ⟨-, hrevisions, hnext, -⟩ := commit_cases hcommit
  rw [hrevisions, hnext]
  constructor
  · rw [List.map_append, List.map_singleton, List.nodup_append]
    refine ⟨hv.ids, List.nodup_singleton _, fun id hid id' hid' => ?_⟩
    obtain ⟨r, hr, rfl⟩ := List.mem_map.mp hid
    rw [List.mem_singleton.mp hid']
    exact Nat.ne_of_lt (hv.fresh r hr)
  · intro r hr
    rw [List.mem_append, List.mem_singleton] at hr
    rcases hr with hr | rfl
    · exact Nat.lt_succ_of_lt (hv.fresh r hr)
    · exact Nat.lt_succ_self _

theorem PhaseStep.linear (hv : Valid start world) (hok : phase.Ok world.tables request)
    (h : PhaseStep service world request phase tables usage phase') :
    ∀ score ∈ tables.scores, LinearHistory score (tables.revisionsOf score.id) := by
  obtain ⟨rfl, -⟩ | ⟨draft, reservationId, sourceUuid, rfl, -, hcommit⟩ := h.tables_cases
  · exact hv.linear
  · exact commit_linear hcommit hok hv.linear

end PhaseStep

theorem Valid.step (hv : Valid start world) (hs : Step service world action world') :
    Valid start world' := by
  obtain ⟨request, hnone, htables, husage, hrequests⟩ |
    ⟨request, phase, hr, phase', hstep, hrequests⟩ := step_cases hv hs
  · refine ⟨husage ▸ hv.accounted, htables ▸ hv.ids, htables ▸ hv.fresh, htables ▸ hv.linear,
      fun i request' phase' h => ?_, ?_⟩
    · rw [hrequests, Function.update_apply] at h
      rw [htables]
      split_ifs at h
      · cases h
        trivial
      · exact hv.phases i request' phase' h
    · have hholds : world.holds action.requestId = none := by rw [holds, hnone]; rfl
      have hkeep := hv.held.keep (i := action.requestId)
      rw [hholds] at hkeep
      rw [husage, holds_update hrequests]
      exact hkeep
  · have hok := hv.phases _ _ _ hr
    refine ⟨hstep.accounted hv.accounted, (hstep.ids hv).1, (hstep.ids hv).2,
      hstep.linear hv hok, fun i request' phase'' h => ?_, ?_⟩
    · rw [hrequests, Function.update_apply] at h
      split_ifs at h
      · cases h
        exact hstep.ok hv hok
      · exact (hv.phases i request' phase'' h).mono hstep.extends
    · rw [holds_update hrequests]
      exact hstep.held hv hr

theorem valid_of_reachable (hstart : world.Initial)
    (h : Reachable (· = world) (Step service) world') : Valid world.usage world' :=
  h.invariant (fun _ e => e ▸ hstart.valid) fun _ _ _ hv hs => hv.step hs

/-! ## The claim about runs -/

/-- The request has failed. -/
def Failed (world : RevisionWorld) (requestId : Nat) : Prop :=
  ∃ request error reservationId, world.requests requestId =
    some (request, .failed error reservationId)

/-- The request has made a revision. -/
def Made (world : RevisionWorld) (requestId : Nat) : Prop :=
  ∃ request phase draft revisionId, world.requests requestId = some (request, phase) ∧
    phase.made = some (draft, revisionId)

theorem RevisionPhase.made_of_reservation (h : phase.reservation = none) : phase.made = none := by
  cases phase with
  | committed draft reservationId sourceUuid revisionId => cases h
  | created draft reservationId revisionId => cases h
  | _ => rfl

theorem PhaseStep.made_of_made {phase' : RevisionPhase} {usage : StorageDb}
    (h : PhaseStep service world request phase tables usage phase') (hm : phase.made.isSome) :
    phase'.made.isSome := by
  cases h with
  | raise h =>
    rw [RevisionPhase.made_of_reservation h] at hm
    cases hm
  | fail h hmade =>
    rw [hmade] at hm
    cases hm
  | settle => rfl
  | _ => cases hm

theorem made_iff (h : world.requests requestId = some (request, phase)) :
    world.Made requestId ↔ phase.made.isSome := by
  constructor
  · rintro ⟨request', phase', draft, revisionId, hr, hmade⟩
    rw [h] at hr
    cases hr
    rw [hmade]
    rfl
  · intro hm
    obtain ⟨⟨draft, revisionId⟩, hmade⟩ := Option.isSome_iff_exists.mp hm
    exact ⟨request, phase, draft, revisionId, h, hmade⟩

/-- A request that has made a revision does not fail any more. -/
theorem made_of_step (hv : Valid start world) (hs : Step service world action world')
    (hm : world.Made requestId) : world'.Made requestId := by
  obtain ⟨request, phase, draft, revisionId, hr, hmade⟩ := hm
  by_cases hid : requestId = action.requestId
  · subst hid
    obtain ⟨request', hnone, -⟩ | ⟨request', phase₀, hr', phase', hstep, hrequests⟩ :=
      step_cases hv hs
    · rw [hnone] at hr
      cases hr
    · rw [hr] at hr'
      cases hr'
      have hnow : world'.requests action.requestId = some (request, phase') := by
        rw [hrequests, Function.update_self]
      refine (made_iff hnow).mpr (hstep.made_of_made ?_)
      rw [hmade]
      rfl
  · have hsame : world'.requests requestId = world.requests requestId := by
      obtain ⟨request', -, -, -, hrequests⟩ | ⟨request', phase₀, -, phase', -, hrequests⟩ :=
        step_cases hv hs
      · rw [hrequests, Function.update_of_ne hid]
      · rw [hrequests, Function.update_of_ne hid]
    exact ⟨request, phase, draft, revisionId, hsame.trans hr, hmade⟩

theorem made_of_run (hv : Valid start world) (hm : world.Made requestId)
    (h : Reachable (· = world) (Step service) world') : world'.Made requestId := by
  have hboth : Valid start world' ∧ world'.Made requestId :=
    h.invariant (p := fun w => Valid start w ∧ w.Made requestId)
      (fun w e => by
        rw [e]
        exact ⟨hv, hm⟩)
      fun _ _ _ hw hs => ⟨hw.1.step hs, made_of_step hw.1 hs hw.2⟩
  exact hboth.2

theorem not_made_of_failed (h : world.Failed requestId) : ¬world.Made requestId := by
  obtain ⟨request, error, reservationId, hr⟩ := h
  rw [made_iff hr]
  cases reservationId <;> simp [RevisionPhase.made]

def plainRevisions : RevisionService := ⟨id, fun _ => true⟩

/-- A score of the first user with one revision. -/
def startingTables : ScoreTables where
  scores := [⟨1, "s-1", 1, "Etude", some 1, none, 1, .active⟩]
  revisions := [⟨1, "r-1", 1, 1, none, none, "a", none, .omr, some 1, none⟩]
  sources := []
  nextScoreId := 2
  nextRevisionId := 2

def startingWorld : RevisionWorld := ⟨startingTables, emptyStorage, [], fun _ => none⟩

theorem startingWorld_initial : startingWorld.Initial where
  usage := .start ⟨rfl, rfl, fun _ _ h => (nomatch h), fun _ _ h => (nomatch h)⟩
  requests _ := rfl
  ids := by decide
  fresh := by decide
  created := by
    intro score hscore
    rw [List.mem_singleton.mp hscore]
    exact ⟨_, rfl, rfl, rfl, rfl⟩

end RevisionWorld

end NoteVerse.Backend

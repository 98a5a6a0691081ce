import NoteVerse.Lib.Transition
import NoteVerse.Practice.ReplayFinalize

/-!
# Requests on sessions that interleave

`PracticeWorld.next` composes any number of requests on sessions, each with its
read and its commit, and of calls that finalize a replay. A session's row is not
locked between the two, so a request may commit to a session that has ended since
it was read (`InTime` says that it does not).

* `update_cases` says what the commit of a request sets;
* `commit_valid`: what requests that are in time keep (`Valid`);
* `session_life_cycle`: a step keeps the end of a session, sets it once and gives
  the same results if and only if it is in time; and a session has at most one
  artifact of a kind, whatever the order of the steps;
* `pause_over_finish` is a pause that opens a finished session again.
-/

namespace NoteVerse.Practice

open Transition

/-- A request that has read its session and passed its check. -/
structure PendingRequest where
  sessionId : Nat
  request : LifecycleRequest
  read : SessionRow
  deriving DecidableEq, Repr

/-- What the request writes, with the times that it takes before. -/
def PendingRequest.update (pending : PendingRequest) (startedNow now : Nat) : SessionUpdate :=
  .of pending.read (pending.request.change startedNow now pending.read)

/-- What a finish was answered with. -/
structure FinishResult where
  sessionId : Nat
  completionReason : PracticeSessionCompletionReason
  session : SessionRow
  deriving DecidableEq, Repr

/-- The result of a request, if it is a finish. -/
def LifecycleRequest.results (request : LifecycleRequest) (sessionId : Nat) (session : SessionRow) :
    List FinishResult :=
  match request with
  | .finish completionReason => [⟨sessionId, completionReason, session⟩]
  | _ => []

structure PracticeWorld where
  sessions : Nat → SessionRow
  requests : List PendingRequest
  /-- What has been committed to the sessions. -/
  committed : List (Nat × SessionUpdate)
  results : List FinishResult
  artifacts : List PracticeReplayArtifact
  finalizing : List Finalizing
  inserting : List PracticeReplayArtifact

inductive PracticeAction
  | read (sessionId userId : Nat) (request : LifecycleRequest)
  | commit (pending : PendingRequest) (startedNow now : Nat)
  | finalizeRead (sessionId userId : Nat) (request : PracticeReplayFinalizeRequest)
  | finalizeKind (call : Finalizing) (object : Option StoredObject) (now : Nat)
  | finalizeCommit (artifact : PracticeReplayArtifact)
  deriving DecidableEq, Repr

namespace PracticeWorld

section

variable (backendName : String) (world : PracticeWorld)

/-- A request reads its session and checks it. -/
def readRequest (sessionId userId : Nat) (request : LifecycleRequest) : PracticeWorld :=
  let session := world.sessions sessionId
  if session.userId ≠ userId then world
  else
    match request.check session with
    | .refused => world
    | .answered => { world with results := world.results ++ request.results sessionId session }
    | .goesOn => { world with requests := world.requests ++ [⟨sessionId, request, session⟩] }

/-- A request commits, and is answered with the row as it is then. -/
def commitRequest (pending : PendingRequest) (startedNow now : Nat) : PracticeWorld :=
  let update := pending.update startedNow now
  let session := update.apply (world.sessions pending.sessionId)
  { world with
    sessions := Function.update world.sessions pending.sessionId session
    requests := world.requests.erase pending
    committed := world.committed ++ [(pending.sessionId, update)]
    results := world.results ++ pending.request.results pending.sessionId session }

def finalizeRead (sessionId userId : Nat) (request : PracticeReplayFinalizeRequest) :
    PracticeWorld :=
  match finalizeByUuid world.artifacts sessionId (world.sessions sessionId) userId request with
  | .ok (.inr call) => { world with finalizing := world.finalizing ++ [call] }
  | _ => world

def finalizeKind (call : Finalizing) (object : Option StoredObject) (now : Nat) : PracticeWorld :=
  let world := { world with finalizing := world.finalizing.erase call }
  match finalizeForKind backendName world.artifacts call object now with
  | .ok (.inr artifact) => { world with inserting := world.inserting ++ [artifact] }
  | _ => world

def finalizeCommit (artifact : PracticeReplayArtifact) : PracticeWorld :=
  { world with
    inserting := world.inserting.erase artifact
    artifacts := insertArtifact world.artifacts artifact }

/-- The world after a step, if the step is possible. -/
def next : PracticeAction → Option PracticeWorld
  | .read sessionId userId request => some (world.readRequest sessionId userId request)
  | .commit pending startedNow now =>
    if pending ∈ world.requests then some (world.commitRequest pending startedNow now) else none
  | .finalizeRead sessionId userId request => some (world.finalizeRead sessionId userId request)
  | .finalizeKind call object now =>
    if call ∈ world.finalizing then some (world.finalizeKind backendName call object now) else none
  | .finalizeCommit artifact =>
    if artifact ∈ world.inserting then some (world.finalizeCommit artifact) else none

def Step (world : PracticeWorld) (action : PracticeAction) (world' : PracticeWorld) : Prop :=
  world.next backendName action = some world'

/-- Sessions that have just been created. -/
structure Fresh : Prop where
  created : ∀ sessionId, (world.sessions sessionId).state = .created ∧
    (world.sessions sessionId).completionReason = none ∧
    (world.sessions sessionId).startedAt = none ∧ (world.sessions sessionId).finishedAt = none
  requests : world.requests = []
  committed : world.committed = []
  results : world.results = []
  artifacts : world.artifacts = []
  finalizing : world.finalizing = []
  inserting : world.inserting = []

/-! ## The law of the life cycle -/

/-- How often a column of a session has been set. -/
def timesSet (column : SessionUpdate → Bool) (sessionId : Nat) : Nat :=
  world.committed.countP fun commit => commit.1 = sessionId ∧ column commit.2 = true

/-- The end of a session is set once, and only when it ends. -/
def SetOnce : Prop :=
  ∀ sessionId,
    world.timesSet (fun update => update.finishedAt.isSome) sessionId =
        (if (world.sessions sessionId).Ended then 1 else 0) ∧
      world.timesSet (fun update => update.completionReason.isSome) sessionId =
        if (world.sessions sessionId).state = .finished then 1 else 0

/-- Finishes of a session for one reason have one result. -/
def SameResults : Prop :=
  ∀ result ∈ world.results, ∀ result' ∈ world.results, result.sessionId = result'.sessionId →
    result.completionReason = result'.completionReason → result.session = result'.session

/-- A session that has ended stays as it is. -/
def Kept (world' : PracticeWorld) : Prop :=
  ∀ sessionId, (world.sessions sessionId).Ended →
    (world'.sessions sessionId).state = (world.sessions sessionId).state

/-- A request commits before the session ends, unless it is a start that has found the
session streaming, which has nothing to write. -/
def InTime : PracticeAction → Prop
  | .commit pending _ _ => (world.sessions pending.sessionId).Ended →
    pending.request = .start ∧ pending.read.state = .streaming
  | _ => True

instance (action : PracticeAction) : Decidable (world.InTime action) := by
  unfold InTime
  split
  · exact inferInstanceAs (Decidable (_ → _ ∧ _))
  · exact isTrue trivial

end

/-! ## What a request writes -/

/-- What a row keeps. -/
structure RowOk (row : SessionRow) : Prop where
  opened : ¬row.Ended → row.completionReason = none ∧ row.finishedAt = none
  started : row.state = .streaming → row.startedAt ≠ none

theorem check_notEnded {request : LifecycleRequest} {row : SessionRow}
    (h : request.check row = .goesOn) : ¬row.Ended := by
  rintro (hstate | hstate)
  · cases request with
    | finish reason =>
      by_cases hreason : row.completionReason = some reason <;>
        simp [LifecycleRequest.check, hstate, hreason] at h
    | _ => simp [LifecycleRequest.check, hstate] at h
  · cases request <;> simp [LifecycleRequest.check, hstate] at h

theorem orStarted_ne_none (startedAt : Option Nat) (now : Nat) :
    LifecycleRequest.orStarted startedAt now ≠ none := by
  cases startedAt <;> exact Option.some_ne_none _

/-- What the commit of a request sets. -/
inductive Writes (pending : PendingRequest) (update : SessionUpdate) : Prop
  /-- A start that has found the session streaming. -/
  | nothing (request : pending.request = .start) (read : pending.read.state = .streaming)
      (same : ∀ row, update.apply row = row) (finishedAt : update.finishedAt = none)
      (completionReason : update.completionReason = none)
  | opens (state : update.state = some .streaming ∨ update.state = some .paused)
      (finishedAt : update.finishedAt = none) (completionReason : update.completionReason = none)
      (started : update.state = some .streaming → pending.read.startedAt = none →
        update.startedAt ≠ none)
      (results : ∀ row, pending.request.results pending.sessionId row = [])
      (notStart : pending.request = .start → pending.read.state ≠ .streaming)
  | finishes {reason : PracticeSessionCompletionReason} {now : Nat}
      (request : pending.request = .finish reason) (state : update.state = some .finished)
      (finishedAt : update.finishedAt = some (some now))
      (completionReason : update.completionReason = some (some reason))
  | fails {reason : String} {now : Nat}
      (request : pending.request = .fail reason) (state : update.state = some .failed)
      (finishedAt : update.finishedAt = some (some now))
      (completionReason : update.completionReason = none)

theorem changed_ne_none {read new : Option Nat} (h : new ≠ none) :
    changed read new ≠ some none := by
  unfold changed
  split_ifs
  · exact fun hnone => nomatch hnone
  · exact fun hnone => h (Option.some.inj hnone)

/-- No request takes the time of the start away. -/
theorem update_startedAt (pending : PendingRequest) (startedNow now : Nat) :
    (pending.update startedNow now).startedAt ≠ some none := by
  unfold PendingRequest.update
  cases pending.request with
  | start => exact changed_ne_none (orStarted_ne_none _ _)
  | resume => exact changed_ne_none (orStarted_ne_none _ _)
  | finish reason => exact changed_ne_none (orStarted_ne_none _ _)
  | pause =>
    show changed pending.read.startedAt pending.read.startedAt ≠ some none
    simp
  | fail reason =>
    show changed pending.read.startedAt pending.read.startedAt ≠ some none
    simp

/-- A request that finds the session in another state starts it. -/
theorem writes_streaming {pending : PendingRequest} (startedNow now : Nat)
    (hchange : pending.request.change startedNow now pending.read = { pending.read with
      state := .streaming
      startedAt := LifecycleRequest.orStarted pending.read.startedAt startedNow })
    (hne : pending.read.state ≠ .streaming)
    (hresults : ∀ row, pending.request.results pending.sessionId row = []) :
    Writes pending (pending.update startedNow now) := by
  unfold PendingRequest.update
  rw [hchange]
  refine .opens (.inl (changed_of_ne (Ne.symm hne))) (changed_self _) (changed_self _)
    (fun _ hnone => ?_) hresults fun _ => hne
  have hnew : LifecycleRequest.orStarted pending.read.startedAt startedNow ≠
      pending.read.startedAt := by
    rw [hnone]
    exact orStarted_ne_none _ _
  show changed pending.read.startedAt
    (LifecycleRequest.orStarted pending.read.startedAt startedNow) ≠ none
  rw [changed_of_ne hnew]
  exact Option.some_ne_none _

theorem update_writes {pending : PendingRequest}
    (hcheck : pending.request.check pending.read = .goesOn)
    (hread : RowOk pending.read) (startedNow now : Nat) :
    Writes pending (pending.update startedNow now) := by
  have hopen := check_notEnded hcheck
  obtain ⟨hreason, hfinished⟩ := hread.opened hopen
  unfold SessionRow.Ended at hopen
  rw [not_or] at hopen
  cases hrequest : pending.request with
  | start =>
    by_cases hstate : pending.read.state = .streaming
    · have hchange : pending.request.change startedNow now pending.read = pending.read := by
        rw [hrequest]
        show { pending.read with
          state := .streaming
          startedAt := LifecycleRequest.orStarted pending.read.startedAt startedNow } = pending.read
        obtain ⟨startedAt, hstarted⟩ := Option.ne_none_iff_exists'.mp (hread.started hstate)
        rw [hstarted, ← hstate]
        show { pending.read with startedAt := some startedAt } = pending.read
        rw [← hstarted]
      unfold PendingRequest.update
      rw [hchange]
      refine .nothing hrequest hstate (fun row => ?_) (changed_self _) (changed_self _)
      unfold SessionUpdate.apply SessionUpdate.of
      simp only [changed_self, Option.getD_none]
    · refine writes_streaming startedNow now ?_ hstate fun row => ?_
      · rw [hrequest]
        rfl
      · rw [hrequest]
        rfl
  | pause =>
    have hstate : pending.read.state ≠ .paused := by
      rw [hrequest] at hcheck
      intro hpaused
      simp [LifecycleRequest.check, hpaused] at hcheck
    unfold PendingRequest.update
    rw [hrequest]
    refine .opens (.inr (changed_of_ne (Ne.symm hstate))) (changed_self _) (changed_self _)
      (fun hstreaming => ?_) (fun row => by rw [hrequest]; rfl) fun hstart => ?_
    · have hpaused : (some .paused : Option PracticeSessionState) = some .streaming :=
        (changed_of_ne (Ne.symm hstate)).symm.trans hstreaming
      cases hpaused
    · rw [hrequest] at hstart
      cases hstart
  | resume =>
    have hstate : pending.read.state ≠ .streaming := by
      rw [hrequest] at hcheck
      intro hstreaming
      simp [LifecycleRequest.check, hstreaming] at hcheck
    refine writes_streaming startedNow now ?_ hstate fun row => ?_
    · rw [hrequest]
      rfl
    · rw [hrequest]
      rfl
  | finish reason =>
    unfold PendingRequest.update
    rw [hrequest]
    refine .finishes hrequest (changed_of_ne (Ne.symm hopen.1))
      (show changed _ (some now) = some (some now) from changed_of_ne ?_) (changed_of_ne ?_)
    · rw [hfinished]
      exact Option.some_ne_none now
    · rw [hreason]
      exact Option.some_ne_none reason
  | fail reason =>
    unfold PendingRequest.update
    rw [hrequest]
    refine .fails hrequest (changed_of_ne (Ne.symm hopen.2))
      (show changed _ (some now) = some (some now) from changed_of_ne ?_) (changed_self _)
    rw [hfinished]
    exact Option.some_ne_none now

/-! ## What requests in time keep -/

/-- What a request in flight has read, against the row as it is. -/
structure PendingOk (row : SessionRow) (pending : PendingRequest) : Prop where
  check : pending.request.check pending.read = .goesOn
  read : RowOk pending.read
  started : pending.read.startedAt ≠ none → row.startedAt ≠ none

structure Valid (world : PracticeWorld) : Prop where
  rows : ∀ sessionId, RowOk (world.sessions sessionId)
  pending : ∀ pending ∈ world.requests, PendingOk (world.sessions pending.sessionId) pending
  setOnce : world.SetOnce
  results : ∀ result ∈ world.results, result.session = world.sessions result.sessionId ∧
    result.session.state = .finished ∧ result.session.completionReason = some result.completionReason

variable {backendName : String} {world world' : PracticeWorld} {action : PracticeAction}
  {pending : PendingRequest} {startedNow now : Nat}

theorem Valid.sameResults (h : Valid world) : world.SameResults := by
  intro result hresult result' hresult' hid _
  rw [(h.results result hresult).1, (h.results result' hresult').1, hid]

theorem timesSet_append (column : SessionUpdate → Bool) (sessionId : Nat)
    (commit : Nat × SessionUpdate) (sessions : Nat → SessionRow) :
    timesSet { world with sessions, committed := world.committed ++ [commit] } column sessionId =
      world.timesSet column sessionId +
        if commit.1 = sessionId ∧ column commit.2 = true then 1 else 0 := by
  unfold timesSet
  rw [List.countP_append, List.countP_singleton]
  simp

/-- What is not asked about a world does not count. -/
theorem commitRequest_timesSet (column : SessionUpdate → Bool) (sessionId : Nat) :
    (world.commitRequest pending startedNow now).timesSet column sessionId =
      world.timesSet column sessionId +
        if pending.sessionId = sessionId ∧ column (pending.update startedNow now) = true then 1
        else 0 :=
  timesSet_append column sessionId (pending.sessionId, pending.update startedNow now) world.sessions

@[simp] theorem commitRequest_sessions_self :
    (world.commitRequest pending startedNow now).sessions pending.sessionId =
      (pending.update startedNow now).apply (world.sessions pending.sessionId) :=
  Function.update_self _ _ _

theorem commitRequest_sessions_of_ne {sessionId : Nat} (h : sessionId ≠ pending.sessionId) :
    (world.commitRequest pending startedNow now).sessions sessionId = world.sessions sessionId :=
  Function.update_of_ne h _ _

/-- A read keeps what there is: it adds a request, or a result of a finished session. -/
theorem readRequest_valid (h : Valid world) (sessionId userId : Nat) (request : LifecycleRequest) :
    Valid (world.readRequest sessionId userId request) := by
  unfold readRequest
  dsimp only
  split_ifs with huser
  · exact h
  · cases hcheck : request.check (world.sessions sessionId) with
    | refused => exact h
    | goesOn =>
      refine ⟨h.rows, fun pending hpending => ?_, h.setOnce, h.results⟩
      rcases List.mem_append.mp hpending with hpending | hpending
      · exact h.pending pending hpending
      · rw [List.mem_singleton.mp hpending]
        exact ⟨hcheck, h.rows sessionId, id⟩
    | answered =>
      refine ⟨h.rows, h.pending, h.setOnce, fun result hresult => ?_⟩
      rcases List.mem_append.mp hresult with hresult | hresult
      · exact h.results result hresult
      · cases request with
        | finish reason =>
          rw [List.mem_singleton.mp hresult]
          unfold LifecycleRequest.check at hcheck
          dsimp only at hcheck
          split_ifs at hcheck with hfinished hreason
          exact ⟨rfl, hfinished, hreason⟩
        | _ => cases hresult

theorem apply_state (update : SessionUpdate) (row : SessionRow) :
    (update.apply row).state = update.state.getD row.state := rfl

theorem apply_completionReason (update : SessionUpdate) (row : SessionRow) :
    (update.apply row).completionReason = update.completionReason.getD row.completionReason := rfl

theorem apply_finishedAt (update : SessionUpdate) (row : SessionRow) :
    (update.apply row).finishedAt = update.finishedAt.getD row.finishedAt := rfl

theorem apply_startedAt (update : SessionUpdate) (row : SessionRow) :
    (update.apply row).startedAt = update.startedAt.getD row.startedAt := rfl

theorem apply_started {update : SessionUpdate} (hupdate : update.startedAt ≠ some none)
    {row : SessionRow} (hrow : row.startedAt ≠ none ∨ update.startedAt ≠ none) :
    (update.apply row).startedAt ≠ none := by
  rw [apply_startedAt]
  cases hset : update.startedAt with
  | none => exact hrow.resolve_right fun h => h hset
  | some startedAt =>
    intro hnone
    rw [Option.getD_some] at hnone
    exact hupdate (hset.trans (congrArg some hnone))

/-- A commit to a session that has not ended. -/
theorem commitRequest_valid (h : Valid world)
    (hopen : ¬(world.sessions pending.sessionId).Ended)
    (hrow : RowOk ((pending.update startedNow now).apply (world.sessions pending.sessionId)))
    (hfinishedAt : (pending.update startedNow now).finishedAt.isSome = true ↔
      ((pending.update startedNow now).apply (world.sessions pending.sessionId)).Ended)
    (hreason : (pending.update startedNow now).completionReason.isSome = true ↔
      ((pending.update startedNow now).apply (world.sessions pending.sessionId)).state = .finished)
    (hresults : ∀ result ∈ pending.request.results pending.sessionId
        ((pending.update startedNow now).apply (world.sessions pending.sessionId)),
      result.sessionId = pending.sessionId ∧ result.session =
        (pending.update startedNow now).apply (world.sessions pending.sessionId) ∧
      result.session.state = .finished ∧
      result.session.completionReason = some result.completionReason) :
    Valid (world.commitRequest pending startedNow now) := by
  have hold := h.setOnce pending.sessionId
  rw [if_neg hopen, if_neg fun hfinished => hopen (.inl hfinished)] at hold
  refine ⟨fun sessionId => ?_, fun other hother => ?_, fun sessionId => ?_, fun result hresult => ?_⟩
  · by_cases hid : sessionId = pending.sessionId
    · rw [hid, commitRequest_sessions_self]
      exact hrow
    · rw [commitRequest_sessions_of_ne hid]
      exact h.rows sessionId
  · have hother := h.pending other (List.mem_of_mem_erase hother)
    refine ⟨hother.check, hother.read, fun hstarted => ?_⟩
    by_cases hid : other.sessionId = pending.sessionId
    · rw [hid, commitRequest_sessions_self]
      rw [hid] at hother
      exact apply_started (update_startedAt pending startedNow now) (.inl (hother.started hstarted))
    · rw [commitRequest_sessions_of_ne hid]
      exact hother.started hstarted
  · rw [commitRequest_timesSet, commitRequest_timesSet]
    by_cases hid : sessionId = pending.sessionId
    · rw [hid, commitRequest_sessions_self, hold.1, hold.2]
      simp only [true_and, hfinishedAt, hreason, Nat.zero_add, and_self]
    · rw [commitRequest_sessions_of_ne hid]
      simpa [Ne.symm hid] using h.setOnce sessionId
  · rcases List.mem_append.mp hresult with hresult | hresult
    · have hvalid := h.results result hresult
      have hid : result.sessionId ≠ pending.sessionId := by
        intro hid
        rw [hid] at hvalid
        exact hopen (.inl (hvalid.1 ▸ hvalid.2.1))
      rw [commitRequest_sessions_of_ne hid]
      exact hvalid
    · obtain ⟨hid, hsession, hfinished⟩ := hresults result hresult
      rw [hid, commitRequest_sessions_self]
      exact ⟨hsession, hfinished⟩

/-- A commit that writes nothing. -/
theorem commitRequest_same (h : Valid world)
    (hrequest : pending.request = .start)
    (hsame : ∀ row, (pending.update startedNow now).apply row = row)
    (hfinishedAt : (pending.update startedNow now).finishedAt = none)
    (hreason : (pending.update startedNow now).completionReason = none) :
    Valid (world.commitRequest pending startedNow now) := by
  have hsessions : (world.commitRequest pending startedNow now).sessions = world.sessions := by
    show Function.update world.sessions pending.sessionId _ = world.sessions
    rw [hsame, Function.update_eq_self]
  refine ⟨?_, fun other hother => ?_, fun sessionId => ?_, fun result hresult => ?_⟩
  · rw [hsessions]
    exact h.rows
  · rw [hsessions]
    exact h.pending other (List.mem_of_mem_erase hother)
  · rw [commitRequest_timesSet, commitRequest_timesSet, hsessions]
    simpa [hfinishedAt, hreason] using h.setOnce sessionId
  · rw [hsessions]
    rcases List.mem_append.mp hresult with hresult | hresult
    · exact h.results result hresult
    · rw [hrequest] at hresult
      cases hresult

theorem commit_valid (h : Valid world) (hpending : pending ∈ world.requests)
    (htime : world.InTime (.commit pending startedNow now)) :
    Valid (world.commitRequest pending startedNow now) := by
  obtain ⟨hcheck, hread, hstarted⟩ := h.pending pending hpending
  have hwrites := update_writes hcheck hread startedNow now
  generalize hupdate : pending.update startedNow now = update at hwrites
  cases hwrites with
  | nothing request read same finishedAt completionReason =>
    exact commitRequest_same h request (by rwa [hupdate]) (by rwa [hupdate]) (by rwa [hupdate])
  | opens state finishedAt completionReason started results notStart =>
    have hopen : ¬(world.sessions pending.sessionId).Ended := fun hended =>
      notStart (htime hended).1 (htime hended).2
    have hstate : ((pending.update startedNow now).apply (world.sessions pending.sessionId)).state =
        .streaming ∨ ((pending.update startedNow now).apply
          (world.sessions pending.sessionId)).state = .paused := by
      rw [apply_state, hupdate]
      exact state.imp (fun h => by rw [h]; rfl) fun h => by rw [h]; rfl
    have hnot : ¬((pending.update startedNow now).apply (world.sessions pending.sessionId)).Ended := by
      unfold SessionRow.Ended
      rcases hstate with hstate | hstate <;> simp [hstate]
    refine commitRequest_valid h hopen ⟨fun _ => ?_, fun hstreaming => ?_⟩ ?_ ?_ ?_
    · rw [apply_completionReason, apply_finishedAt, hupdate, finishedAt, completionReason]
      exact (h.rows pending.sessionId).opened hopen
    · refine apply_started (update_startedAt pending startedNow now) ?_
      rw [apply_state, hupdate] at hstreaming
      by_cases hnone : pending.read.startedAt = none
      · right
        rw [hupdate]
        refine started ?_ hnone
        rcases state with state | state
        · exact state
        · rw [state] at hstreaming
          cases hstreaming
      · exact .inl (hstarted hnone)
    · refine iff_of_false ?_ hnot
      rw [hupdate, finishedAt]
      simp
    · refine iff_of_false ?_ fun hfinished => hnot (.inl hfinished)
      rw [hupdate, completionReason]
      simp
    · intro result hresult
      rw [results] at hresult
      cases hresult
  | @finishes reason finishedNow request state finishedAt completionReason =>
    have hopen : ¬(world.sessions pending.sessionId).Ended := fun hended => by
      have hstart := (htime hended).1
      rw [request] at hstart
      cases hstart
    have hstate : ((pending.update startedNow now).apply (world.sessions pending.sessionId)).state =
        .finished := by
      rw [apply_state, hupdate, state]
      rfl
    refine commitRequest_valid h hopen ⟨fun hnot => absurd (.inl hstate) hnot, fun hstreaming => ?_⟩
      ?_ ?_ ?_
    · rw [hstate] at hstreaming
      cases hstreaming
    · refine iff_of_true ?_ (.inl hstate)
      rw [hupdate, finishedAt]
      rfl
    · refine iff_of_true ?_ hstate
      rw [hupdate, completionReason]
      rfl
    · intro result hresult
      rw [request] at hresult
      rw [List.mem_singleton.mp hresult]
      refine ⟨rfl, rfl, hstate, ?_⟩
      rw [apply_completionReason, hupdate, completionReason]
      rfl
  | @fails reason failedNow request state finishedAt completionReason =>
    have hopen : ¬(world.sessions pending.sessionId).Ended := fun hended => by
      have hstart := (htime hended).1
      rw [request] at hstart
      cases hstart
    have hstate : ((pending.update startedNow now).apply (world.sessions pending.sessionId)).state =
        .failed := by
      rw [apply_state, hupdate, state]
      rfl
    refine commitRequest_valid h hopen ⟨fun hnot => absurd (.inr hstate) hnot, fun hstreaming => ?_⟩
      ?_ ?_ ?_
    · rw [hstate] at hstreaming
      cases hstreaming
    · refine iff_of_true ?_ (.inr hstate)
      rw [hupdate, finishedAt]
      rfl
    · refine iff_of_false ?_ ?_
      · rw [hupdate, completionReason]
        simp
      · rw [hstate]
        decide
    · intro result hresult
      rw [request] at hresult
      cases hresult

/-- A commit that is not in time opens a session again, or sets its end a second time. -/
theorem commit_not_valid (h : Valid world) (hpending : pending ∈ world.requests)
    (htime : ¬world.InTime (.commit pending startedNow now)) :
    ¬(world.Kept (world.commitRequest pending startedNow now) ∧
      (world.commitRequest pending startedNow now).SetOnce) := by
  obtain ⟨hended, hnot⟩ := Classical.not_imp.mp htime
  obtain ⟨hcheck, hread, -⟩ := h.pending pending hpending
  have hwrites := update_writes hcheck hread startedNow now
  rintro ⟨hkept, honce⟩
  have htwice : (pending.update startedNow now).finishedAt.isSome = true → False := by
    intro hset
    have hold := (h.setOnce pending.sessionId).1
    have hnew := (honce pending.sessionId).1
    rw [if_pos hended] at hold
    rw [commitRequest_timesSet, hold, if_pos ⟨rfl, hset⟩] at hnew
    split_ifs at hnew
    omega
  generalize hupdate : pending.update startedNow now = update at hwrites
  cases hwrites with
  | nothing request read same finishedAt completionReason => exact hnot ⟨request, read⟩
  | opens state finishedAt completionReason started results notStart =>
    have hstate := hkept pending.sessionId hended
    rw [commitRequest_sessions_self, apply_state, hupdate] at hstate
    unfold SessionRow.Ended at hended
    rw [← hstate] at hended
    rcases state with state | state <;> simp [state] at hended
  | finishes request state finishedAt completionReason =>
    exact htwice (by rw [hupdate, finishedAt]; rfl)
  | fails request state finishedAt completionReason =>
    exact htwice (by rw [hupdate, finishedAt]; rfl)

theorem Valid.congr (h : Valid world) (hsessions : world'.sessions = world.sessions)
    (hrequests : world'.requests = world.requests) (hcommitted : world'.committed = world.committed)
    (hresults : world'.results = world.results) : Valid world' := by
  refine ⟨by rw [hsessions]; exact h.rows, by rw [hrequests, hsessions]; exact h.pending, ?_,
    by rw [hresults, hsessions]; exact h.results⟩
  unfold SetOnce timesSet
  rw [hsessions, hcommitted]
  exact h.setOnce

theorem fresh_valid (h : Fresh world) : Valid world := by
  have hopen : ∀ sessionId, ¬(world.sessions sessionId).Ended := by
    intro sessionId
    unfold SessionRow.Ended
    simp [(h.created sessionId).1]
  refine ⟨fun sessionId => ⟨fun _ => ⟨(h.created sessionId).2.1, (h.created sessionId).2.2.2⟩,
    fun hstreaming => ?_⟩, fun pending hpending => ?_, fun sessionId => ?_, fun result hresult => ?_⟩
  · rw [(h.created sessionId).1] at hstreaming
    cases hstreaming
  · rw [h.requests] at hpending
    cases hpending
  · rw [if_neg (hopen sessionId), if_neg fun hfinished => hopen sessionId (.inl hfinished)]
    unfold timesSet
    rw [h.committed]
    exact ⟨rfl, rfl⟩
  · rw [h.results] at hresult
    cases hresult

theorem finalizeRead_frame (world : PracticeWorld) (sessionId userId : Nat)
    (request : PracticeReplayFinalizeRequest) :
    ∃ finalizing, world.finalizeRead sessionId userId request = { world with finalizing } := by
  unfold finalizeRead
  split
  · exact ⟨_, rfl⟩
  · exact ⟨world.finalizing, rfl⟩

theorem finalizeKind_frame (backendName : String) (world : PracticeWorld) (call : Finalizing)
    (object : Option StoredObject) (now : Nat) :
    ∃ finalizing inserting, world.finalizeKind backendName call object now =
      { world with finalizing, inserting } := by
  unfold finalizeKind
  dsimp only
  split
  · exact ⟨_, _, rfl⟩
  · exact ⟨_, world.inserting, rfl⟩

/-- What a step does. -/
theorem step_cases (h : Step backendName world action world') :
    (∃ sessionId userId request, action = .read sessionId userId request ∧
      world' = world.readRequest sessionId userId request) ∨
    (∃ pending startedNow now, action = .commit pending startedNow now ∧
      pending ∈ world.requests ∧ world' = world.commitRequest pending startedNow now) ∨
    (∀ pending startedNow now, action ≠ .commit pending startedNow now) ∧
      ∃ artifacts finalizing inserting, world' = { world with artifacts, finalizing, inserting } ∧
        (artifacts = world.artifacts ∨
          ∃ artifact, artifacts = insertArtifact world.artifacts artifact) := by
  unfold Step next at h
  cases action with
  | read sessionId userId request =>
    exact .inl ⟨sessionId, userId, request, rfl, (Option.some.inj h).symm⟩
  | commit pending startedNow now =>
    dsimp only at h
    split_ifs at h with hpending
    exact .inr (.inl ⟨pending, startedNow, now, rfl, hpending, (Option.some.inj h).symm⟩)
  | finalizeRead sessionId userId request =>
    obtain ⟨finalizing, hframe⟩ := finalizeRead_frame world sessionId userId request
    refine .inr (.inr ⟨fun _ _ _ hcommit => (nomatch hcommit), world.artifacts, finalizing,
      world.inserting, ?_, .inl rfl⟩)
    exact (Option.some.inj h).symm.trans hframe
  | finalizeKind call object now =>
    dsimp only at h
    split_ifs at h
    obtain ⟨finalizing, inserting, hframe⟩ :=
      finalizeKind_frame backendName world call object now
    refine .inr (.inr ⟨fun _ _ _ hcommit => (nomatch hcommit), world.artifacts, finalizing,
      inserting, ?_, .inl rfl⟩)
    exact (Option.some.inj h).symm.trans hframe
  | finalizeCommit artifact =>
    dsimp only at h
    split_ifs at h
    exact .inr (.inr ⟨fun _ _ _ hcommit => (nomatch hcommit), _, _, _, (Option.some.inj h).symm,
      .inr ⟨artifact, rfl⟩⟩)

theorem step_valid (h : Valid world) (hstep : Step backendName world action world')
    (htime : world.InTime action) : Valid world' := by
  rcases step_cases hstep with ⟨sessionId, userId, request, -, rfl⟩ |
    ⟨pending, startedNow, now, rfl, hpending, rfl⟩ | ⟨-, artifacts, finalizing, inserting, rfl, -⟩
  · exact readRequest_valid h sessionId userId request
  · exact commit_valid h hpending htime
  · exact h.congr rfl rfl rfl rfl

/-- A session that a step in time has found ended is left alone. -/
theorem step_kept (h : Valid world) (hstep : Step backendName world action world')
    (htime : world.InTime action) : world.Kept world' := by
  intro sessionId hended
  rcases step_cases hstep with ⟨other, userId, request, -, rfl⟩ |
    ⟨pending, startedNow, now, rfl, hpending, rfl⟩ | ⟨-, artifacts, finalizing, inserting, rfl, -⟩
  · unfold readRequest
    dsimp only
    split_ifs
    · rfl
    · split <;> rfl
  · by_cases hid : sessionId = pending.sessionId
    · subst hid
      obtain ⟨hcheck, hread, -⟩ := h.pending pending hpending
      have hstart := htime hended
      rw [commitRequest_sessions_self]
      cases update_writes hcheck hread startedNow now with
      | nothing request read same finishedAt completionReason => rw [same]
      | opens state finishedAt completionReason started results notStart =>
        exact absurd hstart.2 (notStart hstart.1)
      | finishes request state finishedAt completionReason =>
        rw [request] at hstart
        cases hstart.1
      | fails request state finishedAt completionReason =>
        rw [request] at hstart
        cases hstart.1
    · rw [commitRequest_sessions_of_ne hid]
  · rfl

theorem step_oneArtifact (h : OneArtifact world.artifacts)
    (hstep : Step backendName world action world') : OneArtifact world'.artifacts := by
  rcases step_cases hstep with ⟨sessionId, userId, request, -, rfl⟩ |
    ⟨pending, startedNow, now, -, -, rfl⟩ |
    ⟨-, artifacts, finalizing, inserting, rfl, rfl | ⟨artifact, rfl⟩⟩
  · have hframe : (world.readRequest sessionId userId request).artifacts = world.artifacts := by
      unfold readRequest
      dsimp only
      split_ifs
      · rfl
      · split <;> rfl
    rw [hframe]
    exact h
  · exact h
  · exact h
  · exact oneArtifact_insert h artifact

/-- A step after steps in time keeps the end of a session, sets it once and gives the
finishes of a session for one reason one result if and only if it is in time. No order
of the steps gives a session two artifacts of a kind. -/
theorem session_life_cycle (backendName : String) (fresh world world' : PracticeWorld)
    (action : PracticeAction) (hfresh : Fresh fresh)
    (h : Reachable (· = fresh) (guarded InTime (Step backendName)) world)
    (hstep : Step backendName world action world') :
    ((world.Kept world' ∧ world'.SetOnce ∧ world'.SameResults) ↔ world.InTime action) ∧
      ∀ reached, Reachable (· = fresh) (Step backendName) reached →
        OneArtifact reached.artifacts := by
  have hvalid : Valid world := by
    refine h.invariant ?_ ?_
    · rintro world rfl
      exact fresh_valid hfresh
    · rintro world action world' hvalid ⟨htime, hstep⟩
      exact step_valid hvalid hstep htime
  refine ⟨⟨fun ⟨hkept, honce, _⟩ => ?_, fun htime => ?_⟩, fun reached hreached => ?_⟩
  · by_contra htime
    rcases step_cases hstep with ⟨sessionId, userId, request, rfl, -⟩ |
      ⟨pending, startedNow, now, rfl, hpending, rfl⟩ | ⟨hnot, -⟩
    · exact htime trivial
    · exact commit_not_valid hvalid hpending htime ⟨hkept, honce⟩
    · cases action with
      | commit pending startedNow now => exact hnot pending startedNow now rfl
      | _ => exact htime trivial
  · have hvalid' := step_valid hvalid hstep htime
    exact ⟨step_kept hvalid hstep htime, hvalid'.setOnce, hvalid'.sameResults⟩
  · refine hreached.invariant (p := fun reached => OneArtifact reached.artifacts) ?_ ?_
    · rintro reached rfl
      rw [hfresh.artifacts]
      exact .nil
    · exact fun world action world' hone hstep => step_oneArtifact hone hstep

/-- A session of user 1 that has just been created. -/
def createdSession : SessionRow where
  state := .created
  completionReason := none
  sessionUuid := "session"
  userId := 1
  evaluationProfile := .performance
  inputSource := .midi
  startedAt := none
  finishedAt := none
  summaryStatus := .notRequested
  summaryPayload := none
  error := none

def createdWorld : PracticeWorld := ⟨fun _ => createdSession, [], [], [], [], [], []⟩

theorem createdWorld_fresh : Fresh createdWorld :=
  ⟨fun _ => ⟨rfl, rfl, rfl, rfl⟩, rfl, rfl, rfl, rfl, rfl, rfl⟩

def pendingStart : PendingRequest := ⟨0, .start, createdSession⟩

/-- The session that the start leaves. -/
def streamingSession : SessionRow := { createdSession with state := .streaming, startedAt := some 5 }

def pendingPause : PendingRequest := ⟨0, .pause, streamingSession⟩

def pendingFinish : PendingRequest := ⟨0, .finish .stoppedByUser, streamingSession⟩

/-- The session is started; a pause and a finish read it; the finish commits. -/
def finishedWorld : PracticeWorld :=
  ((((createdWorld.readRequest 0 1 .start).commitRequest pendingStart 5 6).readRequest 0 1
    .pause).readRequest 0 1 (.finish .stoppedByUser)).commitRequest pendingFinish 7 8

theorem reachable_finished :
    Reachable (· = createdWorld) (guarded InTime (Step "local")) finishedWorld :=
  .step (a := .commit pendingFinish 7 8) (.step (a := .read 0 1 (.finish .stoppedByUser))
    (.step (a := .read 0 1 .pause) (.step (a := .commit pendingStart 5 6)
      (.step (a := .read 0 1 .start) (.start rfl) ⟨by decide, rfl⟩) ⟨by decide, rfl⟩)
      ⟨by decide, rfl⟩) ⟨by decide, rfl⟩) ⟨by decide, rfl⟩

theorem session_life_cycle_finished :
    ((finishedWorld.Kept (finishedWorld.commitRequest pendingPause 9 9) ∧
        (finishedWorld.commitRequest pendingPause 9 9).SetOnce ∧
        (finishedWorld.commitRequest pendingPause 9 9).SameResults) ↔
      finishedWorld.InTime (.commit pendingPause 9 9)) ∧
      ∀ reached, Reachable (· = createdWorld) (Step "local") reached →
        OneArtifact reached.artifacts :=
  session_life_cycle "local" createdWorld finishedWorld (finishedWorld.commitRequest pendingPause 9 9)
    (.commit pendingPause 9 9) createdWorld_fresh reachable_finished rfl

/-- A pause that has read the session before the finish commits after it. -/
theorem pause_over_finish :
    ¬∀ (backendName : String) (fresh world world' : PracticeWorld) (action : PracticeAction),
      Fresh fresh → Reachable (· = fresh) (Step backendName) world →
      Step backendName world action world' →
      world.Kept world' ∧ world'.SetOnce ∧ world'.SameResults := by
  intro h
  obtain ⟨hkept, -⟩ := h "local" createdWorld finishedWorld
    (finishedWorld.commitRequest pendingPause 9 9) (.commit pendingPause 9 9) createdWorld_fresh
    (reachable_finished.mono fun _ _ _ => guarded_step) rfl
  have hstate := hkept 0 (by decide)
  revert hstate
  decide

end PracticeWorld

end NoteVerse.Practice

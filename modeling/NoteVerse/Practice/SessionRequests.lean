import NoteVerse.Practice.SessionLifecycle
import NoteVerse.Practice.SessionRuntime

/-!
# Requests on a practice session

`start_session_stream`, `pause_session`, `resume_session`, `finish_session` and
`fail_active_session_stream` of `modules/practice/service.py`. A request reads the
session's row, which is not locked, and checks its state (`LifecycleRequest.check`);
it changes the object that it has read (`LifecycleRequest.change`), and its commit
writes the columns in which the object differs from what was read
(`SessionUpdate`) to the row as it is by then.

The columns are those that the requests and the replay of a session use. What a
request does to the runtime, and the attempts that it finalizes, is left out.
-/

namespace NoteVerse.Practice

inductive PracticeSessionSummaryStatus
  | notRequested | pending | ready | failed
  deriving DecidableEq, Repr

inductive PracticeEvaluationProfile
  | learning | performance
  deriving DecidableEq, Repr

/-- A row of `practice_sessions`. Times are those of the server. -/
structure SessionRow extends PracticeSession where
  sessionUuid : String
  userId : Nat
  evaluationProfile : PracticeEvaluationProfile
  inputSource : PracticeInputSource
  startedAt : Option Nat
  finishedAt : Option Nat
  summaryStatus : PracticeSessionSummaryStatus
  summaryPayload : Option String
  error : Option String
  deriving DecidableEq, Repr

/-- Over for good. -/
def SessionRow.Ended (row : SessionRow) : Prop := row.state = .finished ∨ row.state = .failed

instance (row : SessionRow) : Decidable row.Ended := inferInstanceAs (Decidable (_ ∨ _))

/-! ## What a commit writes -/

/-- The columns that a commit sets, with their values. -/
structure SessionUpdate where
  state : Option PracticeSessionState
  completionReason : Option (Option PracticeSessionCompletionReason)
  startedAt : Option (Option Nat)
  finishedAt : Option (Option Nat)
  summaryStatus : Option PracticeSessionSummaryStatus
  summaryPayload : Option (Option String)
  error : Option (Option String)
  deriving DecidableEq, Repr

/-- A column is set if its value is not the one that was read. -/
def changed {α : Type} [DecidableEq α] (read new : α) : Option α :=
  if new = read then none else some new

namespace SessionUpdate

/-- The columns in which a session differs from what was read. -/
def of (read new : SessionRow) : SessionUpdate where
  state := changed read.state new.state
  completionReason := changed read.completionReason new.completionReason
  startedAt := changed read.startedAt new.startedAt
  finishedAt := changed read.finishedAt new.finishedAt
  summaryStatus := changed read.summaryStatus new.summaryStatus
  summaryPayload := changed read.summaryPayload new.summaryPayload
  error := changed read.error new.error

def apply (update : SessionUpdate) (row : SessionRow) : SessionRow :=
  { row with
    state := update.state.getD row.state
    completionReason := update.completionReason.getD row.completionReason
    startedAt := update.startedAt.getD row.startedAt
    finishedAt := update.finishedAt.getD row.finishedAt
    summaryStatus := update.summaryStatus.getD row.summaryStatus
    summaryPayload := update.summaryPayload.getD row.summaryPayload
    error := update.error.getD row.error }

end SessionUpdate

@[simp] theorem changed_self {α : Type} [DecidableEq α] (read : α) : changed read read = none :=
  if_pos rfl

theorem changed_of_ne {α : Type} [DecidableEq α] {read new : α} (h : new ≠ read) :
    changed read new = some new := if_neg h

theorem getD_changed_self {α : Type} [DecidableEq α] (read new : α) :
    (changed read new).getD read = new := by
  unfold changed
  split_ifs with h
  · exact h.symm
  · rfl

/-- Where nobody has written meanwhile, a commit leaves what the request made of the session. -/
theorem SessionUpdate.apply_read {read new : SessionRow} (hid : new.sessionUuid = read.sessionUuid)
    (huser : new.userId = read.userId) (hprofile : new.evaluationProfile = read.evaluationProfile)
    (hsource : new.inputSource = read.inputSource) :
    (SessionUpdate.of read new).apply read = new := by
  unfold SessionUpdate.apply SessionUpdate.of
  simp only [getD_changed_self]
  rw [← hid, ← huser, ← hprofile, ← hsource]

/-! ## The requests -/

inductive LifecycleRequest
  | start | pause | resume
  | finish (completionReason : PracticeSessionCompletionReason)
  | fail (reason : String)
  deriving DecidableEq, Repr

/-- What the check of a request comes to. -/
inductive Checked
  /-- The request raises. -/
  | refused
  /-- The session is as the request wants it, and is answered as it was read. -/
  | answered
  | goesOn
  deriving DecidableEq, Repr

namespace LifecycleRequest

def check (request : LifecycleRequest) (session : SessionRow) : Checked :=
  match request with
  | .start => if session.state ≠ .created ∧ session.state ≠ .streaming then .refused else .goesOn
  | .pause => if session.state ≠ .created ∧ session.state ≠ .streaming then .refused else .goesOn
  | .resume => if session.state ≠ .paused then .refused else .goesOn
  | .finish completionReason =>
    if session.state = .finished then
      if session.completionReason = some completionReason then .answered else .refused
    else if session.state = .failed then .refused
    else .goesOn
  | .fail _ =>
    if session.state = .finished then .refused
    else if session.state = .failed then .answered
    else .goesOn

/-- `if session.started_at is None: session.started_at = utc_now_naive()` -/
def orStarted (startedAt : Option Nat) (now : Nat) : Option Nat :=
  match startedAt with
  | none => some now
  | some startedAt => some startedAt

/-- The session that a request saves; `startedNow` is when it may set the time of the
start, and `now` when it sets the time of the end. -/
def change (request : LifecycleRequest) (startedNow now : Nat) (session : SessionRow) : SessionRow :=
  match request with
  | .start =>
    { session with state := .streaming, startedAt := orStarted session.startedAt startedNow }
  | .pause => { session with state := .paused }
  | .resume =>
    { session with state := .streaming, startedAt := orStarted session.startedAt startedNow }
  | .finish completionReason =>
    { session with
      startedAt := orStarted session.startedAt startedNow
      state := .finished
      completionReason := some completionReason
      finishedAt := some now
      summaryStatus := .pending
      summaryPayload := none }
  | .fail reason => { session with state := .failed, finishedAt := some now, error := some reason }

/-- The step of the lifecycle that a request is. -/
def next (request : LifecycleRequest) (session : PracticeSession) : Option PracticeSession :=
  match request with
  | .start => session.startStream
  | .pause => session.pause
  | .resume => session.resume
  | .finish completionReason => session.finish completionReason
  | .fail _ => session.fail

/-- A request whose check and commit are not separated is a step of the lifecycle. -/
theorem next_eq (request : LifecycleRequest) (startedNow now : Nat) (session : SessionRow) :
    request.next session.toPracticeSession =
      match request.check session with
      | .refused => none
      | .answered => some session.toPracticeSession
      | .goesOn => some (request.change startedNow now session).toPracticeSession := by
  obtain ⟨⟨state, completionReason⟩, sessionUuid, userId, evaluationProfile, inputSource, startedAt,
    finishedAt, summaryStatus, summaryPayload, error⟩ := session
  cases request with
  | start => cases state <;> rfl
  | pause => cases state <;> rfl
  | resume => cases state <;> rfl
  | finish reason =>
    cases state with
    | finished =>
      show (if completionReason = some reason then _ else _) = _
      unfold check
      by_cases h : completionReason = some reason <;> simp [h]
    | created => rfl
    | streaming => rfl
    | paused => rfl
    | failed => rfl
  | fail reason => cases state <;> rfl

end LifecycleRequest

end NoteVerse.Practice

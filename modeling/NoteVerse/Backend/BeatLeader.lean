import NoteVerse.Lib.Transition

/-!
# The leader of the scheduler

`modules/scheduler_lock/beat_leader.py`: replicas that run a Celery Beat child only while their
database session holds an advisory lock. A replica is where it is in `run` (`Phase`); what its
statements, its child and its signals do comes from outside (`Act`). PostgreSQL grants the
lock to one live session at a time and frees it when that session ends.

A session can end while the child runs, and then the lock is free before the replica has noticed.
At most one child runs if the lock is not granted then (`single_scheduler`).
-/

namespace NoteVerse.Backend.BeatLeader

/-- Where a replica is in `run`. -/
inductive Phase
  /-- At the head of the loop. -/
  | loop
  /-- The session is open. -/
  | connected
  /-- Another session has the lock, which `_record_standby` has yet to say. -/
  | refused
  /-- In `_wait`, with the session open. -/
  | standby
  /-- The session has got the lock, which `_record_leader_acquired` has yet to say. -/
  | acquired
  /-- At the head of `_run_leader_child`. -/
  | starting
  /-- In the loop of `_run_leader_child`. -/
  | watching
  /-- In `_terminate`, which raises what was caught or is because of a stop request. -/
  | terminating (raises killed : Bool)
  /-- The child has ended by itself. -/
  | exited (code : Int)
  /-- About to leave the session's block. -/
  | returning (code : Int)
  /-- In `_wait` after a database error. -/
  | unavailable
  | returned (code : Int)
  /-- `run` was left by an exception. -/
  | raised
  deriving DecidableEq, Repr

/-- The connection of a replica. A lost session is one that its replica has not closed. -/
inductive Session
  | none | live | lost
  deriving DecidableEq, Repr

inductive Child
  | none
  | running
  | exited (code : Int)
  deriving DecidableEq, Repr

structure Replica where
  phase : Phase
  session : Session
  child : Child
  stopRequested : Bool
  deriving DecidableEq, Repr

/-- What a replica does next, and what happens to it. -/
inductive Act
  | quit
  | connect
  | connectFails
  | tryAcquire
  | record
  /-- A statement raises `psycopg.Error`. -/
  | fail
  | wait
  | start
  | startFails
  /-- A turn of the loop of `_run_leader_child`, with or without a heartbeat. -/
  | watch (heartbeat : Bool)
  | endWatch
  | terminated
  | timeout
  | finish
  | leave
  /-- The end of the session's block raises, because the session is lost. -/
  | leaveFails
  | childExits (code : Int)
  | requestStop
  | loseSession
  deriving DecidableEq, Repr

namespace Replica

/-- The session is closed on the way to a phase. -/
@[grind] def close (r : Replica) (phase : Phase) : Replica := { r with phase, session := .none }

/-- The replica after an act, if it is possible; `free` says whether the lock is. -/
@[grind] def next (r : Replica) (free : Bool) : Act → Option Replica
  | .quit => if r.phase = .loop ∧ r.stopRequested then some { r with phase := .returned 0 } else none
  | .connect =>
    if r.phase = .loop ∧ ¬r.stopRequested then some { r with phase := .connected, session := .live }
    else none
  | .connectFails =>
    if r.phase = .loop ∧ ¬r.stopRequested then some { r with phase := .unavailable } else none
  | .tryAcquire =>
    if r.phase = .connected ∧ r.session = .live then
      some { r with phase := if free then .acquired else .refused }
    else none
  | .record =>
    if r.session = .live then
      match r.phase with
      | .refused => some { r with phase := .standby }
      | .acquired => some { r with phase := .starting }
      | .exited code => if r.stopRequested then none else some { r with phase := .returning code }
      | _ => none
    else none
  | .fail =>
    match r.phase with
    | .connected | .refused | .acquired => some (r.close .unavailable)
    | .exited _ => if r.stopRequested then none else some (r.close .unavailable)
    | .watching => some { r with phase := .terminating true false }
    | _ => none
  | .wait =>
    match r.phase with
    | .standby => some (r.close .loop)
    | .unavailable => some { r with phase := .loop }
    | _ => none
  | .start => if r.phase = .starting then some { r with phase := .watching, child := .running } else none
  | .startFails => if r.phase = .starting then some (r.close .raised) else none
  | .watch heartbeat =>
    if r.phase = .watching ∧ (heartbeat → r.session = .live) then some r else none
  | .endWatch =>
    if r.phase = .watching then
      if r.stopRequested then some { r with phase := .terminating false false }
      else
        match r.child with
        | .exited code => some { r with phase := .exited code }
        | _ => none
    else none
  | .terminated =>
    if r.child = .running then none
    else
      match r.phase with
      | .terminating true _ => some (r.close .unavailable)
      | .terminating false _ => some { r with phase := .returning 0 }
      | _ => none
  | .timeout =>
    match r.phase with
    | .terminating raises false => some { r with phase := .terminating raises true }
    | .terminating _ true => some (r.close .raised)
    | _ => none
  | .finish =>
    match r.phase with
    | .exited _ => if r.stopRequested then some { r with phase := .returning 0 } else none
    | _ => none
  | .leave =>
    match r.phase with
    | .returning code => some (r.close (.returned code))
    | _ => none
  | .leaveFails =>
    if r.session = .lost then
      match r.phase with
      | .standby | .returning _ => some (r.close .unavailable)
      | _ => none
    else none
  | .childExits code => if r.child = .running then some { r with child := .exited code } else none
  | .requestStop => some { r with stopRequested := true }
  | .loseSession => if r.session = .live then some { r with session := .lost } else none

end Replica

variable {ι : Type} [DecidableEq ι]

/-- The replicas, and the one whose session has the lock. -/
structure World (ι : Type) where
  replicas : ι → Replica
  holder : Option ι

namespace World

def initial : World ι where
  replicas _ := ⟨.loop, .none, .none, false⟩
  holder := none

/-- The world after an act of a replica. The lock goes with the session. -/
def next (s : World ι) (a : ι × Act) : Option (World ι) :=
  ((s.replicas a.1).next s.holder.isNone a.2).map fun r =>
    { replicas := Function.update s.replicas a.1 r
      holder :=
        if r.session ≠ .live then s.holder.filter (· ≠ a.1)
        else if a.2 = .tryAcquire ∧ s.holder = none then some a.1
        else s.holder }

/-- At most one child runs, and a replica that has returned or is in standby has none. -/
structure SingleScheduler (s : World ι) : Prop where
  exclusive : ∀ i j, (s.replicas i).child = .running → (s.replicas j).child = .running → i = j
  returned : ∀ i code, (s.replicas i).phase = .returned code → (s.replicas i).child ≠ .running
  standby : ∀ i, (s.replicas i).phase = .refused ∨ (s.replicas i).phase = .standby →
    (s.replicas i).child ≠ .running

end World

namespace Replica

/-- The replica has no live session any more, but has or will have a running child. -/
def Orphan (r : Replica) : Prop :=
  r.session ≠ .live ∧ (r.phase = .starting ∨ r.child = .running)

end Replica

/-- The lock is granted only where no replica has lost its session and not yet ended its child. -/
def NoOrphans (s : World ι) (a : ι × Act) : Prop :=
  a.2 = .tryAcquire → s.holder = none → ∀ j, ¬(s.replicas j).Orphan

/-- What a step may do. -/
def Step (s : World ι) (a : ι × Act) (s' : World ι) : Prop := s.next a = some s'

/-! ## One replica -/

namespace Phase

/-- The phases in which a session has the lock, if it is live. -/
@[grind] def Leader : Phase → Prop
  | .acquired | .starting | .watching | .terminating _ _ | .exited _ | .returning _ => True
  | _ => False

/-- The phases in which a child may run. -/
@[grind] def HasChild : Phase → Prop
  | .watching | .terminating _ _ | .raised => True
  | _ => False

/-- The phases without a session. -/
@[grind] def Closed : Phase → Prop
  | .loop | .unavailable | .returned _ | .raised => True
  | _ => False

end Phase

namespace Replica

structure Ok (r : Replica) : Prop where
  child : r.child = .running → r.phase.HasChild
  closed : r.phase.Closed → r.session = .none

def Leads (r : Replica) : Prop := r.session = .live ∧ r.phase.Leader

/-- The replica has a child or will have one. -/
def Active (r : Replica) : Prop :=
  r.phase = .starting ∨ r.child = .running ∨ (r.phase = .acquired ∧ r.session = .live)

variable {r r' : Replica} {free : Bool} {a : Act}

/-- A child is started by `_run_leader_child` only, and a session is closed on the way out. -/
theorem Ok.next (h : r.Ok) (hnext : r.next free a = some r') : r'.Ok := by
  obtain ⟨hchild, hclosed⟩ := h
  constructor <;> cases a <;> grind

/-- A replica that leads keeps its lock as long as its session lives, and one that does not lead
gets it by `_try_acquire`. -/
theorem leads_iff (h : r.Ok) (hnext : r.next free a = some r') :
    r'.Leads ↔ r'.session = .live ∧ (r.Leads ∨ (a = .tryAcquire ∧ free = true)) := by
  obtain ⟨hchild, hclosed⟩ := h
  unfold Leads
  cases a <;> grind

theorem active_of_next (hnext : r.next free a = some r') (hactive : r'.Active) :
    r.Active ∨ (a = .tryAcquire ∧ free = true) := by
  unfold Active at *
  cases a <;> grind

/-- A replica with a live session that has or will have a child has the lock. -/
theorem Ok.leads (h : r.Ok) (hactive : r.Active) (horphan : ¬r.Orphan) : r.Leads := by
  have hlive : r.session = .live := by
    rcases hactive with hstarting | hrunning | ⟨-, hlive⟩
    · exact Decidable.byContradiction fun hlost => horphan ⟨hlost, .inl hstarting⟩
    · exact Decidable.byContradiction fun hlost => horphan ⟨hlost, .inr hrunning⟩
    · exact hlive
  refine ⟨hlive, ?_⟩
  rcases hactive with hstarting | hrunning | ⟨hacquired, -⟩
  · rw [hstarting]
    trivial
  · -- Only a replica that has left `run` by an exception has a child without being in a phase of
    -- a leader, and it has no session.
    have hchild := h.child hrunning
    have hclosed := h.closed
    cases hphase : r.phase with
    | watching | terminating => trivial
    | raised =>
      rw [hphase, hlive] at hclosed
      exact absurd (hclosed trivial) (by decide)
    | _ =>
      rw [hphase] at hchild
      exact hchild.elim
  · rw [hacquired]
    trivial

end Replica

/-! ## All of them -/

/-- The session with the lock is that of the replica that leads. -/
structure World.Ok (s : World ι) : Prop where
  replicas : ∀ i, (s.replicas i).Ok
  holder : ∀ i, s.holder = some i ↔ (s.replicas i).Leads

namespace World

variable {s s' : World ι} {a : ι × Act}

/-- What a step does to the replica that takes it and to the others. -/
theorem next_eq (h : s.next a = some s') :
    ∃ r, (s.replicas a.1).next s.holder.isNone a.2 = some r ∧ s'.replicas a.1 = r ∧
      (∀ j, j ≠ a.1 → s'.replicas j = s.replicas j) ∧ s'.holder =
        if r.session ≠ .live then s.holder.filter (· ≠ a.1)
        else if a.2 = .tryAcquire ∧ s.holder = none then some a.1 else s.holder := by
  obtain ⟨r, hr, rfl⟩ := Option.map_eq_some_iff.mp h
  exact ⟨r, hr, Function.update_self .., fun j hj => Function.update_of_ne hj .., rfl⟩

theorem Ok.next (h : s.Ok) (hstep : s.next a = some s') : s'.Ok := by
  obtain ⟨r, hr, hself, hothers, hholder⟩ := next_eq hstep
  have hok := h.replicas a.1
  constructor
  · intro i
    by_cases hi : i = a.1
    · rw [hi, hself]
      exact hok.next hr
    · rw [hothers i hi]
      exact h.replicas i
  · intro i
    by_cases hi : i = a.1
    · rw [hi, hself, Replica.leads_iff hok hr, ← h.holder, hholder]
      split_ifs with hlost hgrant
      · simp [hlost]
      · simp [not_not.mp hlost, hgrant.1, hgrant.2]
      · rw [Option.isNone_iff_eq_none]
        exact ⟨fun h => ⟨not_not.mp hlost, .inl h⟩, fun h => h.2.resolve_right hgrant⟩
    · rw [hothers i hi, ← h.holder, hholder]
      split_ifs with hlost hgrant
      · simp [Option.filter_eq_some_iff, hi]
      · simp [hgrant.2, Ne.symm hi]
      · rfl

omit [DecidableEq ι] in
theorem ok_initial : (initial : World ι).Ok where
  replicas _ := ⟨fun hrunning => (nomatch hrunning), fun _ => rfl⟩
  holder _ := ⟨fun hholder => (nomatch hholder), fun hleads => (nomatch hleads.1)⟩

theorem Ok.of_reachable (h : Transition.Reachable (· = initial) Step s) : s.Ok :=
  h.invariant (fun _ hs => hs ▸ ok_initial) fun _ _ _ hok hstep => hok.next hstep

/-- One replica at most has a child or will have one. -/
def Exclusive (s : World ι) : Prop :=
  ∀ i j, (s.replicas i).Active → (s.replicas j).Active → i = j

/-- The lock is granted where no replica has a child or will have one. -/
theorem Exclusive.next (h : s.Exclusive) (hok : s.Ok) (hguard : NoOrphans s a)
    (hstep : s.next a = some s') : s'.Exclusive := by
  obtain ⟨r, hr, hself, hothers, -⟩ := next_eq hstep
  have hold : ∀ i, (s'.replicas i).Active →
      (s.replicas i).Active ∨ (i = a.1 ∧ a.2 = .tryAcquire ∧ s.holder = none) := by
    intro i hactive
    by_cases hi : i = a.1
    · rw [hi, hself] at hactive
      refine (Replica.active_of_next hr hactive).imp (fun h => hi ▸ h) fun hgrant => ?_
      exact ⟨hi, hgrant.1, Option.isNone_iff_eq_none.mp hgrant.2⟩
    · exact .inl (hothers i hi ▸ hactive)
  have hnone : a.2 = .tryAcquire → s.holder = none → ∀ j, ¬(s.replicas j).Active := by
    intro hacquire hfree j hactive
    have hleads := (hok.replicas j).leads hactive (hguard hacquire hfree j)
    rw [(hok.holder j).mpr hleads] at hfree
    cases hfree
  intro i j hi hj
  rcases hold i hi with hi' | ⟨rfl, hacquire, hfree⟩
  · rcases hold j hj with hj' | ⟨-, hacquire, hfree⟩
    · exact h i j hi' hj'
    · exact absurd hi' (hnone hacquire hfree i)
  · rcases hold j hj with hj' | ⟨hj', -, -⟩
    · exact absurd hj' (hnone hacquire hfree j)
    · exact hj'.symm

theorem Exclusive.of_reachable
    (h : Transition.Reachable (· = initial) (Transition.guarded NoOrphans Step) s) :
    s.Exclusive := by
  have hboth : s.Ok ∧ s.Exclusive := by
    refine h.invariant (p := fun s => s.Ok ∧ s.Exclusive) ?_ ?_
    · rintro _ rfl
      refine ⟨ok_initial, fun i j hi => ?_⟩
      rcases hi with hi | hi | ⟨hi, -⟩ <;> cases hi
    · rintro s a s' ⟨hok, hexclusive⟩ ⟨hguard, hstep⟩
      exact ⟨hok.next hstep, hexclusive.next hok hguard hstep⟩
  exact hboth.2

end World

omit [DecidableEq ι] in
/-- A replica that is not in `_run_leader_child` has no child. -/
theorem World.Ok.not_running {s : World ι} (h : s.Ok) {i : ι}
    (hphase : ¬(s.replicas i).phase.HasChild) : (s.replicas i).child ≠ .running :=
  fun hrunning => hphase ((h.replicas i).child hrunning)

/-- In every run in which the lock is not granted while a replica that has lost its session has yet
to end its child, at most one child runs, and a replica that has returned or is in standby has
none. -/
theorem single_scheduler {s : World ι}
    (h : Transition.Reachable (· = World.initial) (Transition.guarded NoOrphans Step) s) :
    s.SingleScheduler := by
  have hok := World.Ok.of_reachable (h.mono fun _ _ _ hstep => Transition.guarded_step hstep)
  refine ⟨fun i j hi hj => ?_, fun i code hphase => ?_, fun i hphase => ?_⟩
  · exact World.Exclusive.of_reachable h i j (.inr (.inl hi)) (.inr (.inl hj))
  · exact hok.not_running (by rw [hphase]; exact id)
  · refine hok.not_running ?_
    rcases hphase with hphase | hphase <;> rw [hphase] <;> exact id

/-- The first replica starts its child, and the second one is refused the lock. -/
def standbyRun : List (ℕ × Act) :=
  [(0, .connect), (0, .tryAcquire), (0, .record), (0, .start), (1, .connect), (1, .tryAcquire)]

theorem single_scheduler_standby : ∃ s : World ℕ,
    Transition.run World.next World.initial standbyRun = some s ∧
      (s.replicas 0).child = .running ∧ (s.replicas 1).phase = .refused ∧ s.SingleScheduler := by
  have h0 : Transition.Reachable (· = (World.initial : World ℕ))
      (Transition.guarded NoOrphans Step) World.initial := .start rfl
  have h1 := h0.step (a := ((0 : ℕ), Act.connect)) ⟨fun h => (nomatch h), rfl⟩
  have hquiet : ∀ j, ¬(Function.update World.initial.replicas (0 : ℕ)
      ⟨.connected, .live, .none, false⟩ j).Orphan := by
    intro j horphan
    by_cases hj : j = 0
    · rw [hj, Function.update_self] at horphan
      exact horphan.1 rfl
    · rw [Function.update_of_ne hj] at horphan
      exact horphan.2.elim (fun h => (nomatch h)) fun h => (nomatch h)
  have h2 := h1.step (a := ((0 : ℕ), Act.tryAcquire)) ⟨fun _ _ => hquiet, rfl⟩
  have h3 := h2.step (a := ((0 : ℕ), Act.record)) ⟨fun h => (nomatch h), rfl⟩
  have h4 := h3.step (a := ((0 : ℕ), Act.start)) ⟨fun h => (nomatch h), rfl⟩
  have h5 := h4.step (a := ((1 : ℕ), Act.connect)) ⟨fun h => (nomatch h), rfl⟩
  have h6 := h5.step (a := ((1 : ℕ), Act.tryAcquire)) ⟨fun _ h => (nomatch h), rfl⟩
  exact ⟨_, rfl, rfl, rfl, single_scheduler h6⟩

/-- The first replica has not noticed that its session is lost when the second one gets the lock
and starts its child. -/
def lostSessionRun : List (ℕ × Act) :=
  [(0, .connect), (0, .tryAcquire), (0, .record), (0, .start), (0, .loseSession),
    (1, .connect), (1, .tryAcquire), (1, .record), (1, .start)]

theorem lostSessionRun_two_children : ∃ s : World ℕ,
    Transition.Reachable (· = World.initial) Step s ∧ ¬s.SingleScheduler := by
  have hrun : (Transition.run World.next World.initial lostSessionRun).isSome := by decide
  obtain ⟨s, hs⟩ := Option.isSome_iff_exists.mp hrun
  have hchildren : (Transition.run World.next World.initial lostSessionRun).map
      (fun s => ((s.replicas 0).child, (s.replicas 1).child)) = some (.running, .running) := by
    decide
  rw [hs] at hchildren
  have hpair := Option.some.inj hchildren
  refine ⟨s, Transition.reachable_run hs, fun hsingle => ?_⟩
  exact absurd (hsingle.exclusive 0 1 (congrArg Prod.fst hpair) (congrArg Prod.snd hpair))
    (by decide)

end NoteVerse.Backend.BeatLeader

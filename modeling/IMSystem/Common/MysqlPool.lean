import Mathlib.Data.List.Perm.Subperm
import Mathlib.Data.List.Range
import IMSystem.Lib.Run

/-!
# The MySQL connection pool (`common/src/db/mysql_pool.cpp`)

The queue of free connections is protected by a mutex, and a thread that finds it
empty waits on a condition variable. `Shutdown` sets an atomic flag outside the
mutex and then clears the queue inside it. A connection is held by a
`MysqlConnectionGuard`, from its constructor to its destructor.

A step of a run is one section under the mutex or one atomic operation. Which of
the waiting threads `notify_one` wakes, and whether a thread wakes up by itself,
is the choice of the environment.

Results:
1. `Inv.step`: what a step does to the connections that are queued or held.
2. `sound_run`: in every run no connection is shared or lost, and nothing is left
   in the queue or waiting once the pool is shut down.
-/

namespace IMSystem.MysqlPool

open Lib
open scoped List

/-! ## The pool -/

/-- The members of `MysqlConnectionPool`. Connections are numbered in the order in
which they were opened. -/
structure Pool where
  pool : List Nat
  poolSize : Nat
  initialized : Bool
  shutdown : Bool
deriving DecidableEq, Repr

/-- The pool as it is constructed. -/
def Pool.fresh : Pool := ⟨[], 10, false, false⟩

/-- The pool after an `Initialize` that has opened `n` connections. -/
def Pool.built (n : Nat) : Pool := ⟨List.range n, n, true, false⟩

/-- What the section of `AcquireConnection` comes to. -/
inductive Acquired where
  /-- The predicate does not hold: the thread releases the mutex and waits. -/
  | waits
  | null
  | connection (conn : Nat)
deriving DecidableEq, Repr

/-- `AcquireConnection`, from locking the mutex, at first or on waking up. -/
def acquireConnection (p : Pool) : Acquired × Pool :=
  if p.pool.isEmpty && !p.shutdown then (.waits, p)
  else if p.shutdown then (.null, p)
  else
    match p.pool with
    -- not reached, by the predicate of the wait
    | [] => (.null, p)
    | conn :: rest => (.connection conn, { p with pool := rest })

/-- `ReleaseConnection`, and whether it calls `notify_one`. -/
def releaseConnection (p : Pool) (conn : Nat) : Bool × Pool :=
  if p.shutdown then (false, p) else (true, { p with pool := p.pool ++ [conn] })

/-- The loop that empties the queue, in `Shutdown` and after a failed `Initialize`. -/
def Pool.clear (p : Pool) : Pool := { p with pool := [] }

/-- After the flag is set there is no connection; before, the thread waits exactly
on an empty queue. -/
theorem acquireConnection_cases (p : Pool) :
    (p.shutdown = true ∧ acquireConnection p = (.null, p)) ∨
    (p.shutdown = false ∧ p.pool = [] ∧ acquireConnection p = (.waits, p)) ∨
    (∃ conn rest, p.shutdown = false ∧ p.pool = conn :: rest ∧
      acquireConnection p = (.connection conn, { p with pool := rest })) := by
  unfold acquireConnection
  cases hshutdown : p.shutdown with
  | true => exact .inl ⟨rfl, by simp⟩
  | false =>
    cases hpool : p.pool with
    | nil => exact .inr (.inl ⟨rfl, rfl, by simp⟩)
    | cons conn rest => exact .inr (.inr ⟨conn, rest, rfl, rfl, by simp⟩)

theorem acquireConnection_shutdown {p : Pool} (h : p.shutdown = true) :
    acquireConnection p = (.null, p) := by
  simp [acquireConnection, h]

/-! ## Guards and threads -/

/-- A `MysqlConnectionGuard`, with the thread that constructs it. -/
inductive Guard where
  /-- The constructor waits and has not been notified. -/
  | waiting
  /-- The constructor was notified and has not locked the mutex again. -/
  | notified
  | holding (conn : Nat)
  /-- Constructed without a connection. -/
  | empty
  | destroyed
deriving DecidableEq, Repr

def Guard.ofAcquired : Acquired → Guard
  | .waits => .waiting
  | .null => .empty
  | .connection conn => .holding conn

/-- The connection that a guard holds. -/
def Guard.conn? : Guard → Option Nat
  | .holding conn => some conn
  | _ => none

/-- `notify_all`, for one thread. -/
def Guard.notify : Guard → Guard
  | .waiting => .notified
  | g => g

structure State where
  pool : Pool
  guards : List Guard
  /-- The `Shutdown` that has set the flag has not been through its section. -/
  clearing : Bool
deriving DecidableEq, Repr

/-- After an `Initialize` that has opened `n` connections. -/
def State.start (n : Nat) : State := ⟨.built n, [], false⟩

inductive Action where
  /-- A new guard is constructed, up to the end of the first section. -/
  | construct
  /-- A waiting thread wakes up and locks the mutex. -/
  | wake (i : Nat)
  /-- A guard is destroyed; `notify_one` wakes the thread `j`, if any waits. -/
  | destroy (i j : Nat)
  /-- `Shutdown` is called, up to the exchange of the flag. -/
  | shutdown
  /-- The section of `Shutdown`. -/
  | clear
deriving DecidableEq, Repr

/-- A step. -/
def step (s : State) : Action → Option State
  | .construct =>
    match acquireConnection s.pool with
    | (r, p) => some { s with pool := p, guards := s.guards ++ [.ofAcquired r] }
  | .wake i =>
    match s.guards[i]? with
    | some .waiting | some .notified =>
      match acquireConnection s.pool with
      | (r, p) => some { s with pool := p, guards := s.guards.set i (.ofAcquired r) }
    | _ => none
  | .destroy i j =>
    match s.guards[i]? with
    | some (.holding conn) =>
      match releaseConnection s.pool conn with
      | (false, p) => some { s with pool := p, guards := s.guards.set i .destroyed }
      | (true, p) =>
        if s.guards[j]? = some .waiting then
          some { s with pool := p, guards := (s.guards.set i .destroyed).set j .notified }
        else if .waiting ∈ s.guards then none
        else some { s with pool := p, guards := s.guards.set i .destroyed }
    | some .empty => some { s with guards := s.guards.set i .destroyed }
    | _ => none
  | .shutdown =>
    -- a call that finds the flag set returns at once
    if s.pool.shutdown then some s
    else some { s with pool := { s.pool with shutdown := true }, clearing := true }
  | .clear =>
    if s.clearing then
      some { pool := s.pool.clear, guards := s.guards.map Guard.notify, clearing := false }
    else none

/-- The connections that are held by guards. -/
def held (guards : List Guard) : List Nat := guards.filterMap Guard.conn?

/-- `Shutdown` has been called and has returned: no call of it is on its way to
its section. -/
def State.ShutDown (s : State) : Prop := s.pool.shutdown = true ∧ s.clearing = false

/-- What is asked of a pool of `n` connections. -/
structure Sound (n : Nat) (s : State) : Prop where
  /-- No connection is held twice, or held and queued. -/
  exclusive : (s.pool.pool ++ held s.guards).Nodup
  /-- Until `Shutdown`, the queued and the held connections are the `n` created ones. -/
  complete : s.pool.shutdown = false → (s.pool.pool ++ held s.guards).Perm (List.range n)
  /-- After `Shutdown` nothing is queued, and nothing is ever handed out. -/
  closed : s.ShutDown → s.pool.pool = [] ∧ (acquireConnection s.pool).1 = .null
  /-- After `Shutdown` every waiting thread has been notified. -/
  notified : s.ShutDown → .waiting ∉ s.guards

/-! ## The connections that are queued or held -/

theorem held_cons (g : Guard) (rest : List Guard) :
    held (g :: rest) = g.conn?.toList ++ held rest := by
  cases g <;> rfl

theorem held_concat (guards : List Guard) (g : Guard) :
    held (guards ++ [g]) = held guards ++ g.conn?.toList := by
  unfold held
  rw [List.filterMap_append]
  cases g <;> rfl

/-- A guard that changes its state gives up one connection and takes another. -/
theorem held_set {guards : List Guard} {i : Nat} {old : Guard} (new : Guard)
    (h : guards[i]? = some old) :
    (held (guards.set i new) ++ old.conn?.toList).Perm (held guards ++ new.conn?.toList) := by
  induction guards generalizing i with
  | nil => cases h
  | cons g rest ih =>
    cases i with
    | zero =>
      cases h
      rw [List.set_cons_zero, held_cons, held_cons]
      calc (new.conn?.toList ++ held rest) ++ old.conn?.toList
        _ ~ old.conn?.toList ++ (new.conn?.toList ++ held rest) := List.perm_append_comm
        _ ~ old.conn?.toList ++ (held rest ++ new.conn?.toList) :=
          List.perm_append_comm.append_left _
        _ = (old.conn?.toList ++ held rest) ++ new.conn?.toList := (List.append_assoc ..).symm
    | succ i =>
      rw [List.set_cons_succ, held_cons, held_cons, List.append_assoc, List.append_assoc]
      exact (ih (by simpa using h)).append_left _

/-- A guard that changes its state without a connection before or after. -/
theorem held_set_none {guards : List Guard} {i : Nat} {old new : Guard}
    (h : guards[i]? = some old) (hold : old.conn? = none) (hnew : new.conn? = none) :
    (held (guards.set i new)).Perm (held guards) := by
  simpa [hold, hnew] using held_set new h

/-- `notify_all` moves no connection. -/
theorem held_notify (guards : List Guard) : held (guards.map Guard.notify) = held guards := by
  unfold held
  rw [List.filterMap_map]
  refine List.filterMap_congr fun g _ => ?_
  cases g <;> rfl

theorem waiting_notMem_notify (guards : List Guard) : .waiting ∉ guards.map Guard.notify := by
  intro hmem
  obtain ⟨g, _, hg⟩ := List.mem_map.mp hmem
  cases g <;> cases hg

/-- A guard that changes does not begin to wait. -/
theorem waiting_mem_of_set {guards : List Guard} {i : Nat} {g : Guard} (hg : g ≠ .waiting)
    (h : .waiting ∈ guards.set i g) : .waiting ∈ guards := by
  rcases List.mem_or_eq_of_mem_set h with hold | hnew
  · exact hold
  · exact absurd hnew.symm hg

/-! ## What holds in every run -/

/-- What a step has to know about the state. -/
structure Inv (n : Nat) (s : State) : Prop where
  owned : (s.pool.pool ++ held s.guards).Subperm (List.range n)
  complete : s.pool.shutdown = false → (s.pool.pool ++ held s.guards).Perm (List.range n)
  flag : s.clearing = true → s.pool.shutdown = true
  closed : s.ShutDown → s.pool.pool = []
  notified : s.ShutDown → .waiting ∉ s.guards

theorem Inv.sound {n : Nat} {s : State} (h : Inv n s) : Sound n s where
  exclusive := by
    obtain ⟨l, hperm, hsub⟩ := h.owned
    exact hperm.nodup_iff.mp (hsub.nodup List.nodup_range)
  complete := h.complete
  closed := fun hdown => ⟨h.closed hdown, by rw [acquireConnection_shutdown hdown.1]⟩
  notified := h.notified

theorem not_shutDown {s : State} (hopen : s.pool.shutdown = false) : ¬ s.ShutDown :=
  fun hdown => Bool.false_ne_true (hopen.symm.trans hdown.1)

/-- A step that leaves the flag alone, and neither creates a connection nor, as
long as the flag is unset, loses one. -/
theorem Inv.of_same_flag {n : Nat} {s s' : State} (h : Inv n s)
    (hshutdown : s'.pool.shutdown = s.pool.shutdown) (hclearing : s'.clearing = s.clearing)
    (howned : (s'.pool.pool ++ held s'.guards).Subperm (s.pool.pool ++ held s.guards))
    (hperm : s.pool.shutdown = false →
      (s'.pool.pool ++ held s'.guards).Perm (s.pool.pool ++ held s.guards))
    (hclosed : s.ShutDown → s'.pool.pool = s.pool.pool ∧ (.waiting ∈ s'.guards → .waiting ∈ s.guards)) :
    Inv n s' where
  owned := howned.trans h.owned
  complete := by
    intro hopen
    rw [hshutdown] at hopen
    exact (hperm hopen).trans (h.complete hopen)
  flag := by
    rw [hclearing, hshutdown]
    exact h.flag
  closed := by
    rintro ⟨hdown, hdone⟩
    rw [hshutdown] at hdown
    rw [hclearing] at hdone
    rw [(hclosed ⟨hdown, hdone⟩).1]
    exact h.closed ⟨hdown, hdone⟩
  notified := by
    rintro ⟨hdown, hdone⟩ hmem
    rw [hshutdown] at hdown
    rw [hclearing] at hdone
    exact h.notified ⟨hdown, hdone⟩ ((hclosed ⟨hdown, hdone⟩).2 hmem)

/-- The section of `AcquireConnection`, for a guard whose state then enters the
list of guards in place of one without a connection. -/
theorem Inv.acquire {n : Nat} {s : State} (h : Inv n s) {guards : List Guard}
    (hheld : (held guards).Perm
      (held s.guards ++ (Guard.ofAcquired (acquireConnection s.pool).1).conn?.toList))
    (hwaiting : .waiting ∈ guards → .waiting ∈ s.guards ∨
      Guard.ofAcquired (acquireConnection s.pool).1 = .waiting) :
    Inv n { s with pool := (acquireConnection s.pool).2, guards := guards } := by
  rcases acquireConnection_cases s.pool with ⟨hdown, heq⟩ | ⟨hopen, hempty, heq⟩ |
    ⟨conn, rest, hopen, hpool, heq⟩
  · rw [heq] at hheld hwaiting ⊢
    have hperm : (held guards).Perm (held s.guards ++ []) := hheld
    rw [List.append_nil] at hperm
    refine h.of_same_flag rfl rfl (hperm.append_left _).subperm (fun _ => hperm.append_left _)
      fun _ => ⟨rfl, fun hmem => ?_⟩
    rcases hwaiting hmem with hold | hnew
    · exact hold
    · cases hnew
  · rw [heq] at hheld hwaiting ⊢
    have hperm : (held guards).Perm (held s.guards ++ []) := hheld
    rw [List.append_nil] at hperm
    exact h.of_same_flag rfl rfl (hperm.append_left _).subperm (fun _ => hperm.append_left _)
      fun hdown => absurd hdown (not_shutDown hopen)
  · rw [heq] at hheld hwaiting ⊢
    have hperm : (rest ++ held guards) ~ (s.pool.pool ++ held s.guards) := by
      rw [hpool]
      calc rest ++ held guards
        _ ~ rest ++ (held s.guards ++ [conn]) := hheld.append_left rest
        _ = (rest ++ held s.guards) ++ [conn] := (List.append_assoc ..).symm
        _ ~ conn :: (rest ++ held s.guards) := List.perm_append_singleton conn _
    exact h.of_same_flag rfl rfl hperm.subperm (fun _ => hperm)
      fun hdown => absurd hdown (not_shutDown hopen)

/-- `ReleaseConnection`, for a list of guards in which the connection is given up. -/
theorem Inv.release {n : Nat} {s : State} (h : Inv n s) {guards : List Guard} {conn : Nat}
    (hheld : (held guards ++ [conn]) ~ held s.guards)
    (hwaiting : .waiting ∈ guards → .waiting ∈ s.guards) :
    Inv n { s with pool := (releaseConnection s.pool conn).2, guards := guards } := by
  unfold releaseConnection
  split
  · next hdown =>
    have hsub : (s.pool.pool ++ held guards).Subperm (s.pool.pool ++ held s.guards) :=
      (List.subperm_append_left _).mpr
        ((List.sublist_append_left _ _).subperm.trans hheld.subperm)
    refine h.of_same_flag rfl rfl hsub (fun hopen => ?_) fun _ => ⟨rfl, hwaiting⟩
    exact absurd (hopen.symm.trans hdown) Bool.false_ne_true
  · next hopen =>
    rw [Bool.not_eq_true] at hopen
    have hperm : ((s.pool.pool ++ [conn]) ++ held guards) ~ (s.pool.pool ++ held s.guards) := by
      rw [List.append_assoc]
      exact (List.perm_append_comm.trans hheld).append_left _
    exact h.of_same_flag rfl rfl hperm.subperm (fun _ => hperm)
      fun hdown => absurd hdown (not_shutDown hopen)

/-- A guard changes that has no connection before or after. -/
theorem Inv.set_none {n : Nat} {s : State} (h : Inv n s) {i : Nat} {old new : Guard}
    (hi : s.guards[i]? = some old) (hold : old.conn? = none) (hnew : new.conn? = none)
    (hwaiting : new ≠ .waiting) : Inv n { s with guards := s.guards.set i new } := by
  have hperm := held_set_none hi hold hnew
  exact h.of_same_flag rfl rfl (hperm.append_left _).subperm (fun _ => hperm.append_left _)
    fun _ => ⟨rfl, waiting_mem_of_set hwaiting⟩

theorem Inv.construct {n : Nat} {s : State} (h : Inv n s) : Inv n { s with
    pool := (acquireConnection s.pool).2
    guards := s.guards ++ [.ofAcquired (acquireConnection s.pool).1] } := by
  refine h.acquire (by rw [held_concat]) fun hmem => ?_
  rcases List.mem_append.mp hmem with hold | hnew
  · exact .inl hold
  · exact .inr (List.mem_singleton.mp hnew).symm

theorem Inv.wake {n : Nat} {s : State} (h : Inv n s) {i : Nat} {old : Guard}
    (hi : s.guards[i]? = some old) (hnone : old.conn? = none) : Inv n { s with
      pool := (acquireConnection s.pool).2
      guards := s.guards.set i (.ofAcquired (acquireConnection s.pool).1) } := by
  refine h.acquire (by simpa [hnone] using held_set (.ofAcquired _) hi) fun hmem => ?_
  rcases List.mem_or_eq_of_mem_set hmem with hold | hnew
  · exact .inl hold
  · exact .inr hnew.symm

/-- A guard with a connection is destroyed, and nobody is notified. -/
theorem Inv.destroy {n : Nat} {s : State} (h : Inv n s) {i conn : Nat}
    (hi : s.guards[i]? = some (.holding conn)) : Inv n { s with
      pool := (releaseConnection s.pool conn).2
      guards := s.guards.set i .destroyed } := by
  have hheld : (held (s.guards.set i .destroyed) ++ [conn]) ~ held s.guards := by
    simpa [Guard.conn?] using held_set .destroyed hi
  exact h.release hheld (waiting_mem_of_set Guard.noConfusion)

theorem Inv.clear {n : Nat} {s : State} (h : Inv n s) (hclearing : s.clearing = true) :
    Inv n { pool := s.pool.clear, guards := s.guards.map Guard.notify, clearing := false } := by
  have hsub : (held s.guards).Subperm (s.pool.pool ++ held s.guards) :=
    (List.sublist_append_right _ _).subperm
  refine ⟨?_, fun hopen => ?_, fun hfalse => Bool.noConfusion hfalse, fun _ => rfl,
    fun _ => waiting_notMem_notify s.guards⟩
  · simpa [Pool.clear, held_notify] using hsub.trans h.owned
  · exact absurd (hopen.symm.trans (h.flag hclearing)) Bool.false_ne_true

theorem Inv.step {n : Nat} {s s' : State} {a : Action} (h : Inv n s)
    (hstep : step s a = some s') : Inv n s' := by
  cases a with
  | construct =>
    cases hstep
    exact h.construct
  | wake i =>
    simp only [MysqlPool.step] at hstep
    split at hstep
    · next hi =>
      cases hstep
      exact h.wake hi rfl
    · next hi =>
      cases hstep
      exact h.wake hi rfl
    · cases hstep
  | destroy i j =>
    simp only [MysqlPool.step] at hstep
    split at hstep
    · next conn hi =>
      have hdestroy := h.destroy hi
      generalize releaseConnection s.pool conn = released at hstep hdestroy
      obtain ⟨notify, p⟩ := released
      cases notify with
      | false =>
        cases hstep
        exact hdestroy
      | true =>
        simp only at hstep
        split at hstep
        · next hj =>
          cases hstep
          have hne : i ≠ j := by
            rintro rfl
            cases hi.symm.trans hj
          have hj' : (s.guards.set i .destroyed)[j]? = some .waiting := by
            rw [List.getElem?_set_ne hne, hj]
          exact hdestroy.set_none hj' rfl rfl Guard.noConfusion
        · split at hstep
          · cases hstep
          · cases hstep
            exact hdestroy
    · next hi =>
      cases hstep
      exact h.set_none hi rfl rfl Guard.noConfusion
    · cases hstep
  | shutdown =>
    simp only [MysqlPool.step] at hstep
    split at hstep
    · cases hstep
      exact h
    · cases hstep
      exact ⟨h.owned, fun hopen => Bool.noConfusion hopen, fun _ => rfl,
        fun hdown => Bool.noConfusion hdown.2, fun hdown => Bool.noConfusion hdown.2⟩
  | clear =>
    simp only [MysqlPool.step] at hstep
    split at hstep
    · next hclearing =>
      cases hstep
      exact h.clear hclearing
    · cases hstep

theorem inv_start (n : Nat) : Inv n (.start n) := by
  have howned : (State.start n).pool.pool ++ held (State.start n).guards = List.range n :=
    List.append_nil _
  refine ⟨?_, fun _ => ?_, fun hfalse => Bool.noConfusion hfalse,
    fun hdown => Bool.noConfusion hdown.1, fun _ => List.not_mem_nil⟩
  · rw [howned]
  · rw [howned]

/-- In every run of threads that construct and destroy guards, and of calls of
`Shutdown`, on a pool of `n` connections: no connection is shared, none is lost
before `Shutdown`, and after it nothing is queued, handed out or left waiting. -/
theorem sound_run (n : Nat) (actions : List Action) :
    HoldsAlong MysqlPool.step (Sound n) (.start n) actions :=
  holdsAlong_of_step (fun _ _ _ h hstep => h.step hstep) (fun _ h => h.sound) (inv_start n)

end IMSystem.MysqlPool

import IMSystem.Common.MysqlPool
import IMSystem.Lib.Progress

/-!
# Waiting for a connection (`common/src/db/mysql_pool.cpp`)

A thread that finds the queue empty waits, and `ReleaseConnection` wakes one of the
waiting threads. Another thread may take the connection before the woken one locks
the mutex, and a thread may wake up by itself; either way a thread goes back to
waiting without having been told so.

Results:
1. `attentive_run`: no wake-up is lost: as long as a thread waits, at least as many
   threads have been notified as connections are free.
2. `served_run`: whatever the schedule, everybody who asked for a connection gets
   through after a bounded number of steps, before `Shutdown` and after it.
-/

namespace IMSystem.MysqlPool

open Lib

/-! ## What a destructor does -/

/-- Until `Shutdown` a connection goes back to the end of the queue. -/
theorem releaseConnection_open {p : Pool} (h : p.shutdown = false) (conn : Nat) :
    releaseConnection p conn = (true, { p with pool := p.pool ++ [conn] }) := by
  simp [releaseConnection, h]

theorem releaseConnection_shutdown {p : Pool} (h : p.shutdown = true) (conn : Nat) :
    releaseConnection p conn = (false, p) := by
  simp [releaseConnection, h]

/-- All that the destruction of a guard does.
* `closed`: the pool is shut down, or the guard has no connection.
* `notifies`: the connection goes back, and a waiting thread is notified.
* `unheard`: the connection goes back, and nobody waits. -/
inductive Destroyed (s : State) (i j : Nat) : State → Prop
  | closed (g : Guard) : s.guards[i]? = some g →
      (g = .empty ∨ s.pool.shutdown = true ∧ ∃ conn, g = .holding conn) →
      Destroyed s i j { s with guards := s.guards.set i .destroyed }
  | notifies (conn : Nat) : s.guards[i]? = some (.holding conn) → s.pool.shutdown = false →
      s.guards[j]? = some .waiting →
      Destroyed s i j { s with
        pool := { s.pool with pool := s.pool.pool ++ [conn] }
        guards := (s.guards.set i .destroyed).set j .notified }
  | unheard (conn : Nat) : s.guards[i]? = some (.holding conn) → s.pool.shutdown = false →
      .waiting ∉ s.guards →
      Destroyed s i j { s with
        pool := { s.pool with pool := s.pool.pool ++ [conn] }
        guards := s.guards.set i .destroyed }

theorem step_destroy {s s' : State} {i j : Nat} (h : step s (.destroy i j) = some s') :
    Destroyed s i j s' := by
  simp only [step] at h
  split at h
  · next conn hi =>
    cases hflag : s.pool.shutdown with
    | true =>
      rw [releaseConnection_shutdown hflag] at h
      cases h
      exact .closed _ hi (.inr ⟨hflag, conn, rfl⟩)
    | false =>
      rw [releaseConnection_open hflag] at h
      simp only at h
      split at h
      · next hj =>
        cases h
        exact .notifies conn hi hflag hj
      · split at h
        · cases h
        · next hnone =>
          cases h
          exact .unheard conn hi hflag hnone
  · next hi =>
    cases h
    exact .closed _ hi (.inl rfl)
  · cases h

/-! ## No wake-up is lost -/

/-- As long as a thread waits that has not been notified, there is a notified thread
for each free connection. -/
def Attentive (s : State) : Prop :=
  s.pool.shutdown = false → .waiting ∈ s.guards →
    s.pool.pool.length ≤ s.guards.count .notified

/-- A guard that leaves the waiting list, or was not on it, takes no notification away. -/
theorem count_notified_set_of_ne {guards : List Guard} {i : Nat} {old : Guard} (new : Guard)
    (h : guards[i]? = some old) (hold : old ≠ .notified) :
    guards.count .notified ≤ (guards.set i new).count .notified := by
  have hcount : (guards.set i new).count .notified + [old].count .notified =
      guards.count .notified + [new].count .notified := countP_set_singleton _ new h
  have hzero : [old].count Guard.notified = 0 := by simp [hold]
  omega

theorem count_notified_set_le {guards : List Guard} {i : Nat} {old : Guard} (new : Guard)
    (h : guards[i]? = some old) :
    guards.count .notified ≤ (guards.set i new).count .notified + 1 := by
  have hcount : (guards.set i new).count .notified + [old].count .notified =
      guards.count .notified + [new].count .notified := countP_set_singleton _ new h
  have hone : [old].count Guard.notified ≤ 1 := List.count_le_length
  omega

/-- The section of `AcquireConnection`, for guards that lose at most one notification and
none if the thread is left waiting. -/
theorem Attentive.acquire {s : State} (h : Attentive s) {guards : List Guard}
    (hwaiting : .waiting ∈ guards → .waiting ∈ s.guards ∨
      Guard.ofAcquired (acquireConnection s.pool).1 = .waiting)
    (hcount : s.guards.count .notified ≤ guards.count .notified + 1) :
    Attentive { s with pool := (acquireConnection s.pool).2, guards := guards } := by
  intro hopen hmem
  rcases acquireConnection_cases s.pool with ⟨hdown, heq⟩ | ⟨_, hempty, heq⟩ |
    ⟨conn, rest, hstill, hpool, heq⟩
  · rw [heq] at hopen
    exact absurd (hopen.symm.trans hdown) Bool.false_ne_true
  · show (acquireConnection s.pool).2.pool.length ≤ guards.count .notified
    rw [heq, hempty]
    exact Nat.zero_le _
  · show (acquireConnection s.pool).2.pool.length ≤ guards.count .notified
    have hfree : s.pool.pool.length ≤ s.guards.count .notified := by
      refine h hstill ((hwaiting hmem).resolve_right fun hnew => ?_)
      rw [heq] at hnew
      cases hnew
    rw [heq]
    rw [hpool, List.length_cons] at hfree
    exact Nat.le_of_succ_le_succ (hfree.trans hcount)

/-- The destruction of a guard, case by case. -/
theorem Attentive.destroy {s s' : State} {i j : Nat} (h : Attentive s)
    (hdestroyed : Destroyed s i j s') : Attentive s' := by
  cases hdestroyed with
  | closed g hi hg =>
    intro hopen hmem
    have hne : g ≠ .notified := by
      rcases hg with rfl | ⟨_, conn, rfl⟩
      · exact Guard.noConfusion
      · exact Guard.noConfusion
    exact (h hopen (waiting_mem_of_set Guard.noConfusion hmem)).trans
      (count_notified_set_of_ne _ hi hne)
  | notifies conn hi hopen hj =>
    intro _ _
    have hne : i ≠ j := by
      rintro rfl
      cases hi.symm.trans hj
    have hj' : (s.guards.set i .destroyed)[j]? = some .waiting := by
      rw [List.getElem?_set_ne hne, hj]
    have hgone := count_notified_set_of_ne .destroyed hi Guard.noConfusion
    have hnew : _ + [Guard.waiting].count .notified = _ + [Guard.notified].count .notified :=
      countP_set_singleton (· == .notified) .notified hj'
    have hfree := h hopen (List.mem_of_getElem? hj)
    show (s.pool.pool ++ [conn]).length ≤
      ((s.guards.set i .destroyed).set j .notified).count .notified
    calc (s.pool.pool ++ [conn]).length
      _ = s.pool.pool.length + 1 := by rw [List.length_append, List.length_singleton]
      _ ≤ s.guards.count .notified + 1 := Nat.succ_le_succ hfree
      _ ≤ (s.guards.set i .destroyed).count .notified + [Guard.notified].count .notified :=
        Nat.succ_le_succ hgone
      _ = ((s.guards.set i .destroyed).set j .notified).count .notified := hnew.symm
  | unheard conn hi _ hnone =>
    intro _ hmem
    exact absurd (waiting_mem_of_set Guard.noConfusion hmem) hnone

theorem Attentive.step {s s' : State} {a : Action} (h : Attentive s)
    (hstep : step s a = some s') : Attentive s' := by
  cases a with
  | construct =>
    cases hstep
    refine h.acquire (fun hmem => ?_) ?_
    · rcases List.mem_append.mp hmem with hold | hnew
      · exact .inl hold
      · exact .inr (List.mem_singleton.mp hnew).symm
    · rw [List.count_append]
      exact (Nat.le_add_right _ _).trans (Nat.le_succ _)
  | wake i =>
    have hset : ∀ old, s.guards[i]? = some old → Attentive { s with
        pool := (acquireConnection s.pool).2
        guards := s.guards.set i (.ofAcquired (acquireConnection s.pool).1) } := by
      intro old hi
      refine h.acquire (fun hmem => ?_) (count_notified_set_le _ hi)
      rcases List.mem_or_eq_of_mem_set hmem with hold | hnew
      · exact .inl hold
      · exact .inr hnew.symm
    simp only [MysqlPool.step] at hstep
    split at hstep
    · next hi =>
      cases hstep
      exact hset _ hi
    · next hi =>
      cases hstep
      exact hset _ hi
    · cases hstep
  | destroy i j => exact h.destroy (step_destroy hstep)
  | shutdown =>
    simp only [MysqlPool.step] at hstep
    split at hstep
    · cases hstep
      exact h
    · cases hstep
      exact fun hopen => Bool.noConfusion hopen
  | clear =>
    simp only [MysqlPool.step] at hstep
    split at hstep
    · cases hstep
      exact fun _ _ => Nat.zero_le _
    · cases hstep

/-- In every run, as long as the pool is not shut down and a thread waits without having
been notified, there are as many notified threads as free connections: none of the free
ones is forgotten. -/
theorem attentive_run (n : Nat) (actions : List Action) :
    HoldsAlong MysqlPool.step Attentive (.start n) actions :=
  holdsAlong_of_step (fun _ _ _ h hstep => h.step hstep) (fun _ h => h)
    fun _ hmem => absurd hmem List.not_mem_nil

/-! ## Everybody gets through -/

/-- What is owed to the threads that have asked for a connection: a notified thread goes
on, a guard is destroyed at the end of its scope, and `Shutdown` goes through its section. -/
def Owed (s : State) : Action → Prop
  | .construct => False
  | .wake i => s.guards[i]? = some .notified
  | .destroy _ _ => True
  | .shutdown => False
  | .clear => True

/-- Every guard that was constructed has been destroyed. -/
def Drained (s : State) : Prop := ∀ g ∈ s.guards, g = .destroyed

/-- The owed steps come to an end in any order, everybody is through by then, and the end
can be reached. -/
structure Served (s : State) : Prop where
  finishes : Finishes step Owed Drained (4 * s.guards.length + 1) s
  reached : ∃ actions s', StepsMeet step Owed s actions ∧ run step s actions = some s' ∧ Drained s'

/-- How far a guard is from the end of its life. A notified thread may have to wait once
more, and the destruction of a guard notifies one other thread. -/
def Guard.distance : Guard → Nat
  | .notified => 3
  | .waiting => 2
  | .holding _ => 2
  | .empty => 1
  | .destroyed => 0

/-- A `Shutdown` on its way notifies everybody. -/
def distance (s : State) : Nat :=
  (s.guards.map Guard.distance).sum + if s.clearing then s.guards.length + 1 else 0

/-- Each guard counts for three steps at most. -/
theorem sum_distance_le (guards : List Guard) :
    (guards.map Guard.distance).sum ≤ guards.length * 3 :=
  sum_map_le fun g _ => by cases g <;> simp [Guard.distance]

theorem sum_distance_notify (guards : List Guard) :
    ((guards.map Guard.notify).map Guard.distance).sum ≤
      (guards.map Guard.distance).sum + guards.length := by
  induction guards with
  | nil => exact Nat.le_refl 0
  | cons g rest ih =>
    have hg : g.notify.distance ≤ g.distance + 1 := by
      cases g <;> simp [Guard.notify, Guard.distance]
    simp only [List.map_cons, List.sum_cons, List.length_cons]
    omega

theorem distance_le (s : State) : distance s ≤ 4 * s.guards.length + 1 := by
  have hsum := sum_distance_le s.guards
  unfold distance
  split
  · omega
  · omega

/-- A guard that comes closer to its end brings everybody closer. -/
theorem distance_set {s : State} {i : Nat} {old new : Guard} (hi : s.guards[i]? = some old)
    (hless : new.distance < old.distance) (pool : Pool) :
    distance { s with pool := pool, guards := s.guards.set i new } < distance s := by
  have hsum := sum_map_set Guard.distance new hi
  unfold distance
  simp only [List.length_set]
  omega

/-- Every owed step brings the threads closer to the end. -/
theorem distance_step {s s' : State} {a : Action} (howed : Owed s a)
    (hstep : step s a = some s') : distance s' < distance s := by
  cases a with
  | construct => exact howed.elim
  | wake i =>
    have hi : s.guards[i]? = some .notified := howed
    simp only [MysqlPool.step, hi] at hstep
    cases hstep
    refine distance_set hi ?_ _
    rcases acquireConnection_cases s.pool with ⟨_, heq⟩ | ⟨_, _, heq⟩ | ⟨conn, rest, _, _, heq⟩
    · rw [heq]
      show 1 < 3
      decide
    · rw [heq]
      show 2 < 3
      decide
    · rw [heq]
      show 2 < 3
      decide
  | destroy i j =>
    cases step_destroy hstep with
    | closed g hi hg =>
      refine distance_set hi ?_ _
      rcases hg with rfl | ⟨_, conn, rfl⟩
      · exact Nat.one_pos
      · exact Nat.two_pos
    | notifies conn hi hopen hj =>
      have hne : i ≠ j := by
        rintro rfl
        cases hi.symm.trans hj
      have hj' : (s.guards.set i .destroyed)[j]? = some .waiting := by
        rw [List.getElem?_set_ne hne, hj]
      have hgone := sum_map_set Guard.distance .destroyed hi
      have hnew := sum_map_set Guard.distance .notified hj'
      simp only [Guard.distance] at hgone hnew
      unfold distance
      simp only [List.length_set]
      omega
    | unheard conn hi _ _ =>
      have hless : Guard.destroyed.distance < (Guard.holding conn).distance := Nat.two_pos
      exact distance_set hi hless _
  | shutdown => exact howed.elim
  | clear =>
    simp only [MysqlPool.step] at hstep
    split at hstep
    · next hclearing =>
      cases hstep
      have hsum := sum_distance_notify s.guards
      show ((s.guards.map Guard.notify).map Guard.distance).sum + 0 < distance s
      unfold distance
      rw [if_pos hclearing]
      omega
    · cases hstep

/-- A guard with a connection can always be destroyed. -/
theorem exists_destroy {s : State} {i conn : Nat} (hi : s.guards[i]? = some (.holding conn)) :
    ∃ j, step s (.destroy i j) ≠ none := by
  cases hflag : s.pool.shutdown with
  | true => exact ⟨i, by simp [step, hi, releaseConnection_shutdown hflag]⟩
  | false =>
    by_cases hwaiting : .waiting ∈ s.guards
    · obtain ⟨j, hj⟩ := List.mem_iff_getElem?.mp hwaiting
      exact ⟨j, by simp [step, hi, releaseConnection_open hflag, hj]⟩
    · exact ⟨i, by simp [step, hi, releaseConnection_open hflag, hwaiting]⟩

/-- When nobody holds a connection, none is on its way. -/
theorem held_eq_nil {guards : List Guard} (h : ∀ conn, .holding conn ∉ guards) :
    held guards = [] := by
  refine List.filterMap_eq_nil_iff.mpr fun g hg => ?_
  cases g with
  | holding conn => exact absurd hg (h conn)
  | waiting | notified | empty | destroyed => rfl

/-- Among threads of which some are not through, one can move: if all of them wait, no
connection is out, so that some are free, and one of the threads has been notified. -/
theorem exists_owed {n : Nat} (hn : 0 < n) {s : State} (hinv : Inv n s) (hattentive : Attentive s)
    (hrest : ¬ Drained s) : ∃ a s', Owed s a ∧ step s a = some s' := by
  have hmoves : ∀ a, Owed s a → step s a ≠ none → ∃ a s', Owed s a ∧ step s a = some s' := by
    intro a howed hne
    obtain ⟨s', hs'⟩ := Option.ne_none_iff_exists'.mp hne
    exact ⟨a, s', howed, hs'⟩
  by_contra hstuck
  have hholding : ∀ conn, .holding conn ∉ s.guards := by
    intro conn hmem
    obtain ⟨i, hi⟩ := List.mem_iff_getElem?.mp hmem
    obtain ⟨j, hj⟩ := exists_destroy hi
    exact hstuck (hmoves (.destroy i j) trivial hj)
  have hempty : .empty ∉ s.guards := by
    intro hmem
    obtain ⟨i, hi⟩ := List.mem_iff_getElem?.mp hmem
    exact hstuck (hmoves (.destroy i i) trivial (by simp [step, hi]))
  have hnotified : .notified ∉ s.guards := by
    intro hmem
    obtain ⟨i, hi⟩ := List.mem_iff_getElem?.mp hmem
    exact hstuck (hmoves (.wake i) hi (by simp [step, hi]))
  have hwaiting : .waiting ∈ s.guards := by
    by_contra hnone
    refine hrest fun g hg => ?_
    cases g with
    | waiting => exact absurd hg hnone
    | notified => exact absurd hg hnotified
    | holding conn => exact absurd hg (hholding conn)
    | empty => exact absurd hg hempty
    | destroyed => rfl
  cases hflag : s.pool.shutdown with
  | false =>
    have hall := (hinv.complete hflag).length_eq
    rw [held_eq_nil hholding, List.append_nil, List.length_range] at hall
    have hfree := hattentive hflag hwaiting
    rw [List.count_eq_zero.mpr hnotified, hall] at hfree
    exact absurd (hn.trans_le hfree) (Nat.lt_irrefl 0)
  | true =>
    cases hclearing : s.clearing with
    | true => exact hstuck (hmoves .clear trivial (by simp [step, hclearing]))
    | false => exact hinv.notified ⟨hflag, hclearing⟩ hwaiting

/-- In every state of every run on a pool with a connection, also after `Shutdown`: if
nobody else asks for a connection and nobody calls `Shutdown` again, every thread that has
asked for one is through after a bounded number of steps, whichever thread moves when. The
bound has four steps for each guard that was ever constructed, and one for a `Shutdown` that
is on its way; it does not count the threads that wake up without having been notified. -/
theorem served_run (n : Nat) (hn : 0 < n) (actions : List Action) :
    HoldsAlong MysqlPool.step Served (.start n) actions := by
  have hinv : ∀ s a s', (Inv n s ∧ Attentive s) → step s a = some s' → Inv n s' ∧ Attentive s' :=
    fun s a s' h hstep => ⟨h.1.step hstep, h.2.step hstep⟩
  refine holdsAlong_of_step hinv (fun s h => ?_)
    ⟨inv_start n, fun _ hmem => absurd hmem List.not_mem_nil⟩
  have hfinishes : Finishes step Owed Drained (4 * s.guards.length + 1) s :=
    finishes_of_measure (fun s a s' h _ hstep => hinv s a s' h hstep)
      (fun _ _ _ _ howed hstep => distance_step howed hstep)
      (fun _ h hrest => exists_owed hn h.1 h.2 hrest) h (distance_le s)
  exact ⟨hfinishes, hfinishes.exists_run⟩

/-- A pool of one connection and two threads that ask for it at the same time. -/
theorem served_run_two : 0 < 1 ∧
    HoldsAlong MysqlPool.step Served (.start 1) [.construct, .construct] :=
  ⟨Nat.one_pos, served_run 1 Nat.one_pos _⟩

-- the second thread waits until the first one is through
example : run step (.start 1) [.construct, .construct, .destroy 0 1, .wake 1, .destroy 1 0] =
    some ⟨.built 1, [.destroyed, .destroyed], false⟩ := by decide

end IMSystem.MysqlPool

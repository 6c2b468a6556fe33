import IMSystem.Common.MysqlPool
import IMSystem.Common.Retry
import IMSystem.Lib.Activation

/-!
# Initializing and shutting down the pools

`MysqlConnectionPool` and `MongoConnectionPool` share one pattern: `Initialize`
exchanges the flag `initialized_` before it does any work, a call that finds the
flag set returns `true` at once, and a failed one resets it; `Shutdown` sets the
flag `shutdown_`, which nothing resets. Any number of threads call both. A step is
one atomic operation, one section under a mutex, or one attempt to open a
connection (to create an object of the driver), which may fail.

A call of `Initialize` that returned `true` promises a usable pool; a `Shutdown`
that has begun since it started excuses it.

Results:
1. `Mysql.initializeCall_builds`: an undisturbed call builds the pool.
2. `Mysql.ready_iff`, `Mongo.ready_iff`: the runs in which every promise is kept.
-/

namespace IMSystem.PoolInit

open Lib

/-! ## MySQL -/

namespace Mysql

open MysqlPool

/-- Where a call of `Initialize` is that has set the flag. -/
inductive Point where
  /-- In the loop, with `opened` connections pushed. -/
  | connecting (opened : Nat)
  /-- In the handler, before the section that empties the queue. -/
  | clearing
  /-- In the handler, before the flag is reset. -/
  | resetting
deriving DecidableEq, Repr

structure State where
  pool : Pool
  /-- The connections that were ever opened. -/
  opened : Nat
  /-- The calls of `Initialize`. -/
  calls : List (Activation Point)
  /-- The `Shutdown` that has set the flag has not been through its section. -/
  clearing : Bool
deriving DecidableEq, Repr

def State.start : State := ⟨.fresh, 0, [], false⟩

inductive Action where
  /-- `Initialize` is called, up to the loop. -/
  | initializeCall (poolSize : Int)
  /-- An iteration of the loop of the `k`-th call. -/
  | connect (k : Nat) (ok : Bool)
  /-- The `k`-th call returns behind its loop. -/
  | finish (k : Nat)
  /-- The `k`-th call empties the queue in its handler. -/
  | clear (k : Nat)
  /-- The `k`-th call resets the flag and returns. -/
  | reset (k : Nat)
  /-- `Shutdown` is called, up to the exchange of the flag. -/
  | shutdown
  /-- The section of `Shutdown`. -/
  | shutdownClear
deriving DecidableEq, Repr

/-- A step. -/
def step (s : State) : Action → Option State
  | .initializeCall poolSize =>
    if s.pool.initialized then some { s with calls := s.calls ++ [⟨.returned true, true⟩] }
    else
      some { s with
        pool :=
          { s.pool with
            initialized := true
            poolSize := if poolSize > 0 then poolSize.toNat else 10 }
        calls := s.calls ++ [⟨.running (.connecting 0), true⟩] }
  | .connect k ok =>
    match s.calls[k]? with
    | some ⟨.running (.connecting i), clean⟩ =>
      if i < s.pool.poolSize then
        if ok then
          some { s with
            pool := { s.pool with pool := s.pool.pool ++ [s.opened] }
            opened := s.opened + 1
            calls := s.calls.set k ⟨.running (.connecting (i + 1)), clean⟩ }
        else some { s with calls := s.calls.set k ⟨.running .clearing, clean⟩ }
      else none
    | _ => none
  | .finish k =>
    match s.calls[k]? with
    | some ⟨.running (.connecting i), clean⟩ =>
      if i < s.pool.poolSize then none
      else some { s with calls := s.calls.set k ⟨.returned true, clean⟩ }
    | _ => none
  | .clear k =>
    match s.calls[k]? with
    | some ⟨.running .clearing, clean⟩ =>
      some { s with pool := s.pool.clear, calls := s.calls.set k ⟨.running .resetting, clean⟩ }
    | _ => none
  | .reset k =>
    match s.calls[k]? with
    | some ⟨.running .resetting, clean⟩ =>
      some { s with
        pool := { s.pool with initialized := false }
        calls := s.calls.set k ⟨.returned false, clean⟩ }
    | _ => none
  | .shutdown =>
    if s.pool.shutdown then some { s with calls := excuse s.calls }
    else
      some { s with
        pool := { s.pool with shutdown := true }
        calls := excuse s.calls
        clearing := true }
  | .shutdownClear =>
    if s.clearing then some { s with pool := s.pool.clear, clearing := false } else none

/-- The pool is completely built, and `AcquireConnection` returns a connection. -/
def Usable (p : Pool) : Prop :=
  p.pool.length = p.poolSize ∧ ∃ conn, (acquireConnection p).1 = .connection conn

/-- Every promise of `Initialize` is kept. -/
def Ready (s : State) : Prop := Promised s.calls → Usable s.pool

/-- A call that has connections still to open, or a failure to clean up. -/
def Unfinished (poolSize : Nat) (a : Activation Point) : Prop :=
  ∃ p, a.phase = .running p ∧ ∀ i, p = .connecting i → i < poolSize

/-- A call that finds the flag set comes before any `Shutdown` and while no other
call is unfinished; and a call that completes the pool does so before any
`Shutdown`, or is excused by one. -/
def Prudent (s : State) : Action → Prop
  | .initializeCall _ => s.pool.initialized = true →
    s.pool.shutdown = false ∧ ∀ a ∈ s.calls, ¬ Unfinished s.pool.poolSize a
  | .finish k => ∀ a, s.calls[k]? = some a → a.clean = true → s.pool.shutdown = false
  | _ => True

/-! ### What each step does -/

section Steps

variable {s s' : State} {k : Nat}

theorem step_initializeCall {poolSize : Int}
    (hstep : Mysql.step s (.initializeCall poolSize) = some s') :
    (s.pool.initialized = true ∧ s' = { s with calls := s.calls ++ [⟨.returned true, true⟩] }) ∨
    (s.pool.initialized = false ∧ ∃ size, 0 < size ∧ s' = { s with
      pool := { s.pool with initialized := true, poolSize := size }
      calls := s.calls ++ [⟨.running (.connecting 0), true⟩] }) := by
  simp only [Mysql.step] at hstep
  split at hstep
  · next hset =>
    cases hstep
    exact .inl ⟨hset, rfl⟩
  · next hunset =>
    cases hstep
    have hpos : 0 < if poolSize > 0 then poolSize.toNat else 10 := by split <;> omega
    exact .inr ⟨Bool.eq_false_of_not_eq_true hunset, _, hpos, rfl⟩

theorem step_connect {ok : Bool} (hstep : Mysql.step s (.connect k ok) = some s') :
    ∃ i clean, s.calls[k]? = some ⟨.running (.connecting i), clean⟩ ∧ i < s.pool.poolSize ∧
      (s' = { s with
          pool := { s.pool with pool := s.pool.pool ++ [s.opened] }
          opened := s.opened + 1
          calls := s.calls.set k ⟨.running (.connecting (i + 1)), clean⟩ } ∨
        s' = { s with calls := s.calls.set k ⟨.running .clearing, clean⟩ }) := by
  simp only [Mysql.step] at hstep
  split at hstep
  · next i clean hk =>
    split at hstep
    · next hi =>
      split at hstep
      · cases hstep
        exact ⟨i, clean, hk, hi, .inl rfl⟩
      · cases hstep
        exact ⟨i, clean, hk, hi, .inr rfl⟩
    · cases hstep
  · cases hstep

theorem step_finish (hstep : Mysql.step s (.finish k) = some s') :
    ∃ i clean, s.calls[k]? = some ⟨.running (.connecting i), clean⟩ ∧ s.pool.poolSize ≤ i ∧
      s' = { s with calls := s.calls.set k ⟨.returned true, clean⟩ } := by
  simp only [Mysql.step] at hstep
  split at hstep
  · next i clean hk =>
    split at hstep
    · cases hstep
    · next hi =>
      cases hstep
      exact ⟨i, clean, hk, Nat.not_lt.mp hi, rfl⟩
  · cases hstep

theorem step_clear (hstep : Mysql.step s (.clear k) = some s') :
    ∃ clean, s.calls[k]? = some ⟨.running .clearing, clean⟩ ∧ s' = { s with
      pool := s.pool.clear
      calls := s.calls.set k ⟨.running .resetting, clean⟩ } := by
  simp only [Mysql.step] at hstep
  split at hstep
  · next clean hk =>
    cases hstep
    exact ⟨clean, hk, rfl⟩
  · cases hstep

theorem step_reset (hstep : Mysql.step s (.reset k) = some s') :
    ∃ clean, s.calls[k]? = some ⟨.running .resetting, clean⟩ ∧ s' = { s with
      pool := { s.pool with initialized := false }
      calls := s.calls.set k ⟨.returned false, clean⟩ } := by
  simp only [Mysql.step] at hstep
  split at hstep
  · next clean hk =>
    cases hstep
    exact ⟨clean, hk, rfl⟩
  · cases hstep

theorem step_shutdown (hstep : Mysql.step s .shutdown = some s') :
    s'.pool.shutdown = true ∧ s'.calls = excuse s.calls := by
  simp only [Mysql.step] at hstep
  split at hstep
  · next hdown =>
    cases hstep
    exact ⟨hdown, rfl⟩
  · cases hstep
    exact ⟨rfl, rfl⟩

theorem step_shutdownClear (hstep : Mysql.step s .shutdownClear = some s') :
    s.clearing = true ∧ s' = { s with pool := s.pool.clear, clearing := false } := by
  simp only [Mysql.step] at hstep
  split at hstep
  · next hclearing =>
    cases hstep
    exact ⟨hclearing, rfl⟩
  · cases hstep

end Steps

/-! ### What holds until `Shutdown` -/

theorem usable_iff (p : Pool) :
    Usable p ↔ p.pool.length = p.poolSize ∧ p.pool ≠ [] ∧ p.shutdown = false := by
  unfold Usable
  rcases acquireConnection_cases p with ⟨hdown, heq⟩ | ⟨hopen, hempty, heq⟩ |
    ⟨conn, rest, hopen, hpool, heq⟩
  · simp [heq, hdown]
  · simp [heq, hempty]
  · simp [heq, hpool, hopen]

/-- What a running call knows of the pool. -/
def Point.Holds (p : Pool) : Point → Prop
  | .connecting i => p.pool.length = i ∧ i ≤ p.poolSize ∧ 0 < p.poolSize
  | .clearing => p.pool.length < p.poolSize
  | .resetting => p.pool = [] ∧ 0 < p.poolSize

/-- Until `Shutdown`, at most one call is at work on the pool. While none is, the
flag tells an empty pool from a built one. -/
structure Building (s : State) : Prop where
  working : Working s.calls fun p => s.pool.initialized = true ∧ p.Holds s.pool
  idle : s.pool.initialized = false → s.pool.pool = []
  built : s.pool.initialized = true → (∃ p c, ⟨.running p, c⟩ ∈ s.calls) ∨
    s.pool.pool.length = s.pool.poolSize ∧ 0 < s.pool.poolSize

structure Inv (s : State) : Prop where
  flag : s.clearing = true → s.pool.shutdown = true
  building : s.pool.shutdown = false → Building s

theorem building_iff (s : State) : Building s ↔
    Guarded s.calls s.pool.initialized (fun p => p.Holds s.pool) (s.pool.pool = [])
      (s.pool.pool.length = s.pool.poolSize ∧ 0 < s.pool.poolSize) :=
  ⟨fun h => ⟨h.working, h.idle, h.built⟩, fun h => ⟨h.working, h.idle, h.built⟩⟩

theorem Inv.guarded {s : State} (h : Inv s) (hopen : s.pool.shutdown = false) :
    Guarded s.calls s.pool.initialized (fun p => p.Holds s.pool) (s.pool.pool = [])
      (s.pool.pool.length = s.pool.poolSize ∧ 0 < s.pool.poolSize) :=
  (building_iff s).mp (h.building hopen)

theorem Inv.step {s s' : State} {a : Action} (h : Inv s) (hstep : step s a = some s') : Inv s' := by
  cases a with
  | initializeCall poolSize =>
    rcases step_initializeCall hstep with ⟨_, rfl⟩ | ⟨hunset, size, hpos, rfl⟩
    · exact ⟨h.flag, fun hopen => (building_iff _).mpr ((h.guarded hopen).returned true true)⟩
    · refine ⟨h.flag, fun hopen => (building_iff _).mpr ?_⟩
      refine (h.guarded hopen).start hunset true fun hempty => ?_
      exact ⟨List.length_eq_zero_iff.mpr hempty, Nat.zero_le _, hpos⟩
  | connect k ok =>
    obtain ⟨i, clean, hk, hi, rfl | rfl⟩ := step_connect hstep
    · refine ⟨h.flag, fun hopen => (building_iff _).mpr ((h.guarded hopen).move hk ?_)⟩
      rintro ⟨hlen, _, hpos⟩
      refine ⟨?_, hi, hpos⟩
      rw [List.length_append, hlen, List.length_singleton]
    · refine ⟨h.flag, fun hopen => (building_iff _).mpr ((h.guarded hopen).move hk ?_)⟩
      rintro ⟨hlen, _, _⟩
      rw [← hlen] at hi
      exact hi
  | finish k =>
    obtain ⟨i, clean, hk, hi, rfl⟩ := step_finish hstep
    refine ⟨h.flag, fun hopen => (building_iff _).mpr ((h.guarded hopen).finish hk true ?_)⟩
    rintro ⟨hlen, hle, hpos⟩
    exact ⟨hlen.trans (Nat.le_antisymm hle hi), hpos⟩
  | clear k =>
    obtain ⟨clean, hk, rfl⟩ := step_clear hstep
    refine ⟨h.flag, fun hopen => (building_iff _).mpr ((h.guarded hopen).move hk fun hlen => ?_)⟩
    exact ⟨rfl, Nat.lt_of_le_of_lt (Nat.zero_le _) hlen⟩
  | reset k =>
    obtain ⟨clean, hk, rfl⟩ := step_reset hstep
    exact ⟨h.flag, fun hopen =>
      (building_iff _).mpr ((h.guarded hopen).fail hk false fun hempty => hempty.1)⟩
  | shutdown =>
    obtain ⟨hdown, _⟩ := step_shutdown hstep
    exact ⟨fun _ => hdown, fun hopen => absurd (hopen.symm.trans hdown) Bool.false_ne_true⟩
  | shutdownClear =>
    obtain ⟨hclearing, rfl⟩ := step_shutdownClear hstep
    refine ⟨fun hfalse => (nomatch hfalse), fun hopen => ?_⟩
    exact absurd (hopen.symm.trans (h.flag hclearing)) Bool.false_ne_true

/-! ### Which steps keep the promises -/

/-- A call at work finds the pool usable only behind its loop. -/
theorem Inv.not_usable {s : State} (h : Inv s) {k : Nat} {p : Point} {c : Bool}
    (hk : s.calls[k]? = some ⟨.running p, c⟩)
    (hp : ∀ i, p = .connecting i → i < s.pool.poolSize) : ¬ Usable s.pool := by
  intro husable
  obtain ⟨hlen, hne, hopen⟩ := (usable_iff _).mp husable
  have hpoint := ((h.building hopen).working.point p c (List.mem_of_getElem? hk)).2
  cases p with
  | connecting i => exact absurd (hp i rfl) (by rw [← hlen, hpoint.1]; exact Nat.lt_irrefl i)
  | clearing => exact absurd hlen (Nat.ne_of_lt hpoint)
  | resetting => exact hne hpoint.1

/-- Where the flag is set, the pool is usable unless it is shut down or a call is
unfinished. -/
theorem Inv.usable_iff_finished {s : State} (h : Inv s) (hset : s.pool.initialized = true) :
    Usable s.pool ↔
      s.pool.shutdown = false ∧ ∀ a ∈ s.calls, ¬ Unfinished s.pool.poolSize a := by
  constructor
  · intro husable
    refine ⟨((usable_iff _).mp husable).2.2, fun a ha ⟨p, hphase, hp⟩ => ?_⟩
    obtain ⟨k, hk⟩ := List.mem_iff_getElem?.mp ha
    obtain ⟨phase, clean⟩ := a
    cases hphase
    exact h.not_usable hk hp husable
  · rintro ⟨hopen, hall⟩
    have hb := h.building hopen
    have hfull : s.pool.pool.length = s.pool.poolSize ∧ 0 < s.pool.poolSize := by
      rcases hb.built hset with ⟨p, c, hmem⟩ | hfull
      · obtain ⟨i, rfl, hi⟩ : ∃ i, p = .connecting i ∧ ¬ i < s.pool.poolSize := by
          by_contra hnone
          refine hall _ hmem ⟨p, rfl, fun i hp => ?_⟩
          exact Classical.not_not.mp fun hi => hnone ⟨i, hp, hi⟩
        obtain ⟨_, hlen, hle, hpos⟩ := hb.working.point _ _ hmem
        exact ⟨hlen.trans (Nat.le_antisymm hle (Nat.not_lt.mp hi)), hpos⟩
      · exact hfull
    refine (usable_iff _).mpr ⟨hfull.1, fun hnil => ?_, hopen⟩
    have hzero : s.pool.pool.length = 0 := List.length_eq_zero_iff.mpr hnil
    omega

theorem ready_step {s s' : State} {a : Action} (h : Inv s) (hready : Ready s)
    (hstep : Mysql.step s a = some s') : Ready s' ↔ Prudent s a := by
  cases a with
  | initializeCall poolSize =>
    rcases step_initializeCall hstep with ⟨hset, rfl⟩ | ⟨hunset, _, _, rfl⟩
    · have hpromised : Promised (s.calls ++ [⟨.returned true, true⟩]) :=
        (promised_concat _).mpr (.inr rfl)
      exact ⟨fun hready' _ => (h.usable_iff_finished hset).mp (hready' hpromised),
        fun hprudent _ => (h.usable_iff_finished hset).mpr (hprudent hset)⟩
    · refine ⟨fun _ hset => absurd (hunset.symm.trans hset) Bool.false_ne_true, fun _ => ?_⟩
      refine kept_of_not_due hready (fun husable => ?_)
        (promised_of_concat fun heq => nomatch heq)
      obtain ⟨_, hne, hopen⟩ := (usable_iff _).mp husable
      exact hne ((h.building hopen).idle hunset)
  | connect k ok =>
    obtain ⟨i, clean, hk, hi, rfl | rfl⟩ := step_connect hstep
    all_goals
      have hnot := h.not_usable hk fun j hj => by cases hj; exact hi
      exact ⟨fun _ => trivial, fun _ => kept_of_not_due hready hnot
        (promised_of_set hk fun heq => nomatch heq)⟩
  | finish k =>
    obtain ⟨i, clean, hk, hi, rfl⟩ := step_finish hstep
    constructor
    · intro hready' a ha hclean
      rw [hk] at ha
      cases ha
      cases hclean
      have husable := hready' ((promised_set hk _).mpr (.inr rfl))
      exact ((usable_iff _).mp husable).2.2
    · intro hprudent hpromised
      rcases (promised_set hk _).mp hpromised with hold | hnew
      · exact hready hold
      · cases hnew
        have hopen := hprudent _ hk rfl
        obtain ⟨_, hlen, hle, hpos⟩ := (h.guarded hopen).point hk
        have hfull : s.pool.pool.length = s.pool.poolSize := hlen.trans (Nat.le_antisymm hle hi)
        refine (usable_iff _).mpr ⟨hfull, fun hnil => ?_, hopen⟩
        rw [hnil] at hfull
        exact absurd hfull (Nat.ne_of_lt hpos)
  | clear k =>
    obtain ⟨clean, hk, rfl⟩ := step_clear hstep
    have hnot := h.not_usable hk fun i hi => nomatch hi
    exact ⟨fun _ => trivial, fun _ => kept_of_not_due hready hnot
      (promised_of_set hk fun heq => nomatch heq)⟩
  | reset k =>
    obtain ⟨clean, hk, rfl⟩ := step_reset hstep
    have hnot := h.not_usable hk fun i hi => nomatch hi
    exact ⟨fun _ => trivial, fun _ => kept_of_not_due hready hnot
      (promised_of_set hk fun heq => nomatch heq)⟩
  | shutdown =>
    obtain ⟨_, hcalls⟩ := step_shutdown hstep
    refine ⟨fun _ => trivial, fun _ hpromised => ?_⟩
    rw [hcalls] at hpromised
    exact absurd hpromised not_promised_excuse
  | shutdownClear =>
    obtain ⟨hclearing, rfl⟩ := step_shutdownClear hstep
    refine ⟨fun _ => trivial, fun _ => kept_of_not_due hready (fun husable => ?_) id⟩
    have hopen := ((usable_iff _).mp husable).2.2
    exact Bool.false_ne_true (hopen.symm.trans (h.flag hclearing))

theorem inv_start : Inv .start where
  flag := fun hfalse => nomatch hfalse
  building := fun _ => ⟨working_nil, fun _ => rfl, fun hset => nomatch hset⟩

/-- The runs in which every promise of `Initialize` is kept are those in which all
its calls are prudent. -/
theorem ready_iff (actions : List Action) :
    HoldsAlong Mysql.step Ready .start actions ↔ StepsMeet Mysql.step Prudent .start actions :=
  holdsAlong_iff (fun _ _ _ (h : Inv _) hstep => h.step hstep)
    (fun _ _ _ h hready hstep => ready_step h hready hstep) inv_start
    fun hpromised => absurd hpromised List.not_mem_nil

/-! ### An undisturbed call -/

/-- The only call is in its loop. -/
def inLoop (size i : Nat) : State :=
  ⟨⟨List.range i, size, true, false⟩, i, [⟨.running (.connecting i), true⟩], false⟩

theorem run_connects (m i : Nat) :
    run Mysql.step (inLoop (i + m) i) (List.replicate m (.connect 0 true)) =
      some (inLoop (i + m) (i + m)) := by
  induction m generalizing i with
  | zero => rfl
  | succ m ih =>
    have hstep : Mysql.step (inLoop (i + (m + 1)) i) (.connect 0 true) =
        some (inLoop (i + (m + 1)) (i + 1)) := by
      simp [Mysql.step, inLoop, List.range_succ]
    have hsize : i + (m + 1) = i + 1 + m := by omega
    rw [List.replicate_succ, run_cons hstep, hsize]
    exact ih (i + 1)

/-- A call that nothing disturbs builds the pool. -/
theorem initializeCall_builds (n : Nat) (hn : 0 < n) :
    run Mysql.step .start
      (.initializeCall n :: (List.replicate n (.connect 0 true) ++ [.finish 0])) =
      some ⟨.built n, n, [⟨.returned true, true⟩], false⟩ := by
  have hcall : Mysql.step .start (.initializeCall n) = some (inLoop n 0) := by
    simp [Mysql.step, State.start, Pool.fresh, inLoop, hn]
  have hloop := run_connects n 0
  rw [Nat.zero_add] at hloop
  have hfinish : Mysql.step (inLoop n n) (.finish 0) =
      some ⟨.built n, n, [⟨.returned true, true⟩], false⟩ := by
    simp [Mysql.step, inLoop, Pool.built]
  rw [run_cons hcall, run_append hloop, run_cons hfinish]
  rfl

end Mysql

/-! ## MongoDB -/

namespace Mongo

/-- The members of `MongoConnectionPool`: whether the two pointers are set, and the
two flags. -/
structure Pool where
  hasInstance : Bool
  hasPool : Bool
  initialized : Bool
  shutdown : Bool
deriving DecidableEq, Repr

/-- `GetConnection`, up to `pool_->acquire()`. -/
def getConnection (p : Pool) : Except Exn Unit :=
  if !p.hasPool || p.shutdown then
    .error (.std (str "MongoConnectionPool not initialized or already shutdown"))
  else .ok ()

/-- Where a call of `Initialize` is that has set the flag. -/
inductive Point where
  /-- Before the driver's instance is created. -/
  | makingInstance
  /-- Before the driver's pool is created. -/
  | makingPool
  /-- Before the call returns `true`. -/
  | made
  /-- In the handler, before the flag is reset. -/
  | resetting
deriving DecidableEq, Repr

/-- What the `Shutdown` that has set the flag has still to do first. -/
inductive Closing where
  | resetPool
  | resetInstance
  | resetFlag
deriving DecidableEq, Repr

structure State where
  pool : Pool
  /-- The calls of `Initialize`. -/
  calls : List (Activation Point)
  closing : Option Closing
deriving DecidableEq, Repr

def State.start : State := ⟨⟨false, false, false, false⟩, [], none⟩

inductive Action where
  /-- `Initialize` is called, up to the `try` block. -/
  | initializeCall
  /-- The `k`-th call creates its next object. -/
  | make (k : Nat) (ok : Bool)
  /-- The `k`-th call returns `true`. -/
  | finish (k : Nat)
  /-- The `k`-th call resets the flag and returns `false`. -/
  | reset (k : Nat)
  /-- `Shutdown` is called, up to the exchange of the flag. -/
  | shutdown
  /-- `Shutdown` resets its next member. -/
  | close
deriving DecidableEq, Repr

/-- A step. -/
def step (s : State) : Action → Option State
  | .initializeCall =>
    if s.pool.initialized then some { s with calls := s.calls ++ [⟨.returned true, true⟩] }
    else
      some { s with
        pool := { s.pool with initialized := true }
        calls := s.calls ++ [⟨.running .makingInstance, true⟩] }
  | .make k ok =>
    match s.calls[k]? with
    | some ⟨.running .makingInstance, clean⟩ =>
      if ok then
        some { s with
          pool := { s.pool with hasInstance := true }
          calls := s.calls.set k ⟨.running .makingPool, clean⟩ }
      else some { s with calls := s.calls.set k ⟨.running .resetting, clean⟩ }
    | some ⟨.running .makingPool, clean⟩ =>
      if ok then
        some { s with
          pool := { s.pool with hasPool := true }
          calls := s.calls.set k ⟨.running .made, clean⟩ }
      else some { s with calls := s.calls.set k ⟨.running .resetting, clean⟩ }
    | _ => none
  | .finish k =>
    match s.calls[k]? with
    | some ⟨.running .made, clean⟩ =>
      some { s with calls := s.calls.set k ⟨.returned true, clean⟩ }
    | _ => none
  | .reset k =>
    match s.calls[k]? with
    | some ⟨.running .resetting, clean⟩ =>
      some { s with
        pool := { s.pool with initialized := false }
        calls := s.calls.set k ⟨.returned false, clean⟩ }
    | _ => none
  | .shutdown =>
    if s.pool.shutdown then some { s with calls := excuse s.calls }
    else
      some { s with
        pool := { s.pool with shutdown := true }
        calls := excuse s.calls
        closing := some .resetPool }
  | .close =>
    match s.closing with
    | some .resetPool =>
      some { s with pool := { s.pool with hasPool := false }, closing := some .resetInstance }
    | some .resetInstance =>
      some { s with pool := { s.pool with hasInstance := false }, closing := some .resetFlag }
    | some .resetFlag =>
      some { s with pool := { s.pool with initialized := false }, closing := none }
    | none => none

/-- The pool is built, and `GetConnection` does not raise. -/
def Usable (p : Pool) : Prop := p.hasPool = true ∧ getConnection p = .ok ()

/-- Every promise of `Initialize` is kept. -/
def Ready (s : State) : Prop := Promised s.calls → Usable s.pool

/-- A call that has the pool still to create, or a failure to clean up. -/
def Unfinished (a : Activation Point) : Prop := ∃ p, a.phase = .running p ∧ p ≠ .made

/-- A call that finds the flag set comes before any `Shutdown` and while no other
call is unfinished; and a call that completes the pool does so before any
`Shutdown`, or is excused by one. -/
def Prudent (s : State) : Action → Prop
  | .initializeCall => s.pool.initialized = true →
    s.pool.shutdown = false ∧ ∀ a ∈ s.calls, ¬ Unfinished a
  | .finish k => ∀ a, s.calls[k]? = some a → a.clean = true → s.pool.shutdown = false
  | _ => True

/-! ### What each step does -/

section Steps

variable {s s' : State} {k : Nat}

theorem step_initializeCall (hstep : Mongo.step s .initializeCall = some s') :
    (s.pool.initialized = true ∧ s' = { s with calls := s.calls ++ [⟨.returned true, true⟩] }) ∨
    (s.pool.initialized = false ∧ s' = { s with
      pool := { s.pool with initialized := true }
      calls := s.calls ++ [⟨.running .makingInstance, true⟩] }) := by
  simp only [Mongo.step] at hstep
  split at hstep
  · next hset =>
    cases hstep
    exact .inl ⟨hset, rfl⟩
  · next hunset =>
    cases hstep
    exact .inr ⟨Bool.eq_false_of_not_eq_true hunset, rfl⟩

/-- The pool is there behind its creation, and is as it was behind all else. -/
theorem step_make {ok : Bool} (hstep : Mongo.step s (.make k ok) = some s') :
    ∃ p q clean pool, s.calls[k]? = some ⟨.running p, clean⟩ ∧ p ≠ .made ∧
      s' = { s with pool := pool, calls := s.calls.set k ⟨.running q, clean⟩ } ∧
      pool.initialized = s.pool.initialized ∧ pool.shutdown = s.pool.shutdown ∧
      (q = .made ∧ pool.hasPool = true ∨ q ≠ .made ∧ pool.hasPool = s.pool.hasPool) := by
  simp only [Mongo.step] at hstep
  split at hstep
  · next clean hk =>
    split at hstep
    · cases hstep
      exact ⟨_, _, clean, _, hk, nofun, rfl, rfl, rfl, .inr ⟨nofun, rfl⟩⟩
    · cases hstep
      exact ⟨_, _, clean, _, hk, nofun, rfl, rfl, rfl, .inr ⟨nofun, rfl⟩⟩
  · next clean hk =>
    split at hstep
    · cases hstep
      exact ⟨_, _, clean, _, hk, nofun, rfl, rfl, rfl, .inl ⟨rfl, rfl⟩⟩
    · cases hstep
      exact ⟨_, _, clean, _, hk, nofun, rfl, rfl, rfl, .inr ⟨nofun, rfl⟩⟩
  · cases hstep

theorem step_finish (hstep : Mongo.step s (.finish k) = some s') :
    ∃ clean, s.calls[k]? = some ⟨.running .made, clean⟩ ∧
      s' = { s with calls := s.calls.set k ⟨.returned true, clean⟩ } := by
  simp only [Mongo.step] at hstep
  split at hstep
  · next clean hk =>
    cases hstep
    exact ⟨clean, hk, rfl⟩
  · cases hstep

theorem step_reset (hstep : Mongo.step s (.reset k) = some s') :
    ∃ clean, s.calls[k]? = some ⟨.running .resetting, clean⟩ ∧ s' = { s with
      pool := { s.pool with initialized := false }
      calls := s.calls.set k ⟨.returned false, clean⟩ } := by
  simp only [Mongo.step] at hstep
  split at hstep
  · next clean hk =>
    cases hstep
    exact ⟨clean, hk, rfl⟩
  · cases hstep

theorem step_shutdown (hstep : Mongo.step s .shutdown = some s') :
    s'.pool.shutdown = true ∧ s'.calls = excuse s.calls := by
  simp only [Mongo.step] at hstep
  split at hstep
  · next hdown =>
    cases hstep
    exact ⟨hdown, rfl⟩
  · cases hstep
    exact ⟨rfl, rfl⟩

theorem step_close (hstep : Mongo.step s .close = some s') :
    s.closing ≠ none ∧ s'.pool.shutdown = s.pool.shutdown ∧ s'.calls = s.calls := by
  simp only [Mongo.step] at hstep
  split at hstep
  · next hclosing =>
    cases hstep
    exact ⟨by simp [hclosing], rfl, rfl⟩
  · next hclosing =>
    cases hstep
    exact ⟨by simp [hclosing], rfl, rfl⟩
  · next hclosing =>
    cases hstep
    exact ⟨by simp [hclosing], rfl, rfl⟩
  · cases hstep

end Steps

/-! ### What holds until `Shutdown` -/

theorem usable_iff (p : Pool) : Usable p ↔ p.hasPool = true ∧ p.shutdown = false := by
  unfold Usable getConnection
  cases p.hasPool <;> cases p.shutdown <;> simp

/-- Until `Shutdown`, at most one call is at work on the pool, and the pool is there
when that call has made it. While none is, the flag says whether the pool is there. -/
structure Building (s : State) : Prop where
  working : Working s.calls fun p =>
    s.pool.initialized = true ∧ (s.pool.hasPool = true ↔ p = .made)
  idle : s.pool.initialized = false → s.pool.hasPool = false
  built : s.pool.initialized = true →
    (∃ p c, ⟨.running p, c⟩ ∈ s.calls) ∨ s.pool.hasPool = true

structure Inv (s : State) : Prop where
  closing : s.closing ≠ none → s.pool.shutdown = true
  building : s.pool.shutdown = false → Building s

theorem building_iff (s : State) : Building s ↔
    Guarded s.calls s.pool.initialized (fun p => s.pool.hasPool = true ↔ p = .made)
      (s.pool.hasPool = false) (s.pool.hasPool = true) :=
  ⟨fun h => ⟨h.working, h.idle, h.built⟩, fun h => ⟨h.working, h.idle, h.built⟩⟩

theorem Inv.guarded {s : State} (h : Inv s) (hopen : s.pool.shutdown = false) :
    Guarded s.calls s.pool.initialized (fun p => s.pool.hasPool = true ↔ p = .made)
      (s.pool.hasPool = false) (s.pool.hasPool = true) :=
  (building_iff s).mp (h.building hopen)

theorem Inv.step {s s' : State} {a : Action} (h : Inv s) (hstep : step s a = some s') : Inv s' := by
  cases a with
  | initializeCall =>
    rcases step_initializeCall hstep with ⟨_, rfl⟩ | ⟨hunset, rfl⟩
    · exact ⟨h.closing, fun hopen => (building_iff _).mpr ((h.guarded hopen).returned true true)⟩
    · refine ⟨h.closing, fun hopen => (building_iff _).mpr ?_⟩
      exact (h.guarded hopen).start hunset true fun hempty => by simp [hempty]
  | make k ok =>
    obtain ⟨p, q, clean, pool, hk, hp, rfl, hflag, hdown, hmade⟩ := step_make hstep
    refine ⟨fun hclosing => hdown.trans (h.closing hclosing), fun hopen => (building_iff _).mpr ?_⟩
    show Guarded (s.calls.set k _) pool.initialized _ _ _
    rw [hflag]
    refine (h.guarded (hdown.symm.trans hopen)).move hk fun hpoint => ?_
    rcases hmade with ⟨rfl, hthere⟩ | ⟨hq, hsame⟩
    · exact iff_of_true hthere rfl
    · refine iff_of_false ?_ hq
      rw [hsame]
      exact fun hthere => hp (hpoint.mp hthere)
  | finish k =>
    obtain ⟨clean, hk, rfl⟩ := step_finish hstep
    exact ⟨h.closing, fun hopen =>
      (building_iff _).mpr ((h.guarded hopen).finish hk true fun hpoint => hpoint.mpr rfl)⟩
  | reset k =>
    obtain ⟨clean, hk, rfl⟩ := step_reset hstep
    refine ⟨h.closing, fun hopen => (building_iff _).mpr ((h.guarded hopen).fail hk false ?_)⟩
    intro hpoint
    simpa using hpoint
  | shutdown =>
    obtain ⟨hdown, _⟩ := step_shutdown hstep
    exact ⟨fun _ => hdown, fun hopen => absurd (hopen.symm.trans hdown) Bool.false_ne_true⟩
  | close =>
    obtain ⟨hclosing, hsame, _⟩ := step_close hstep
    have hdown := hsame.trans (h.closing hclosing)
    exact ⟨fun _ => hdown, fun hopen => absurd (hopen.symm.trans hdown) Bool.false_ne_true⟩

/-! ### Which steps keep the promises -/

/-- A call at work finds the pool usable only when it has made it. -/
theorem Inv.not_usable {s : State} (h : Inv s) {k : Nat} {p : Point} {c : Bool}
    (hk : s.calls[k]? = some ⟨.running p, c⟩) (hp : p ≠ .made) : ¬ Usable s.pool := by
  intro husable
  obtain ⟨hmade, hopen⟩ := (usable_iff _).mp husable
  have hpoint := ((h.building hopen).working.point p c (List.mem_of_getElem? hk)).2
  exact hp (hpoint.mp hmade)

/-- Where the flag is set, the pool is usable unless it is shut down or a call is
unfinished. -/
theorem Inv.usable_iff_finished {s : State} (h : Inv s) (hset : s.pool.initialized = true) :
    Usable s.pool ↔ s.pool.shutdown = false ∧ ∀ a ∈ s.calls, ¬ Unfinished a := by
  constructor
  · intro husable
    refine ⟨((usable_iff _).mp husable).2, fun a ha ⟨p, hphase, hp⟩ => ?_⟩
    obtain ⟨k, hk⟩ := List.mem_iff_getElem?.mp ha
    obtain ⟨phase, clean⟩ := a
    cases hphase
    exact h.not_usable hk hp husable
  · rintro ⟨hopen, hall⟩
    have hb := h.building hopen
    refine (usable_iff _).mpr ⟨?_, hopen⟩
    rcases hb.built hset with ⟨p, c, hmem⟩ | hmade
    · have hp : p = .made := Classical.not_not.mp fun hp => hall _ hmem ⟨p, rfl, hp⟩
      exact (hb.working.point _ _ hmem).2.mpr hp
    · exact hmade

theorem ready_step {s s' : State} {a : Action} (h : Inv s) (hready : Ready s)
    (hstep : Mongo.step s a = some s') : Ready s' ↔ Prudent s a := by
  cases a with
  | initializeCall =>
    rcases step_initializeCall hstep with ⟨hset, rfl⟩ | ⟨hunset, rfl⟩
    · have hpromised : Promised (s.calls ++ [⟨.returned true, true⟩]) :=
        (promised_concat _).mpr (.inr rfl)
      exact ⟨fun hready' _ => (h.usable_iff_finished hset).mp (hready' hpromised),
        fun hprudent _ => (h.usable_iff_finished hset).mpr (hprudent hset)⟩
    · refine ⟨fun _ hset => absurd (hunset.symm.trans hset) Bool.false_ne_true, fun _ => ?_⟩
      refine kept_of_not_due hready (fun husable => ?_)
        (promised_of_concat fun heq => nomatch heq)
      obtain ⟨hmade, hopen⟩ := (usable_iff _).mp husable
      exact Bool.false_ne_true (((h.building hopen).idle hunset).symm.trans hmade)
  | make k ok =>
    obtain ⟨p, q, clean, pool, hk, hp, rfl, _⟩ := step_make hstep
    exact ⟨fun _ => trivial, fun _ => kept_of_not_due hready (h.not_usable hk hp)
      (promised_of_set hk fun heq => nomatch heq)⟩
  | finish k =>
    obtain ⟨clean, hk, rfl⟩ := step_finish hstep
    constructor
    · intro hready' a ha hclean
      rw [hk] at ha
      cases ha
      cases hclean
      have husable := hready' ((promised_set hk _).mpr (.inr rfl))
      exact ((usable_iff _).mp husable).2
    · intro hprudent hpromised
      rcases (promised_set hk _).mp hpromised with hold | hnew
      · exact hready hold
      · cases hnew
        have hopen := hprudent _ hk rfl
        exact (usable_iff _).mpr ⟨((h.guarded hopen).point hk).2.mpr rfl, hopen⟩
  | reset k =>
    obtain ⟨clean, hk, rfl⟩ := step_reset hstep
    have hnot := h.not_usable hk fun heq => nomatch heq
    exact ⟨fun _ => trivial, fun _ => kept_of_not_due hready hnot
      (promised_of_set hk fun heq => nomatch heq)⟩
  | shutdown =>
    obtain ⟨_, hcalls⟩ := step_shutdown hstep
    refine ⟨fun _ => trivial, fun _ hpromised => ?_⟩
    rw [hcalls] at hpromised
    exact absurd hpromised not_promised_excuse
  | close =>
    obtain ⟨hclosing, _, hcalls⟩ := step_close hstep
    refine ⟨fun _ => trivial, fun _ => kept_of_not_due hready (fun husable => ?_) ?_⟩
    · have hopen := ((usable_iff _).mp husable).2
      exact Bool.false_ne_true (hopen.symm.trans (h.closing hclosing))
    · rw [hcalls]
      exact id

theorem inv_start : Inv .start where
  closing := fun hne => absurd rfl hne
  building := fun _ => ⟨working_nil, fun _ => rfl, fun hset => nomatch hset⟩

/-- The runs in which every promise of `Initialize` is kept are those in which all
its calls are prudent. -/
theorem ready_iff (actions : List Action) :
    HoldsAlong Mongo.step Ready .start actions ↔ StepsMeet Mongo.step Prudent .start actions :=
  holdsAlong_iff (fun _ _ _ (h : Inv _) hstep => h.step hstep)
    (fun _ _ _ h hready hstep => ready_step h hready hstep) inv_start
    fun hpromised => absurd hpromised List.not_mem_nil

end Mongo

/-! ## Both pools -/

/-- A pool is usable whenever `Initialize` has returned `true` and no `Shutdown` has
begun since that call started, in exactly the runs in which no call finds the flag
`initialized_` set after a `Shutdown` or while another call is unfinished, and one
that completes the pool finds the flag `shutdown_` unset or is excused. -/
theorem promises_kept_iff (mysql : List Mysql.Action) (mongo : List Mongo.Action) :
    (HoldsAlong Mysql.step Mysql.Ready .start mysql ↔
      StepsMeet Mysql.step Mysql.Prudent .start mysql) ∧
    (HoldsAlong Mongo.step Mongo.Ready .start mongo ↔
      StepsMeet Mongo.step Mongo.Prudent .start mongo) :=
  ⟨Mysql.ready_iff mysql, Mongo.ready_iff mongo⟩

/-- A second call returns `true` while the first one has not opened a connection;
and a call after `Shutdown` builds a pool that is never used. -/
theorem promises_not_kept :
    ¬ HoldsAlong Mysql.step Mysql.Ready .start [.initializeCall 1, .initializeCall 1] ∧
    ¬ HoldsAlong Mysql.step Mysql.Ready .start
      [.shutdown, .shutdownClear, .initializeCall 1, .connect 0 true, .finish 0] ∧
    ¬ HoldsAlong Mongo.step Mongo.Ready .start [.initializeCall, .initializeCall] ∧
    ¬ HoldsAlong Mongo.step Mongo.Ready .start
      [.shutdown, .close, .close, .close, .initializeCall, .make 0 true, .make 0 true,
        .finish 0] := by
  refine ⟨fun h => ?_, fun h => ?_, fun h => ?_, fun h => ?_⟩
  · have husable := holdsAlong_last h rfl (by decide)
    exact absurd ((Mysql.usable_iff _).mp husable).2.1 (by decide)
  · have husable := holdsAlong_last h rfl (by decide)
    exact absurd ((Mysql.usable_iff _).mp husable).2.2 (by decide)
  · have husable := holdsAlong_last h rfl (by decide)
    exact absurd ((Mongo.usable_iff _).mp husable).1 (by decide)
  · have husable := holdsAlong_last h rfl (by decide)
    exact absurd ((Mongo.usable_iff _).mp husable).2 (by decide)

end IMSystem.PoolInit

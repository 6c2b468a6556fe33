import IMSystem.Lib.Bytes
import IMSystem.Lib.Effect
import IMSystem.Lib.Interleave

/-!
# Retrying calls (`common/src/utils/retry.h`)

Every DAO and every RPC of the system runs inside one of two hand-written
loops. Both are modelled as they stand; `executeWithRetry_eq` connects them to
the bounded retry of the library, whose rule the DAO proofs use. Both are modelled
a second time, around actions that run in several steps.

Delays and log lines are left out: they do not touch the state of a caller.
-/

namespace IMSystem

open Lib

/-- What a C++ call raises: a `std::exception` with its `what()`, or anything
else (caught by `catch (...)` only). -/
inductive Exn where
  | std (what : Bytes)
  | other
deriving DecidableEq, Repr

/-- A call of the system: it returns or raises, and its effects stay. -/
abbrev Call (σ α : Type) := Eff Exn σ α

namespace Retry

variable {σ α : Type}

/-- The `while (true)` of `ExecuteWithRetry`, entered with `attempt` failures
behind it. The two catch branches differ in their log lines only. -/
def executeWithRetryLoop (maxRetries : Int) (func : Nat → Call σ α) (attempt : Nat) : Call σ α :=
  fun s =>
    match func attempt s with
    | (.ok a, s') => (.ok a, s')
    | (.error (.std what), s') =>
      if (attempt : Int) ≥ maxRetries then (.error (.std what), s')
      else executeWithRetryLoop maxRetries func (attempt + 1) s'
    | (.error .other, s') =>
      if (attempt : Int) ≥ maxRetries then (.error .other, s')
      else executeWithRetryLoop maxRetries func (attempt + 1) s'
termination_by (maxRetries - attempt).toNat
decreasing_by all_goals omega

/-- `ExecuteWithRetry`. `func i` is the `i`-th call of the action: the action
takes no argument, but what its environment does may differ in each call. -/
def executeWithRetry (maxRetries : Int) (func : Nat → Call σ α) : Call σ α :=
  executeWithRetryLoop maxRetries func 0

/-- The `while (true)` of `ExecuteWithRetryVoid`. -/
def executeWithRetryVoidLoop (maxRetries : Int) (func : Nat → Call σ Unit) (attempt : Nat) :
    Call σ Unit :=
  fun s =>
    match func attempt s with
    | (.ok (), s') => (.ok (), s')
    | (.error (.std what), s') =>
      if (attempt : Int) ≥ maxRetries then (.error (.std what), s')
      else executeWithRetryVoidLoop maxRetries func (attempt + 1) s'
    | (.error .other, s') =>
      if (attempt : Int) ≥ maxRetries then (.error .other, s')
      else executeWithRetryVoidLoop maxRetries func (attempt + 1) s'
termination_by (maxRetries - attempt).toNat
decreasing_by all_goals omega

/-- `ExecuteWithRetryVoid`. -/
def executeWithRetryVoid (maxRetries : Int) (func : Nat → Call σ Unit) : Call σ Unit :=
  executeWithRetryVoidLoop maxRetries func 0

/-- The attempt that follows a failed one, if the loop does not give up. -/
def afterFailure (maxRetries : Int) (attempt : Nat) : Option Nat :=
  if (attempt : Int) ≥ maxRetries then none else some (attempt + 1)

/-- One turn of the loop, seen from outside: only a failed attempt matters. -/
theorem executeWithRetryLoop_turn (maxRetries : Int) (func : Nat → Call σ α) (attempt : Nat)
    (s : σ) :
    executeWithRetryLoop maxRetries func attempt s =
      match func attempt s with
      | (.ok a, s') => (.ok a, s')
      | (.error e, s') =>
        match afterFailure maxRetries attempt with
        | none => (.error e, s')
        | some next => executeWithRetryLoop maxRetries func next s' := by
  rw [executeWithRetryLoop]
  unfold afterFailure
  match func attempt s with
  | (.ok a, s') => rfl
  | (.error (.std w), s') => by_cases h : (attempt : Int) ≥ maxRetries <;> simp [h]
  | (.error .other, s') => by_cases h : (attempt : Int) ≥ maxRetries <;> simp [h]

theorem executeWithRetryLoop_eq (maxRetries : Int) (func : Nat → Call σ α) (attempt : Nat) :
    executeWithRetryLoop maxRetries func attempt =
      Eff.retry func (maxRetries - attempt).toNat attempt := by
  -- on the number of retries that are left
  generalize hleft : (maxRetries - attempt).toNat = left
  induction left generalizing attempt with
  | zero =>
    have hge : (attempt : Int) ≥ maxRetries := by omega
    funext s
    rw [executeWithRetryLoop]
    match hc : func attempt s with
    | (.ok a, s') => simp [Eff.retry, hc]
    | (.error (.std w), s') => simp [Eff.retry, hc, hge]
    | (.error .other, s') => simp [Eff.retry, hc, hge]
  | succ left ih =>
    have hlt : ¬ (attempt : Int) ≥ maxRetries := by omega
    have hnext := ih (attempt + 1) (by omega)
    funext s
    rw [executeWithRetryLoop]
    match hc : func attempt s with
    | (.ok a, s') => simp [Eff.retry, hc]
    | (.error (.std w), s') => simp [Eff.retry, hc, hlt, hnext]
    | (.error .other, s') => simp [Eff.retry, hc, hlt, hnext]

/-- `ExecuteWithRetry` is the bounded retry with `max(maxRetries, 0)` retries. -/
theorem executeWithRetry_eq (maxRetries : Int) (func : Nat → Call σ α) :
    executeWithRetry maxRetries func = Eff.retry func maxRetries.toNat 0 := by
  rw [executeWithRetry, executeWithRetryLoop_eq]
  simp

/-- The two hand-written loops are the same loop. -/
theorem executeWithRetryVoid_eq (maxRetries : Int) (func : Nat → Call σ Unit) :
    executeWithRetryVoid maxRetries func = executeWithRetry maxRetries func := by
  have hloop : ∀ left attempt, (maxRetries - (attempt : Nat)).toNat = left →
      executeWithRetryVoidLoop maxRetries func attempt =
        executeWithRetryLoop maxRetries func attempt := by
    intro left
    induction left with
    | zero =>
      intro attempt hleft
      have hge : (attempt : Int) ≥ maxRetries := by omega
      funext s
      rw [executeWithRetryVoidLoop, executeWithRetryLoop]
      match func attempt s with
      | (.ok (), s') => rfl
      | (.error (.std w), s') => simp [hge]
      | (.error .other, s') => simp [hge]
    | succ left ih =>
      intro attempt hleft
      have hnext := ih (attempt + 1) (by omega)
      funext s
      rw [executeWithRetryVoidLoop, executeWithRetryLoop]
      match func attempt s with
      | (.ok (), s') => rfl
      | (.error (.std w), s') => simp only [hnext]
      | (.error .other, s') => simp only [hnext]
  exact hloop _ 0 rfl

/-! ## In atomic steps

An action that shares its state with other threads is a program; each attempt
runs in steps of its own. -/

namespace Steps

variable {χ : Type}

/-- The `while (true)` of `ExecuteWithRetry` around a program. -/
def executeWithRetryLoop (maxRetries : Int) (func : ExceptT Exn (Prog χ σ) α) (attempt : Nat) :
    ExceptT Exn (Prog χ σ) α :=
  tryCatch func fun
    | .std what =>
      if (attempt : Int) ≥ maxRetries then throw (Exn.std what)
      else executeWithRetryLoop maxRetries func (attempt + 1)
    | .other =>
      if (attempt : Int) ≥ maxRetries then throw Exn.other
      else executeWithRetryLoop maxRetries func (attempt + 1)
termination_by (maxRetries - attempt).toNat
decreasing_by all_goals omega

/-- `ExecuteWithRetry`. -/
def executeWithRetry (maxRetries : Int) (func : ExceptT Exn (Prog χ σ) α) :
    ExceptT Exn (Prog χ σ) α :=
  executeWithRetryLoop maxRetries func 0

/-- The `while (true)` of `ExecuteWithRetryVoid` around a program. -/
def executeWithRetryVoidLoop (maxRetries : Int) (func : ExceptT Exn (Prog χ σ) Unit)
    (attempt : Nat) : ExceptT Exn (Prog χ σ) Unit :=
  tryCatch func fun
    | .std what =>
      if (attempt : Int) ≥ maxRetries then throw (Exn.std what)
      else executeWithRetryVoidLoop maxRetries func (attempt + 1)
    | .other =>
      if (attempt : Int) ≥ maxRetries then throw Exn.other
      else executeWithRetryVoidLoop maxRetries func (attempt + 1)
termination_by (maxRetries - attempt).toNat
decreasing_by all_goals omega

/-- `ExecuteWithRetryVoid`. -/
def executeWithRetryVoid (maxRetries : Int) (func : ExceptT Exn (Prog χ σ) Unit) :
    ExceptT Exn (Prog χ σ) Unit :=
  executeWithRetryVoidLoop maxRetries func 0

theorem executeWithRetryLoop_eq (maxRetries : Int) (func : ExceptT Exn (Prog χ σ) α)
    (attempt : Nat) : executeWithRetryLoop maxRetries func attempt =
      Prog.retry func (maxRetries - attempt).toNat := by
  generalize hleft : (maxRetries - attempt).toNat = left
  induction left generalizing attempt with
  | zero =>
    have hge : (attempt : Int) ≥ maxRetries := by omega
    have hthrow : (fun e : Exn => match e with
        | .std what => (throw (Exn.std what) : ExceptT Exn (Prog χ σ) α)
        | .other => throw Exn.other) = throw := by
      funext e
      cases e with
      | std what => rfl
      | other => rfl
    rw [executeWithRetryLoop]
    simp only [hge, if_true]
    exact (congrArg _ hthrow).trans (Prog.tryCatch_throw func)
  | succ left ih =>
    have hlt : ¬ (attempt : Int) ≥ maxRetries := by omega
    have hnext := ih (attempt + 1) (by omega)
    rw [executeWithRetryLoop, Prog.retry]
    simp only [hlt, if_false, hnext]
    congr 1
    funext e
    cases e with
    | std what => rfl
    | other => rfl

/-- Around a program, too, `ExecuteWithRetry` is the bounded retry. -/
theorem executeWithRetry_eq (maxRetries : Int) (func : ExceptT Exn (Prog χ σ) α) :
    executeWithRetry maxRetries func = Prog.retry func maxRetries.toNat := by
  rw [executeWithRetry, executeWithRetryLoop_eq]
  simp

/-- And here, too, the two loops are the same. -/
theorem executeWithRetryVoid_eq (maxRetries : Int) (func : ExceptT Exn (Prog χ σ) Unit) :
    executeWithRetryVoid maxRetries func = executeWithRetry maxRetries func := by
  have hloop : ∀ left attempt, (maxRetries - (attempt : Nat)).toNat = left →
      executeWithRetryVoidLoop maxRetries func attempt =
        executeWithRetryLoop maxRetries func attempt := by
    intro left
    induction left with
    | zero =>
      intro attempt hleft
      have hge : (attempt : Int) ≥ maxRetries := by omega
      rw [executeWithRetryVoidLoop, executeWithRetryLoop]
      simp only [hge, if_true]
    | succ left ih =>
      intro attempt hleft
      have hnext := ih (attempt + 1) (by omega)
      rw [executeWithRetryVoidLoop, executeWithRetryLoop]
      simp only [hnext]
  exact hloop _ 0 rfl

end Steps

end Retry

end IMSystem

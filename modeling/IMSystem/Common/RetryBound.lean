import IMSystem.Common.Retry
import Mathlib.Data.ENat.Lattice

/-!
# How often a call is retried

The two loops of `retry.h` once more, now with the `int` that counts the attempts and with
the calls made. The action is given by the outcomes of its calls, one after the other; a
loop takes fuel, and an `attempt++` that leaves the `int` ends it.

Results:
1. `executeWithRetry_calls`: on all outcomes and for every `int`, how many calls either
   loop makes and how it ends.
2. `executeWithRetry_run`: the loop that the DAO proofs use makes these calls.
-/

namespace IMSystem.Retry.Counted

open Lib

variable {σ α : Type}

/-! ## The loops -/

/-- How a loop ends. -/
inductive Ending (α : Type) where
  | returned (a : α)
  | raised (e : Exn)
  /-- `attempt++` has left the `int`. -/
  | overflow
deriving DecidableEq, Repr

/-- The calls a loop has made, and how it has ended. -/
structure Run (α : Type) where
  calls : Nat
  ending : Ending α
deriving DecidableEq, Repr

/-- `attempt++`. -/
def increment (attempt : Int32) : Option Int32 :=
  if attempt = Int32.maxValue then none else some (attempt + 1)

/-- The `while (true)` of `ExecuteWithRetry`, after `calls` calls of the action. `none`:
the fuel did not last to its end. -/
def executeWithRetryLoop (maxRetries : Int32) (outcomes : Nat → Except Exn α) :
    Nat → Int32 → Nat → Option (Run α)
  | 0, _, _ => none
  | fuel + 1, attempt, calls =>
    match outcomes calls with
    | .ok a => some ⟨calls + 1, .returned a⟩
    | .error (.std what) =>
      if attempt ≥ maxRetries then some ⟨calls + 1, .raised (.std what)⟩
      else
        match increment attempt with
        | none => some ⟨calls + 1, .overflow⟩
        | some attempt => executeWithRetryLoop maxRetries outcomes fuel attempt (calls + 1)
    | .error .other =>
      if attempt ≥ maxRetries then some ⟨calls + 1, .raised .other⟩
      else
        match increment attempt with
        | none => some ⟨calls + 1, .overflow⟩
        | some attempt => executeWithRetryLoop maxRetries outcomes fuel attempt (calls + 1)

/-- `ExecuteWithRetry`. -/
def executeWithRetry (maxRetries : Int32) (outcomes : Nat → Except Exn α) (fuel : Nat) :
    Option (Run α) :=
  executeWithRetryLoop maxRetries outcomes fuel 0 0

/-- The `while (true)` of `ExecuteWithRetryVoid`. -/
def executeWithRetryVoidLoop (maxRetries : Int32) (outcomes : Nat → Except Exn Unit) :
    Nat → Int32 → Nat → Option (Run Unit)
  | 0, _, _ => none
  | fuel + 1, attempt, calls =>
    match outcomes calls with
    | .ok () => some ⟨calls + 1, .returned ()⟩
    | .error (.std what) =>
      if attempt ≥ maxRetries then some ⟨calls + 1, .raised (.std what)⟩
      else
        match increment attempt with
        | none => some ⟨calls + 1, .overflow⟩
        | some attempt => executeWithRetryVoidLoop maxRetries outcomes fuel attempt (calls + 1)
    | .error .other =>
      if attempt ≥ maxRetries then some ⟨calls + 1, .raised .other⟩
      else
        match increment attempt with
        | none => some ⟨calls + 1, .overflow⟩
        | some attempt => executeWithRetryVoidLoop maxRetries outcomes fuel attempt (calls + 1)

/-- `ExecuteWithRetryVoid`. -/
def executeWithRetryVoid (maxRetries : Int32) (outcomes : Nat → Except Exn Unit) (fuel : Nat) :
    Option (Run Unit) :=
  executeWithRetryVoidLoop maxRetries outcomes fuel 0 0

/-! ## What a loop comes to -/

/-- With enough fuel, the loop ends with this run. -/
def EndsWith (loop : Nat → Option (Run α)) (run : Run α) : Prop :=
  ∃ enough, ∀ fuel, enough ≤ fuel → loop fuel = some run

/-- How many calls fail before the first one that succeeds. -/
noncomputable def firstSuccess (outcomes : Nat → Except Exn α) : ℕ∞ :=
  ⨅ i : { i : Nat // ∃ a, outcomes i = .ok a }, (i.1 : ℕ∞)

/-- The outcomes that the same calls have for a caller without use for the value. -/
def dropValues (outcomes : Nat → Except Exn α) (i : Nat) : Except Exn Unit :=
  (outcomes i).map fun _ => ()

def Ending.dropValue : Ending α → Ending Unit
  | .returned _ => .returned ()
  | .raised e => .raised e
  | .overflow => .overflow

def Run.dropValue (run : Run α) : Run Unit := ⟨run.calls, run.ending.dropValue⟩

/-- The outcome of the last call, as the end of the loop. -/
def Ending.of : Except Exn α → Ending α
  | .ok a => .returned a
  | .error e => .raised e

theorem firstSuccess_le {outcomes : Nat → Except Exn α} {i : Nat} {a : α}
    (success : outcomes i = .ok a) : firstSuccess outcomes ≤ i :=
  iInf_le (fun i : { i : Nat // ∃ a, outcomes i = .ok a } => (i.1 : ℕ∞)) ⟨i, a, success⟩

theorem le_firstSuccess {outcomes : Nat → Except Exn α} {n : Nat}
    (failures : ∀ i < n, ∃ e, outcomes i = .error e) : (n : ℕ∞) ≤ firstSuccess outcomes := by
  refine le_iInf fun ⟨i, a, success⟩ => ?_
  by_contra hlt
  rw [not_le, Nat.cast_lt] at hlt
  obtain ⟨e, failure⟩ := failures i hlt
  rw [success] at failure
  cases failure

/-- Which call is the last one of a loop that has made some calls and has `left` retries. -/
inductive LastCall (outcomes : Nat → Except Exn α) : (left calls last : Nat) → Prop
  | success {left calls : Nat} {a : α} (h : outcomes calls = .ok a) :
      LastCall outcomes left calls calls
  | spent {calls : Nat} {e : Exn} (h : outcomes calls = .error e) :
      LastCall outcomes 0 calls calls
  | retry {left calls last : Nat} {e : Exn} (h : outcomes calls = .error e)
      (rest : LastCall outcomes left (calls + 1) last) : LastCall outcomes (left + 1) calls last

theorem exists_lastCall (outcomes : Nat → Except Exn α) (left calls : Nat) :
    ∃ last, LastCall outcomes left calls last := by
  induction left generalizing calls with
  | zero =>
    cases h : outcomes calls with
    | ok a => exact ⟨calls, .success h⟩
    | error e => exact ⟨calls, .spent h⟩
  | succ left ih =>
    cases h : outcomes calls with
    | ok a => exact ⟨calls, .success h⟩
    | error e =>
      obtain ⟨last, hlast⟩ := ih (calls + 1)
      exact ⟨last, .retry h hlast⟩

theorem LastCall.le_last {outcomes : Nat → Except Exn α} {left calls last : Nat}
    (h : LastCall outcomes left calls last) : last ≤ calls + left := by
  induction h with
  | success _ => exact Nat.le_add_right _ _
  | spent _ => exact Nat.le_refl _
  | retry _ _ ih => omega

/-- The calls before the last one have failed. -/
theorem LastCall.failures {outcomes : Nat → Except Exn α} {left calls last : Nat}
    (h : LastCall outcomes left calls last) :
    ∀ i, calls ≤ i → i < last → ∃ e, outcomes i = .error e := by
  induction h with
  | success _ => exact fun i hle hlt => absurd hlt (Nat.not_lt.mpr hle)
  | spent _ => exact fun i hle hlt => absurd hlt (Nat.not_lt.mpr hle)
  | @retry _ calls _ e hfail _ ih =>
    intro i hle hlt
    rcases Nat.eq_or_lt_of_le hle with rfl | hlater
    · exact ⟨e, hfail⟩
    · exact ih i hlater hlt

/-- A loop that does not use up its retries has met a success. -/
theorem LastCall.stops {outcomes : Nat → Except Exn α} {left calls last : Nat}
    (h : LastCall outcomes left calls last) (hearly : last < calls + left) :
    ∃ a, outcomes last = .ok a := by
  induction h with
  | success hok => exact ⟨_, hok⟩
  | spent _ => exact absurd hearly (Nat.lt_irrefl _)
  | retry _ _ ih => exact ih (by omega)

theorem LastCall.le {outcomes : Nat → Except Exn α} {left calls last : Nat}
    (h : LastCall outcomes left calls last) : calls ≤ last := by
  induction h with
  | success _ => exact Nat.le_refl _
  | spent _ => exact Nat.le_refl _
  | retry _ _ ih => exact Nat.le_of_succ_le ih

/-- Only the calls up to the last one matter. -/
theorem LastCall.congr {outcomes outcomes' : Nat → Except Exn α} {left calls last : Nat}
    (h : LastCall outcomes left calls last)
    (same : ∀ i, i ≤ last → outcomes' i = outcomes i) : LastCall outcomes' left calls last := by
  induction h with
  | success hok => exact .success ((same _ (Nat.le_refl _)).trans hok)
  | spent hfail => exact .spent ((same _ (Nat.le_refl _)).trans hfail)
  | retry hfail rest ih =>
    exact .retry ((same _ (Nat.le_of_succ_le rest.le)).trans hfail) (ih same)

/-- The last call is the first that succeeds, or the last that is allowed. -/
theorem LastCall.calls_eq {outcomes : Nat → Except Exn α} {left last : Nat}
    (h : LastCall outcomes left 0 last) :
    ((last + 1 : Nat) : ℕ∞) = min (firstSuccess outcomes + 1) ((left + 1 : Nat) : ℕ∞) := by
  have hbefore : (last : ℕ∞) ≤ firstSuccess outcomes :=
    le_firstSuccess fun i hlt => h.failures i (Nat.zero_le _) hlt
  have hlast : last ≤ left := by
    have := h.le_last
    omega
  rcases Nat.eq_or_lt_of_le hlast with rfl | hlt
  · rw [Nat.cast_succ]
    exact (min_eq_right (add_le_add_left hbefore 1)).symm
  · obtain ⟨a, success⟩ := h.stops (by omega)
    have hfirst : firstSuccess outcomes = last := le_antisymm (firstSuccess_le success) hbefore
    rw [hfirst, ← Nat.cast_succ]
    exact (min_eq_left (Nat.cast_le.mpr (Nat.succ_le_succ hlast))).symm

/-! ## The loops end with the last call -/

/-- An attempt that is not the last possible one can be counted. -/
theorem increment_of_lt {attempt maxRetries : Int32} (h : ¬ attempt ≥ maxRetries) :
    increment attempt = some (attempt + 1) ∧ (attempt + 1).toInt = attempt.toInt + 1 := by
  rw [ge_iff_le, Int32.le_iff_toInt_le, Int.not_le] at h
  have hmax := maxRetries.toInt_lt
  have hmin := attempt.le_toInt
  constructor
  · refine if_neg ?_
    rintro rfl
    have : Int32.maxValue.toInt = 2 ^ 31 - 1 := by decide
    omega
  · have hone : (1 : Int32).toInt = 1 := by decide
    rw [Int32.toInt_add, hone]
    exact Int.bmod_eq_of_le (by omega) (by omega)

/-- The two catch branches do the same. -/
theorem executeWithRetryLoop_turn (maxRetries : Int32) (outcomes : Nat → Except Exn α) (fuel : Nat)
    (attempt : Int32) (calls : Nat) :
    executeWithRetryLoop maxRetries outcomes (fuel + 1) attempt calls =
      match outcomes calls with
      | .ok a => some ⟨calls + 1, .returned a⟩
      | .error e =>
        if attempt ≥ maxRetries then some ⟨calls + 1, .raised e⟩
        else
          match increment attempt with
          | none => some ⟨calls + 1, .overflow⟩
          | some attempt => executeWithRetryLoop maxRetries outcomes fuel attempt (calls + 1) := by
  rw [executeWithRetryLoop]
  match outcomes calls with
  | .ok a => rfl
  | .error (.std what) => rfl
  | .error .other => rfl

theorem executeWithRetryLoop_last {maxRetries : Int32} {outcomes : Nat → Except Exn α}
    {left calls last : Nat} (h : LastCall outcomes left calls last) {attempt : Int32}
    (hattempt : attempt.toInt = calls) (hleft : (maxRetries.toInt - calls).toNat = left)
    {fuel : Nat} (hfuel : left < fuel) :
    executeWithRetryLoop maxRetries outcomes fuel attempt calls =
      some ⟨last + 1, .of (outcomes last)⟩ := by
  -- The counter is the number of the calls made, so it stops where the retries end.
  induction h generalizing attempt fuel with
  | success hok =>
    obtain ⟨fuel, rfl⟩ := Nat.exists_eq_add_of_lt hfuel
    rw [executeWithRetryLoop_turn, hok]
    rfl
  | spent hfail =>
    obtain ⟨fuel, rfl⟩ := Nat.exists_eq_add_of_lt hfuel
    have hge : attempt ≥ maxRetries := by
      rw [ge_iff_le, Int32.le_iff_toInt_le]
      omega
    rw [executeWithRetryLoop_turn, hfail]
    exact if_pos hge
  | @retry left calls last e hfail _ ih =>
    obtain ⟨fuel, rfl⟩ := Nat.exists_eq_add_of_lt hfuel
    have hlt : ¬ attempt ≥ maxRetries := by
      rw [ge_iff_le, Int32.le_iff_toInt_le]
      omega
    obtain ⟨hnext, hcount⟩ := increment_of_lt hlt
    rw [executeWithRetryLoop_turn, hfail]
    simp only [hlt, if_false, hnext]
    exact ih (by omega) (by omega) (by omega)

theorem executeWithRetry_last {maxRetries : Int32} {outcomes : Nat → Except Exn α} {last : Nat}
    (h : LastCall outcomes maxRetries.toInt.toNat 0 last) :
    EndsWith (executeWithRetry maxRetries outcomes) ⟨last + 1, .of (outcomes last)⟩ := by
  have hattempt : (0 : Int32).toInt = ((0 : Nat) : Int) := rfl
  refine ⟨maxRetries.toInt.toNat + 1, fun fuel hfuel => ?_⟩
  exact executeWithRetryLoop_last h hattempt (by simp) hfuel

theorem executeWithRetryVoidLoop_turn (maxRetries : Int32) (outcomes : Nat → Except Exn Unit)
    (fuel : Nat) (attempt : Int32) (calls : Nat) :
    executeWithRetryVoidLoop maxRetries outcomes (fuel + 1) attempt calls =
      match outcomes calls with
      | .ok () => some ⟨calls + 1, .returned ()⟩
      | .error e =>
        if attempt ≥ maxRetries then some ⟨calls + 1, .raised e⟩
        else
          match increment attempt with
          | none => some ⟨calls + 1, .overflow⟩
          | some attempt =>
            executeWithRetryVoidLoop maxRetries outcomes fuel attempt (calls + 1) := by
  rw [executeWithRetryVoidLoop]
  match outcomes calls with
  | .ok () => rfl
  | .error (.std what) => rfl
  | .error .other => rfl

/-- On the same outcomes the second loop does what the first one does. -/
theorem executeWithRetryVoidLoop_eq (maxRetries : Int32) (outcomes : Nat → Except Exn α)
    (fuel : Nat) (attempt : Int32) (calls : Nat) :
    executeWithRetryVoidLoop maxRetries (dropValues outcomes) fuel attempt calls =
      (executeWithRetryLoop maxRetries outcomes fuel attempt calls).map Run.dropValue := by
  induction fuel generalizing attempt calls with
  | zero => rfl
  | succ fuel ih =>
    have hdrop : dropValues outcomes calls = (outcomes calls).map fun _ => () := rfl
    rw [executeWithRetryVoidLoop_turn, executeWithRetryLoop_turn, hdrop]
    cases outcomes calls with
    | ok a => rfl
    | error e =>
      simp only [Except.map]
      split
      · rfl
      · cases increment attempt with
        | none => rfl
        | some next => exact ih next (calls + 1)

theorem EndsWith.dropValue {maxRetries : Int32} {outcomes : Nat → Except Exn α} {run : Run α}
    (h : EndsWith (executeWithRetry maxRetries outcomes) run) :
    EndsWith (executeWithRetryVoid maxRetries (dropValues outcomes)) run.dropValue := by
  obtain ⟨enough, hfuel⟩ := h
  refine ⟨enough, fun fuel hle => ?_⟩
  have := hfuel fuel hle
  unfold executeWithRetry at this
  rw [executeWithRetryVoid, executeWithRetryVoidLoop_eq, this]
  rfl

/-- `ExecuteWithRetry` ends, whatever the `int` and the outcomes are. It makes one call more
than fail before the first success, but no more than its retries and one; it returns the
first success if it has met it and raises otherwise what the last call raised.
`ExecuteWithRetryVoid` makes the same calls and ends the same way. Further outcomes do not
matter. -/
theorem executeWithRetry_calls (maxRetries : Int32) (outcomes : Nat → Except Exn α) :
    ∃ run : Run α, EndsWith (executeWithRetry maxRetries outcomes) run ∧
      EndsWith (executeWithRetryVoid maxRetries (dropValues outcomes)) run.dropValue ∧
      (run.calls : ℕ∞) =
        min (firstSuccess outcomes + 1) (((max maxRetries.toInt 0).toNat + 1 : Nat) : ℕ∞) ∧
      ((∃ k a, k < run.calls ∧ firstSuccess outcomes = k ∧ outcomes k = .ok a ∧
          run.ending = .returned a) ∨
        ((run.calls : ℕ∞) ≤ firstSuccess outcomes ∧
          ∃ last e, run.calls = last + 1 ∧ outcomes last = .error e ∧ run.ending = .raised e)) ∧
      ∀ outcomes' : Nat → Except Exn α, (∀ i < run.calls, outcomes' i = outcomes i) →
        EndsWith (executeWithRetry maxRetries outcomes') run := by
  obtain ⟨last, h⟩ := exists_lastCall outcomes maxRetries.toInt.toNat 0
  have hends := executeWithRetry_last h
  have hmax : (max maxRetries.toInt 0).toNat = maxRetries.toInt.toNat := by omega
  refine ⟨⟨last + 1, .of (outcomes last)⟩, hends, hends.dropValue, ?_, ?_, ?_⟩
  · rw [hmax]
    exact h.calls_eq
  · have hbefore : (last : ℕ∞) ≤ firstSuccess outcomes :=
      le_firstSuccess fun i hlt => h.failures i (Nat.zero_le _) hlt
    cases hlast : outcomes last with
    | ok a =>
      exact .inl ⟨last, a, Nat.lt_succ_self _, le_antisymm (firstSuccess_le hlast) hbefore,
        hlast, rfl⟩
    | error e =>
      refine .inr ⟨?_, last, e, rfl, hlast, rfl⟩
      refine le_firstSuccess fun i hlt => ?_
      rcases Nat.eq_or_lt_of_le (Nat.le_of_lt_succ hlt) with rfl | hearlier
      · exact ⟨e, hlast⟩
      · exact h.failures i (Nat.zero_le _) hearlier
  · intro outcomes' same
    have hsame : ∀ i, i ≤ last → outcomes' i = outcomes i :=
      fun i hle => same i (Nat.lt_succ_of_le hle)
    have := executeWithRetry_last (h.congr hsame)
    rwa [hsame last (Nat.le_refl _)] at this

example : executeWithRetry (-1) (fun _ => (.error .other : Except Exn Nat)) 1 =
    some ⟨1, .raised .other⟩ := by decide

/-! ## The loop of the DAO proofs -/

/-- The state in which each call of the action starts. -/
def before (func : Nat → Call σ α) (s : σ) : Nat → σ
  | 0 => s
  | i + 1 => (func i (before func s i)).2

/-- The outcome of each call of the action, when all the calls before it are made. -/
def outcomesOf (func : Nat → Call σ α) (s : σ) (i : Nat) : Except Exn α :=
  (func i (before func s i)).1

theorem retry_last {func : Nat → Call σ α} {s : σ} {left calls last : Nat}
    (h : LastCall (outcomesOf func s) left calls last) :
    Eff.retry func left calls (before func s calls) =
      (outcomesOf func s last, before func s (last + 1)) := by
  generalize hout : outcomesOf func s = outcomes at h
  induction h with
  | @success left calls a hok =>
    subst hout
    exact (Eff.retry_of_ok (a := a) (Prod.ext hok rfl)).trans (Prod.ext hok.symm rfl)
  | spent _ =>
    subst hout
    rfl
  | @retry left calls last e hfail _ ih =>
    have hcall : func calls (before func s calls) = (.error e, before func s (calls + 1)) := by
      subst hout
      exact Prod.ext hfail rfl
    rw [Eff.retry_of_error hcall]
    exact ih

/-- The loop around an action on some state makes the calls counted here: it comes out as
the last of them, and leaves the state that this one leaves. -/
theorem executeWithRetry_run (maxRetries : Int32) (func : Nat → Call σ α) (s : σ) :
    ∃ r calls, EndsWith (executeWithRetry maxRetries (outcomesOf func s)) ⟨calls, .of r⟩ ∧
      Retry.executeWithRetry maxRetries.toInt func s = (r, before func s calls) := by
  obtain ⟨last, h⟩ := exists_lastCall (outcomesOf func s) maxRetries.toInt.toNat 0
  refine ⟨outcomesOf func s last, last + 1, executeWithRetry_last h, ?_⟩
  rw [Retry.executeWithRetry_eq]
  exact retry_last h

end IMSystem.Retry.Counted

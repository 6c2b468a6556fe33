import Mathlib.Logic.Function.Basic

/-!
# Maps whose entries expire

A key-value store with a clock. An entry may carry a deadline; from that moment
on it is no longer there. An operation on one key leaves the others alone.
-/

namespace IMSystem.Lib

/-- A map with a clock; an entry holds its value and, possibly, its deadline. -/
structure Expiring (K V : Type) where
  entry : K → Option (V × Option Nat)
  now : Nat

namespace Expiring

variable {K V : Type}

/-- No entry, at time `0`. -/
def empty : Expiring K V := ⟨fun _ => none, 0⟩

/-- The value under a key, unless it is missing or has expired. -/
def get (m : Expiring K V) (k : K) : Option V :=
  match m.entry k with
  | none => none
  | some (v, none) => some v
  | some (v, some deadline) => if m.now < deadline then some v else none

/-- Time passes. -/
def tick (m : Expiring K V) (d : Nat) : Expiring K V := { m with now := m.now + d }

/-- A value that is there is the value of the entry. -/
theorem entry_of_get {m : Expiring K V} {k : K} {v : V} (h : m.get k = some v) :
    ∃ deadline, m.entry k = some (v, deadline) := by
  unfold get at h
  cases he : m.entry k with
  | none =>
    rw [he] at h
    cases h
  | some e =>
    obtain ⟨w, deadline⟩ := e
    rw [he] at h
    cases deadline with
    | none =>
      cases h
      exact ⟨none, rfl⟩
    | some d =>
      simp only at h
      split at h
      · cases h
        exact ⟨some d, rfl⟩
      · cases h

/-- Maps that agree in an entry and in the time agree in the value. -/
theorem get_congr {L : Type} {m : Expiring K V} {n : Expiring L V} {k : K} {l : L}
    (hentry : m.entry k = n.entry l) (hnow : m.now = n.now) : m.get k = n.get l := by
  unfold get
  rw [hentry, hnow]

variable [DecidableEq K]

/-- Store a value, for `ttl` units of time or for good. -/
def put (m : Expiring K V) (k : K) (v : V) (ttl : Option Nat) : Expiring K V :=
  { m with entry := Function.update m.entry k (some (v, ttl.map (m.now + ·))) }

/-- Remove an entry. -/
def drop (m : Expiring K V) (k : K) : Expiring K V :=
  { m with entry := Function.update m.entry k none }

@[simp] theorem put_now (m : Expiring K V) (k : K) (v : V) (ttl : Option Nat) :
    (m.put k v ttl).now = m.now := rfl

theorem put_entry_self (m : Expiring K V) (k : K) (v : V) (ttl : Option Nat) :
    (m.put k v ttl).entry k = some (v, ttl.map (m.now + ·)) :=
  Function.update_self ..

theorem put_entry_of_ne {m : Expiring K V} {k l : K} (v : V) (ttl : Option Nat) (h : l ≠ k) :
    (m.put k v ttl).entry l = m.entry l :=
  Function.update_of_ne h ..

theorem drop_entry_self (m : Expiring K V) (k : K) : (m.drop k).entry k = none :=
  Function.update_self ..

theorem drop_entry_of_ne {m : Expiring K V} {k l : K} (h : l ≠ k) :
    (m.drop k).entry l = m.entry l :=
  Function.update_of_ne h ..

/-- A value put for some time is there at once. -/
theorem get_put_self (m : Expiring K V) (k : K) (v : V) {ttl : Nat} (h : 0 < ttl) :
    (m.put k v (some ttl)).get k = some v := by
  unfold get
  rw [put_entry_self]
  simp [h]

theorem get_put_of_ne {m : Expiring K V} {k l : K} (v : V) (ttl : Option Nat) (h : l ≠ k) :
    (m.put k v ttl).get l = m.get l :=
  get_congr (put_entry_of_ne v ttl h) rfl

end Expiring

end IMSystem.Lib

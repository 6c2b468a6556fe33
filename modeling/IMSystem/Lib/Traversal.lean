import IMSystem.Lib.LastWrite
import Mathlib.Data.List.Dedup
import Mathlib.Order.Lattice

/-!
# Traversing a map and sorting what was found

A hash map hands out its entries in an order of its own. What a program computes
from them does not depend on this order once it has sorted them by a key that
no two of them share.

Results:
1. `Traversal.ofWrites`: a map that was built by writes can be traversed.
2. `Traversal.filter_perm`: what a traversal finds, up to the order.
3. `KeySort.run_eq`: a sort by distinct keys has one result.
-/

namespace IMSystem.Lib

/-! ## Traversals -/

section Traversing

variable {K V : Type}

/-- The entries of a map, each once, in an order that the map chooses. -/
structure Traversal (m : K → Option V) where
  entries : List (K × V)
  keys_nodup : (entries.map Prod.fst).Nodup
  mem_iff : ∀ x, x ∈ entries ↔ m x.1 = some x.2

namespace Traversal

/-- A map that was built by writes, traversed by the order of its keys' last writes. -/
def ofWrites [DecidableEq K] (ws : List (K × V)) : Traversal (writeAll (fun _ => none) ws) where
  entries := (ws.map Prod.fst).dedup.filterMap fun k =>
    (writeAll (fun _ => none) ws k).map fun v => (k, v)
  keys_nodup := by
    rw [List.map_filterMap]
    refine (ws.map Prod.fst).nodup_dedup.filterMap fun k k' key hk hk' => ?_
    rw [Option.map_map, Option.mem_def, Option.map_eq_some_iff] at hk hk'
    obtain ⟨_, _, rfl⟩ := hk
    obtain ⟨_, _, heq⟩ := hk'
    exact heq.symm
  mem_iff x := by
    simp only [List.mem_filterMap, List.mem_dedup, Option.map_eq_some_iff]
    constructor
    · rintro ⟨k, _, v, hv, rfl⟩
      exact hv
    · intro hx
      refine ⟨x.1, ?_, x.2, hx, rfl⟩
      rcases mem_of_writeAll hx with hnone | hmem
      · exact absurd hnone nofun
      · exact List.mem_map.mpr ⟨_, hmem, rfl⟩

variable {m : K → Option V}

theorem nodup (t : Traversal m) : t.entries.Nodup := t.keys_nodup.of_map _

/-- What a traversal finds, up to the order. -/
theorem filter_perm (t : Traversal m) {q : K × V → Bool} {l : List (K × V)} (hl : l.Nodup)
    (h : ∀ x, x ∈ l ↔ m x.1 = some x.2 ∧ q x = true) : (t.entries.filter q).Perm l := by
  rw [List.perm_ext_iff_of_nodup (t.nodup.filter _) hl]
  intro x
  rw [List.mem_filter, t.mem_iff, h]

end Traversal

end Traversing

/-! ## Sorting by a key -/

section Sorting

variable {K V : Type} [LinearOrder K]

/-- A sort by the first component, which may leave entries with the same key in
any order. -/
structure KeySort (K V : Type) [LinearOrder K] where
  run : List (K × V) → List (K × V)
  perm : ∀ l, (run l).Perm l
  sorted : ∀ l, (run l).Pairwise fun a b => a.1 ≤ b.1

/-- Merge sort is such a sort. -/
def KeySort.merge : KeySort K V where
  run l := l.mergeSort fun a b => decide (a.1 ≤ b.1)
  perm l := List.mergeSort_perm l _
  sorted l := by
    let le (a b : K × V) : Bool := decide (a.1 ≤ b.1)
    have htrans : ∀ a b c, le a b → le b c → le a c := fun a b c hab hbc =>
      decide_eq_true (le_trans (of_decide_eq_true hab) (of_decide_eq_true hbc))
    have htotal : ∀ a b, le a b || le b a := by
      intro a b
      rw [Bool.or_eq_true, decide_eq_true_eq, decide_eq_true_eq]
      exact le_total a.1 b.1
    have hsort := List.pairwise_mergeSort htrans htotal l
    exact hsort.imp fun h => of_decide_eq_true h

/-- A sort by distinct keys has one result. -/
theorem KeySort.run_eq (sort : KeySort K V) {xs l : List (K × V)} (hperm : xs.Perm l)
    (hl : l.Pairwise fun a b => a.1 < b.1) : sort.run xs = l := by
  have hdistinct : (l.map Prod.fst).Nodup := by
    rw [List.Nodup, List.pairwise_map]
    exact hl.imp ne_of_lt
  have hrun := (sort.perm xs).trans hperm
  refine List.Perm.eq_of_pairwise (fun a b ha hb hab hba => ?_) (sort.sorted xs)
    (hl.imp le_of_lt) hrun
  exact List.inj_on_of_nodup_map hdistinct (hrun.subset ha) hb (le_antisymm hab hba)

end Sorting

end IMSystem.Lib

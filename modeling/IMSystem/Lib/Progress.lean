import IMSystem.Lib.Run
import Mathlib.Algebra.Order.BigOperators.Group.List
import Mathlib.Algebra.Order.Ring.Nat
import Mathlib.Tactic.ByContra
import Mathlib.Tactic.Push

/-!
# Runs that come to an end

Some steps of a system are choices of its users, others are work that the system
still owes. `Finishes` says that the owed steps come to an end, in whatever order
they are taken, and that they end only in states that are asked for.

Results:
1. `length_le_of_decreasing`: a measure bounds the length of a run.
2. `finishes_of_measure`: a measure and a step out of every unfinished state.
3. `Finishes.exists_run`: the end can be reached.
4. `sum_map_le`, `sum_map_le_countP`, `sum_map_set`, `countP_set_singleton`: bounds on the
   measure of a list, and what replacing an element does to it and to the number of
   elements of a kind.
-/

namespace IMSystem.Lib

variable {S A : Type} {step : S → A → Option S}

variable (step) in
/-- The steps that meet `C` come to an end after at most `bound` of them, and they
end where `Done` holds. -/
structure Finishes (C : S → A → Prop) (Done : S → Prop) (bound : Nat) (s : S) : Prop where
  bounded : ∀ as s', StepsMeet step C s as → run step s as = some s' → as.length ≤ bound
  done : ∀ as s', StepsMeet step C s as → run step s as = some s' →
    (∀ a s'', C s' a → step s' a ≠ some s'') → Done s'

section Measure

variable {C : S → A → Prop} {Inv Done : S → Prop} {μ : S → Nat}

/-- Each step of the run takes something off the measure. -/
theorem length_le_of_decreasing
    (hstep : ∀ s a s', Inv s → C s a → step s a = some s' → Inv s')
    (hless : ∀ s a s', Inv s → C s a → step s a = some s' → μ s' < μ s)
    {s s' : S} {as : List A} (hs : Inv s) (hC : StepsMeet step C s as)
    (hrun : run step s as = some s') : Inv s' ∧ as.length + μ s' ≤ μ s := by
  induction as generalizing s with
  | nil =>
    cases hrun
    exact ⟨hs, Nat.le_of_eq (Nat.zero_add _)⟩
  | cons a as ih =>
    obtain ⟨s₁, hs₁, hrest⟩ := Option.bind_eq_some_iff.mp hrun
    obtain ⟨hca, hCrest⟩ := hC s₁ hs₁
    obtain ⟨hinv, hle⟩ := ih (hstep s a s₁ hs hca hs₁) hCrest hrest
    refine ⟨hinv, ?_⟩
    calc (a :: as).length + μ s'
      _ = as.length + μ s' + 1 := by rw [List.length_cons, Nat.add_right_comm]
      _ ≤ μ s₁ + 1 := Nat.succ_le_succ hle
      _ ≤ μ s := hless s a s₁ hs hca hs₁

/-- Steps that keep the invariant and take something off the measure, with one of
them out of every state that is not done. -/
theorem finishes_of_measure
    (hstep : ∀ s a s', Inv s → C s a → step s a = some s' → Inv s')
    (hless : ∀ s a s', Inv s → C s a → step s a = some s' → μ s' < μ s)
    (hmove : ∀ s, Inv s → ¬ Done s → ∃ a s', C s a ∧ step s a = some s')
    {s : S} {bound : Nat} (hs : Inv s) (hbound : μ s ≤ bound) : Finishes step C Done bound s where
  bounded as s' hC hrun :=
    calc as.length
      _ ≤ as.length + μ s' := Nat.le_add_right _ _
      _ ≤ μ s := (length_le_of_decreasing hstep hless hs hC hrun).2
      _ ≤ bound := hbound
  done as s' hC hrun hend := by
    by_contra hnot
    obtain ⟨a, s'', hca, hs''⟩ :=
      hmove s' (length_le_of_decreasing hstep hless hs hC hrun).1 hnot
    exact hend a s'' hca hs''

end Measure

/-- Going on with owed steps as long as there are any leads to the end. -/
theorem Finishes.exists_run {C : S → A → Prop} {Done : S → Prop} {bound : Nat} {s : S}
    (h : Finishes step C Done bound s) :
    ∃ as s', StepsMeet step C s as ∧ run step s as = some s' ∧ Done s' := by
  induction bound generalizing s with
  | zero =>
    refine ⟨[], s, trivial, rfl, h.done [] s trivial rfl fun a s' hca hs' => ?_⟩
    have hlong : [a].length ≤ 0 := by
      refine h.bounded [a] s' (fun t ht => ?_) ((run_cons hs' []).trans rfl)
      exact ⟨hca, trivial⟩
    exact absurd hlong (Nat.not_succ_le_zero 0)
  | succ bound ih =>
    by_cases hend : ∀ a s', C s a → step s a ≠ some s'
    · exact ⟨[], s, trivial, rfl, h.done [] s trivial rfl hend⟩
    · push Not at hend
      obtain ⟨a, s₁, hca, hs₁⟩ := hend
      have hcons : ∀ as, StepsMeet step C s₁ as → StepsMeet step C s (a :: as) := by
        intro as has t ht
        obtain rfl : s₁ = t := Option.some.inj (hs₁.symm.trans ht)
        exact ⟨hca, has⟩
      have hrest : Finishes step C Done bound s₁ := by
        refine ⟨fun as s' has hrun => ?_, fun as s' has hrun => ?_⟩
        · exact Nat.le_of_succ_le_succ
            (h.bounded (a :: as) s' (hcons as has) ((run_cons hs₁ as).trans hrun))
        · exact h.done (a :: as) s' (hcons as has) ((run_cons hs₁ as).trans hrun)
      obtain ⟨as, s', has, hrun, hdone⟩ := ih hrest
      exact ⟨a :: as, s', hcons as has, (run_cons hs₁ as).trans hrun, hdone⟩

/-- Entries that are bounded add up to their number of times the bound, at most. -/
theorem sum_map_le {α : Type} {f : α → Nat} {bound : Nat} {l : List α} (h : ∀ x ∈ l, f x ≤ bound) :
    (l.map f).sum ≤ l.length * bound := by
  have hsum : ((l.map f).sum) ≤ (l.map f).length • bound := by
    refine List.sum_le_card_nsmul _ _ fun n hn => ?_
    obtain ⟨x, hx, rfl⟩ := List.mem_map.mp hn
    exact h x hx
  rwa [List.length_map] at hsum

/-- Entries that are bounded, and nothing but for one kind of them, add up to the number of
that kind times the bound, at most. -/
theorem sum_map_le_countP {α : Type} {f : α → Nat} {p : α → Bool} {bound : Nat} {l : List α}
    (h : ∀ x ∈ l, f x ≤ bound) (hzero : ∀ x ∈ l, p x = false → f x = 0) :
    (l.map f).sum ≤ l.countP p * bound := by
  induction l with
  | nil => exact Nat.zero_le _
  | cons x l ih =>
    have hrest := ih (fun y hy => h y (List.mem_cons_of_mem x hy))
      fun y hy => hzero y (List.mem_cons_of_mem x hy)
    have hx := h x List.mem_cons_self
    rw [List.map_cons, List.sum_cons, List.countP_cons]
    cases hp : p x with
    | true =>
      simp only [if_true, Nat.succ_mul]
      omega
    | false =>
      rw [hzero x List.mem_cons_self hp]
      simpa using hrest

/-- Replacing an entry of a list moves a sum over the list by the difference. -/
theorem sum_map_set {α : Type} (f : α → Nat) {l : List α} {i : Nat} {x : α} (y : α)
    (h : l[i]? = some x) : ((l.set i y).map f).sum + f x = (l.map f).sum + f y := by
  induction l generalizing i with
  | nil => cases h
  | cons z l ih =>
    cases i with
    | zero =>
      cases h
      simp only [List.set_cons_zero, List.map_cons, List.sum_cons]
      omega
    | succ i =>
      have := ih (i := i) (by simpa using h)
      simp only [List.set_cons_succ, List.map_cons, List.sum_cons]
      omega

/-- Replacing an entry of a list moves a count over the list by the difference. -/
theorem countP_set_singleton {α : Type} (p : α → Bool) {l : List α} {i : Nat} {x : α} (y : α)
    (h : l[i]? = some x) : (l.set i y).countP p + [x].countP p = l.countP p + [y].countP p := by
  induction l generalizing i with
  | nil => cases h
  | cons z l ih =>
    cases i with
    | zero =>
      cases h
      simp only [List.set_cons_zero, List.countP_cons, List.countP_nil]
      omega
    | succ i =>
      have hrest := ih (i := i) (by simpa using h)
      simp only [List.set_cons_succ, List.countP_cons, List.countP_nil] at hrest ⊢
      omega

end IMSystem.Lib

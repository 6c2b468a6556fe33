/-!
# Runs of a transition system

A system is a partial step function: an action is either not enabled in a
state or leads to one next state. Every choice of the environment (who moves,
what is lost, what fails) is part of the action, so a list of actions is one
interleaving. A run that meets an action that is not enabled ends there.

`HoldsAlong P` says that every state of a run satisfies `P`; `StepsMeet C` says
that every step of a run meets the condition `C` in the state it starts from.

Results:
1. `holdsAlong_of_inv`: the invariant rule, for runs whose steps meet a condition.
2. `holdsAlong_iff`: exactly the runs whose steps meet `C` keep `P`.
3. `stepsMeet_iff`: two step conditions that agree as long as one of them held.
-/

namespace IMSystem.Lib

variable {S A : Type} (step : S → A → Option S)

/-- The state after all the actions of a list, if each of them is enabled. -/
def run : S → List A → Option S
  | s, [] => some s
  | s, a :: as => (step s a).bind fun s' => run s' as

/-- Every state of the run satisfies `P`. -/
def HoldsAlong (P : S → Prop) : S → List A → Prop
  | s, [] => P s
  | s, a :: as => P s ∧ ∀ s', step s a = some s' → HoldsAlong P s' as

/-- Every step of the run meets `C` in the state it starts from. -/
def StepsMeet (C : S → A → Prop) : S → List A → Prop
  | _, [] => True
  | s, a :: as => ∀ s', step s a = some s' → C s a ∧ StepsMeet C s' as

section Decidable

variable (P : S → Prop) [DecidablePred P]

/-- Whether a property holds along a run can be tried out. -/
instance decidableHoldsAlong : ∀ s as, Decidable (HoldsAlong step P s as)
  | s, [] => inferInstanceAs (Decidable (P s))
  | s, a :: as =>
    match h : step s a with
    | none => decidable_of_iff (P s) (by simp [HoldsAlong, h])
    | some s' =>
      have := decidableHoldsAlong s' as
      decidable_of_iff (P s ∧ HoldsAlong step P s' as) (by simp [HoldsAlong, h])

variable (C : S → A → Prop) [∀ s a, Decidable (C s a)]

/-- Whether the steps of a run meet a condition can be tried out. -/
instance decidableStepsMeet : ∀ s as, Decidable (StepsMeet step C s as)
  | _, [] => isTrue trivial
  | s, a :: as =>
    match h : step s a with
    | none => isTrue (by simp [StepsMeet, h])
    | some s' =>
      have := decidableStepsMeet s' as
      decidable_of_iff (C s a ∧ StepsMeet step C s' as) (by simp [StepsMeet, h])

end Decidable

variable {step}

theorem run_cons {s s' : S} {a : A} (h : step s a = some s') (as : List A) :
    run step s (a :: as) = run step s' as := by
  rw [run, h, Option.bind_some]

theorem run_append {s s' : S} {as : List A} (h : run step s as = some s') (bs : List A) :
    run step s (as ++ bs) = run step s' bs := by
  induction as generalizing s with
  | nil =>
    cases h
    rfl
  | cons a as ih =>
    obtain ⟨s₁, hstep, hrest⟩ := Option.bind_eq_some_iff.mp h
    rw [List.cons_append, run_cons hstep]
    exact ih hrest

theorem holdsAlong_head {P : S → Prop} {s : S} {as : List A} (h : HoldsAlong step P s as) : P s := by
  cases as with
  | nil => exact h
  | cons _ _ => exact h.1

/-- What holds along a run holds in its last state. -/
theorem holdsAlong_last {P : S → Prop} {s s' : S} {as : List A} (h : HoldsAlong step P s as)
    (hrun : run step s as = some s') : P s' := by
  induction as generalizing s with
  | nil =>
    cases hrun
    exact h
  | cons a as ih =>
    obtain ⟨s₁, hstep, hrest⟩ := Option.bind_eq_some_iff.mp hrun
    exact ih (h.2 s₁ hstep) hrest

/-- What holds at the end of every run that is the front of this one holds along it. -/
theorem holdsAlong_of_run {P : S → Prop} {s : S} {as : List A}
    (h : ∀ bs s', bs <+: as → run step s bs = some s' → P s') : HoldsAlong step P s as := by
  induction as generalizing s with
  | nil => exact h [] s (List.prefix_refl _) rfl
  | cons a as ih =>
    refine ⟨h [] s (List.nil_prefix) rfl, fun s₁ hstep => ih fun bs s' hbs hrun => ?_⟩
    exact h (a :: bs) s' ((List.cons_prefix_cons).mpr ⟨rfl, hbs⟩) ((run_cons hstep bs).trans hrun)

/-- The invariant rule. -/
theorem holdsAlong_of_inv {P Inv : S → Prop} {C : S → A → Prop}
    (hstep : ∀ s a s', Inv s → C s a → step s a = some s' → Inv s')
    (hP : ∀ s, Inv s → P s) {s : S} {as : List A} (hs : Inv s) (hC : StepsMeet step C s as) :
    HoldsAlong step P s as := by
  induction as generalizing s with
  | nil => exact hP s hs
  | cons a as ih =>
    refine ⟨hP s hs, fun s' hstep' => ?_⟩
    obtain ⟨hca, hrest⟩ := hC s' hstep'
    exact ih (hstep s a s' hs hca hstep') hrest

/-- The invariant rule, for an invariant of all steps. -/
theorem holdsAlong_of_step {P Inv : S → Prop}
    (hstep : ∀ s a s', Inv s → step s a = some s' → Inv s') (hP : ∀ s, Inv s → P s) {s : S}
    {as : List A} (hs : Inv s) : HoldsAlong step P s as := by
  induction as generalizing s with
  | nil => exact hP s hs
  | cons a as ih => exact ⟨hP s hs, fun s' hs' => ih (hstep s a s' hs hs')⟩

/-- When an invariant of all steps makes `C` the condition for one step to keep
`P`, the runs that keep `P` are those whose steps all meet `C`. -/
theorem holdsAlong_iff {P Inv : S → Prop} {C : S → A → Prop}
    (hstep : ∀ s a s', Inv s → step s a = some s' → Inv s')
    (hP : ∀ s a s', Inv s → P s → step s a = some s' → (P s' ↔ C s a))
    {s : S} {as : List A} (hs : Inv s) (hPs : P s) :
    HoldsAlong step P s as ↔ StepsMeet step C s as := by
  induction as generalizing s with
  | nil => exact ⟨fun _ => trivial, fun _ => hPs⟩
  | cons a as ih =>
    constructor
    · rintro ⟨_, hrest⟩ s' hs'
      have hPs' : P s' := holdsAlong_head (hrest s' hs')
      exact ⟨(hP s a s' hs hPs hs').mp hPs', (ih (hstep s a s' hs hs') hPs').mp (hrest s' hs')⟩
    · intro h
      refine ⟨hPs, fun s' hs' => ?_⟩
      obtain ⟨hca, hrest⟩ := h s' hs'
      exact (ih (hstep s a s' hs hs') ((hP s a s' hs hPs hs').mpr hca)).mpr hrest

/-- A condition on the actions alone. -/
theorem stepsMeet_of_mem {C : S → A → Prop} {s : S} {as : List A} (h : ∀ s, ∀ a ∈ as, C s a) :
    StepsMeet step C s as := by
  induction as generalizing s with
  | nil => trivial
  | cons a as ih =>
    exact fun s' _ => ⟨h s a List.mem_cons_self, ih fun s a ha => h s a (List.mem_cons_of_mem _ ha)⟩

/-- A condition that an invariant of all steps gives for every step. -/
theorem stepsMeet_of_step {Inv : S → Prop} {C : S → A → Prop}
    (hstep : ∀ s a s', Inv s → step s a = some s' → Inv s') (hC : ∀ s a, Inv s → C s a)
    {s : S} {as : List A} (hs : Inv s) : StepsMeet step C s as := by
  induction as generalizing s with
  | nil => trivial
  | cons a as ih => exact fun s' hs' => ⟨hC s a hs, ih (hstep s a s' hs hs')⟩

/-- A weaker step condition holds along at least the same runs. -/
theorem stepsMeet_mono {Q C : S → A → Prop} (hQC : ∀ s a, Q s a → C s a) {s : S} {as : List A}
    (h : StepsMeet step Q s as) : StepsMeet step C s as := by
  induction as generalizing s with
  | nil => trivial
  | cons a as ih =>
    intro s' hs'
    obtain ⟨hq, hrest⟩ := h s' hs'
    exact ⟨hQC s a hq, ih hrest⟩

/-- Two step conditions that agree in every state reached by steps that met
them hold along the same runs. -/
theorem stepsMeet_iff {Inv : S → Prop} {Q C : S → A → Prop}
    (hstep : ∀ s a s', Inv s → C s a → step s a = some s' → Inv s')
    (hQ : ∀ s a s', Inv s → step s a = some s' → (Q s a ↔ C s a))
    {s : S} {as : List A} (hs : Inv s) :
    StepsMeet step Q s as ↔ StepsMeet step C s as := by
  induction as generalizing s with
  | nil => exact Iff.rfl
  | cons a as ih =>
    refine forall_congr' fun s' => imp_congr_right fun hs' => ?_
    have hqc := hQ s a s' hs hs'
    constructor
    · rintro ⟨hq, hrest⟩
      exact ⟨hqc.mp hq, (ih (hstep s a s' hs (hqc.mp hq) hs')).mp hrest⟩
    · rintro ⟨hc, hrest⟩
      exact ⟨hqc.mpr hc, (ih (hstep s a s' hs hc hs')).mpr hrest⟩

end IMSystem.Lib

/-!
# Calls under way on a shared object

Several threads may be inside a function of one object at once. Each of their
calls is at some point of its code or has returned, with success or without. A
call that returned with success has promised something about the object. It is
excused from the promise by an event that happened after it started; until then
it is *clean*.

Results:
1. `promised_concat`, `promised_set`, `not_promised_excuse`: how promises come and go.
2. `Working.returned`, `Working.start`, `Working.set`: what keeps a call the only one
   that runs, and what it knows true.
3. `Guarded.start`, `Guarded.move`, `Guarded.finish`, `Guarded.fail`: a flag that a
   call sets before it starts to work, and resets when it fails.
-/

namespace IMSystem.Lib

/-- Where a call is, among the points `β` of its code. -/
inductive Phase (β : Type) where
  | running (point : β)
  | returned (success : Bool)
deriving DecidableEq, Repr

/-- A call of the function. -/
structure Activation (β : Type) where
  phase : Phase β
  clean : Bool
deriving DecidableEq, Repr

variable {β : Type} {calls : List (Activation β)}

/-- Some call has promised something and is not excused. -/
def Promised (calls : List (Activation β)) : Prop := ⟨.returned true, true⟩ ∈ calls

instance [DecidableEq β] : DecidablePred (@Promised β) := fun calls =>
  inferInstanceAs (Decidable (_ ∈ calls))

/-- An event that excuses all calls so far. -/
def excuse (calls : List (Activation β)) : List (Activation β) :=
  calls.map fun a => ⟨a.phase, false⟩

/-- At most one call is running. -/
def Sole (calls : List (Activation β)) : Prop :=
  ∀ (j k : Nat) (p q : β) (a b : Bool), calls[j]? = some ⟨.running p, a⟩ →
    calls[k]? = some ⟨.running q, b⟩ → j = k

theorem promised_concat (a : Activation β) :
    Promised (calls ++ [a]) ↔ Promised calls ∨ a = ⟨.returned true, true⟩ := by
  unfold Promised
  rw [List.mem_append, List.mem_singleton, eq_comm]

theorem not_promised_excuse : ¬ Promised (excuse calls) := by
  intro h
  obtain ⟨⟨phase, c⟩, _, ha⟩ := List.mem_map.mp h
  cases ha

/-- A call that runs on, or returns. -/
theorem promised_set {k : Nat} {p : β} {c : Bool} (hk : calls[k]? = some ⟨.running p, c⟩)
    (a : Activation β) :
    Promised (calls.set k a) ↔ Promised calls ∨ a = ⟨.returned true, true⟩ := by
  unfold Promised
  constructor
  · intro h
    rcases List.mem_or_eq_of_mem_set h with hold | hnew
    · exact .inl hold
    · exact .inr hnew.symm
  · rintro (hold | rfl)
    · obtain ⟨j, hj⟩ := List.mem_iff_getElem?.mp hold
      have hne : k ≠ j := by
        rintro rfl
        cases hk.symm.trans hj
      refine List.mem_iff_getElem?.mpr ⟨j, ?_⟩
      rw [List.getElem?_set_ne hne, hj]
    · exact List.mem_set (List.getElem?_eq_some_iff.mp hk).1 _

/-- No promise comes from a call that does not return with success. -/
theorem promised_of_set {k : Nat} {p : β} {c : Bool} (hk : calls[k]? = some ⟨.running p, c⟩)
    {a : Activation β} (ha : a.phase ≠ .returned true) (h : Promised (calls.set k a)) :
    Promised calls := by
  rcases (promised_set hk a).mp h with hold | rfl
  · exact hold
  · exact absurd rfl ha

theorem promised_of_concat {a : Activation β} (ha : a.phase ≠ .returned true)
    (h : Promised (calls ++ [a])) : Promised calls := by
  rcases (promised_concat a).mp h with hold | rfl
  · exact hold
  · exact absurd rfl ha

/-- Where what is promised did not hold, nothing was promised, and without a new
promise nothing is due. -/
theorem kept_of_not_due {calls' : List (Activation β)} {U U' : Prop} (hkept : Promised calls → U)
    (hnot : ¬ U) (hcalls : Promised calls' → Promised calls) (h : Promised calls') : U' :=
  absurd (hkept (hcalls h)) hnot

/-! ## The only call at work -/

/-- At most one call is running, and `Φ` holds of the point where it is. -/
structure Working (calls : List (Activation β)) (Φ : β → Prop) : Prop where
  sole : Sole calls
  point : ∀ p c, ⟨.running p, c⟩ ∈ calls → Φ p

variable {Φ Ψ : β → Prop}

theorem working_nil : Working [] Φ where
  sole := by
    intro j k p q a b hj
    cases hj
  point := fun _ _ hmem => absurd hmem List.not_mem_nil

/-- A call that returns at once. -/
theorem Working.returned (h : Working calls Φ) (r c : Bool) :
    Working (calls ++ [⟨.returned r, c⟩]) Φ := by
  -- a running call in the longer list is an old one
  have hcases : ∀ {i : Nat} {p : β} {b : Bool},
      (calls ++ [⟨.returned r, c⟩])[i]? = some ⟨.running p, b⟩ →
        calls[i]? = some ⟨.running p, b⟩ := by
    intro i p b hi
    rcases Nat.lt_or_ge i calls.length with hlt | hge
    · rwa [List.getElem?_append_left hlt] at hi
    · rw [List.getElem?_append_right hge, List.getElem?_singleton] at hi
      split at hi
      · cases hi
      · cases hi
  refine ⟨fun j k p q a b hj hk => h.sole j k p q a b (hcases hj) (hcases hk), fun p b hmem => ?_⟩
  obtain ⟨i, hi⟩ := List.mem_iff_getElem?.mp hmem
  exact h.point p b (List.mem_of_getElem? (hcases hi))

/-- A call that starts to work while no other can be at work. -/
theorem Working.start (h : Working calls Φ) (hnone : ∀ q, ¬ Φ q) {p : β} (c : Bool) (hp : Ψ p) :
    Working (calls ++ [⟨.running p, c⟩]) Ψ := by
  -- a running call in the longer list is the new one
  have hcases : ∀ {i : Nat} {q : β} {b : Bool},
      (calls ++ [⟨.running p, c⟩])[i]? = some ⟨.running q, b⟩ → i = calls.length ∧ p = q := by
    intro i q b hi
    rcases Nat.lt_or_ge i calls.length with hlt | hge
    · rw [List.getElem?_append_left hlt] at hi
      exact absurd (h.point q b (List.mem_of_getElem? hi)) (hnone q)
    · rw [List.getElem?_append_right hge, List.getElem?_singleton] at hi
      split at hi
      · next hzero =>
        cases hi
        exact ⟨by omega, rfl⟩
      · cases hi
  refine ⟨fun j k q r a b hj hk => (hcases hj).1.trans (hcases hk).1.symm, fun q b hmem => ?_⟩
  obtain ⟨i, hi⟩ := List.mem_iff_getElem?.mp hmem
  obtain ⟨_, rfl⟩ := hcases hi
  exact hp

/-- The call at work takes a step: what is known of its new point is all that is to
be shown. -/
theorem Working.set (h : Working calls Φ) {k : Nat} {p : β} {c : Bool}
    (hk : calls[k]? = some ⟨.running p, c⟩) {a : Activation β}
    (ha : ∀ q, a.phase = .running q → Ψ q) : Working (calls.set k a) Ψ := by
  -- no call but the `k`-th is running
  have hcases : ∀ {i : Nat} {q : β} {b : Bool},
      (calls.set k a)[i]? = some ⟨.running q, b⟩ → k = i ∧ a = ⟨.running q, b⟩ := by
    intro i q b hi
    by_cases hki : k = i
    · subst hki
      rw [List.getElem?_set_self (List.getElem?_eq_some_iff.mp hk).1] at hi
      exact ⟨rfl, Option.some.inj hi⟩
    · rw [List.getElem?_set_ne hki] at hi
      exact absurd (h.sole k i p q c b hk hi) hki
  refine ⟨fun i j q r b d hi hj => (hcases hi).1.symm.trans (hcases hj).1, fun q b hmem => ?_⟩
  obtain ⟨i, hi⟩ := List.mem_iff_getElem?.mp hmem
  exact ha q (congrArg Activation.phase (hcases hi).2)

/-! ## A flag that guards the work -/

/-- At most one call is at work, with the flag set. While none is, the flag says
whether the object is `empty` or `full`. -/
structure Guarded (calls : List (Activation β)) (flag : Bool) (Φ : β → Prop)
    (empty full : Prop) : Prop where
  working : Working calls fun p => flag = true ∧ Φ p
  idle : flag = false → empty
  built : flag = true → (∃ p c, ⟨.running p, c⟩ ∈ calls) ∨ full

namespace Guarded

variable {flag : Bool} {empty full empty' full' : Prop} {k : Nat} {p : β} {c : Bool}

/-- A call that finds the flag set. -/
theorem returned (h : Guarded calls flag Φ empty full) (r c : Bool) :
    Guarded (calls ++ [⟨.returned r, c⟩]) flag Φ empty full where
  working := h.working.returned r c
  idle := h.idle
  built hset :=
    (h.built hset).imp_left fun ⟨p, c, hmem⟩ => ⟨p, c, List.mem_append_left _ hmem⟩

/-- A call that sets the flag. -/
theorem start (h : Guarded calls flag Φ empty full) (hunset : flag = false) (c : Bool)
    (hp : empty → Ψ p) : Guarded (calls ++ [⟨.running p, c⟩]) true Ψ empty' full' where
  working := by
    have hnone : ∀ q, ¬ (flag = true ∧ Φ q) := fun q hq =>
      Bool.false_ne_true (hunset.symm.trans hq.1)
    exact h.working.start hnone c ⟨rfl, hp (h.idle hunset)⟩
  idle hfalse := nomatch hfalse
  built _ := .inl ⟨_, _, List.mem_append_right _ (List.mem_singleton_self _)⟩

theorem point (h : Guarded calls flag Φ empty full) (hk : calls[k]? = some ⟨.running p, c⟩) :
    flag = true ∧ Φ p :=
  h.working.point p c (List.mem_of_getElem? hk)

/-- The call at work goes on. -/
theorem move (h : Guarded calls flag Φ empty full) (hk : calls[k]? = some ⟨.running p, c⟩)
    {q : β} (hq : Φ p → Ψ q) : Guarded (calls.set k ⟨.running q, c⟩) flag Ψ empty' full' where
  working := h.working.set hk fun q' heq => by
    cases heq
    exact ⟨(h.point hk).1, hq (h.point hk).2⟩
  idle hfalse := absurd (hfalse.symm.trans (h.point hk).1) Bool.false_ne_true
  built _ := .inl ⟨_, _, List.mem_set (List.getElem?_eq_some_iff.mp hk).1 _⟩

/-- The call at work returns and leaves the flag set. -/
theorem finish (h : Guarded calls flag Φ empty full) (hk : calls[k]? = some ⟨.running p, c⟩)
    (r : Bool) (hfull : Φ p → full') :
    Guarded (calls.set k ⟨.returned r, c⟩) flag Ψ empty' full' where
  working := h.working.set hk fun _ heq => nomatch heq
  idle hfalse := absurd (hfalse.symm.trans (h.point hk).1) Bool.false_ne_true
  built _ := .inr (hfull (h.point hk).2)

/-- The call at work resets the flag and returns. -/
theorem fail (h : Guarded calls flag Φ empty full) (hk : calls[k]? = some ⟨.running p, c⟩)
    (r : Bool) (hempty : Φ p → empty') :
    Guarded (calls.set k ⟨.returned r, c⟩) false Ψ empty' full' where
  working := h.working.set hk fun _ heq => nomatch heq
  idle _ := hempty (h.point hk).2
  built hset := nomatch hset

end Guarded

end IMSystem.Lib

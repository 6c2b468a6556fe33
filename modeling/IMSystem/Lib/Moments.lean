import IMSystem.Lib.Reading
import Mathlib.Data.List.Chain

/-!
# The moments of a run

The history of a run is the list of all the states that were shared, from the first one
to the current one. A program that was started at one of these moments can point to the
moments at which its steps were made, all of them behind its start. So what it answers was
true while it ran, although nothing stops the others in between.

Results:
1. `Extends`, `Alive`: how a history goes on, and what a running program relies on.
2. `ensures_atomic`, `ensures_retry`, `ensures_reading`: a step, a retried step and a step
   that reads happen at a moment of the run of the program.
-/

namespace IMSystem.Lib.Moments

variable {χ σ ε τ α : Type} {T : σ → σ → Prop}

/-- Every step is noted down. -/
def note (_ : Nat) (_ after : σ) (moments : List σ) : List σ := moments ++ [after]

variable (T) in
/-- The history ends with the current state, and each state came from the one before it. -/
structure Sound (w : σ × List σ) : Prop where
  last : w.2.getLast? = some w.1
  steps : w.2.IsChain T

variable (T) in
/-- The history goes on, by steps of `T`. -/
structure Extends (w w' : σ × List σ) : Prop where
  moments : w.2 <+: w'.2
  sound : Sound T w → Sound T w'
  reached : Relation.ReflTransGen T w.1 w'.1

instance : IsPreorder (σ × List σ) (Extends T) where
  refl _ := ⟨List.prefix_refl _, id, .refl⟩
  trans _ _ _ h h' := ⟨h.moments.trans h'.moments, h'.sound ∘ h.sound, h.reached.trans h'.reached⟩

/-- One more step. -/
theorem extends_note {w : σ × List σ} {s : σ} (h : T w.1 s) : Extends T w (s, w.2 ++ [s]) where
  moments := List.prefix_append _ _
  sound hw := {
    last := List.getLast?_concat
    steps := List.isChain_append.mpr ⟨hw.steps, List.isChain_singleton _, fun x hx y hy => by
      rw [hw.last] at hx
      cases hx
      cases hy
      exact h⟩ }
  reached := .single h

/-- What every step of `T` keeps. -/
theorem Extends.keeps {w w' : σ × List σ} (h : Extends T w w') {I : σ → Prop}
    (hI : ∀ s s', T s s' → I s → I s') (hw : I w.1) : I w'.1 := by
  have hreached := h.reached
  generalize w'.1 = s' at hreached ⊢
  induction hreached with
  | refl => exact hw
  | tail _ hstep ih => exact hI _ _ hstep ih

variable (T) in
/-- A program that was started at the moment `start` is running, and `I` holds. -/
structure Alive (start : Nat) (I : σ → Prop) (w : σ × List σ) : Prop where
  sound : Sound T w
  started : start < w.2.length
  inv : I w.1

/-- A step from `s` to `s'` with `P s s'` was made at the moment `i`. -/
def At (i : Nat) (P : σ → σ → Prop) (w : σ × List σ) : Prop :=
  ∃ s s', w.2[i]? = some s ∧ w.2[i + 1]? = some s' ∧ P s s'

theorem At.extends {i : Nat} {P : σ → σ → Prop} {w w' : σ × List σ} (h : At i P w)
    (hw : Extends T w w') : At i P w' := by
  obtain ⟨s, s', hs, hs', hP⟩ := h
  obtain ⟨rest, hrest⟩ := hw.moments
  have hget : ∀ {k : Nat} {x : σ}, w.2[k]? = some x → w'.2[k]? = some x := by
    intro k x hk
    rw [← hrest, List.getElem?_append_left (List.getElem?_eq_some_iff.mp hk).1]
    exact hk
  exact ⟨s, s', hget hs, hget hs', hP⟩

theorem At.mono {i : Nat} {P Q : σ → σ → Prop} {w : σ × List σ} (h : At i P w)
    (hPQ : ∀ s s', P s s' → Q s s') : At i Q w := by
  obtain ⟨s, s', hs, hs', hP⟩ := h
  exact ⟨s, s', hs, hs', hPQ s s' hP⟩

/-- A step was made at a moment of the run, and the program runs on from there. -/
def Made (T : σ → σ → Prop) (start : Nat) (I : σ → Prop) (P : σ → σ → Prop) (w : σ × List σ) : Prop :=
  ∃ i, start ≤ i ∧ At i P w ∧ Alive T (i + 1) I w

section Ensures

variable {start : Nat} {I : σ → Prop} {w w' : σ × List σ} {P : σ → σ → Prop}

theorem Alive.extends (h : Alive T start I w) (hI : ∀ s s', T s s' → I s → I s')
    (hw : Extends T w w') : Alive T start I w' :=
  ⟨hw.sound h.sound, Nat.lt_of_lt_of_le h.started hw.moments.length_le, hw.keeps hI h.inv⟩

theorem Made.extends (h : Made T start I P w) (hI : ∀ s s', T s s' → I s → I s')
    (hw : Extends T w w') : Made T start I P w' := by
  obtain ⟨i, hi, hat, halive⟩ := h
  exact ⟨i, hi, hat.extends hw, halive.extends hI hw⟩

/-- The step that is made right now. -/
theorem Alive.made (h : Alive T start I w) (hI : ∀ s s', T s s' → I s → I s') {s : σ}
    (hT : T w.1 s) (hP : P w.1 s) : Made T start I P (s, w.2 ++ [s]) := by
  have hlast : w.2[w.2.length - 1]? = some w.1 := by
    rw [← List.getLast?_eq_getElem?]
    exact h.sound.last
  have hpos : w.2.length - 1 + 1 = w.2.length := Nat.sub_add_cancel (Nat.lt_of_le_of_lt (Nat.zero_le _) h.started)
  have hnext := extends_note hT
  refine ⟨w.2.length - 1, Nat.le_sub_one_of_lt h.started, ⟨w.1, s, ?_, ?_, hP⟩,
    hnext.sound h.sound, ?_, hI _ _ hT h.inv⟩
  · rw [List.getElem?_append_left (List.getElem?_eq_some_iff.mp hlast).1]
    exact hlast
  · rw [hpos]
    exact List.getElem?_concat_length
  · rw [hpos]
    show w.2.length < (w.2 ++ [s]).length
    rw [List.length_append]
    exact Nat.lt_succ_self _

variable {k : Nat} (hI : ∀ s s', T s s' → I s → I s')
include hI

/-- A call of one step is made at a moment of the run. -/
theorem ensures_atomic {m : χ → Eff ε σ α} (hT : ∀ c s, I s → T s (m c s).2)
    (h : Alive T start I w) :
    (Prog.atomic m).run.Ensures (note k) (Extends T)
      (fun r w => Made T start I (fun s s' => ∃ c, m c s = (r, s')) w) w := by
  refine Prog.Ensures.atomic fun w' hw' c => ?_
  have halive := h.extends hI hw'
  have hstep : T w'.1 (m c w'.1).2 := hT c w'.1 halive.inv
  exact ⟨extends_note hstep, fun w'' hw'' =>
    (halive.made (P := fun s s' => ∃ c', m c' s = ((m c w'.1).1, s')) hI hstep ⟨c, rfl⟩).extends hI hw''⟩

/-- Of a retried call it is the last attempt. -/
theorem ensures_retry {m : χ → Eff ε σ α} (hT : ∀ c s, I s → T s (m c s).2)
    (h : Alive T start I w) (left : Nat) :
    (Prog.retry (Prog.atomic m) left).run.Ensures (note k) (Extends T)
      (fun r w => Made T start I (fun s s' => ∃ c, m c s = (r, s')) w) w := by
  refine Prog.Ensures.retry (P := Alive T start I) (fun w hw => ensures_atomic hI hT hw) ?_ h left
  rintro e w ⟨i, hi, _, halive⟩
  exact ⟨halive.sound, Nat.lt_of_le_of_lt (Nat.le_succ_of_le hi) halive.started, halive.inv⟩

/-- A step that reads. -/
theorem ensures_reading {m : χ → σ → Eff ε τ α} (hT : ∀ s, T s s) {t : τ}
    (h : Alive T start I w) :
    (Prog.reading m t).Ensures (note k) (Extends T)
      (fun r w => Made T start I (fun s s' => s' = s ∧ ∃ c, m c s t = r) w) w := by
  intro w' hw' c
  have halive := h.extends hI hw'
  exact ⟨extends_note (hT w'.1), fun w'' hw'' =>
    (halive.made (P := fun s s' => s' = s ∧ ∃ c', m c' s t = m c w'.1 t) hI (hT w'.1)
      ⟨rfl, c, rfl⟩).extends hI hw''⟩

end Ensures

end IMSystem.Lib.Moments

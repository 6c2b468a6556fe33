import IMSystem.Lib.Interleave

/-!
# Retried reads among other programs

A read collects in a state of its own what it finds in the shared state, which it
does not change. The attempts of one read may find different shared states, as may the
steps of one attempt, and what a failed one has collected stays.

Results:
1. `yields_again`, `yields_retryOn`: when nothing else runs, it is the retried call.
2. `Ensures.again`, `Ensures.retryOn`: what every attempt keeps of its own state.
3. `Ensures.of_yields`: what a program ensures among others, it ensures alone.
-/

namespace IMSystem.Lib.Prog

variable {χ σ ε τ α γ : Type}

/-- Go on with the own state if an attempt has failed. -/
def onError (next : τ → Prog χ σ (Except ε α × τ)) : Except ε α × τ → Prog χ σ (Except ε α × τ)
  | (.ok a, t) => ret (.ok a, t)
  | (.error _, t) => next t

/-- One step that reads. -/
def reading (m : χ → σ → Eff ε τ α) (t : τ) : Prog χ σ (Except ε α × τ) :=
  act (fun _ s => s) fun c s => ret (m c s t)

/-- Make attempts on the own state until one returns, at most `left` further times. -/
def again (p : τ → Prog χ σ (Except ε α × τ)) : (left : Nat) → τ → Prog χ σ (Except ε α × τ)
  | 0, t => p t
  | left + 1, t => p t >>= onError fun t' => again p left t'

/-- Attempts of one step. -/
def retryOn (m : χ → σ → Eff ε τ α) : (left : Nat) → τ → Prog χ σ (Except ε α × τ) :=
  again (reading m)

/-! ## Alone -/

theorem yields_reading {m : χ → σ → Eff ε τ α} {t : τ} {s s' : σ} {r : Except ε α × τ} :
    (reading m t).Yields s r s' ↔ s' = s ∧ ∃ c, r = m c s t := by
  constructor
  · intro h
    cases h with
    | act c h =>
      obtain ⟨rfl, rfl⟩ := yields_ret.mp h
      exact ⟨rfl, c, rfl⟩
  · rintro ⟨rfl, c, rfl⟩
    exact .act c .ret

/-- Alone, every attempt reads the same shared state. -/
theorem yields_again {π : Type} {p : τ → Prog χ σ (Except ε α × τ)} {m : π → σ → Eff ε τ α}
    (hp : ∀ t s r s', (p t).Yields s r s' ↔ s' = s ∧ ∃ c, r = m c s t) {left : Nat} {t : τ}
    {s s' : σ} {r : Except ε α × τ} (attempt : Nat) :
    (again p left t).Yields s r s' ↔
      s' = s ∧ ∃ cs : Nat → π, r = Eff.retry (fun i => m (cs i) s) left attempt t := by
  induction left generalizing t attempt with
  | zero =>
    refine (hp t s r s').trans (and_congr_right fun _ => ⟨?_, ?_⟩)
    · rintro ⟨c, rfl⟩
      exact ⟨fun _ => c, rfl⟩
    · rintro ⟨cs, rfl⟩
      exact ⟨cs attempt, rfl⟩
  | succ left ih =>
    refine yields_bind.trans ⟨?_, ?_⟩
    · rintro ⟨⟨a | a, t'⟩, s₁, hfirst, hrest⟩
      · obtain ⟨rfl, c, hrun⟩ := (hp t s _ s₁).mp hfirst
        obtain ⟨rfl, cs, rfl⟩ := (ih (attempt + 1)).mp hrest
        -- the environment of this attempt, and those of the later ones
        let all (i : Nat) : π := if i = attempt then c else cs i
        have hhere : m (all attempt) s' t = (.error a, t') := by
          rw [show all attempt = c from if_pos rfl, hrun]
        have hlater : ∀ i, attempt + 1 ≤ i → m (all i) s' = m (cs i) s' := by
          intro i hi
          rw [show all i = cs i from if_neg (Nat.ne_of_gt hi)]
        refine ⟨rfl, all, ?_⟩
        rw [Eff.retry_of_error hhere, Eff.retry_congr left (attempt + 1) hlater]
      · obtain ⟨rfl, c, hrun⟩ := (hp t s _ s₁).mp hfirst
        obtain ⟨rfl, rfl⟩ := yields_ret.mp hrest
        exact ⟨rfl, fun _ => c, (Eff.retry_of_ok hrun.symm).symm⟩
    · rintro ⟨rfl, cs, rfl⟩
      refine ⟨m (cs attempt) s' t, s', (hp t s' _ s').mpr ⟨rfl, cs attempt, rfl⟩, ?_⟩
      match hrun : m (cs attempt) s' t with
      | (.ok a, t') =>
        rw [Eff.retry_of_ok hrun]
        exact .ret
      | (.error e, t') =>
        exact (ih (attempt + 1)).mpr ⟨rfl, cs, Eff.retry_of_error hrun⟩

theorem yields_retryOn {m : χ → σ → Eff ε τ α} {left : Nat} {t : τ} {s s' : σ}
    {r : Except ε α × τ} (attempt : Nat) :
    (retryOn m left t).Yields s r s' ↔
      s' = s ∧ ∃ cs : Nat → χ, r = Eff.retry (fun i => m (cs i) s) left attempt t :=
  yields_again (fun _ _ _ _ => yields_reading) attempt

/-! ## Among others -/

section Ensures

variable {record : σ → σ → γ → γ} {R : σ × γ → σ × γ → Prop}

/-- What every attempt keeps of the own state is kept. -/
theorem Ensures.again {p : τ → Prog χ σ (Except ε α × τ)} [Std.Refl R] {P : τ → σ × γ → Prop}
    (hp : ∀ t w, P t w → (p t).Ensures record R (fun r w => P r.2 w) w) {t : τ} {w : σ × γ}
    (h : P t w) (left : Nat) : (Prog.again p left t).Ensures record R (fun r w => P r.2 w) w := by
  induction left generalizing t w with
  | zero => exact hp t w h
  | succ left ih =>
    refine (hp t w h).bind fun r w hr => ?_
    obtain ⟨_ | _, t'⟩ := r
    · exact ih hr.now
    · exact hr

/-- A step that reads changes nothing, so it ensures what it keeps of its own state,
wherever the others have got to by then. -/
theorem Ensures.retryOn {m : χ → σ → Eff ε τ α} [IsPreorder (σ × γ) R] {P : τ → σ × γ → Prop}
    (hrecord : ∀ w : σ × γ, record w.1 w.1 w.2 = w.2)
    (hstable : ∀ t w w', P t w → R w w' → P t w')
    (hm : ∀ c t w, P t w → P (m c w.1 t).2 w) {t : τ} {w : σ × γ} (h : P t w) (left : Nat) :
    (Prog.retryOn m left t).Ensures record R (fun r w => P r.2 w) w := by
  have hread : ∀ w : σ × γ, after record (fun s => s) w = w := fun w => by
    rw [after, hrecord]
  refine Ensures.again (P := P) (fun t w h => ?_) h left
  intro w' hw' c
  rw [hread]
  exact ⟨refl w', fun w'' hw'' => hstable _ _ _ (hm c t w' (hstable t w w' h hw')) hw''⟩

end Ensures

/-- Alone, a program does what it ensures whatever the others do. -/
theorem Ensures.of_yields {record : σ → σ → γ → γ} {R : σ × γ → σ × γ → Prop}
    [IsPreorder (σ × γ) R] {Q : α → σ × γ → Prop} {p : Prog χ σ α} {s s' : σ} {a : α}
    (hp : p.Yields s a s') {h : γ} (hensures : p.Ensures record R Q (s, h)) : ∃ h', Q a (s', h') := by
  induction hp generalizing h with
  | ret => exact ⟨h, hensures (_, h) (refl _)⟩
  | act c _ ih => exact ih (hensures (_, h) (refl _) c).2

end IMSystem.Lib.Prog

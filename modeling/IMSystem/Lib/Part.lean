import IMSystem.Lib.Interleave

/-!
# Programs on a part of the shared state

A program on `σ` is a program on any state `τ` that has a part `σ`, seen with `get` and
replaced with `set`. `exec` runs a program alone, in an environment that makes one choice
all the time.

Results:
1. `Ensures.part`: what a program ensures of its part, it ensures of the whole.
2. `exec_bind`, `exec_retry_of_ok`, `exec_part`: what is executed.
-/

namespace IMSystem.Lib.Prog

variable {χ ψ σ τ γ δ ε α β : Type}

/-- The program on the whole state, in an environment that chooses more. -/
def part (get : τ → σ) (set : τ → σ → τ) (choice : ψ → χ) : Prog χ σ α → Prog ψ τ α
  | ret a => ret a
  | act effect next => act (fun c t => set t (effect (choice c) (get t)))
      fun c t => part get set choice (next (choice c) (get t))

/-- A part of a world, with what is noted down of it, is changed by the steps of the part
only, and the others rely on nothing else. -/
theorem Ensures.part {get : τ → σ} {set : τ → σ → τ} {choice : ψ → χ}
    {record : σ → σ → γ → γ} {record' : τ → τ → δ → δ} {R : σ × γ → σ × γ → Prop}
    {R' : τ × δ → τ × δ → Prop} (view : τ × δ → σ × γ) (hget : ∀ w, (view w).1 = get w.1)
    (hafter : ∀ (effect : σ → σ) w, view (after record' (fun t => set t (effect (get t))) w) =
      after record effect (view w))
    (hR : ∀ w w', R' w w' ↔ R (view w) (view w')) {Q : α → σ × γ → Prop} {p : Prog χ σ α}
    {w : τ × δ} (h : p.Ensures record R Q (view w)) :
    (p.part get set choice).Ensures record' R' (fun a w => Q a (view w)) w := by
  induction p generalizing w with
  | ret a => exact fun w' hw' => h (view w') ((hR w w').mp hw')
  | act effect next ih =>
    intro w' hw' c
    obtain ⟨hstep, hrest⟩ := h (view w') ((hR w w').mp hw') (choice c)
    rw [← hafter] at hstep hrest
    rw [hget] at hrest
    exact ⟨(hR _ _).mpr hstep, ih _ _ hrest⟩

/-- A program ensures whatever follows from what it ensures. -/
theorem Ensures.mono {record : σ → σ → γ → γ} {R : σ × γ → σ × γ → Prop} {P Q : α → σ × γ → Prop}
    {p : Prog χ σ α} {w : σ × γ} (h : p.Ensures record R P w) (hPQ : ∀ a w, P a w → Q a w) :
    p.Ensures record R Q w := by
  induction p generalizing w with
  | ret a => exact Stably.mono h (hPQ a)
  | act effect next ih =>
    intro w' hw' c
    obtain ⟨hstep, hrest⟩ := h w' hw' c
    exact ⟨hstep, ih _ _ hrest⟩

/-! ## One choice all the time -/

/-- Run the program alone. -/
def exec (c : χ) : Prog χ σ α → σ → α × σ
  | ret a, s => (a, s)
  | act effect next, s => exec c (next c s) (effect c s)

theorem exec_bind (c : χ) (p : Prog χ σ α) (f : α → Prog χ σ β) (s : σ) :
    (p >>= f).exec c s = (f (p.exec c s).1).exec c (p.exec c s).2 := by
  induction p generalizing s with
  | ret a => rfl
  | act effect next ih => exact ih c s (effect c s)

theorem exec_part {get : τ → σ} {set : τ → σ → τ} (hget : ∀ t s, get (set t s) = s)
    (hset : ∀ t s s', set (set t s) s' = set t s') (hself : ∀ t, set t (get t) = t)
    (choice : ψ → χ) (c : ψ) (p : Prog χ σ α) (t : τ) :
    (p.part get set choice).exec c t =
      ((p.exec (choice c) (get t)).1, set t (p.exec (choice c) (get t)).2) := by
  induction p generalizing t with
  | ret a =>
    show (a, t) = (a, set t (get t))
    rw [hself]
  | act effect next ih =>
    show (part get set choice (next (choice c) (get t))).exec c
      (set t (effect (choice c) (get t))) = _
    rw [ih, hget, hset]
    rfl

/-- A retried program whose first attempt returns is done. -/
theorem exec_retry_of_ok {c : χ} {m : ExceptT ε (Prog χ σ) α} {s s' : σ} {a : α}
    (h : m.run.exec c s = (.ok a, s')) (left : Nat) :
    (retry m left).run.exec c s = (.ok a, s') := by
  cases left with
  | zero => exact h
  | succ left =>
    show (m.run >>= _).exec c s = _
    rw [exec_bind, h]
    rfl

/-- A sequence of parts that may raise goes on behind a part that returns. -/
theorem exec_bind_of_ok {c : χ} {m : ExceptT ε (Prog χ σ) α} {f : α → ExceptT ε (Prog χ σ) β}
    {s s' : σ} {a : α} (h : m.run.exec c s = (.ok a, s')) :
    (m >>= f).run.exec c s = (f a).run.exec c s' := by
  rw [ExceptT.run_bind, exec_bind, h]

end IMSystem.Lib.Prog

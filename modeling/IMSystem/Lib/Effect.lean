/-!
# Effects that survive an exception

A call of the programs below changes some state and then either returns or
raises. Unlike in a transaction, what it changed before raising stays changed.
`Eff` is the monad of such calls. Over it this module defines faults of a
remote statement (it raises before it took effect, or after) and the bounded
retry of a call, with the rule that lifts an invariant of one attempt to the
whole loop.

Results:
1. `retry_rule`: an invariant indexed by the number of failed attempts holds of
   whatever attempt ends the loop.
2. `Once.retry`: of calls that take effect once, the first that does decides.
3. `Keeps.bind`, `Keeps.retry`: what every part of a call keeps, the call keeps.
4. `Repeatable.retry`: a retried call whose repetition changes nothing does what one
   execution does.
5. `Collects.clean_iff`: when the rows that retried calls collect are those of
   the call that returned.
-/

namespace IMSystem.Lib

/-- A call that may raise an `ε`; its effect on the state `σ` stays either way. -/
def Eff (ε σ α : Type) : Type := σ → Except ε α × σ

namespace Eff

variable {ε σ α β : Type}

/-- Raise `e`, with no effect. -/
def raise (e : ε) : Eff ε σ α := fun s => (.error e, s)

/-- Read something off the state. -/
def read (f : σ → α) : Eff ε σ α := fun s => (.ok (f s), s)

/-- Change the state. -/
def modify (f : σ → σ) : Eff ε σ Unit := fun s => (.ok (), f s)

/-- A result that touches no state. -/
def ofExcept (r : Except ε α) : Eff ε σ α := fun s => (r, s)

instance : Monad (Eff ε σ) where
  pure a := fun s => (.ok a, s)
  bind m f := fun s =>
    match m s with
    | (.ok a, s') => f a s'
    | (.error e, s') => (.error e, s')

@[simp] theorem raise_apply (e : ε) (s : σ) : (raise e : Eff ε σ α) s = (.error e, s) := rfl

@[simp] theorem read_apply (f : σ → α) (s : σ) : (read f : Eff ε σ α) s = (.ok (f s), s) := rfl

@[simp] theorem modify_apply (f : σ → σ) (s : σ) :
    (modify f : Eff ε σ Unit) s = (.ok (), f s) := rfl

@[simp] theorem ofExcept_apply (r : Except ε α) (s : σ) : (ofExcept r : Eff ε σ α) s = (r, s) := rfl

@[simp] theorem pure_apply (a : α) (s : σ) : (pure a : Eff ε σ α) s = (.ok a, s) := rfl

theorem bind_apply (m : Eff ε σ α) (f : α → Eff ε σ β) (s : σ) :
    (m >>= f) s = match m s with
      | (.ok a, s') => f a s'
      | (.error e, s') => (.error e, s') := rfl

theorem bind_of_ok {m : Eff ε σ α} {f : α → Eff ε σ β} {s s' : σ} {a : α}
    (h : m s = (.ok a, s')) : (m >>= f) s = f a s' := by
  rw [bind_apply, h]

@[simp] theorem ofExcept_ok_bind (a : α) (f : α → Eff ε σ β) (s : σ) :
    (ofExcept (.ok a) >>= f) s = f a s := rfl

@[simp] theorem ofExcept_error_bind (e : ε) (f : α → Eff ε σ β) (s : σ) :
    (ofExcept (.error e) >>= f) s = (.error e, s) := rfl

/-- A sequence returns only through its first part. -/
theorem exists_of_bind_ok {m : Eff ε σ α} {f : α → Eff ε σ β} {s s' : σ} {b : β}
    (h : (m >>= f) s = (.ok b, s')) : ∃ a s₁, m s = (.ok a, s₁) ∧ f a s₁ = (.ok b, s') := by
  rw [bind_apply] at h
  match hm : m s with
  | (.ok a, s₁) =>
    rw [hm] at h
    exact ⟨a, s₁, rfl, h⟩
  | (.error e, s₁) =>
    rw [hm] at h
    cases h

theorem exists_of_ofExcept_bind_ok {r : Except ε α} {f : α → Eff ε σ β} {s s' : σ} {b : β}
    (h : (ofExcept r >>= f) s = (.ok b, s')) : ∃ a, r = .ok a ∧ f a s = (.ok b, s') := by
  obtain ⟨a, s₁, hr, hf⟩ := exists_of_bind_ok h
  cases hr
  exact ⟨a, rfl, hf⟩

/-- The call returns and does not raise. -/
def Returns (m : Eff ε σ α) (s : σ) : Prop := ∃ a s', m s = (.ok a, s')

theorem returns_ofExcept_bind {r : Except ε α} {f : α → Eff ε σ β} {s : σ} :
    Returns (ofExcept r >>= f) s ↔ ∃ a, r = .ok a ∧ Returns (f a) s := by
  constructor
  · rintro ⟨b, s', h⟩
    obtain ⟨a, hr, hf⟩ := exists_of_ofExcept_bind_ok h
    exact ⟨a, hr, b, s', hf⟩
  · rintro ⟨a, rfl, h⟩
    exact h

/-- A sequence of pure results returns only through its first part. -/
theorem exists_of_except_bind_ok {r : Except ε α} {f : α → Except ε β} {b : β}
    (h : (r >>= f) = .ok b) : ∃ a, r = .ok a ∧ f a = .ok b := by
  cases r with
  | error e => cases h
  | ok a => exact ⟨a, rfl, h⟩

end Eff

/-! ## Faults of a remote statement -/

/-- What happens to one statement sent to a server: it is answered, it is lost
before it took effect, or its answer is lost after it took effect. -/
inductive Fault where
  | none
  | before
  | after
deriving DecidableEq, Repr

instance : Inhabited Fault := ⟨.none⟩

namespace Eff

variable {ε σ α : Type}

/-- The statement `m` under the fault `f`; a fault raises `e`. -/
def under (f : Fault) (e : ε) (m : Eff ε σ α) : Eff ε σ α :=
  match f with
  | .none => m
  | .before => raise e
  | .after => fun s => (.error e, (m s).2)

@[simp] theorem under_none (e : ε) (m : Eff ε σ α) : under .none e m = m := rfl

@[simp] theorem under_before (e : ε) (m : Eff ε σ α) : under .before e m = raise e := rfl

@[simp] theorem under_after (e : ε) (m : Eff ε σ α) (s : σ) :
    under .after e m s = (.error e, (m s).2) := rfl

/-! ## Bounded retry -/

/-- Make the calls `attempt, attempt + 1, …` until one returns or `left`
further ones have been spent after a failure; the last exception stays. The
calls are indexed because their environment may treat each one differently. -/
def retry (calls : Nat → Eff ε σ α) : (left attempt : Nat) → Eff ε σ α
  | 0, attempt => calls attempt
  | left + 1, attempt => fun s =>
    match calls attempt s with
    | (.ok a, s') => (.ok a, s')
    | (.error _, s') => retry calls left (attempt + 1) s'

theorem retry_of_ok {calls : Nat → Eff ε σ α} {left attempt : Nat} {s s' : σ} {a : α}
    (h : calls attempt s = (.ok a, s')) : retry calls left attempt s = (.ok a, s') := by
  cases left with
  | zero => exact h
  | succ left => simp [retry, h]

theorem retry_of_error {calls : Nat → Eff ε σ α} {left attempt : Nat} {s s' : σ} {e : ε}
    (h : calls attempt s = (.error e, s')) :
    retry calls (left + 1) attempt s = retry calls left (attempt + 1) s' := by
  simp [retry, h]

/-- Earlier calls do not matter. -/
theorem retry_congr {calls calls' : Nat → Eff ε σ α} (left attempt : Nat)
    (h : ∀ i, attempt ≤ i → calls i = calls' i) :
    retry calls left attempt = retry calls' left attempt := by
  induction left generalizing attempt with
  | zero => exact h attempt (Nat.le_refl _)
  | succ left ih =>
    have hrest := ih (attempt + 1) fun i hi => h i (Nat.le_of_succ_le hi)
    funext s
    simp only [retry, h attempt (Nat.le_refl _), hrest]

/-- The rule for a retried call. `P i` holds before the `i`-th attempt, a
failing attempt leads from `P i` to `P (i + 1)`, and a returning one from `P i`
to `Q i`. Then the loop ends in `Q i` for one of its attempts, or, after all of
them, in `P`. -/
theorem retry_rule (calls : Nat → Eff ε σ α) (P : Nat → σ → Prop) (Q : Nat → α → σ → Prop)
    (hok : ∀ i s a s', P i s → calls i s = (.ok a, s') → Q i a s')
    (herr : ∀ i s e s', P i s → calls i s = (.error e, s') → P (i + 1) s')
    (left attempt : Nat) (s : σ) (h : P attempt s) :
    (∃ i a s', attempt ≤ i ∧ i ≤ attempt + left ∧
      retry calls left attempt s = (.ok a, s') ∧ Q i a s') ∨
    (∃ e s', retry calls left attempt s = (.error e, s') ∧ P (attempt + left + 1) s') := by
  induction left generalizing attempt s with
  | zero =>
    match hc : calls attempt s with
    | (.ok a, s') => exact .inl ⟨attempt, a, s', Nat.le_refl _, Nat.le_refl _, hc, hok _ _ _ _ h hc⟩
    | (.error e, s') => exact .inr ⟨e, s', hc, herr _ _ _ _ h hc⟩
  | succ left ih =>
    match hc : calls attempt s with
    | (.ok a, s') =>
      exact .inl ⟨attempt, a, s', Nat.le_refl _, Nat.le_add_right _ _, retry_of_ok hc,
        hok _ _ _ _ h hc⟩
    | (.error e, s') =>
      rw [retry_of_error hc]
      have hshift : attempt + 1 + left = attempt + (left + 1) := by omega
      rcases ih (attempt + 1) s' (herr _ _ _ _ h hc) with
        ⟨i, a, t, hle, hlt, hr, hq⟩ | ⟨e', t, hr, hp⟩
      · exact .inl ⟨i, a, t, Nat.le_of_succ_le hle, hshift ▸ hlt, hr, hq⟩
      · exact .inr ⟨e', t, hr, hshift ▸ hp⟩

/-- When it does not depend on the state whether a call returns, the loop returns
if one of its calls does. -/
theorem returns_retry_iff {calls : Nat → Eff ε σ α} {R : Nat → Prop}
    (hcall : ∀ i s, Returns (calls i) s ↔ R i) (left attempt : Nat) (s : σ) :
    Returns (retry calls left attempt) s ↔ ∃ i, attempt ≤ i ∧ i ≤ attempt + left ∧ R i := by
  induction left generalizing attempt s with
  | zero =>
    rw [retry, hcall]
    constructor
    · intro h
      exact ⟨attempt, Nat.le_refl _, Nat.le_refl _, h⟩
    · rintro ⟨i, hle, hge, h⟩
      obtain rfl : i = attempt := Nat.le_antisymm hge hle
      exact h
  | succ left ih =>
    match hc : calls attempt s with
    | (.ok a, s') =>
      have hr : R attempt := (hcall attempt s).mp ⟨a, s', hc⟩
      exact ⟨fun _ => ⟨attempt, Nat.le_refl _, Nat.le_add_right _ _, hr⟩,
        fun _ => ⟨a, s', retry_of_ok hc⟩⟩
    | (.error e, s') =>
      have hnot : ¬ R attempt := by
        intro hr
        obtain ⟨a, t, hok⟩ := (hcall attempt s).mpr hr
        rw [hc] at hok
        cases hok
      rw [Returns, retry_of_error hc]
      refine (ih (attempt + 1) s').trans ⟨?_, ?_⟩
      · rintro ⟨i, hle, hge, h⟩
        exact ⟨i, by omega, by omega, h⟩
      · rintro ⟨i, hle, hge, h⟩
        have hne : i ≠ attempt := fun heq => hnot (heq ▸ h)
        exact ⟨i, by omega, by omega, h⟩

/-- What every call keeps, returning or raising, the whole loop keeps. -/
theorem retry_inv {calls : Nat → Eff ε σ α} (P : σ → Prop)
    (hcall : ∀ i s, P s → P (calls i s).2) (left attempt : Nat) (s : σ) (h : P s) :
    P (retry calls left attempt s).2 := by
  have hkeep : ∀ i s r s', P s → calls i s = (r, s') → P s' := by
    intro i s r s' hs hrun
    have := hcall i s hs
    rwa [hrun] at this
  rcases retry_rule calls (fun _ => P) (fun _ _ => P) (fun i s a s' hs hr => hkeep i s _ s' hs hr)
      (fun i s e s' hs hr => hkeep i s _ s' hs hr) left attempt s h with
    ⟨_, _, _, _, _, hr, hp⟩ | ⟨_, _, hr, hp⟩
  · rwa [hr]
  · rwa [hr]

/-- The loop raises if all its calls do, and keeps what they keep. -/
theorem retry_raises {calls : Nat → Eff ε σ α} {P : σ → Prop}
    (hcall : ∀ i s, P s → ∃ e s', calls i s = (.error e, s') ∧ P s') (left attempt : Nat) {s : σ}
    (h : P s) : ∃ e s', retry calls left attempt s = (.error e, s') ∧ P s' := by
  induction left generalizing attempt s with
  | zero => exact hcall attempt s h
  | succ left ih =>
    obtain ⟨e, s', hrun, hkept⟩ := hcall attempt s h
    rw [retry_of_error hrun]
    exact ih (attempt + 1) hkept

/-! ## Calls that take effect once

A retried call such as an INSERT under a unique key: as long as it has been
missed, the state is fresh; once an attempt has taken effect, reported or not,
every further one raises. -/

section Once

variable {calls : Nat → Eff ε σ α} {fresh : σ → Prop} {done : Nat → σ → Prop}
  {missed : Nat → Prop}

structure Once (calls : Nat → Eff ε σ α) (fresh : σ → Prop) (done : Nat → σ → Prop)
    (missed : Nat → Prop) : Prop where
  miss : ∀ i s, fresh s → missed i → ∃ e s', calls i s = (.error e, s') ∧ fresh s'
  hit : ∀ i s, fresh s → ¬ missed i → done i (calls i s).2
  again : ∀ i j s, done j s → ∃ e s', calls i s = (.error e, s') ∧ done j s'

/-- The first attempt that is not missed decides. If it returns, so does the loop;
if it raises, the loop does, and what it did stays. -/
theorem Once.retry (h : Once calls fresh done missed) (left attempt : Nat) {s : σ}
    (hs : fresh s) :
    (∃ k t, attempt ≤ k ∧ k ≤ attempt + left ∧ (∀ i, attempt ≤ i → i < k → missed i) ∧
      ¬ missed k ∧ fresh t ∧ done k (Eff.retry calls left attempt s).2 ∧
      (∀ a s', calls k t = (.ok a, s') → Eff.retry calls left attempt s = (.ok a, s')) ∧
      (∀ e s', calls k t = (.error e, s') →
        ∃ e' s'', Eff.retry calls left attempt s = (.error e', s''))) ∨
    ((∀ i, attempt ≤ i → i ≤ attempt + left → missed i) ∧
      ∃ e s', Eff.retry calls left attempt s = (.error e, s') ∧ fresh s') := by
  induction left generalizing attempt s with
  | zero =>
    by_cases hm : missed attempt
    · obtain ⟨e, s', hrun, hfresh⟩ := h.miss attempt s hs hm
      refine .inr ⟨fun i hle hge => ?_, e, s', hrun, hfresh⟩
      obtain rfl : i = attempt := Nat.le_antisymm hge hle
      exact hm
    · exact .inl ⟨attempt, s, Nat.le_refl _, Nat.le_refl _,
        fun i hle hlt => absurd hle (Nat.not_le.mpr hlt), hm, hs, h.hit attempt s hs hm,
        fun _ _ hrun => hrun, fun e s' hrun => ⟨e, s', hrun⟩⟩
  | succ left ih =>
    by_cases hm : missed attempt
    · obtain ⟨e, s', hrun, hfresh⟩ := h.miss attempt s hs hm
      have hmissed : ∀ i, attempt ≤ i → (attempt + 1 ≤ i → missed i) → missed i := by
        intro i hle hrest
        rcases Nat.lt_or_eq_of_le hle with hlt | rfl
        · exact hrest hlt
        · exact hm
      rw [retry_of_error hrun]
      rcases ih (attempt + 1) hfresh with ⟨k, t, hle, hge, hbefore, hk⟩ | ⟨hall, hrest⟩
      · exact .inl ⟨k, t, by omega, by omega,
          fun i hi hlt => hmissed i hi fun hi' => hbefore i hi' hlt, hk⟩
      · exact .inr ⟨fun i hi hi' => hmissed i hi fun hle => hall i hle (by omega), hrest⟩
    · -- after an attempt that has taken effect, all further ones raise
      have hdone := h.hit attempt s hs hm
      have hlater : ∀ e s', calls attempt s = (.error e, s') →
          ∃ e' s'', Eff.retry calls (left + 1) attempt s = (.error e', s'') ∧ done attempt s'' := by
        intro e s' hrun
        rw [hrun] at hdone
        rw [retry_of_error hrun]
        exact retry_raises (fun i t ht => h.again i attempt t ht) left (attempt + 1) hdone
      refine .inl ⟨attempt, s, Nat.le_refl _, by omega,
        fun i hle hlt => absurd hle (Nat.not_le.mpr hlt), hm, hs, ?_,
        fun a s' hrun => retry_of_ok hrun, fun e s' hrun => ?_⟩
      · match hrun : calls attempt s with
        | (.ok a, s') =>
          rw [hrun] at hdone
          rw [retry_of_ok hrun]
          exact hdone
        | (.error e, s') =>
          obtain ⟨e', s'', hret, hdone'⟩ := hlater e s' hrun
          rw [hret]
          exact hdone'
      · obtain ⟨e', s'', hret, _⟩ := hlater e s' hrun
        exact ⟨e', s'', hret⟩

end Once

/-! ## What a call keeps -/

section Keeps

variable {β : Type} {P : σ → Prop}

/-- The call keeps `P`, whether it returns or raises. -/
def Keeps (P : σ → Prop) (m : Eff ε σ α) : Prop := ∀ s, P s → P (m s).2

theorem keeps_raise (e : ε) : Keeps P (raise e : Eff ε σ α) := fun _ h => h

theorem keeps_ofExcept (r : Except ε α) : Keeps P (ofExcept r : Eff ε σ α) := fun _ h => h

theorem Keeps.bind {m : Eff ε σ α} {f : α → Eff ε σ β} (hm : Keeps P m) (hf : ∀ a, Keeps P (f a)) :
    Keeps P (m >>= f) := by
  intro s hs
  have hkept := hm s hs
  rw [bind_apply]
  match hrun : m s with
  | (.ok a, s') =>
    rw [hrun] at hkept
    exact hf a s' hkept
  | (.error e, s') =>
    rw [hrun] at hkept
    exact hkept

theorem Keeps.retry {calls : Nat → Eff ε σ α} (h : ∀ i, Keeps P (calls i)) (left attempt : Nat) :
    Keeps P (Eff.retry calls left attempt) :=
  fun s hs => retry_inv P (fun i t ht => h i t ht) left attempt s hs

end Keeps

/-! ## Calls that may be repeated

Of a retried call, more than one attempt may take effect. -/

section Repeatable

variable {ρ : Type} {view : σ → ρ} {m : Eff ε σ α}

/-- The call, with the number of times that it has taken effect. -/
def counted (m : Eff ε σ α) : Eff ε (σ × Nat) α := fun w =>
  match m w.1 with
  | (.ok a, s) => (.ok a, (s, w.2 + 1))
  | (.error e, s) => (.error e, (s, w.2))

/-- When the call raises, it has done nothing; once it has returned, doing it again changes
nothing that `view` shows. -/
structure Repeatable (view : σ → ρ) (m : Eff ε σ α) : Prop where
  raises : ∀ s e s', m s = (.error e, s') → s' = s
  again : ∀ s a s' t, m s = (.ok a, s') → view t = view s' → view (m t).2 = view t

/-- The attempt gives up before the call, or makes it and may then raise all the same. -/
def IsAttempt (m attempt : Eff ε σ α) : Prop :=
  ∀ s, (∃ e, attempt s = (.error e, s)) ∨ (∃ e, attempt s = (.error e, (m s).2)) ∨
    attempt s = m s

/-- Nothing has been done to `s` so far, or what one execution of `m` does to it. -/
def AtMostOnce (view : σ → ρ) (m : Eff ε σ α) (s : σ) (w : σ × Nat) : Prop :=
  w = (s, 0) ∨ 0 < w.2 ∧ view w.1 = view (m s).2 ∧ Returns m s

theorem Repeatable.counted (h : Repeatable view m) {s : σ} {w : σ × Nat}
    (hw : AtMostOnce view m s w) : AtMostOnce view m s (counted m w).2 ∧
      ∀ a, (Eff.counted m w).1 = .ok a → 0 < (Eff.counted m w).2.2 := by
  unfold Eff.counted
  match hrun : m w.1 with
  | (.ok a, s') =>
    refine ⟨.inr ⟨Nat.succ_pos _, ?_⟩, fun _ _ => Nat.succ_pos _⟩
    rcases hw with rfl | ⟨_, hview, a', s'', hret⟩
    · exact ⟨by rw [hrun], a, s', hrun⟩
    · have hagain := h.again s a' s'' w.1 hret (by rw [hview, hret])
      rw [hrun] at hagain
      exact ⟨hagain.trans hview, a', s'', hret⟩
  | (.error e, s') =>
    obtain rfl := h.raises _ _ _ hrun
    exact ⟨hw, fun a ha => by cases ha⟩

/-- However many attempts take effect, the loop leaves what one execution does, and it
returns only if one did. -/
theorem Repeatable.retry (h : Repeatable view m) {calls : Nat → Eff ε (σ × Nat) α}
    (hcalls : ∀ i, IsAttempt (Eff.counted m) (calls i)) (left attempt : Nat) (s : σ) :
    AtMostOnce view m s (Eff.retry calls left attempt (s, 0)).2 ∧
      ∀ a, (Eff.retry calls left attempt (s, 0)).1 = .ok a →
        0 < (Eff.retry calls left attempt (s, 0)).2.2 := by
  have hstep : ∀ i w r w', AtMostOnce view m s w → calls i w = (r, w') →
      AtMostOnce view m s w' ∧ ∀ a, r = .ok a → 0 < w'.2 := by
    intro i w r w' hw hrun
    obtain ⟨hkept, hpos⟩ := h.counted hw
    rcases hcalls i w with ⟨e, heq⟩ | ⟨e, heq⟩ | heq
    · rw [heq] at hrun
      cases hrun
      exact ⟨hw, fun a ha => by cases ha⟩
    · rw [heq] at hrun
      cases hrun
      exact ⟨hkept, fun a ha => by cases ha⟩
    · rw [heq] at hrun
      rw [hrun] at hkept hpos
      exact ⟨hkept, hpos⟩
  rcases retry_rule calls (fun _ => AtMostOnce view m s)
      (fun _ _ w => AtMostOnce view m s w ∧ 0 < w.2)
      (fun i w a w' hw hrun => ⟨(hstep i w _ w' hw hrun).1, (hstep i w _ w' hw hrun).2 a rfl⟩)
      (fun i w e w' hw hrun => (hstep i w _ w' hw hrun).1) left attempt (s, 0) (.inl rfl) with
    ⟨_, a, w', _, _, hrun, hw', hpos⟩ | ⟨e, w', hrun, hw'⟩
  · rw [hrun]
    exact ⟨hw', fun _ _ => hpos⟩
  · rw [hrun]
    exact ⟨hw', fun a ha => by cases ha⟩

end Repeatable

/-- A part of the state on which the calls work by themselves: there the loop does what
their parts do. -/
theorem retry_map {τ : Type} {calls : Nat → Eff ε σ α} {calls' : Nat → Eff ε τ α} (f : τ → σ)
    (h : ∀ i w, calls i (f w) = ((calls' i w).1, f (calls' i w).2)) (left attempt : Nat) (w : τ) :
    retry calls left attempt (f w) =
      ((retry calls' left attempt w).1, f (retry calls' left attempt w).2) := by
  induction left generalizing attempt w with
  | zero => exact h attempt w
  | succ left ih =>
    have hcall := h attempt w
    match hrun : calls' attempt w with
    | (.ok a, w') =>
      rw [hrun] at hcall
      rw [retry_of_ok hcall, retry_of_ok hrun]
    | (.error e, w') =>
      rw [hrun] at hcall
      rw [retry_of_error hcall, retry_of_error hrun]
      exact ih (attempt + 1) w'

/-- A call on a part of the state. -/
def zoom {τ : Type} (get : τ → σ) (set : τ → σ → τ) (m : Eff ε σ α) : Eff ε τ α := fun w =>
  ((m (get w)).1, set w (m (get w)).2)

/-- To retry such a call is to retry it on the part. -/
theorem retry_zoom {τ : Type} {get : τ → σ} {set : τ → σ → τ} (hget : ∀ w s, get (set w s) = s)
    (hset : ∀ w s s', set (set w s) s' = set w s') (calls : Nat → Eff ε σ α)
    (left attempt : Nat) : retry (fun i => zoom get set (calls i)) left attempt =
      zoom get set (retry calls left attempt) := by
  induction left generalizing attempt with
  | zero => rfl
  | succ left ih =>
    funext w
    have hcall : zoom get set (calls attempt) w =
        ((calls attempt (get w)).1, set w (calls attempt (get w)).2) := rfl
    show _ = ((retry calls (left + 1) attempt (get w)).1,
      set w (retry calls (left + 1) attempt (get w)).2)
    match hrun : calls attempt (get w) with
    | (.ok a, s) =>
      rw [hrun] at hcall
      rw [retry_of_ok hrun]
      exact retry_of_ok hcall
    | (.error e, s) =>
      rw [hrun] at hcall
      rw [retry_of_error hrun]
      rw [retry_of_error hcall, ih]
      unfold zoom
      rw [hget, hset]

/-! ## Retried reads

Calls that collect rows in the state read into it what a failed one has left
there. -/

section Collect

variable {γ : Type} {collected : σ → List γ} {calls : Nat → Eff ε σ Unit}
  {returns : Nat → Prop} {read : Nat → List γ} {left : Nat}

/-- The `i`-th call appends `read i` to what is collected, and then returns, if
`returns i`, or raises. -/
structure Collects (collected : σ → List γ) (calls : Nat → Eff ε σ Unit) (returns : Nat → Prop)
    (read : Nat → List γ) : Prop where
  returns_iff : ∀ i s, Returns (calls i) s ↔ returns i
  appends : ∀ i s, collected (calls i s).2 = collected s ++ read i

/-- What the call that returns has read, or nothing if all of them raise. -/
def Clean (returns : Nat → Prop) (read : Nat → List γ) (left : Nat) (result : List γ) : Prop :=
  (∃ k ≤ left, returns k ∧ (∀ i < k, ¬ returns i) ∧ result = read k) ∨
    ((∀ i ≤ left, ¬ returns i) ∧ result = [])

theorem Collects.of_ok (h : Collects collected calls returns read) {i : Nat} {s s' : σ}
    (hrun : calls i s = (.ok (), s')) :
    returns i ∧ collected s' = collected s ++ read i := by
  have happ := h.appends i s
  rw [hrun] at happ
  exact ⟨(h.returns_iff i s).mp ⟨(), s', hrun⟩, happ⟩

theorem Collects.of_error (h : Collects collected calls returns read) {i : Nat} {s s' : σ} {e : ε}
    (hrun : calls i s = (.error e, s')) :
    ¬ returns i ∧ collected s' = collected s ++ read i := by
  have happ := h.appends i s
  rw [hrun] at happ
  refine ⟨fun hret => ?_, happ⟩
  obtain ⟨_, _, hok⟩ := (h.returns_iff i s).mpr hret
  rw [hrun] at hok
  cases hok

/-- The loop collects what every one of its calls has read. -/
theorem Collects.retry (h : Collects collected calls returns read) (left : Nat) {s : σ}
    (hs : collected s = []) :
    (∃ k ≤ left, returns k ∧ (∀ i < k, ¬ returns i) ∧
      collected (retry calls left 0 s).2 = (List.range (k + 1)).flatMap read) ∨
    ((∀ i ≤ left, ¬ returns i) ∧
      collected (retry calls left 0 s).2 = (List.range (left + 1)).flatMap read) := by
  have hnext : ∀ (i : Nat) (t : σ), collected t = (List.range i).flatMap read →
      collected t ++ read i = (List.range (i + 1)).flatMap read := by
    intro i t ht
    simp [ht, List.range_succ]
  have hrule := retry_rule calls
    (fun i t => (∀ j < i, ¬ returns j) ∧ collected t = (List.range i).flatMap read)
    (fun i _ t => returns i ∧ (∀ j < i, ¬ returns j) ∧
      collected t = (List.range (i + 1)).flatMap read)
    ?_ ?_ left 0 s ⟨fun j hj => absurd hj (Nat.not_lt_zero j), by simpa using hs⟩
  · rcases hrule with ⟨k, _, t, _, hk, hr, hret, hno, ht⟩ | ⟨e, t, hr, hno, ht⟩
    · rw [hr]
      exact .inl ⟨k, by omega, hret, hno, ht⟩
    · rw [hr]
      rw [Nat.zero_add] at hno ht
      exact .inr ⟨fun i hi => hno i (Nat.lt_succ_of_le hi), ht⟩
  · rintro i t _ t' ⟨hno, ht⟩ hrun
    obtain ⟨hret, happ⟩ := h.of_ok hrun
    exact ⟨hret, hno, happ.trans (hnext i t ht)⟩
  · rintro i t e t' ⟨hno, ht⟩ hrun
    obtain ⟨hnot, happ⟩ := h.of_error hrun
    refine ⟨fun j hj => ?_, happ.trans (hnext i t ht)⟩
    rcases Nat.lt_succ_iff_lt_or_eq.mp hj with hj | rfl
    · exact hno j hj
    · exact hnot

/-- What is collected is what the last call has read, exactly if no call that was
made and raised had read anything. -/
theorem Collects.clean_iff (h : Collects collected calls returns read) (left : Nat) {s : σ}
    (hs : collected s = []) :
    Clean returns read left (collected (Eff.retry calls left 0 s).2) ↔
      ∀ i ≤ left, (∀ j ≤ i, ¬ returns j) → read i = [] := by
  rcases h.retry left hs with ⟨k, hk, hret, hno, hres⟩ | ⟨hno, hres⟩
  · have hsplit : (List.range (k + 1)).flatMap read = (List.range k).flatMap read ++ read k := by
      simp [List.range_succ]
    rw [hres, hsplit]
    constructor
    · rintro (⟨k', hk', hret', hno', heq⟩ | ⟨hall, _⟩) i hi hraised
      · obtain rfl : k = k' := by
          rcases Nat.lt_trichotomy k k' with hlt | heq | hlt
          · exact absurd hret (hno' k hlt)
          · exact heq
          · exact absurd hret' (hno k' hlt)
        have hik : i < k := Nat.lt_of_not_le fun hle => hraised k hle hret
        rw [List.append_left_eq_self, List.flatMap_eq_nil_iff] at heq
        exact heq i (List.mem_range.mpr hik)
      · exact absurd hret (hall k hk)
    · intro hclean
      refine .inl ⟨k, hk, hret, hno, ?_⟩
      rw [List.append_left_eq_self, List.flatMap_eq_nil_iff]
      intro i hi
      have hik := List.mem_range.mp hi
      exact hclean i (by omega) fun j hj => hno j (by omega)
  · rw [hres]
    constructor
    · rintro (⟨k, hk, hret, _, _⟩ | ⟨_, heq⟩) i hi _
      · exact absurd hret (hno k hk)
      · rw [List.flatMap_eq_nil_iff] at heq
        exact heq i (List.mem_range.mpr (Nat.lt_succ_of_le hi))
    · intro hclean
      refine .inr ⟨hno, ?_⟩
      rw [List.flatMap_eq_nil_iff]
      intro i hi
      have hile := Nat.le_of_lt_succ (List.mem_range.mp hi)
      exact hclean i hile fun j hj => hno j (Nat.le_trans hj hile)

end Collect

end Eff

end IMSystem.Lib

import IMSystem.Lib.Effect
import Mathlib.Order.Defs.Unbundled

/-!
# Programs whose steps interleave

A program works on a shared state in atomic steps. Each step sees a choice of
its environment, and between two steps of one program any number of steps of
others may run. `Ensures` says of a program what it guarantees as long as the
others respect a relation `R` that its own steps respect as well. A history that
no program can read notes down who changed what. `RunsAs` says what a program does
when nothing else runs.

Results:
1. `Ensures.bind`, `Ensures.bindExcept`, `Ensures.tryCatch`, `Ensures.atomic`,
   `Ensures.retry`, `Ensures.retried`, `Ensures.frame`: the rules for programs.
2. `Threads.Good.step`: in any interleaving every step respects `R`, and every
   program keeps what it ensures.
3. `RunsAs.bind`, `RunsAs.retry`, `RunsAs.recover`: a program alone, as a call.
-/

namespace IMSystem.Lib

/-- A program over the shared state `σ` whose steps see choices `χ`. One step
has an effect on the state, and decides how the program goes on. -/
inductive Prog (χ σ α : Type) where
  | ret (a : α)
  | act (effect : χ → σ → σ) (next : χ → σ → Prog χ σ α)

namespace Prog

variable {χ σ γ ε α β : Type}

/-- One program after the other. -/
def bind : Prog χ σ α → (α → Prog χ σ β) → Prog χ σ β
  | ret a, f => f a
  | act effect next, f => act effect fun c s => (next c s).bind f

instance : Monad (Prog χ σ) where
  pure := ret
  bind := bind

@[simp] theorem act_bind (effect : χ → σ → σ) (next : χ → σ → Prog χ σ α)
    (f : α → Prog χ σ β) : act effect next >>= f = act effect fun c s => next c s >>= f := rfl

theorem bind_ret (p : Prog χ σ α) : p >>= ret = p := by
  induction p with
  | ret a => rfl
  | act effect next ih =>
    rw [act_bind]
    exact congrArg _ (funext fun c => funext fun s => ih c s)

/-- A call that runs in one step. -/
def atomic (m : χ → Eff ε σ α) : ExceptT ε (Prog χ σ) α :=
  ExceptT.mk (act (fun c s => (m c s).2) fun c s => ret (m c s).1)

/-- Run a program that may raise until it returns, at most `left` further times. -/
def retry (m : ExceptT ε (Prog χ σ) α) : (left : Nat) → ExceptT ε (Prog χ σ) α
  | 0 => m
  | left + 1 => tryCatch m fun _ => retry m left

/-- Raising again what was caught is not catching it. -/
theorem tryCatch_throw (m : ExceptT ε (Prog χ σ) α) : tryCatch m throw = m := by
  refine ExceptT.ext ?_
  have hret : (fun r : Except ε α => match r with
      | .ok a => (ret (.ok a) : Prog χ σ (Except ε α))
      | .error e => ret (.error e)) = ret := by
    funext r
    cases r with
    | ok a => rfl
    | error e => rfl
  exact (congrArg (m.run >>= ·) hret).trans (bind_ret m.run)

/-! ## A program alone -/

section Alone

/-- When nothing else runs, the program may lead from a state to a result and a
further state. -/
inductive Yields : Prog χ σ α → σ → α → σ → Prop where
  | ret {a : α} {s : σ} : Yields (ret a) s a s
  | act {effect : χ → σ → σ} {next : χ → σ → Prog χ σ α} {s s' : σ} {a : α} (c : χ)
      (h : Yields (next c s) (effect c s) a s') : Yields (act effect next) s a s'

theorem yields_ret {a b : α} {s s' : σ} : (ret a : Prog χ σ α).Yields s b s' ↔ b = a ∧ s' = s := by
  constructor
  · intro h
    cases h
    exact ⟨rfl, rfl⟩
  · rintro ⟨rfl, rfl⟩
    exact .ret

theorem yields_bind {p : Prog χ σ α} {f : α → Prog χ σ β} {s s' : σ} {b : β} :
    (p >>= f).Yields s b s' ↔ ∃ a t, p.Yields s a t ∧ (f a).Yields t b s' := by
  induction p generalizing s with
  | ret a =>
    constructor
    · intro h
      exact ⟨a, s, .ret, h⟩
    · rintro ⟨_, _, ha, h⟩
      cases ha
      exact h
  | act effect next ih =>
    rw [act_bind]
    constructor
    · intro h
      cases h with
      | act c h =>
        obtain ⟨a, t, hp, hf⟩ := (ih c s).mp h
        exact ⟨a, t, .act c hp, hf⟩
    · rintro ⟨a, t, hp, hf⟩
      cases hp with
      | act c hp => exact .act c ((ih c s).mpr ⟨a, t, hp, hf⟩)

theorem yields_atomic {m : χ → Eff ε σ α} {s s' : σ} {r : Except ε α} :
    (atomic m).run.Yields s r s' ↔ ∃ c, m c s = (r, s') := by
  constructor
  · intro h
    cases h with
    | act c h =>
      cases h
      exact ⟨c, rfl⟩
  · rintro ⟨c, heq⟩
    refine .act c ?_
    rw [heq]
    exact .ret

/-- The runs of a program are those of a call that is told what its environment
does. -/
def RunsAs {π : Type} (m : ExceptT ε (Prog χ σ) α) (call : π → Eff ε σ α) : Prop :=
  ∀ s r s', m.run.Yields s r s' ↔ ∃ x, call x s = (r, s')

section RunsAs

variable {π ρ : Type} {call : π → Eff ε σ α}

/-- Only what the environments may do matters, not how they are written down. -/
theorem RunsAs.reindex {m : ExceptT ε (Prog χ σ) α} {call' : ρ → Eff ε σ α} (h : RunsAs m call)
    (hthere : ∀ x, ∃ y, call x = call' y) (hback : ∀ y, ∃ x, call' y = call x) :
    RunsAs m call' := by
  intro s r s'
  rw [h s r s']
  constructor
  · rintro ⟨x, hx⟩
    obtain ⟨y, hy⟩ := hthere x
    exact ⟨y, hy ▸ hx⟩
  · rintro ⟨y, hy⟩
    obtain ⟨x, hx⟩ := hback y
    exact ⟨x, hx ▸ hy⟩

theorem RunsAs.atomic (m : χ → Eff ε σ α) : RunsAs (Prog.atomic m) m :=
  fun _ _ _ => yields_atomic

theorem RunsAs.ofExcept [Nonempty π] (result : Except ε α) :
    RunsAs (ExceptT.mk (ret result) : ExceptT ε (Prog χ σ) α)
      fun _ : π => Eff.ofExcept result := by
  intro s r s'
  refine yields_ret.trans ?_
  constructor
  · rintro ⟨rfl, rfl⟩
    obtain ⟨x⟩ := ‹Nonempty π›
    exact ⟨x, rfl⟩
  · rintro ⟨_, heq⟩
    cases heq
    exact ⟨rfl, rfl⟩

theorem RunsAs.pure [Nonempty π] (a : α) :
    RunsAs (pure a : ExceptT ε (Prog χ σ) α) fun _ : π => (pure a : Eff ε σ α) :=
  RunsAs.ofExcept (.ok a)

/-- A program that catches whatever was raised. -/
theorem RunsAs.recover {m : ExceptT ε (Prog χ σ) α} {next : Except ε α → Prog χ σ β}
    {call' : π → Eff ε σ β} (h : RunsAs m call)
    (hnext : ∀ r, ∃ b, next r = ret b ∧
      ∀ x s s', call x s = (r, s') → call' x s = (.ok b, s')) :
    RunsAs (ExceptT.lift (m.run >>= next)) call' := by
  intro s r s'
  refine yields_bind.trans ⟨?_, ?_⟩
  · rintro ⟨b, t, hfirst, hlast⟩
    obtain ⟨rfl, rfl⟩ := yields_ret.mp hlast
    obtain ⟨r₁, t, hm, hrest⟩ := yields_bind.mp hfirst
    obtain ⟨b', hret, hcall⟩ := hnext r₁
    rw [hret] at hrest
    obtain ⟨rfl, rfl⟩ := yields_ret.mp hrest
    obtain ⟨x, hx⟩ := (h s r₁ _).mp hm
    exact ⟨x, hcall x s _ hx⟩
  · rintro ⟨x, hx⟩
    obtain ⟨b, hret, hcall⟩ := hnext (call x s).1
    have hm := (h s _ _).mpr ⟨x, rfl⟩
    rw [hcall x s _ rfl] at hx
    cases hx
    refine ⟨b, _, yields_bind.mpr ⟨_, _, hm, ?_⟩, .ret⟩
    rw [hret]
    exact .ret

/-- What a program that catches everything makes of the call. -/
theorem RunsAs.handled {m : ExceptT ε (Prog χ σ) α} (h : RunsAs m call)
    {next : Except ε α → Prog χ σ β} {f : Except ε α → β} (hnext : ∀ r, next r = ret (f r))
    {s s' : σ} {b : β} : (m.run >>= next).Yields s b s' ↔
      ∃ x, b = f (call x s).1 ∧ s' = (call x s).2 := by
  refine yields_bind.trans ⟨?_, ?_⟩
  · rintro ⟨r, t, hfirst, hlast⟩
    rw [hnext] at hlast
    obtain ⟨rfl, rfl⟩ := yields_ret.mp hlast
    obtain ⟨x, hx⟩ := (h s r _).mp hfirst
    exact ⟨x, by rw [hx], by rw [hx]⟩
  · rintro ⟨x, rfl, rfl⟩
    refine ⟨_, _, (h s _ _).mpr ⟨x, rfl⟩, ?_⟩
    rw [hnext]
    exact .ret

theorem RunsAs.bind {m : ExceptT ε (Prog χ σ) α} {f : α → ExceptT ε (Prog χ σ) β}
    {next : ρ → α → Eff ε σ β} [Nonempty ρ] (hm : RunsAs m call)
    (hf : ∀ a, RunsAs (f a) fun y => next y a) :
    RunsAs (m >>= f) fun x : π × ρ => call x.1 >>= next x.2 := by
  intro s r s'
  rw [ExceptT.run_bind, yields_bind]
  constructor
  · rintro ⟨r₁, t, hfirst, hrest⟩
    obtain ⟨x, hx⟩ := (hm s r₁ t).mp hfirst
    cases r₁ with
    | ok a =>
      obtain ⟨y, hy⟩ := (hf a t r s').mp hrest
      exact ⟨(x, y), (Eff.bind_of_ok hx).trans hy⟩
    | error e =>
      obtain ⟨rfl, rfl⟩ := yields_ret.mp hrest
      obtain ⟨y⟩ := ‹Nonempty ρ›
      refine ⟨(x, y), ?_⟩
      show (call x >>= next y) s = _
      rw [Eff.bind_apply, hx]
  · rintro ⟨⟨x, y⟩, heq⟩
    replace heq : (call x >>= next y) s = (r, s') := heq
    rw [Eff.bind_apply] at heq
    match hx : call x s with
    | (.ok a, t) =>
      rw [hx] at heq
      exact ⟨.ok a, t, (hm s _ t).mpr ⟨x, hx⟩, (hf a t r s').mpr ⟨y, heq⟩⟩
    | (.error e, t) =>
      rw [hx] at heq
      cases heq
      exact ⟨.error e, s', (hm s _ s').mpr ⟨x, hx⟩, .ret⟩

/-- A retried program runs as the retried call, each attempt with an environment
of its own. -/
theorem RunsAs.retry {m : ExceptT ε (Prog χ σ) α} [Nonempty π] (h : RunsAs m call) (left : Nat) :
    RunsAs (Prog.retry m left) fun xs : Nat → π =>
      Eff.retry (fun i => call (xs i)) left 0 := by
  generalize 0 = attempt
  induction left generalizing attempt with
  | zero =>
    intro s r s'
    refine (h s r s').trans ⟨?_, ?_⟩
    · rintro ⟨x, hx⟩
      exact ⟨fun _ => x, hx⟩
    · rintro ⟨xs, hx⟩
      exact ⟨xs attempt, hx⟩
  | succ left ih =>
    intro s r s'
    refine yields_bind.trans ⟨?_, ?_⟩
    · rintro ⟨r₁, t, hfirst, hrest⟩
      obtain ⟨x, hx⟩ := (h s r₁ t).mp hfirst
      cases r₁ with
      | ok a =>
        cases hrest
        exact ⟨fun _ => x, Eff.retry_of_ok hx⟩
      | error e =>
        obtain ⟨xs, hxs⟩ := (ih (attempt + 1) t r s').mp hrest
        -- the environment of this attempt, and those of the later ones
        let all (i : Nat) : π := if i = attempt then x else xs i
        have hhere : call (all attempt) s = (.error e, t) := by
          rw [show all attempt = x from if_pos rfl, hx]
        have hlater : ∀ i, attempt + 1 ≤ i → call (all i) = call (xs i) := by
          intro i hi
          rw [show all i = xs i from if_neg (by omega)]
        refine ⟨all, ?_⟩
        show Eff.retry (fun i => call (all i)) (left + 1) attempt s = _
        rw [Eff.retry_of_error hhere, Eff.retry_congr left (attempt + 1) hlater]
        exact hxs
    · rintro ⟨xs, hxs⟩
      replace hxs : Eff.retry (fun i => call (xs i)) (left + 1) attempt s = (r, s') := hxs
      match hx : call (xs attempt) s with
      | (.ok a, t) =>
        rw [Eff.retry_of_ok hx] at hxs
        cases hxs
        exact ⟨.ok a, s', (h s _ s').mpr ⟨_, hx⟩, .ret⟩
      | (.error e, t) =>
        rw [Eff.retry_of_error hx] at hxs
        exact ⟨.error e, t, (h s _ t).mpr ⟨_, hx⟩, (ih (attempt + 1) t r s').mpr ⟨xs, hxs⟩⟩

end RunsAs

end Alone

/-! ## What a program ensures -/

section Ensures

/-- `P` holds now and whatever the others do. -/
def Stably {τ : Type} (R : τ → τ → Prop) (P : τ → Prop) (w : τ) : Prop := ∀ w', R w w' → P w'

theorem Stably.now {τ : Type} {R : τ → τ → Prop} [Std.Refl R] {P : τ → Prop} {w : τ}
    (h : Stably R P w) : P w :=
  h w (refl w)

theorem Stably.mono {τ : Type} {R : τ → τ → Prop} {P P' : τ → Prop} {w : τ} (h : Stably R P w)
    (hP : ∀ w, P w → P' w) : Stably R P' w :=
  fun w' hw' => hP w' (h w' hw')

/-- One step with the effect `effect`, noted down by `record`. -/
def after (record : σ → σ → γ → γ) (effect : σ → σ) (w : σ × γ) : σ × γ :=
  (effect w.1, record w.1 (effect w.1) w.2)

/-- As long as the others respect `R`, every step of the program respects `R`,
and when it has returned `a`, `Q a` holds from then on. -/
def Ensures (record : σ → σ → γ → γ) (R : σ × γ → σ × γ → Prop) (Q : α → σ × γ → Prop) :
    Prog χ σ α → σ × γ → Prop
  | ret a, w => Stably R (Q a) w
  | act effect next, w => ∀ w', R w w' → ∀ c,
    R w' (after record (effect c) w') ∧
      (next c w'.1).Ensures record R Q (after record (effect c) w')

variable {record : σ → σ → γ → γ} {R : σ × γ → σ × γ → Prop} {w w' : σ × γ}

section Plain

variable {P : α → σ × γ → Prop} {Q : β → σ × γ → Prop}

/-- What the others do in between does not matter. -/
theorem Ensures.stable [IsTrans (σ × γ) R] {p : Prog χ σ β} (h : p.Ensures record R Q w)
    (hw : R w w') : p.Ensures record R Q w' := by
  cases p with
  | ret b => exact fun w'' hw' => h w'' (IsTrans.trans _ _ _ hw hw')
  | act effect next => exact fun w'' hw' => h w'' (IsTrans.trans _ _ _ hw hw')

/-- What holds whatever anybody does holds after the program as well. -/
theorem Ensures.frame [IsTrans (σ × γ) R] {F : σ × γ → Prop} {p : Prog χ σ β}
    (h : p.Ensures record R Q w) (hF : Stably R F w) :
    p.Ensures record R (fun b w => Q b w ∧ F w) w := by
  induction p generalizing w with
  | ret b => exact fun w' hw' => ⟨h w' hw', hF w' hw'⟩
  | act effect next ih =>
    intro w' hw' c
    obtain ⟨hstep, hrest⟩ := h w' hw' c
    refine ⟨hstep, ih c w'.1 hrest fun w'' hw'' => hF w'' ?_⟩
    exact IsTrans.trans _ _ _ hw' (IsTrans.trans _ _ _ hstep hw'')

theorem Ensures.bind {p : Prog χ σ α} {f : α → Prog χ σ β} (hp : p.Ensures record R P w)
    (hf : ∀ a w, Stably R (P a) w → (f a).Ensures record R Q w) :
    (p >>= f).Ensures record R Q w := by
  induction p generalizing w with
  | ret a => exact hf a w hp
  | act effect next ih =>
    intro w' hw' c
    obtain ⟨hstep, hrest⟩ := hp w' hw' c
    exact ⟨hstep, ih c w'.1 hrest⟩

end Plain

section Raising

variable {P : Except ε α → σ × γ → Prop} {Q : Except ε β → σ × γ → Prop}

theorem Ensures.bindExcept {m : ExceptT ε (Prog χ σ) α} {f : α → ExceptT ε (Prog χ σ) β}
    (hm : m.run.Ensures record R P w)
    (hok : ∀ a w, Stably R (P (.ok a)) w → (f a).run.Ensures record R Q w)
    (herr : ∀ e w, P (.error e) w → Q (.error e) w) : (m >>= f).run.Ensures record R Q w := by
  rw [ExceptT.run_bind]
  refine hm.bind fun r w hr => ?_
  cases r with
  | ok a => exact hok a w hr
  | error e => exact Stably.mono hr (herr e)

/-- A program that does not raise, among programs that may. -/
theorem Ensures.lift {P : α → σ × γ → Prop} {p : Prog χ σ α} (h : p.Ensures record R P w) :
    (ExceptT.lift p : ExceptT ε (Prog χ σ) α).run.Ensures record R
      (fun r w => ∀ a, r = .ok a → P a w) w := by
  refine Ensures.bind h fun a w ha => ?_
  refine Stably.mono ha fun w h a' heq => ?_
  cases heq
  exact h

theorem Ensures.tryCatch {m : ExceptT ε (Prog χ σ) β} {handler : ε → ExceptT ε (Prog χ σ) β}
    {P : Except ε β → σ × γ → Prop} (hm : m.run.Ensures record R P w)
    (hok : ∀ b w, P (.ok b) w → Q (.ok b) w)
    (herr : ∀ e w, Stably R (P (.error e)) w → (handler e).run.Ensures record R Q w) :
    (tryCatch m handler).run.Ensures record R Q w := by
  show (m.run >>= _).Ensures record R Q w
  refine hm.bind fun r w hr => ?_
  cases r with
  | ok b => exact Stably.mono hr (hok b)
  | error e => exact herr e w hr

/-- The rule for one step. -/
theorem Ensures.atomic {m : χ → Eff ε σ β}
    (h : ∀ w', R w w' → ∀ c, R w' (after record (fun s => (m c s).2) w') ∧
      Stably R (Q (m c w'.1).1) (after record (fun s => (m c s).2) w')) :
    (Prog.atomic m).run.Ensures record R Q w :=
  h

/-- The rule for a retried program: a failed attempt ends in a state that the
next one may start from. -/
theorem Ensures.retry [Std.Refl R] {m : ExceptT ε (Prog χ σ) β} {P : σ × γ → Prop}
    (hm : ∀ w, P w → m.run.Ensures record R Q w) (herr : ∀ e w, Q (.error e) w → P w) (hw : P w)
    (left : Nat) : (Prog.retry m left).run.Ensures record R Q w := by
  induction left generalizing w with
  | zero => exact hm w hw
  | succ left ih =>
    exact (hm w hw).tryCatch (fun _ _ hb => hb) fun e w he => ih (herr e w he.now)

/-- A retried program of which only its steps matter, with its outcome caught. -/
theorem Ensures.retried [Std.Refl R] {m : ExceptT ε (Prog χ σ) β}
    (hm : ∀ w, m.run.Ensures record R (fun _ _ => True) w) {next : Except ε β → Prog χ σ α}
    (hnext : ∀ r, ∃ a, next r = .ret a) (left : Nat) :
    ((Prog.retry m left).run >>= next).Ensures record R (fun _ _ => True) w := by
  have hretry : (Prog.retry m left).run.Ensures record R (fun _ _ => True) w :=
    .retry (P := fun _ => True) (fun w _ => hm w) (fun _ _ _ => trivial) trivial left
  refine hretry.bind fun r w _ => ?_
  obtain ⟨a, ha⟩ := hnext r
  rw [ha]
  exact fun _ _ => trivial

end Raising

end Ensures

end Prog

/-! ## Threads -/

/-- The shared state, its history, and any number of programs, each with a label
that says what it was started for. -/
structure Threads (ι χ σ γ α : Type) where
  shared : σ
  history : γ
  threads : List (ι × Prog χ σ α)

namespace Threads

variable {ι χ σ γ α : Type}

/-- What the rules of the programs speak about. -/
def world (t : Threads ι χ σ γ α) : σ × γ := (t.shared, t.history)

/-- The `k`-th program makes its next step under the choice `c`. -/
def step (record : Nat → σ → σ → γ → γ) (t : Threads ι χ σ γ α) (k : Nat) (c : χ) :
    Option (Threads ι χ σ γ α) :=
  match t.threads[k]? with
  | some (i, .act effect next) => some {
      shared := effect c t.shared
      history := record k t.shared (effect c t.shared) t.history
      threads := t.threads.set k (i, next c t.shared) }
  | _ => none

/-- A further program is started. -/
def spawn (t : Threads ι χ σ γ α) (i : ι) (p : Prog χ σ α) : Threads ι χ σ γ α :=
  { t with threads := t.threads ++ [(i, p)] }

/-- The `k`-th program has returned `a`. -/
def Returned (t : Threads ι χ σ γ α) (k : Nat) (i : ι) (a : α) : Prop :=
  t.threads[k]? = some (i, .ret a)

/-- Every program ensures what its label stands for. -/
def Good (record : Nat → σ → σ → γ → γ) (R : σ × γ → σ × γ → Prop)
    (Q : Nat → ι → α → σ × γ → Prop) (t : Threads ι χ σ γ α) : Prop :=
  ∀ k i (p : Prog χ σ α), t.threads[k]? = some (i, p) → p.Ensures (record k) R (Q k i) t.world

variable {record : Nat → σ → σ → γ → γ} {R : σ × γ → σ × γ → Prop}
  {Q : Nat → ι → α → σ × γ → Prop} {t t' : Threads ι χ σ γ α}

/-- What others do to the shared state does not matter as long as it respects `R`. -/
theorem Good.interfere [IsTrans (σ × γ) R] (h : t.Good record R Q) (hw : R t.world t'.world)
    (hthreads : t'.threads = t.threads) : t'.Good record R Q := by
  intro k i p hk
  rw [hthreads] at hk
  exact (h k i p hk).stable hw

theorem Good.spawn (h : t.Good record R Q) {i : ι} {p : Prog χ σ α}
    (hp : p.Ensures (record t.threads.length) R (Q t.threads.length i) t.world) :
    (t.spawn i p).Good record R Q := by
  intro k j q hk
  rw [Threads.spawn, List.getElem?_append] at hk
  split at hk
  · exact h k j q hk
  · next hge =>
    obtain ⟨hlt, heq⟩ := List.getElem?_eq_some_iff.mp hk
    rw [List.length_singleton] at hlt
    obtain rfl : k = t.threads.length := by omega
    simp only [Nat.sub_self, List.getElem_cons_zero] at heq
    cases heq
    exact hp

variable [IsPreorder (σ × γ) R]

/-- A step of any program respects `R`, and all programs keep what they ensure. -/
theorem Good.step (h : t.Good record R Q) {k : Nat} {c : χ}
    (hstep : t.step record k c = some t') : R t.world t'.world ∧ t'.Good record R Q := by
  unfold Threads.step at hstep
  split at hstep
  · next i effect next hk =>
    cases hstep
    obtain ⟨hR, hnext⟩ := h k i _ hk t.world (refl _) c
    refine ⟨hR, fun j i' p hj => ?_⟩
    rw [List.getElem?_set] at hj
    split at hj
    · next hkj =>
      subst hkj
      split at hj
      · cases hj
        exact hnext
      · cases hj
    · exact (h j i' p hj).stable hR
  · cases hstep

/-- What a program that has returned has ensured. -/
theorem Good.returned (h : t.Good record R Q) {k : Nat} {i : ι} {a : α}
    (hk : t.Returned k i a) : Q k i a t.world :=
  Prog.Stably.now (h k i _ hk)

end Threads

end IMSystem.Lib

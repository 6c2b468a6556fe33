import IMSystem.Gateway.Lifecycle

/-!
# The timeout of a silent connection (`gateway/src/tcp_server.cpp`)

The handler of the heartbeat reads the time and then `last_active_time_`, both in
whole seconds, while a read on another thread may set `last_active_time_`. It waits
five seconds between two comparisons.

Results:
1. `keptAlive_run`: whenever the heartbeat stops the connection, it has just been
   silent for more than 30 seconds.
2. `timely_run`: it stops a silent one in time.
-/

namespace IMSystem.Gateway.Lifecycle

open Lib

/-! ## No connection is stopped too early -/

/-- The time that a handler compares is one that it has read. -/
theorem next_comparing {s : State} {ok : Bool} {a b : Activity} {started : List Activity}
    {due sec : Nat} (h : next s ok a = some (b, started)) (hmem : .comparing due sec ∈ b :: started) :
    a = .timing due ∧ sec = s.now / 1000 := by
  cases a <;> simp only [next] at h <;> grind

/-- In this step the heartbeat decides to call `Stop`. -/
def TimesOut (s : State) : Action → Prop
  | .run i ok => ∃ due sec, s.activities[i]? = some (.comparing due sec) ∧
      next s ok (.comparing due sec) = some (.stopping (some due), [])
  | _ => False

/-- The clock, and what the handlers know of it. -/
structure Clock (s : State) : Prop where
  active : s.lastActiveTime = s.activeAt / 1000
  past : s.activeAt ≤ s.now
  comparing : ∀ due sec, .comparing due sec ∈ s.activities → 1000 * sec ≤ s.now

theorem Clock.step {s s' : State} (a : Action) (h : Clock s) (hstep : step s a = some s') :
    Clock s' := by
  cases a with
  | tick ms =>
    cases hstep
    exact ⟨h.active, Nat.le_add_right_of_le h.past,
      fun due sec hmem => Nat.le_add_right_of_le (h.comparing due sec hmem)⟩
  | run i ok =>
    obtain ⟨a, b, started, hi, hnext, rfl⟩ := step_run hstep
    obtain ⟨hnow, hactive⟩ := effect_clock s ok a
    have hpast := h.past
    refine ⟨?_, ?_, fun due sec hmem => ?_⟩
    · show (effect s ok a).lastActiveTime = (effect s ok a).activeAt / 1000
      obtain ⟨hlast, hat⟩ | ⟨hlast, hat⟩ := hactive
      · rw [hlast, hat, h.active]
      · rw [hlast, hat]
    · show (effect s ok a).activeAt ≤ (effect s ok a).now
      omega
    · show 1000 * sec ≤ (effect s ok a).now
      rw [hnow]
      obtain hold | hcancelled | hnew := mem_run hmem
      · exact h.comparing due sec hold
      · cases hcancelled
      · obtain ⟨_, rfl⟩ := next_comparing hnext hnew
        exact Nat.mul_div_le s.now 1000
  | destroy =>
    obtain ⟨_, ⟨_, rfl⟩ | ⟨_, rfl⟩⟩ := step_destroy hstep
    · exact ⟨h.active, h.past, h.comparing⟩
    · obtain ⟨hlast, hpast, hcomparing⟩ := h
      simp only [State.closeSocket]
      split <;> exact ⟨hlast, hpast, hcomparing⟩

theorem clock_start (now : Nat) : Clock (State.start now) where
  active := rfl
  past := Nat.le_refl _
  comparing _ _ hmem := by cases List.mem_singleton.mp hmem

/-- Times that are more than 30 apart in whole seconds are more than 30 seconds apart. -/
theorem Clock.silent {s : State} (h : Clock s) {a : Action} (htimes : TimesOut s a) :
    s.activeAt + 30000 < s.now := by
  cases a with
  | run i ok =>
    obtain ⟨due, sec, hi, hnext⟩ := htimes
    have hlate : s.lastActiveTime + kHeartbeatTimeoutSec < sec := by
      by_contra hearly
      simp [next, hearly] at hnext
    have hsec := h.comparing due sec (List.mem_of_getElem? hi)
    have hlast := h.active
    simp only [kHeartbeatTimeoutSec] at hlate
    omega
  | tick | destroy => exact htimes.elim

/-- In every step in which the heartbeat decides to stop the connection,
`last_active_time_` was not set for more than 30 seconds, though it compares whole
seconds, and though a read may set it at any moment in between. -/
theorem keptAlive_run (now : Nat) (as : List Action) :
    StepsMeet step (fun s a => TimesOut s a → s.activeAt + 30000 < s.now) (State.start now) as :=
  stepsMeet_of_step (fun _ a _ h hstep => h.step a hstep) (fun _ _ h => h.silent) (clock_start now)

/-! ## A silent connection is stopped in time -/

/-- The clock does not run away from the heartbeat: what is due is done within `δ`. -/
def Prompt (δ : Nat) (s : State) : Action → Prop
  | .tick ms => ∀ a ∈ s.activities, ∀ due ∈ a.due, s.now + ms ≤ due + δ
  | _ => True

instance (δ : Nat) : ∀ s a, Decidable (Prompt δ s a)
  | s, .tick ms => inferInstanceAs (Decidable (∀ a ∈ s.activities, ∀ due ∈ a.due, s.now + ms ≤ due + δ))
  | _, .run _ _ => isTrue trivial
  | _, .destroy => isTrue trivial

/-- The first second in which a comparison finds the connection silent, in
milliseconds. -/
def State.deadline (s : State) : Nat := 1000 * (s.lastActiveTime + kHeartbeatTimeoutSec + 1)

/-- How far behind an activity of the heartbeat may be. -/
def Activity.OnTime (δ : Nat) (s : State) : Activity → Prop
  | .starting due | .launching due | .heartbeat due | .arming due =>
    due ≤ s.now ∧ s.now ≤ due + δ ∧ due < s.deadline
  | .armed due expiry =>
    s.now ≤ due + δ ∧ due ≤ expiry ∧ expiry < s.deadline + 5000 + δ
  | .waiting due => s.now ≤ due + δ ∧ due < s.deadline + 5000 + δ
  | .expired due | .timing due | .stopping (some due) =>
    due ≤ s.now ∧ s.now ≤ due + δ ∧ due < s.deadline + 5000 + δ
  | .comparing due sec =>
    due ≤ s.now ∧ s.now ≤ due + δ ∧ due < s.deadline + 5000 + δ ∧ due < 1000 * (sec + 1)
  | _ => True

/-- The heartbeat goes on, unless `Start` has raised. -/
structure Beats (δ : Nat) (s : State) : Prop where
  inv : Inv s
  clock : Clock s
  onTime : ∀ a ∈ s.activities, a.OnTime δ s
  first : ∀ due, .starting due ∈ s.activities → s.activities = [.starting due]
  alive : s.isStopped = false → Released s ∨ ∃ a ∈ s.activities, a.due.isSome = true

/-- Whatever is on time stays so when the clock stands still. -/
theorem Activity.OnTime.mono {δ : Nat} {s s' : State} {a : Activity} (h : a.OnTime δ s)
    (hnow : s'.now = s.now) (hdeadline : s.deadline ≤ s'.deadline) : a.OnTime δ s' := by
  cases a with
  | stopping due => cases due <;> grind [OnTime]
  | _ => grind [OnTime]

/-- A prompt clock stops in time. -/
theorem Activity.OnTime.tick {δ ms : Nat} {s s' : State} {a : Activity} (h : a.OnTime δ s)
    (hnow : s'.now = s.now + ms) (hdeadline : s'.deadline = s.deadline)
    (hprompt : ∀ due ∈ a.due, s.now + ms ≤ due + δ) : a.OnTime δ s' := by
  cases a with
  | stopping due => cases due <;> grind [OnTime, Activity.due]
  | _ => grind [OnTime, Activity.due]

/-- Time for the next round is left as long as the last comparison was not late. -/
theorem next_onTime {δ : Nat} {s : State} {ok : Bool} {a b x : Activity} {started : List Activity}
    (h : next s ok a = some (b, started)) (ha : a.OnTime δ s) (hx : x ∈ b :: started) :
    x.OnTime δ s := by
  cases a with
  | stopping due | closing | done => simp only [next] at h; grind [Activity.OnTime]
  | timing due =>
    obtain ⟨hpast, hprompt, hdue⟩ := ha
    cases h
    rw [List.mem_singleton] at hx
    subst hx
    exact ⟨hpast, hprompt, hdue, by omega⟩
  | comparing due sec =>
    obtain ⟨hpast, hprompt, hdue, hsec⟩ := ha
    simp only [next, Option.some.injEq, Prod.mk.injEq] at h
    obtain ⟨rfl, rfl⟩ := h
    rw [List.mem_singleton] at hx
    subst hx
    split
    · exact ⟨hpast, hprompt, hdue⟩
    · next hactive =>
      refine ⟨hpast, hprompt, ?_⟩
      show due < 1000 * (s.lastActiveTime + kHeartbeatTimeoutSec + 1)
      omega
  | _ => simp only [next] at h; grind [Activity.OnTime]

/-- The heartbeat hands on to itself until the flag is set. -/
theorem next_alive {s : State} {ok : Bool} {a b : Activity} {started : List Activity}
    (h : next s ok a = some (b, started)) (hdue : a.due.isSome = true) :
    (∃ due, a = .starting due ∧ b = .done ∧ started = []) ∨ b.due.isSome = true ∨
      (effect s ok a).isStopped = true := by
  cases a <;> simp only [next] at h <;> grind [Activity.due, effect]

/-- A connection starts with `Start` alone. -/
theorem next_starting {s : State} {ok : Bool} {a b : Activity} {started : List Activity}
    (h : next s ok a = some (b, started)) (due : Nat) : .starting due ∉ b :: started := by
  cases a <;> simp only [next] at h <;> grind

theorem deadline_le {s : State} (h : Clock s) (ok : Bool) (a : Activity) :
    s.deadline ≤ (effect s ok a).deadline := by
  have hpast := h.past
  have hactive := h.active
  obtain ⟨_, ⟨hlast, _⟩ | ⟨hlast, _⟩⟩ := effect_clock s ok a
  · simp only [State.deadline, hlast, Nat.le_refl]
  · simp only [State.deadline, hlast, hactive]
    have : s.activeAt / 1000 ≤ s.now / 1000 := Nat.div_le_div_right hpast
    omega

/-- While the flag is unset, the others are left alone, except by the heartbeat. -/
theorem others_of_running {s : State} {a : Activity} (h : Inv s) (hrunning : s.isStopped = false)
    (ha : a ∈ s.activities) (hdue : a.due.isSome = false) : others s a = s.activities := by
  cases a with
  | arming _ => cases hdue
  | cancelling =>
    exact absurd rfl (List.countP_eq_zero.mp (h.running hrunning).1 .cancelling ha)
  | _ => rfl

theorem Beats.alive_run {δ : Nat} {s : State} {i : Nat} {ok : Bool} {a b : Activity}
    {started : List Activity} (h : Beats δ s) (hi : s.activities[i]? = some a)
    (hnext : next s ok a = some (b, started)) (hrunning : (effect s ok a).isStopped = false) :
    (∀ x ∈ (others s a).set i b ++ started, x = .done) ∨
      ∃ x ∈ (others s a).set i b ++ started, x.due.isSome = true := by
  have ha : a ∈ s.activities := List.mem_of_getElem? hi
  have hbefore : s.isStopped = false := by
    cases hflag : s.isStopped with
    | false => rfl
    | true => exact absurd ((effect_isStopped ok a hflag).symm.trans hrunning) (by decide)
  have hb : b ∈ (others s a).set i b ++ started :=
    List.mem_append_left _ (List.mem_set (List.getElem?_eq_some_iff.mp (others_get hi)).1 b)
  cases hdue : a.due.isSome with
  | true =>
    obtain ⟨due, rfl, rfl, rfl⟩ | hbeats | hstopped := next_alive hnext hdue
    · -- `Start` has raised, and there is nothing else
      have hfirst := h.first due ha
      rw [hfirst] at hi
      cases i with
      | zero =>
        refine .inl fun x hx => ?_
        simpa [others, hfirst] using hx
      | succ i => cases hi
    · exact .inr ⟨b, hb, hbeats⟩
    · exact absurd (hstopped.symm.trans hrunning) (by decide)
  | false =>
    rw [others_of_running h.inv hbefore ha hdue]
    obtain hreleased | ⟨x, hx, hxdue⟩ := h.alive hbefore
    · rw [hreleased a ha] at hnext
      cases hnext
    · obtain ⟨j, hj⟩ := List.getElem?_of_mem hx
      have hij : i ≠ j := by
        rintro rfl
        rw [Option.some.inj (hi.symm.trans hj)] at hdue
        exact absurd (hdue.symm.trans hxdue) (by decide)
      refine .inr ⟨x, List.mem_append_left _ (List.mem_of_getElem? (i := j) ?_), hxdue⟩
      rw [List.getElem?_set_ne hij]
      exact hj

theorem Beats.run {δ : Nat} {s s' : State} {i : Nat} {ok : Bool} (h : Beats δ s)
    (hstep : step s (.run i ok) = some s') : Beats δ s' := by
  have hinv := h.inv.run hstep
  have hclock := h.clock.step (.run i ok) hstep
  have hlive := not_released_of_run hstep
  obtain ⟨a, b, started, hi, hnext, rfl⟩ := step_run hstep
  have ha : a ∈ s.activities := List.mem_of_getElem? hi
  have hnow := (effect_clock s ok a).1
  have hdeadline := deadline_le h.clock ok a
  refine ⟨hinv, hclock, fun x hx => ?_, fun due hmem => ?_, fun hrunning => ?_⟩
  · have hbefore : x.OnTime δ s := by
      obtain hold | rfl | hnew := mem_run hx
      · exact h.onTime x hold
      · trivial
      · exact next_onTime hnext (h.onTime a ha) hnew
    exact hbefore.mono hnow hdeadline
  · -- `Start` was alone, so it is the one that has gone on
    obtain hset | hstarted := List.mem_append.mp hmem
    · obtain hold | hb := List.mem_or_eq_of_mem_set hset
      · obtain hin | hcancelled := mem_others hold
        · have hfirst := h.first due hin
          rw [hfirst] at hi
          obtain ⟨rfl, rfl⟩ : i = 0 ∧ a = .starting due := by
            cases i with
            | zero => exact ⟨rfl, (Option.some.inj hi).symm⟩
            | succ i => cases hi
          have hset' : .starting due ∈ [b] := by
            simpa [others, hfirst] using hset
          exact absurd (List.mem_of_mem_head? (l := b :: started)
            (by rw [List.mem_singleton.mp hset']; rfl)) (next_starting hnext due)
        · cases hcancelled
      · exact absurd (hb ▸ List.mem_cons_self ..) (next_starting hnext due)
    · exact absurd (List.mem_cons_of_mem b hstarted) (next_starting hnext due)
  · exact h.alive_run hi hnext hrunning

theorem Beats.step {δ : Nat} {s s' : State} (a : Action) (h : Beats δ s) (hprompt : Prompt δ s a)
    (hstep : step s a = some s') : Beats δ s' := by
  cases a with
  | tick ms =>
    have hinv := h.inv.step (.tick ms) hstep
    have hclock := h.clock.step (.tick ms) hstep
    cases hstep
    exact ⟨hinv, hclock, fun x hx => (h.onTime x hx).tick rfl rfl (hprompt x hx), h.first, h.alive⟩
  | run i ok => exact h.run hstep
  | destroy =>
    have hinv := h.inv.step .destroy hstep
    have hclock := h.clock.step .destroy hstep
    obtain ⟨hreleased, hcases⟩ := step_destroy hstep
    obtain ⟨hactivities, hstopped⟩ : s'.activities = s.activities ∧ s'.isStopped = true := by
      obtain ⟨hstopped, rfl⟩ | ⟨_, rfl⟩ := hcases
      · exact ⟨rfl, hstopped⟩
      · exact ⟨closeSocket_activities s, rfl⟩
    refine ⟨hinv, hclock, fun x hx => ?_, fun due hmem => ?_, fun hrunning => ?_⟩
    · rw [hreleased x (hactivities ▸ hx)]
      trivial
    · cases hreleased _ (hactivities ▸ hmem)
    · exact absurd (hstopped.symm.trans hrunning) (by decide)

theorem beats_start (δ now : Nat) : Beats δ (State.start now) where
  inv := inv_start now
  clock := clock_start now
  onTime a hmem := by
    obtain rfl := List.mem_singleton.mp hmem
    refine ⟨Nat.le_refl _, Nat.le_add_right _ _, ?_⟩
    show now < 1000 * (now / 1000 + 30 + 1)
    omega
  first due hmem := by
    obtain rfl : due = now := by simpa [State.start] using hmem
    rfl
  alive _ := .inr ⟨.starting now, List.mem_singleton_self _, rfl⟩

/-- Who is not stopped was heard within 36 seconds and twice the delay. -/
theorem Beats.timely {δ : Nat} {s : State} (h : Beats δ s) (hrunning : s.isStopped = false) :
    Released s ∨ s.now < s.activeAt + 36000 + 2 * δ := by
  obtain hreleased | ⟨a, ha, hdue⟩ := h.alive hrunning
  · exact .inl hreleased
  · have hlast := h.clock.active
    have htime := h.onTime a ha
    have hdeadline : s.deadline ≤ s.activeAt + 31000 := by
      simp only [State.deadline, kHeartbeatTimeoutSec]
      omega
    refine .inr ?_
    cases a with
    | stopping due =>
      cases due with
      | none => cases hdue
      | some due =>
        simp only [Activity.OnTime] at htime
        omega
    | starting _ | launching _ | heartbeat _ | arming _ | armed _ _ | waiting _ | expired _
    | timing _ | comparing _ _ =>
      simp only [Activity.OnTime] at htime
      omega
    | _ => cases hdue

/-- If no part of the heartbeat is late by more than `δ` milliseconds, a connection
that is silent for 36 seconds and `2 δ` is stopped, or nothing of it is left. -/
theorem timely_run (δ now : Nat) (as : List Action)
    (hprompt : StepsMeet step (Prompt δ) (State.start now) as) :
    HoldsAlong step (fun s => s.isStopped = false →
      Released s ∨ s.now < s.activeAt + 36000 + 2 * δ) (State.start now) as :=
  holdsAlong_of_inv (fun _ a _ h hca hstep => h.step a hca hstep) (fun _ h => h.timely)
    (beats_start δ now) hprompt

/-- Seven rounds of the heartbeat of a client that says nothing, each of them a
second late. -/
theorem timely_run_silent :
    let silent := [Action.run 0 true, .run 0 true] ++ (List.replicate 7
      [Action.run 0 true, .run 0 true, .run 0 true, .tick 6000, .run 0 true, .run 0 true,
        .run 0 true, .run 0 true]).flatten
    StepsMeet step (Prompt 1000) (.start 0) silent ∧
      HoldsAlong step (fun s => s.isStopped = false →
        Released s ∨ s.now < s.activeAt + 36000 + 2 * 1000) (.start 0) silent :=
  ⟨by decide, timely_run 1000 0 _ (by decide)⟩

end IMSystem.Gateway.Lifecycle

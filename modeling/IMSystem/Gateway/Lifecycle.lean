import IMSystem.Lib.Progress

/-!
# The life of a TCP connection (`gateway/src/tcp_server.cpp`)

A `TcpConnection` lives as long as one of its asynchronous operations is outstanding
or one of their handlers runs, since each of them holds a `shared_ptr` to it. The
handlers run on the threads of the `io_context`, those of one connection as well at
the same time. A step is one access to an atomic member, one call on the socket or on
the timer, or the start or the completion of an operation.

What a read holds does not matter here: its handler replies once and reads on, or an
exception leaves it before the reply. The wall clock and the clock of the timer are
taken to advance together, in milliseconds.

Results:
1. `closed_run`: the socket is closed once and not before `is_stopped_` is set, the
   read buffer has one user, one chain of handlers arms the timer, and `Stop` leaves
   nothing open.
2. `released_run`: a connection that is stopped is released.
-/

namespace IMSystem.Gateway.Lifecycle

open Lib

/-! ## Operations and handlers -/

/-- Where an operation of the connection, or its handler, has got to. A `due` time is
the one at which the heartbeat had to go on; the clock of the operating system is the
only witness of it. -/
inductive Activity where
  /-- `Start` was called. -/
  | starting (due : Nat)
  /-- `Start` is about to call `DoRead` and then `CheckHeartbeat`. -/
  | launching (due : Nat)
  /-- An `async_read_some` is outstanding. -/
  | reading
  /-- The handler of `DoRead` has got some bytes. -/
  | read
  /-- `ParseAndRouteMessage` replies, or it is left by an exception. -/
  | replying (returns : Bool)
  /-- `Send`, behind its check of `is_stopped_`. -/
  | sending
  /-- The handler of `DoRead` is about to call `DoRead`. -/
  | rearming
  | readFailed
  /-- An `async_write` is outstanding. -/
  | writing
  | writeFailed
  /-- `CheckHeartbeat` was called. -/
  | heartbeat (due : Nat)
  /-- `CheckHeartbeat`, behind its check of `is_stopped_`. -/
  | arming (due : Nat)
  /-- `CheckHeartbeat`, behind `expires_after`. -/
  | armed (due expiry : Nat)
  /-- An `async_wait` is outstanding. -/
  | waiting (expiry : Nat)
  /-- The wait was cancelled. -/
  | aborted
  /-- The timer has expired, and the handler was queued. -/
  | expired (due : Nat)
  /-- The handler, behind its check of `is_stopped_`. -/
  | timing (due : Nat)
  /-- The handler, with the time that it has read. -/
  | comparing (due sec : Nat)
  /-- `Stop` was called, by the heartbeat or by another handler. -/
  | stopping (due : Option Nat)
  /-- `Stop`, behind the exchange of the flag. -/
  | cancelling
  /-- `Stop`, behind `timer_.cancel`. -/
  | closing
  | done
deriving DecidableEq, Repr

/-- `timer_.cancel`, also the one inside of `expires_after`. -/
def Activity.abort : Activity → Activity
  | .waiting _ => .aborted
  | a => a

structure State where
  /-- In milliseconds. -/
  now : Nat
  /-- In seconds. -/
  lastActiveTime : Nat
  isStopped : Bool
  socketOpen : Bool
  activities : List Activity
  /-- The destructor has run. -/
  destroyed : Bool
  /-- When `last_active_time_` was set, in milliseconds. -/
  activeAt : Nat
  /-- How often the socket was closed. -/
  closes : Nat
deriving DecidableEq, Repr

/-- A connection accepted at the time `now`, with `Start` called on it. -/
def State.start (now : Nat) : State where
  now := now
  lastActiveTime := now / 1000
  isStopped := false
  socketOpen := true
  activities := [.starting now]
  destroyed := false
  activeAt := now
  closes := 0

def kHeartbeatTimeoutSec : Nat := 30

/-- `last_active_time_ = GetCurrentTimestampSec()`. -/
def State.noteActive (s : State) : State :=
  { s with lastActiveTime := s.now / 1000, activeAt := s.now }

/-- `socket_.close`, if the socket is open. -/
def State.closeSocket (s : State) : State :=
  if s.socketOpen then { s with socketOpen := false, closes := s.closes + 1 } else s

/-- How an activity goes on, and what it starts; `ok` is the choice of its environment.
* `Start` raises in its log line if the client has gone.
* A read or a write of an open socket succeeds or fails, of a closed one it fails. -/
def next (s : State) (ok : Bool) : Activity → Option (Activity × List Activity)
  | .starting due => some (if ok then .launching due else .done, [])
  | .launching due => some (.heartbeat due, [.reading])
  | .reading => if ok then if s.socketOpen then some (.read, []) else none else some (.readFailed, [])
  | .read => some (.replying ok, [])
  | .replying returns =>
    some (if returns then if s.isStopped then .rearming else .sending else .done, [])
  | .sending => some (.rearming, [.writing])
  | .rearming => some (.reading, [])
  | .readFailed => some (.stopping none, [])
  | .writing => if ok then if s.socketOpen then some (.done, []) else none else some (.writeFailed, [])
  | .writeFailed => some (.stopping none, [])
  | .heartbeat due => some (if s.isStopped then .done else .arming due, [])
  | .arming due => some (.armed due (s.now + 5000), [])
  | .armed _ expiry => some (.waiting expiry, [])
  | .waiting expiry => if expiry ≤ s.now then some (.expired expiry, []) else none
  | .aborted => some (.done, [])
  | .expired due => some (if s.isStopped then .done else .timing due, [])
  | .timing due => some (.comparing due (s.now / 1000), [])
  | .comparing due sec =>
    some (if s.lastActiveTime + kHeartbeatTimeoutSec < sec then .stopping (some due)
      else .heartbeat due, [])
  | .stopping _ => some (if s.isStopped then .done else .cancelling, [])
  | .cancelling => some (.closing, [])
  | .closing => some (.done, [])
  | .done => none

/-- What an activity does to the members. -/
def effect (s : State) (ok : Bool) : Activity → State
  | .starting _ => if ok then s.noteActive else s
  | .read => s.noteActive
  | .stopping _ => { s with isStopped := true }
  | .closing => s.closeSocket
  | _ => s

/-- What an activity leaves of the others: two of them cancel the timer. -/
def others (s : State) : Activity → List Activity
  | .arming _ => s.activities.map Activity.abort
  | .cancelling => s.activities.map Activity.abort
  | _ => s.activities

inductive Action where
  | tick (ms : Nat)
  /-- The `i`-th activity goes on. -/
  | run (i : Nat) (ok : Bool)
  /-- The last `shared_ptr` is gone, and the destructor calls `Stop`. -/
  | destroy
deriving DecidableEq, Repr

/-- Nothing is outstanding, and no handler runs. -/
def Released (s : State) : Prop := ∀ a ∈ s.activities, a = .done

instance : DecidablePred Released := fun s =>
  inferInstanceAs (Decidable (∀ a ∈ s.activities, a = .done))

/-- One step. -/
def step (s : State) : Action → Option State
  | .tick ms => some { s with now := s.now + ms }
  | .run i ok =>
    match s.activities[i]? with
    | none => none
    | some a =>
      match next s ok a with
      | none => none
      | some (b, started) =>
        some { effect s ok a with activities := (others s a).set i b ++ started }
  | .destroy =>
    if Released s ∧ s.destroyed = false then
      if s.isStopped then some { s with destroyed := true }
      else some { s.closeSocket with isStopped := true, destroyed := true }
    else none

/-! ## What a step does -/

theorem step_run {s s' : State} {i : Nat} {ok : Bool} (h : step s (.run i ok) = some s') :
    ∃ a b started, s.activities[i]? = some a ∧ next s ok a = some (b, started) ∧
      s' = { effect s ok a with activities := (others s a).set i b ++ started } := by
  simp only [step] at h
  split at h
  · cases h
  · next a ha =>
    split at h
    · cases h
    · next b started hb => exact ⟨a, b, started, ha, hb, (Option.some.inj h).symm⟩

theorem step_destroy {s s' : State} (h : step s .destroy = some s') :
    Released s ∧ ((s.isStopped = true ∧ s' = { s with destroyed := true }) ∨
      (s.isStopped = false ∧
        s' = { s.closeSocket with isStopped := true, destroyed := true })) := by
  simp only [step] at h
  split at h
  · next hend =>
    split at h
    · next hstopped => exact ⟨hend.1, .inl ⟨hstopped, (Option.some.inj h).symm⟩⟩
    · next hrunning =>
      exact ⟨hend.1, .inr ⟨Bool.not_eq_true _ ▸ hrunning, (Option.some.inj h).symm⟩⟩
  · cases h

/-- Whoever goes on is among what it leaves. -/
theorem others_get {s : State} {i : Nat} {a : Activity} (h : s.activities[i]? = some a) :
    (others s a)[i]? = some a := by
  cases a with
  | arming _ | cancelling => simp [others, h, Activity.abort]
  | _ => exact h

theorem mem_others {s : State} {a x : Activity} (h : x ∈ others s a) :
    x ∈ s.activities ∨ x = .aborted := by
  have habort : x ∈ s.activities.map Activity.abort → x ∈ s.activities ∨ x = .aborted := by
    intro hmem
    obtain ⟨y, hy, rfl⟩ := List.mem_map.mp hmem
    cases y with
    | waiting _ => exact .inr rfl
    | _ => exact .inl hy
  cases a with
  | arming _ | cancelling => exact habort h
  | _ => exact .inl h

/-- What is there after a step. -/
theorem mem_run {s : State} {a b x : Activity} {started : List Activity} {i : Nat}
    (h : x ∈ (others s a).set i b ++ started) :
    x ∈ s.activities ∨ x = .aborted ∨ x ∈ b :: started := by
  obtain hset | hstarted := List.mem_append.mp h
  · obtain hold | rfl := List.mem_or_eq_of_mem_set hset
    · exact (mem_others hold).imp_right .inl
    · exact .inr (.inr (List.mem_cons_self ..))
  · exact .inr (.inr (List.mem_cons_of_mem b hstarted))

/-- Either `last_active_time_` is set to the time, or it stays. -/
theorem effect_clock (s : State) (ok : Bool) (a : Activity) :
    (effect s ok a).now = s.now ∧
      ((effect s ok a).lastActiveTime = s.lastActiveTime ∧ (effect s ok a).activeAt = s.activeAt ∨
        (effect s ok a).lastActiveTime = s.now / 1000 ∧ (effect s ok a).activeAt = s.now) := by
  cases a with
  | starting _ =>
    cases ok with
    | true => exact ⟨rfl, .inr ⟨rfl, rfl⟩⟩
    | false => exact ⟨rfl, .inl ⟨rfl, rfl⟩⟩
  | read => exact ⟨rfl, .inr ⟨rfl, rfl⟩⟩
  | closing =>
    simp only [effect, State.closeSocket]
    split <;> exact ⟨rfl, .inl ⟨rfl, rfl⟩⟩
  | _ => exact ⟨rfl, .inl ⟨rfl, rfl⟩⟩

/-! ## How many activities there are of a kind -/

section Count

variable {p : Activity → Bool} {s : State} {a b : Activity} {started : List Activity} {i : Nat}

theorem countP_abort (hp : p .aborted = false) (l : List Activity) :
    (l.map Activity.abort).countP p ≤ l.countP p := by
  induction l with
  | nil => exact Nat.le_refl 0
  | cons x l ih =>
    have hx : (if p x.abort = true then 1 else 0) ≤ (if p x = true then 1 else 0) := by
      cases x with
      | waiting _ => simp [Activity.abort, hp]
      | _ => exact Nat.le_refl _
    rw [List.map_cons, List.countP_cons, List.countP_cons]
    exact Nat.add_le_add ih hx

/-- A kind of which an activity does not make more. -/
theorem countP_run_le (hp : p .aborted = false) (hi : s.activities[i]? = some a)
    (hab : (b :: started).countP p ≤ [a].countP p) :
    ((others s a).set i b ++ started).countP p ≤ s.activities.countP p := by
  have hset := countP_set_singleton p b (others_get hi)
  have hothers : (others s a).countP p ≤ s.activities.countP p := by
    cases a with
    | arming _ | cancelling => exact countP_abort hp _
    | _ => exact Nat.le_refl _
  have hcons : (b :: started).countP p = [b].countP p + started.countP p := by
    rw [← List.countP_append, List.singleton_append]
  rw [List.countP_append]
  omega

/-- A kind to which waits do not belong: the activity alone decides. -/
theorem countP_run (hp : ∀ x : Activity, p x.abort = p x) (hi : s.activities[i]? = some a) :
    ((others s a).set i b ++ started).countP p + [a].countP p =
      s.activities.countP p + (b :: started).countP p := by
  have hset := countP_set_singleton p b (others_get hi)
  have hothers : (others s a).countP p = s.activities.countP p := by
    have habort : (s.activities.map Activity.abort).countP p = s.activities.countP p := by
      rw [List.countP_map]
      exact List.countP_congr fun x _ => by rw [Function.comp_apply, hp]
    cases a with
    | arming _ | cancelling => exact habort
    | _ => rfl
  have hcons : (b :: started).countP p = [b].countP p + started.countP p := by
    rw [← List.countP_append, List.singleton_append]
  rw [List.countP_append]
  omega

end Count

/-! ## One user each, and one close -/

/-- The activity fills the read buffer, reads it, or is about to call `DoRead`. -/
def Activity.usesBuffer : Activity → Bool
  | .starting _ | .launching _ | .reading | .read | .replying _ | .sending | .rearming => true
  | _ => false

/-- The activity has to keep the heartbeat going. -/
def Activity.due : Activity → Option Nat
  | .starting due | .launching due | .heartbeat due | .arming due | .armed due _
  | .waiting due | .expired due | .timing due | .comparing due _ => some due
  | .stopping due => due
  | _ => none

/-- The activity is inside of the one `Stop` that has found the flag unset. -/
def Activity.stops : Activity → Bool
  | .cancelling | .closing => true
  | _ => false

/-- What is asked of the connection in every state. -/
structure Closed (s : State) : Prop where
  /-- No two reads share the buffer. -/
  buffer : s.activities.countP Activity.usesBuffer ≤ 1
  /-- One chain of `CheckHeartbeat` arms the timer and waits for it. -/
  heartbeat : s.activities.countP (·.due.isSome) ≤ 1
  /-- One `Stop` gets past the flag, and cancels the timer. -/
  stop : s.activities.countP Activity.stops ≤ 1
  /-- The socket is closed once at most, and by nobody but `Stop`. -/
  once : s.closes ≤ 1 ∧ (s.socketOpen = true ↔ s.closes = 0) ∧
    (s.closes = 1 → s.isStopped = true)
  /-- Once the `Stop` that has set the flag has run through, the socket is closed. -/
  stopped : s.isStopped = true → (∀ a ∈ s.activities, a.stops = false) → s.closes = 1
  /-- And so has one whose destructor has run. -/
  destroyed : s.destroyed = true → s.closes = 1

/-- What a step has to know. -/
structure Inv (s : State) : Prop where
  buffer : s.activities.countP Activity.usesBuffer ≤ 1
  heartbeat : s.activities.countP (·.due.isSome) ≤ 1
  socket : s.socketOpen = true ↔ s.closes = 0
  running : s.isStopped = false → s.activities.countP Activity.stops = 0 ∧ s.closes = 0
  stopped : s.isStopped = true → s.activities.countP Activity.stops + s.closes = 1
  destroyed : s.destroyed = true → s.isStopped = true ∧ Released s

theorem countP_of_released {s : State} (h : Released s) {p : Activity → Bool}
    (hp : p .done = false) : s.activities.countP p = 0 :=
  List.countP_eq_zero.mpr fun a ha => by rw [h a ha, hp]; exact Bool.false_ne_true

theorem Inv.closed {s : State} (h : Inv s) : Closed s where
  buffer := h.buffer
  heartbeat := h.heartbeat
  stop := by
    cases hflag : s.isStopped with
    | false => exact Nat.le_of_eq (h.running hflag).1 |>.trans (Nat.zero_le 1)
    | true => exact h.stopped hflag ▸ Nat.le_add_right _ _
  once := by
    cases hflag : s.isStopped with
    | false =>
      have hnone := (h.running hflag).2
      exact ⟨by rw [hnone]; exact Nat.zero_le 1, h.socket, fun hone => by omega⟩
    | true =>
      have hsum := h.stopped hflag
      exact ⟨by omega, h.socket, fun _ => rfl⟩
  stopped hstopped hthrough := by
    have hsum := h.stopped hstopped
    have hnone : s.activities.countP Activity.stops = 0 :=
      List.countP_eq_zero.mpr fun a ha => by rw [hthrough a ha]; exact Bool.false_ne_true
    rwa [hnone, Nat.zero_add] at hsum
  destroyed hdestroyed := by
    obtain ⟨hstopped, hreleased⟩ := h.destroyed hdestroyed
    have hsum := h.stopped hstopped
    rwa [countP_of_released hreleased rfl, Nat.zero_add] at hsum

/-- No activity makes a second user of the buffer, nor a second heartbeat. -/
theorem next_users {s : State} {ok : Bool} {a b : Activity} {started : List Activity}
    (h : next s ok a = some (b, started)) :
    (b :: started).countP Activity.usesBuffer ≤ [a].countP Activity.usesBuffer ∧
    (b :: started).countP (·.due.isSome) ≤ [a].countP (·.due.isSome) := by
  cases a <;> simp only [next] at h <;> grind [Activity.usesBuffer, Activity.due]

/-- All that a step means for closing the socket.
* `exchange`: `Stop` finds the flag unset.
* `close`: the `Stop` that found it unset closes the socket.
* `other`: everything else. -/
inductive Closing (s : State) (ok : Bool) (a b : Activity) (started : List Activity) : Prop
  | exchange (due : Option Nat) : a = .stopping due → s.isStopped = false → b = .cancelling →
      started = [] → Closing s ok a b started
  | close : a = .closing → b = .done → started = [] → Closing s ok a b started
  | other : (b :: started).countP Activity.stops = [a].countP Activity.stops →
      (effect s ok a).isStopped = s.isStopped → (effect s ok a).socketOpen = s.socketOpen →
      (effect s ok a).closes = s.closes → Closing s ok a b started

theorem next_closing {s : State} {ok : Bool} {a b : Activity} {started : List Activity}
    (h : next s ok a = some (b, started)) : Closing s ok a b started := by
  cases a with
  | stopping due =>
    simp only [next, Option.some.injEq, Prod.mk.injEq] at h
    obtain ⟨rfl, rfl⟩ := h
    cases hflag : s.isStopped with
    | true => exact .other rfl hflag.symm rfl rfl
    | false => exact .exchange due rfl hflag rfl rfl
  | closing =>
    cases h
    exact .close rfl rfl rfl
  | starting _ =>
    cases ok <;> (cases h; exact .other rfl rfl rfl rfl)
  | reading | writing | waiting _ =>
    simp only [next] at h
    split at h <;> grind [Closing, Activity.stops, effect]
  | replying _ | heartbeat _ | expired _ | comparing _ _ =>
    simp only [next] at h
    grind [Closing, Activity.stops, effect]
  | done => cases h
  | _ =>
    cases h
    exact .other rfl rfl rfl rfl

/-- Once everything is released, nothing goes on. -/
theorem not_released_of_run {s s' : State} {i : Nat} {ok : Bool}
    (h : step s (.run i ok) = some s') : ¬ Released s := by
  obtain ⟨a, b, started, hi, hnext, _⟩ := step_run h
  intro hreleased
  rw [hreleased a (List.mem_of_getElem? hi)] at hnext
  cases hnext

theorem effect_destroyed (s : State) (ok : Bool) (a : Activity) :
    (effect s ok a).destroyed = s.destroyed := by
  cases a with
  | starting _ => cases ok <;> rfl
  | closing =>
    show s.closeSocket.destroyed = s.destroyed
    simp only [State.closeSocket]
    split <;> rfl
  | _ => rfl

@[simp] theorem closeSocket_isStopped (s : State) : s.closeSocket.isStopped = s.isStopped := by
  simp only [State.closeSocket]
  split <;> rfl

/-- The flag stays set. -/
theorem effect_isStopped {s : State} (ok : Bool) (a : Activity) (h : s.isStopped = true) :
    (effect s ok a).isStopped = true := by
  cases a with
  | starting _ => cases ok <;> exact h
  | stopping _ => rfl
  | closing => exact (closeSocket_isStopped s).trans h
  | _ => exact h

@[simp] theorem closeSocket_activities (s : State) :
    s.closeSocket.activities = s.activities := by
  simp only [State.closeSocket]
  split <;> rfl

/-- The socket that is closed was open, and the one that was open is closed. -/
theorem closeSocket_closes {s : State} (h : s.socketOpen = true ↔ s.closes = 0)
    (hfirst : s.closes = 0) : s.closeSocket.closes = 1 ∧ s.closeSocket.socketOpen = false := by
  simp only [State.closeSocket, if_pos (h.mpr hfirst), hfirst, and_self]

theorem Inv.run {s s' : State} {i : Nat} {ok : Bool} (h : Inv s)
    (hstep : step s (.run i ok) = some s') : Inv s' := by
  have hlive : s.destroyed = false := by
    cases hdestroyed : s.destroyed with
    | false => rfl
    | true => exact absurd (h.destroyed hdestroyed).2 (not_released_of_run hstep)
  obtain ⟨a, b, started, hi, hnext, rfl⟩ := step_run hstep
  obtain ⟨hbuffer, hheartbeat⟩ := next_users hnext
  have hstops : ((others s a).set i b ++ started).countP Activity.stops +
      [a].countP Activity.stops = s.activities.countP Activity.stops +
        (b :: started).countP Activity.stops :=
    countP_run (fun x => by cases x <;> rfl) hi
  -- how the flag, the socket and the one `Stop` hang together after the step
  have hsocket : ((effect s ok a).socketOpen = true ↔ (effect s ok a).closes = 0) ∧
      ((effect s ok a).isStopped = false →
        ((others s a).set i b ++ started).countP Activity.stops = 0 ∧
          (effect s ok a).closes = 0) ∧
      ((effect s ok a).isStopped = true →
        ((others s a).set i b ++ started).countP Activity.stops + (effect s ok a).closes = 1) := by
    cases next_closing hnext with
    | exchange due ha hflag hb hstarted =>
      subst ha hb hstarted
      obtain ⟨hnone, hcloses⟩ := h.running hflag
      have hone : [Activity.cancelling].countP Activity.stops = 1 := rfl
      have hzero : [Activity.stopping due].countP Activity.stops = 0 := rfl
      refine ⟨h.socket, fun hfalse => Bool.noConfusion hfalse, fun _ => ?_⟩
      show _ + s.closes = 1
      omega
    | close ha hb hstarted =>
      subst ha hb hstarted
      have hpos : 0 < s.activities.countP Activity.stops :=
        List.countP_pos_iff.mpr ⟨.closing, List.mem_of_getElem? hi, rfl⟩
      have hflag : s.isStopped = true := by
        cases hflag : s.isStopped with
        | true => rfl
        | false => exact absurd (h.running hflag).1 (Nat.ne_of_gt hpos)
      have hsum := h.stopped hflag
      obtain ⟨hcloses, hopen⟩ := closeSocket_closes h.socket (by omega)
      have hone : [Activity.closing].countP Activity.stops = 1 := rfl
      have hzero : [Activity.done].countP Activity.stops = 0 := rfl
      refine ⟨?_, fun hfalse => ?_, fun _ => ?_⟩
      · show s.closeSocket.socketOpen = true ↔ s.closeSocket.closes = 0
        simp [hcloses, hopen]
      · rw [show (effect s ok .closing).isStopped = s.isStopped from closeSocket_isStopped s] at hfalse
        exact absurd (hflag.symm.trans hfalse) (by decide)
      · show _ + s.closeSocket.closes = 1
        omega
    | other hsame hflag hopen hcloses =>
      rw [hopen, hcloses, hflag]
      refine ⟨h.socket, fun hrunning => ?_, fun hstopped => ?_⟩
      · have hnone := h.running hrunning
        exact ⟨by omega, hnone.2⟩
      · have hsum := h.stopped hstopped
        omega
  exact {
    buffer := Nat.le_trans (countP_run_le rfl hi hbuffer) h.buffer
    heartbeat := Nat.le_trans (countP_run_le rfl hi hheartbeat) h.heartbeat
    socket := hsocket.1
    running := hsocket.2.1
    stopped := hsocket.2.2
    destroyed := fun hdestroyed => by
      rw [show (effect s ok a).destroyed = false from (effect_destroyed s ok a).trans hlive]
        at hdestroyed
      exact Bool.noConfusion hdestroyed }

theorem Inv.step {s s' : State} (a : Action) (h : Inv s) (hstep : step s a = some s') : Inv s' := by
  cases a with
  | tick ms =>
    cases hstep
    exact ⟨h.buffer, h.heartbeat, h.socket, h.running, h.stopped, h.destroyed⟩
  | run i ok => exact h.run hstep
  | destroy =>
    obtain ⟨hreleased, ⟨hstopped, rfl⟩ | ⟨hrunning, rfl⟩⟩ := step_destroy hstep
    · exact ⟨h.buffer, h.heartbeat, h.socket, h.running, h.stopped, fun _ => ⟨hstopped, hreleased⟩⟩
    · obtain ⟨hnone, hcloses⟩ := h.running hrunning
      obtain ⟨hone, hopen⟩ := closeSocket_closes h.socket hcloses
      have hkeep : s.closeSocket.activities = s.activities := closeSocket_activities s
      refine ⟨?_, ?_, ?_, fun hfalse => Bool.noConfusion hfalse, fun _ => ?_, fun _ => ⟨rfl, ?_⟩⟩
      · rw [hkeep]; exact h.buffer
      · rw [hkeep]; exact h.heartbeat
      · simp [hone, hopen]
      · rw [hkeep, hone, hnone]
      · intro x hx
        rw [hkeep] at hx
        exact hreleased x hx

theorem inv_start (now : Nat) : Inv (State.start now) where
  buffer := Nat.le_refl 1
  heartbeat := Nat.le_refl 1
  socket := ⟨fun _ => rfl, fun _ => rfl⟩
  running _ := ⟨rfl, rfl⟩
  stopped hfalse := Bool.noConfusion hfalse
  destroyed hfalse := Bool.noConfusion hfalse

/-- Whatever the handlers do at the same time, the socket of a connection is closed
once and by `Stop` alone, no two reads share the buffer, no two heartbeats go on beside
each other, and a `Stop` that has run through or the destructor leaves no socket open. -/
theorem closed_run (now : Nat) (as : List Action) :
    HoldsAlong step Closed (State.start now) as :=
  holdsAlong_of_step (fun _ a _ h hstep => h.step a hstep) (fun _ h => h.closed)
    (inv_start now)

/-- The timer is not protected: `Stop` may cancel it while the heartbeat sets it. -/
example : (run step (State.start 0) [.run 0 true, .run 0 true, .run 0 true, .run 1 false,
    .run 1 true, .run 1 true]).map State.activities = some [.arming 0, .cancelling] := by decide

/-! ## A stopped connection is released -/

/-- A step that does not wait for the client.
* The clock goes on to the next expiry of the timer.
* A handler goes on.
* The operations on a closed socket fail. -/
def Owed (s : State) : Action → Prop
  | .tick ms => 0 < ms ∧ ∃ expiry, .waiting expiry ∈ s.activities ∧ s.now + ms ≤ expiry
  | .run i ok => ∀ a, s.activities[i]? = some a → a = .reading ∨ a = .writing →
      ok = false ∧ s.socketOpen = false
  | .destroy => False

/-- How many owed steps an activity of a stopped connection may still take. -/
def Activity.work (now : Nat) : Activity → Nat
  | .starting _ | .replying _ => 6
  | .launching _ => 5
  | .reading => 3
  | .read => 7
  | .sending => 8
  | .rearming => 4
  | .readFailed => 2
  | .writing => 3
  | .writeFailed => 2
  | .heartbeat _ => 1
  | .arming _ => 5004
  | .armed _ expiry => 3 + (expiry - now)
  | .waiting expiry => 2 + (expiry - now)
  | .aborted => 1
  | .expired _ => 1
  | .timing _ => 3
  | .comparing _ _ => 2
  | .stopping _ => 1
  | .cancelling => 2
  | .closing => 1
  | .done => 0

def State.work (s : State) : Nat := (s.activities.map (Activity.work s.now)).sum

/-- The timer is never set to more than five seconds from now. -/
def Activity.Soon (now : Nat) : Activity → Prop
  | .armed _ expiry => expiry ≤ now + 5000
  | .waiting expiry => expiry ≤ now + 5000
  | _ => True

structure Stopped (s : State) : Prop where
  inv : Inv s
  stopped : s.isStopped = true
  soon : ∀ a ∈ s.activities, a.Soon s.now

theorem work_le {now : Nat} {a : Activity} (h : a.Soon now) : a.work now ≤ 5004 := by
  cases a <;> simp only [Activity.Soon] at h <;> simp only [Activity.work] <;> omega

theorem work_abort (now : Nat) (a : Activity) : a.abort.work now ≤ a.work now := by
  cases a with
  | waiting expiry =>
    show 1 ≤ 2 + (expiry - now)
    omega
  | _ => exact Nat.le_refl _

/-- Each owed step of a stopped connection takes something off its work. -/
theorem next_work {s : State} {ok : Bool} {a b : Activity} {started : List Activity}
    (hstopped : s.isStopped = true)
    (howed : a = .reading ∨ a = .writing → ok = false ∧ s.socketOpen = false)
    (h : next s ok a = some (b, started)) :
    b.work s.now + (started.map (Activity.work s.now)).sum < a.work s.now := by
  cases a <;> simp only [next] at h <;> grind [Activity.work]

theorem sum_work_others (s : State) (a : Activity) :
    ((others s a).map (Activity.work s.now)).sum ≤ s.work := by
  have habort : ((s.activities.map Activity.abort).map (Activity.work s.now)).sum ≤ s.work := by
    rw [List.map_map]
    exact List.sum_le_sum fun x _ => work_abort s.now x
  cases a with
  | arming _ | cancelling => exact habort
  | _ => exact Nat.le_refl _

theorem Stopped.run_lt {s s' : State} {i : Nat} {ok : Bool} (h : Stopped s)
    (howed : Owed s (.run i ok)) (hstep : step s (.run i ok) = some s') : s'.work < s.work := by
  obtain ⟨a, b, started, hi, hnext, rfl⟩ := step_run hstep
  have hless := next_work h.stopped (howed a hi) hnext
  have hset := sum_map_set (Activity.work s.now) b (others_get hi)
  have hothers := sum_work_others s a
  have hnow := (effect_clock s ok a).1
  show (((others s a).set i b ++ started).map (Activity.work (effect s ok a).now)).sum < s.work
  rw [hnow, List.map_append, List.sum_append]
  omega

theorem work_tick_lt {s : State} {ms expiry : Nat} (hpos : 0 < ms)
    (hwaiting : .waiting expiry ∈ s.activities) (hle : s.now + ms ≤ expiry) :
    (s.activities.map (Activity.work (s.now + ms))).sum < s.work := by
  refine List.sum_lt_sum _ _ (fun a _ => ?_) ⟨_, hwaiting, ?_⟩
  · cases a with
    | armed due expiry =>
      exact Nat.add_le_add_left (Nat.sub_le_sub_left (Nat.le_add_right _ _) _) _
    | waiting expiry =>
      exact Nat.add_le_add_left (Nat.sub_le_sub_left (Nat.le_add_right _ _) _) _
    | _ => exact Nat.le_refl _
  · show 2 + (expiry - (s.now + ms)) < 2 + (expiry - s.now)
    omega

theorem next_soon {s : State} {ok : Bool} {a b x : Activity} {started : List Activity}
    (h : next s ok a = some (b, started)) (ha : a.Soon s.now) (hx : x ∈ b :: started) :
    x.Soon s.now := by
  cases a <;> simp only [next] at h <;> grind [Activity.Soon]

theorem soon_tick {now : Nat} {a : Activity} (h : a.Soon now) (ms : Nat) : a.Soon (now + ms) := by
  cases a <;> simp only [Activity.Soon] at h ⊢ <;> omega

/-- The timer is never set further than five seconds, stopped or not. -/
theorem soon_step {s s' : State} (a : Action) (h : ∀ x ∈ s.activities, x.Soon s.now)
    (hstep : step s a = some s') : ∀ x ∈ s'.activities, x.Soon s'.now := by
  cases a with
  | tick ms =>
    cases hstep
    exact fun x hx => soon_tick (h x hx) ms
  | run i ok =>
    obtain ⟨a, b, started, hi, hnext, rfl⟩ := step_run hstep
    have hnow := (effect_clock s ok a).1
    intro x hx
    show x.Soon (effect s ok a).now
    rw [hnow]
    obtain hold | rfl | hnew := mem_run hx
    · exact h x hold
    · trivial
    · exact next_soon hnext (h a (List.mem_of_getElem? hi)) hnew
  | destroy =>
    obtain ⟨hreleased, hcases⟩ := step_destroy hstep
    intro x hx
    obtain rfl : x = .done := by
      obtain ⟨_, rfl⟩ | ⟨_, rfl⟩ := hcases
      · exact hreleased x hx
      · exact hreleased x (closeSocket_activities s ▸ hx)
    trivial

theorem isStopped_step {s s' : State} (a : Action) (h : s.isStopped = true)
    (hstep : step s a = some s') : s'.isStopped = true := by
  cases a with
  | tick ms =>
    cases hstep
    exact h
  | run i ok =>
    obtain ⟨a, b, started, _, _, rfl⟩ := step_run hstep
    exact effect_isStopped ok a h
  | destroy =>
    obtain ⟨_, ⟨_, rfl⟩ | ⟨_, rfl⟩⟩ := step_destroy hstep
    · exact h
    · rfl

/-- Only the socket and the timer let an activity wait. -/
theorem next_enabled (s : State) {a : Activity} (hdone : a ≠ .done)
    (hsocket : a ≠ .reading ∧ a ≠ .writing) (htimer : ∀ expiry, a ≠ .waiting expiry) :
    (next s true a).isSome = true := by
  cases a with
  | reading => exact absurd rfl hsocket.1
  | writing => exact absurd rfl hsocket.2
  | waiting expiry => exact absurd rfl (htimer expiry)
  | done => exact absurd rfl hdone
  | _ => rfl

theorem step_of_next {s : State} {i : Nat} {ok : Bool} {a : Activity}
    (hi : s.activities[i]? = some a) (h : (next s ok a).isSome = true) :
    ∃ s', step s (.run i ok) = some s' := by
  obtain ⟨⟨b, started⟩, hnext⟩ := Option.isSome_iff_exists.mp h
  exact ⟨_, by simp only [step, hi, hnext]; rfl⟩

/-- A handler that waits for nobody is owed. -/
theorem owed_of_free {s : State} {a : Activity} (ha : a ∈ s.activities) (hdone : a ≠ .done)
    (hsocket : a ≠ .reading ∧ a ≠ .writing) (htimer : ∀ expiry, a ≠ .waiting expiry) :
    ∃ x s', Owed s x ∧ step s x = some s' := by
  obtain ⟨i, hi⟩ := List.getElem?_of_mem ha
  obtain ⟨s', hs'⟩ := step_of_next hi (next_enabled s hdone hsocket htimer)
  refine ⟨.run i true, s', fun x hx hblocked => ?_, hs'⟩
  obtain rfl : a = x := Option.some.inj (hi.symm.trans hx)
  exact absurd hblocked (not_or.mpr hsocket)

/-- As long as something of a stopped connection is left, a step is owed. -/
theorem Stopped.exists_owed {s : State} (h : Stopped s) (hleft : ¬ Released s) :
    ∃ x s', Owed s x ∧ step s x = some s' := by
  obtain ⟨a, ha, hdone⟩ : ∃ a ∈ s.activities, a ≠ .done := by simpa [Released] using hleft
  have hsocket : a = .reading ∨ a = .writing → ∃ x s', Owed s x ∧ step s x = some s' := by
    intro hblocked
    cases hopen : s.socketOpen with
    | false =>
      obtain ⟨i, hi⟩ := List.getElem?_of_mem ha
      have hnext : (next s false a).isSome = true := by
        obtain rfl | rfl := hblocked <;> rfl
      obtain ⟨s', hs'⟩ := step_of_next hi hnext
      exact ⟨.run i false, s', fun _ _ _ => ⟨rfl, hopen⟩, hs'⟩
    | true =>
      -- the `Stop` that will close it is under way
      have hsum := h.inv.stopped h.stopped
      have hcloses := h.inv.socket.mp hopen
      obtain ⟨x, hx, hstops⟩ := List.countP_pos_iff.mp
        (show 0 < s.activities.countP Activity.stops by omega)
      refine owed_of_free hx ?_ ⟨?_, ?_⟩ fun expiry => ?_ <;> (rintro rfl; cases hstops)
  cases a with
  | reading => exact hsocket (.inl rfl)
  | writing => exact hsocket (.inr rfl)
  | waiting expiry =>
    by_cases hexpired : expiry ≤ s.now
    · obtain ⟨i, hi⟩ := List.getElem?_of_mem ha
      have hnext : (next s true (.waiting expiry)).isSome = true := by simp [next, hexpired]
      obtain ⟨s', hs'⟩ := step_of_next hi hnext
      refine ⟨.run i true, s', fun x hx hblocked => ?_, hs'⟩
      obtain rfl : .waiting expiry = x := Option.some.inj (hi.symm.trans hx)
      obtain hno | hno := hblocked <;> cases hno
    · exact ⟨.tick 1, _, ⟨Nat.one_pos, expiry, ha, Nat.gt_of_not_le hexpired⟩, rfl⟩
  | done => exact absurd rfl hdone
  | _ => exact owed_of_free ha hdone ⟨nofun, nofun⟩ nofun

/-- From a connection that is stopped, nothing keeps it alive for long. In whatever
order the handlers go on, the operations on its socket fail and the timer expires, they
come to an end after at most 5004 steps, ticks of the clock among them, for each that is
not done yet, and then nothing is left of it, and its socket is closed. That can take five
seconds, as `Stop` does not cancel a wait that another thread is about to start. -/
theorem released_run {now : Nat} {as : List Action} {s : State}
    (hrun : run step (State.start now) as = some s) (hstopped : s.isStopped = true) :
    Finishes step Owed (fun s => Released s ∧ s.closes = 1)
      (5004 * s.activities.countP (· ≠ .done)) s := by
  have hinv : Inv s := holdsAlong_last (P := Inv)
    (holdsAlong_of_step (fun _ a _ h hstep => h.step a hstep) (fun _ h => h) (inv_start now)) hrun
  have hsoon : ∀ a ∈ s.activities, a.Soon s.now :=
    holdsAlong_last (P := fun s => ∀ a ∈ s.activities, a.Soon s.now)
      (holdsAlong_of_step (fun _ a _ h hstep => soon_step a h hstep) (fun _ h => h)
        fun a ha => by rw [List.mem_singleton.mp ha]; trivial) hrun
  have hstart : Stopped s := ⟨hinv, hstopped, hsoon⟩
  refine finishes_of_measure (μ := State.work) ?_ ?_ ?_ hstart ?_
  · exact fun s a s' h _ hstep =>
      ⟨h.inv.step a hstep, isStopped_step a h.stopped hstep, soon_step a h.soon hstep⟩
  · intro s a s' h howed hstep
    cases a with
    | tick ms =>
      obtain ⟨hpos, expiry, hwaiting, hle⟩ := howed
      cases hstep
      exact work_tick_lt hpos hwaiting hle
    | run i ok => exact h.run_lt howed hstep
    | destroy => exact howed.elim
  · intro s h hleft
    refine h.exists_owed fun hreleased => hleft ⟨hreleased, ?_⟩
    exact h.inv.closed.stopped h.stopped fun a ha => by rw [hreleased a ha]; rfl
  · rw [Nat.mul_comm]
    refine sum_map_le_countP (fun a ha => work_le (hsoon a ha)) fun a _ hdone => ?_
    obtain rfl : a = .done := by simpa using hdone
    rfl

/-- The client goes away, and the connection is stopped while the heartbeat is about to
start its wait on another thread. -/
theorem released_run_late :
    let race := [Action.run 0 true, .run 0 true, .run 0 true, .run 1 false, .run 1 true,
      .run 1 true, .run 1 true, .run 1 true, .run 0 true, .run 0 true]
    let s : State := { State.start 0 with
      isStopped := true
      socketOpen := false
      activities := [.waiting 5000, .done]
      closes := 1 }
    run step (State.start 0) race = some s ∧
      Finishes step Owed (fun s => Released s ∧ s.closes = 1) 5004 s := by
  intro race s
  have hrun : run step (State.start 0) race = some s := by decide
  exact ⟨hrun, released_run hrun rfl⟩

end IMSystem.Gateway.Lifecycle

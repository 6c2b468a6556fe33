import IMSystem.Common.RabbitMQClient
import IMSystem.Lib.Progress
import IMSystem.Push.PushManager

/-!
# The push service at its queue (`push/main.cpp`)

Push services subscribe to one queue with `HandleIncomingPushTask` as their callback. The
broker keeps a message until it has processed an acknowledgement; what it has handed to a
service goes back to the queue with a reject, or when the connection is lost. A service whose
`Subscribe` has ended stays connected, and the broker goes on handing messages to it, up to
the prefetch limit.

A turn of the consume loop is one step here. The callback sends one notification at most, so
a process that dies in the middle of a turn has done what it does in a turn whose
acknowledgement is lost, or nothing.

Results:
1. `Message.Accounted`, `accounted_run`: every message is pushed once for each call of the
   callback, and leaves the queue with exactly one acknowledgement behind a call.
2. `drained_run`: no message, whatever its bytes, keeps the queue from being emptied.
-/

namespace IMSystem.Push.Consuming

open Lib RabbitMQClient PushManager
open Json (Api)

/-! ## The broker and the services -/

/-- Where the broker has a message. -/
inductive Place where
  | ready
  /-- In the buffer of a service. -/
  | prefetched (service : Nat)
  /-- With a service that has taken it up, neither acknowledged nor rejected. -/
  | unsettled (service : Nat)
  | acknowledged
deriving DecidableEq, Repr

/-- A published message, with what has been done about it. -/
structure Message where
  body : Bytes
  place : Place
  /-- For each call of the callback, whether the broker has processed the acknowledgement. -/
  calls : List Bool
  pushed : List Notification
deriving DecidableEq, Repr

structure Service where
  connected : Bool
  /-- What is left in the buffer of a connection that is lost. -/
  stale : List Nat
  /-- How `Subscribe` has ended, if it has. -/
  result : Option (Except Exn Bool)

/-- All messages in the order of their publication. -/
structure State where
  messages : List Message
  services : List Service

def State.start : State := ⟨[], []⟩

inductive Action where
  | publish (body : Bytes)
  /-- A service starts: `Connect` and `BasicConsume`. -/
  | connect
  /-- The broker hands a message to a service. -/
  | deliver (n c : Nat)
  /-- A turn of the consume loop; `ack` and `reject` are how the operations on the channel go. -/
  | consume (c n : Nat) (ack reject : Outcome)
  /-- A turn with a message of the lost connection. -/
  | consumeStale (c n : Nat) (ack reject : Exn)
  /-- The connection of a service is lost, or the process ends. -/
  | lose (c : Nat)
  /-- `BasicConsumeMessage` raises. -/
  | raises (c : Nat) (e : Exn)

/-- The fifth argument of `BasicConsume`. -/
def prefetchCount : Nat := 100

/-- What a service holds of the queue. -/
def Place.At (c : Nat) (p : Place) : Prop := p = .prefetched c ∨ p = .unsettled c

instance (c : Nat) : DecidablePred (Place.At c) := fun p =>
  inferInstanceAs (Decidable (p = .prefetched c ∨ p = .unsettled c))

def State.load (s : State) (c : Nat) : Nat := s.messages.countP fun m => m.place.At c

/-- The messages in the buffer of a service. -/
def State.buffer (s : State) (c : Nat) : List Nat :=
  (List.range s.messages.length).filter fun n =>
    s.messages[n]?.map Message.place = some (.prefetched c)

/-- What a service holds goes back to the queue. -/
def Message.requeue (c : Nat) (m : Message) : Message :=
  if m.place.At c then { m with place := .ready } else m

/-- How a turn of the loop leaves `Subscribe`. -/
def ended : Except Exn Unit → Option (Except Exn Bool)
  | .ok () => none
  | .error (.std _) => some (.ok false)
  | .error .other => some (.error .other)

section Turns

variable (J : Api)

/-- The lambda in `StartPushService`. -/
def callback (_ : Nat) (msg : Bytes) : Except Exn Unit :=
  (handleIncomingPushTask J msg).map fun _ => ()

/-- What a call of the callback sends. -/
def sent (body : Bytes) : List Notification :=
  match handleIncomingPushTask J body with
  | .ok pushed => pushed
  | .error _ => []

/-- A message after a turn with it. `kept`: where it is if the broker has processed nothing. -/
def Message.taken (n : Nat) (log : List Entry) (kept : Place) (m : Message) : Message :=
  { m with
    place := if ⟨n, .acked⟩ ∈ log then .acknowledged
      else if ⟨n, .rejected⟩ ∈ log then .ready else kept
    calls := m.calls ++ [decide (⟨n, .acked⟩ ∈ log)]
    pushed := m.pushed ++ sent J m.body }

/-- A service takes a message up. -/
def State.turn (s : State) (c n : Nat) (service : Service) (m : Message) (kept : Place)
    (ack reject : Outcome) : State :=
  let turn := handle (callback J) n ⟨m.body, ack, reject⟩ []
  { messages := s.messages.set n (m.taken J n turn.2 kept)
    services := s.services.set c { service with result := ended turn.1 } }

def step (s : State) : Action → Option State
  | .publish body => some { s with messages := s.messages ++ [⟨body, .ready, [], []⟩] }
  | .connect => some { s with services := s.services ++ [⟨true, [], none⟩] }
  | .deliver n c =>
    match s.messages[n]?, s.services[c]? with
    | some m, some service =>
      if m.place = .ready ∧ service.connected = true ∧ s.load c < prefetchCount then
        some { s with messages := s.messages.set n { m with place := .prefetched c } }
      else none
    | _, _ => none
  | .consume c n ack reject =>
    match s.messages[n]?, s.services[c]? with
    | some m, some service =>
      if m.place = .prefetched c ∧ service.result.isNone = true then
        some (s.turn J c n service m (.unsettled c) ack reject)
      else none
    | _, _ => none
  | .consumeStale c n ack reject =>
    match s.messages[n]?, s.services[c]? with
    | some m, some service =>
      if n ∈ service.stale ∧ service.result.isNone = true then
        some (s.turn J c n { service with stale := service.stale.erase n } m m.place
          ⟨.before, ack⟩ ⟨.before, reject⟩)
      else none
    | _, _ => none
  | .lose c =>
    match s.services[c]? with
    | some service =>
      if service.connected = true then
        some
          { messages := s.messages.map (Message.requeue c)
            services := s.services.set c { service with connected := false, stale := s.buffer c } }
      else none
    | none => none
  | .raises c e =>
    match s.services[c]? with
    | some service =>
      if service.result.isNone = true then
        some { s with services := s.services.set c { service with result := ended (.error e) } }
      else none
    | none => none

/-- All that a step does. -/
inductive Next (s : State) : Action → State → Prop
  | publish (body : Bytes) :
    Next s (.publish body) { s with messages := s.messages ++ [⟨body, .ready, [], []⟩] }
  | connect : Next s .connect { s with services := s.services ++ [⟨true, [], none⟩] }
  | deliver {n c : Nat} {m : Message} {service : Service} : s.messages[n]? = some m →
    s.services[c]? = some service → m.place = .ready → service.connected = true →
    Next s (.deliver n c)
      { s with messages := s.messages.set n { m with place := .prefetched c } }
  | consume {c n : Nat} {m : Message} {service : Service} (ack reject : Outcome) :
    s.messages[n]? = some m → s.services[c]? = some service → m.place = .prefetched c →
    service.result = none →
    Next s (.consume c n ack reject) (s.turn J c n service m (.unsettled c) ack reject)
  | consumeStale {c n : Nat} {m : Message} {service : Service} (ack reject : Exn) :
    s.messages[n]? = some m → s.services[c]? = some service → service.result = none →
    Next s (.consumeStale c n ack reject)
      (s.turn J c n { service with stale := service.stale.erase n } m m.place
        ⟨.before, ack⟩ ⟨.before, reject⟩)
  | lose {c : Nat} {service : Service} : s.services[c]? = some service →
    Next s (.lose c)
      { messages := s.messages.map (Message.requeue c)
        services := s.services.set c { service with connected := false, stale := s.buffer c } }
  | raises {c : Nat} {service : Service} (e : Exn) : s.services[c]? = some service →
    Next s (.raises c e)
      { s with services := s.services.set c { service with result := ended (.error e) } }

theorem next_of_step {s s' : State} {a : Action} (hstep : step J s a = some s') :
    Next J s a s' := by
  cases a with
  | publish body =>
    cases hstep
    exact .publish body
  | connect =>
    cases hstep
    exact .connect
  | deliver n c =>
    simp only [step] at hstep
    split at hstep
    · next m service hm hc =>
      split at hstep
      · next hguard =>
        cases hstep
        exact .deliver hm hc hguard.1 hguard.2.1
      · cases hstep
    · cases hstep
  | consume c n ack reject =>
    simp only [step] at hstep
    split at hstep
    · next m service hm hc =>
      split at hstep
      · next hguard =>
        cases hstep
        exact .consume ack reject hm hc hguard.1 (Option.isNone_iff_eq_none.mp hguard.2)
      · cases hstep
    · cases hstep
  | consumeStale c n ack reject =>
    simp only [step] at hstep
    split at hstep
    · next m service hm hc =>
      split at hstep
      · next hguard =>
        cases hstep
        exact .consumeStale ack reject hm hc (Option.isNone_iff_eq_none.mp hguard.2)
      · cases hstep
    · cases hstep
  | lose c =>
    simp only [step] at hstep
    split at hstep
    · next service hc =>
      split at hstep
      · cases hstep
        exact .lose hc
      · cases hstep
    · cases hstep
  | raises c e =>
    simp only [step] at hstep
    split at hstep
    · next service hc =>
      split at hstep
      · cases hstep
        exact .raises e hc
      · cases hstep
    · cases hstep

/-! ## One turn of the loop -/

theorem handleIncomingPushTask_returns (body : Bytes) :
    handleIncomingPushTask J body = .ok (sent J body) := by
  obtain ⟨pushed, hpushed, _⟩ := handleIncomingPushTask_pushes J (parseMessage_eq J body)
  rw [sent, hpushed]

/-- The callback lets nothing out. -/
theorem callback_returns (n : Nat) (body : Bytes) : callback J n body = .ok () := by
  rw [callback, handleIncomingPushTask_returns]
  rfl

theorem mem_turn_iff (n : Nat) (d : Delivery) (kind : Kind) :
    ⟨n, kind⟩ ∈ (handle (callback J) n d []).2 ↔
      kind = .returned ∨ kind = .acked ∧ d.ack.Processed ∨
        kind = .rejected ∧ d.ack.RaisesStd ∧ d.reject.Processed := by
  have hentry : ∀ kinds : List Kind, ⟨n, kind⟩ ∈ kinds.map (Entry.mk n) ↔ kind ∈ kinds := by
    intro kinds
    rw [List.mem_map]
    constructor
    · rintro ⟨_, hmem, heq⟩
      cases heq
      exact hmem
    · intro hmem
      exact ⟨kind, hmem, rfl⟩
  rw [handle_log, List.nil_append, hentry, added, callback_returns]
  simp only [List.cons_append, List.mem_cons, List.mem_append, mem_entry]
  by_cases hraises : d.ack.RaisesStd
  · simp only [hraises, if_true, mem_entry, true_and]
  · simp only [hraises, if_false, List.not_mem_nil, false_and, and_false]

theorem acked_mem_iff (n : Nat) (d : Delivery) :
    ⟨n, .acked⟩ ∈ (handle (callback J) n d []).2 ↔ d.ack.Processed := by
  rw [mem_turn_iff]
  constructor
  · rintro (h | ⟨_, hack⟩ | ⟨h, _⟩)
    · cases h
    · exact hack
    · cases h
  · exact fun hack => .inr (.inl ⟨rfl, hack⟩)

theorem rejected_mem_iff (n : Nat) (d : Delivery) :
    ⟨n, .rejected⟩ ∈ (handle (callback J) n d []).2 ↔ d.ack.RaisesStd ∧ d.reject.Processed := by
  rw [mem_turn_iff]
  constructor
  · rintro (h | ⟨h, _⟩ | ⟨_, hreject⟩)
    · cases h
    · cases h
    · exact hreject
  · exact fun hreject => .inr (.inr ⟨rfl, hreject⟩)

/-- An acknowledgement that succeeds keeps the loop going. -/
theorem ended_of_acknowledged {n : Nat} {d : Delivery} (h : d.ack.fault = .none) :
    ended (handle (callback J) n d []).1 = none := by
  unfold handle RabbitMQClient.tryCatch
  rw [acknowledge_apply (callback_returns J n d.body), if_pos h]
  rfl

/-- A turn that the broker has heard nothing of is the last one. -/
theorem ended_of_unsettled {n : Nat} {d : Delivery} (hack : ¬ d.ack.Processed)
    (hreject : ¬ (d.ack.RaisesStd ∧ d.reject.Processed)) :
    (ended (handle (callback J) n d []).1).isSome = true := by
  have hbefore : d.ack.fault = .before := Classical.not_not.mp hack
  have hfault : d.ack.fault ≠ .none := by
    rw [hbefore]
    decide
  unfold handle RabbitMQClient.tryCatch
  rw [acknowledge_apply (callback_returns J n d.body), if_neg hfault]
  cases hexn : d.ack.exn with
  | other => rfl
  | std what =>
    have hraises : d.ack.RaisesStd := ⟨hfault, by rw [hexn]; exact fun h => by cases h⟩
    have hlost : d.reject.fault = .before := Classical.not_not.mp fun h => hreject ⟨hraises, h⟩
    have hnone : d.reject.fault ≠ .none := by
      rw [hlost]
      decide
    simp only [basicReject, under_entry, if_neg hnone]
    cases d.reject.exn with
    | std _ => rfl
    | other => rfl

/-! ## What has been done about a message -/

/-- One push for each call of the callback, and exactly one acknowledgement by the time the
message has left the queue. -/
structure Message.Accounted (m : Message) : Prop where
  acknowledged : m.calls.count true = if m.place = .acknowledged then 1 else 0
  pushed : handleIncomingPushTask J m.body = .ok (sent J m.body) ∧
    m.pushed = (List.replicate m.calls.length (sent J m.body)).flatten

variable {J}

/-- A message that is not acknowledged may go anywhere else. -/
theorem Message.Accounted.move {m : Message} (h : m.Accounted J) (hm : m.place ≠ .acknowledged)
    {place : Place} (hplace : place ≠ .acknowledged) : { m with place } |>.Accounted J where
  acknowledged := by
    rw [if_neg hplace]
    exact h.acknowledged.trans (if_neg hm)
  pushed := h.pushed

theorem Message.Accounted.requeue {m : Message} (h : m.Accounted J) (c : Nat) :
    (m.requeue c).Accounted J := by
  unfold Message.requeue
  split
  · next hat =>
    refine h.move ?_ (fun h => by cases h)
    rintro hgone
    rw [hgone] at hat
    obtain hat | hat := hat
    · cases hat
    · cases hat
  · exact h

/-- A turn calls the callback once, and the broker forgets the message when it processes the
acknowledgement. It hears nothing about a message that it has forgotten already. -/
theorem Message.Accounted.taken {m : Message} (h : m.Accounted J) (n : Nat) (d : Delivery)
    {kept : Place} (hkept : kept = .acknowledged ↔ m.place = .acknowledged)
    (hgone : m.place = .acknowledged → ¬ d.ack.Processed ∧ ¬ d.reject.Processed) :
    (m.taken J n (handle (callback J) n d []).2 kept).Accounted J where
  acknowledged := by
    have hcount := h.acknowledged
    simp only [Message.taken, List.count_append, acked_mem_iff, rejected_mem_iff]
    by_cases hack : d.ack.Processed
    · have hm : m.place ≠ .acknowledged := fun heq => (hgone heq).1 hack
      rw [if_neg hm] at hcount
      simp [hack, hcount]
    · by_cases hreject : d.ack.RaisesStd ∧ d.reject.Processed
      · have hm : m.place ≠ .acknowledged := fun heq => (hgone heq).2 hreject.2
        rw [if_neg hm] at hcount
        simp [hack, hreject, hcount]
      · simp [hack, hreject, hcount, hkept]
  pushed := by
    refine ⟨h.pushed.1, ?_⟩
    simp only [Message.taken, List.length_append, List.length_singleton, List.replicate_succ',
      List.flatten_append, h.pushed.2, List.flatten_singleton]

/-! ## Where messages are held -/

/-- Only a service that is connected holds messages, and one that it has taken up without
telling the broker was its last one. -/
def Held (services : List Service) : Place → Prop
  | .ready => True
  | .prefetched c => ∃ service, services[c]? = some service ∧ service.connected = true
  | .unsettled c => ∃ service, services[c]? = some service ∧ service.connected = true ∧
    service.result.isSome = true
  | .acknowledged => True

/-- The connection of a service and the end of its loop last. -/
theorem Held.set {services : List Service} {c : Nat} {service service' : Service}
    (hc : services[c]? = some service)
    (hconnected : service.connected = true → service'.connected = true)
    (hresult : service.result.isSome = true → service'.result.isSome = true) {p : Place}
    (h : Held services p) : Held (services.set c service') p := by
  have hlen : c < services.length := (List.getElem?_eq_some_iff.mp hc).1
  cases p with
  | ready | acknowledged => trivial
  | prefetched c' =>
    obtain ⟨other, hother, hconn⟩ := h
    by_cases hcc : c = c'
    · subst hcc
      cases hc.symm.trans hother
      exact ⟨service', List.getElem?_set_self hlen, hconnected hconn⟩
    · exact ⟨other, (List.getElem?_set_ne hcc).trans hother, hconn⟩
  | unsettled c' =>
    obtain ⟨other, hother, hconn, hres⟩ := h
    by_cases hcc : c = c'
    · subst hcc
      cases hc.symm.trans hother
      exact ⟨service', List.getElem?_set_self hlen, hconnected hconn, hresult hres⟩
    · exact ⟨other, (List.getElem?_set_ne hcc).trans hother, hconn, hres⟩

theorem Held.append {services : List Service} (service : Service) {p : Place}
    (h : Held services p) : Held (services ++ [service]) p := by
  have hold : ∀ {c other}, services[c]? = some other → (services ++ [service])[c]? = some other :=
    fun hother => by
      rw [List.getElem?_append_left (List.getElem?_eq_some_iff.mp hother).1]
      exact hother
  cases p with
  | ready | acknowledged => trivial
  | prefetched c =>
    obtain ⟨other, hother, hrest⟩ := h
    exact ⟨other, hold hother, hrest⟩
  | unsettled c =>
    obtain ⟨other, hother, hrest⟩ := h
    exact ⟨other, hold hother, hrest⟩

/-- When a connection is lost, its messages are back in the queue. -/
theorem Held.lose {services : List Service} {c : Nat} (service' : Service) {m : Message}
    (h : Held services m.place) : Held (services.set c service') (m.requeue c).place := by
  unfold Message.requeue
  split
  · trivial
  · next hat =>
    cases hplace : m.place with
    | ready | acknowledged => trivial
    | prefetched c' =>
      have hcc : c ≠ c' := fun heq => hat (.inl (heq ▸ hplace))
      rw [hplace] at h
      obtain ⟨other, hother, hrest⟩ := h
      exact ⟨other, (List.getElem?_set_ne hcc).trans hother, hrest⟩
    | unsettled c' =>
      have hcc : c ≠ c' := fun heq => hat (.inr (heq ▸ hplace))
      rw [hplace] at h
      obtain ⟨other, hother, hrest⟩ := h
      exact ⟨other, (List.getElem?_set_ne hcc).trans hother, hrest⟩

variable (J) in
/-- Every message is accounted for, and held where it can be. -/
def Inv (s : State) : Prop := ∀ m ∈ s.messages, m.Accounted J ∧ Held s.services m.place

section Keeping

variable {s : State} (h : Inv J s)

include h

theorem Inv.set {n : Nat} {m : Message} {services : List Service}
    (hservices : ∀ p, Held s.services p → Held services p) (haccounted : m.Accounted J)
    (hheld : Held services m.place) : Inv J ⟨s.messages.set n m, services⟩ := by
  intro m' hm'
  obtain hold | rfl := List.mem_or_eq_of_mem_set hm'
  · exact ⟨(h m' hold).1, hservices _ (h m' hold).2⟩
  · exact ⟨haccounted, hheld⟩

/-- A turn of the loop of a service that is still running. -/
theorem Inv.turn {c n : Nat} {service service' : Service} {m : Message} {kept : Place}
    {ack reject : Outcome} (hm : s.messages[n]? = some m) (hc : s.services[c]? = some service)
    (hrunning : service.result = none) (hconnected : service'.connected = service.connected)
    (hkept : kept = .acknowledged ↔ m.place = .acknowledged)
    (hgone : m.place = .acknowledged → ¬ ack.Processed ∧ ¬ reject.Processed)
    (hheld : ∀ result : Option (Except Exn Bool), result.isSome = true →
      Held (s.services.set c { service' with result }) kept) :
    Inv J (s.turn J c n service' m kept ack reject) := by
  have hmem := List.mem_of_getElem? hm
  refine h.set (fun p hp => ?_) ((h m hmem).1.taken n ⟨m.body, ack, reject⟩ hkept hgone) ?_
  · refine hp.set hc ?_ ?_
    · exact fun hconn => hconnected.trans hconn
    · intro hsome
      rw [hrunning] at hsome
      cases hsome
  · simp only [Message.taken, acked_mem_iff, rejected_mem_iff]
    split
    · trivial
    · next hack =>
      split
      · trivial
      · next hreject => exact hheld _ (ended_of_unsettled J hack hreject)

theorem Inv.step {s' : State} {a : Action} (hstep : step J s a = some s') : Inv J s' := by
  cases next_of_step J hstep with
  | publish body =>
    intro m hm
    obtain hold | hnew := List.mem_append.mp hm
    · exact h m hold
    · obtain rfl := List.mem_singleton.mp hnew
      exact ⟨⟨rfl, handleIncomingPushTask_returns J body, rfl⟩, trivial⟩
  | connect => exact fun m hm => ⟨(h m hm).1, (h m hm).2.append _⟩
  | deliver hm hc hready hconn =>
    refine h.set (fun _ hp => hp) ((h _ (List.mem_of_getElem? hm)).1.move ?_ ?_) ⟨_, hc, hconn⟩
    · rw [hready]
      exact fun heq => by cases heq
    · exact fun heq => by cases heq
  | @consume c n m service ack reject hm hc hplace hresult =>
    have hheld := (h m (List.mem_of_getElem? hm)).2
    rw [hplace] at hheld
    obtain ⟨other, hother, hconn⟩ := hheld
    cases hc.symm.trans hother
    have hlen : c < s.services.length := (List.getElem?_eq_some_iff.mp hc).1
    refine h.turn hm hc hresult rfl ?_ ?_ fun result hsome =>
      ⟨_, List.getElem?_set_self hlen, hconn, hsome⟩
    · rw [hplace]
      constructor
      · exact fun heq => by cases heq
      · exact fun heq => by cases heq
    · rw [hplace]
      exact fun heq => by cases heq
  | consumeStale ack reject hm hc hresult =>
    refine h.turn hm hc hresult rfl Iff.rfl ?_ fun result hsome => ?_
    · exact fun _ => ⟨fun hprocessed => hprocessed rfl, fun hprocessed => hprocessed rfl⟩
    · refine (h _ (List.mem_of_getElem? hm)).2.set hc ?_ ?_
      · exact id
      · exact fun _ => hsome
  | lose hc =>
    intro m hm
    obtain ⟨old, hold, rfl⟩ := List.mem_map.mp hm
    exact ⟨(h old hold).1.requeue _, (h old hold).2.lose _⟩
  | raises e hc =>
    refine fun m hm => ⟨(h m hm).1, (h m hm).2.set hc ?_ ?_⟩
    · exact id
    · intro _
      cases e with
      | std _ => rfl
      | other => rfl

end Keeping

end Turns

section Emptying

variable {J : Api}

/-- Some service is connected, and those that are connected are inside `Subscribe`. -/
def Alive (s : State) : Prop :=
  (∃ (c : Nat) (service : Service), s.services[c]? = some service ∧ service.connected = true) ∧
    ∀ service ∈ s.services, service.connected = true → service.result = none

/-- The broker delivers, and the services take up and acknowledge. -/
def Smooth (_ : State) : Action → Prop
  | .deliver _ _ => True
  | .consume _ _ ack _ => ack.fault = .none
  | _ => False

def Emptied (s : State) : Prop := ∀ m ∈ s.messages, m.place = .acknowledged

/-- The smooth steps that a message still needs. -/
def Place.steps : Place → Nat
  | .ready => 2
  | .prefetched _ => 1
  | .unsettled _ => 0
  | .acknowledged => 0

def distance (s : State) : Nat := (s.messages.map fun m => m.place.steps).sum

/-- Only the messages in the queue count. -/
theorem distance_le (s : State) :
    distance s ≤ 2 * s.messages.countP (·.place ≠ .acknowledged) := by
  rw [Nat.mul_comm]
  refine sum_map_le_countP (fun m _ => ?_) fun m _ hacknowledged => ?_
  · cases m.place with
    | ready => exact Nat.le_refl _
    | prefetched c => exact Nat.le_succ _
    | unsettled c | acknowledged => exact Nat.zero_le _
  · have hplace : m.place = .acknowledged := by simpa using hacknowledged
    rw [hplace]
    rfl

/-- A turn whose acknowledgement succeeds. -/
theorem turn_acknowledged {s : State} {c n : Nat} {service : Service} {m : Message}
    {kept : Place} {ack reject : Outcome} (hack : ack.fault = .none) :
    s.turn J c n service m kept ack reject =
      ⟨s.messages.set n ⟨m.body, .acknowledged, m.calls ++ [true], m.pushed ++ sent J m.body⟩,
        s.services.set c { service with result := none }⟩ := by
  have hended := ended_of_acknowledged J (n := n) (d := ⟨m.body, ack, reject⟩) hack
  have hacked : ⟨n, .acked⟩ ∈ (handle (callback J) n ⟨m.body, ack, reject⟩ []).2 := by
    rw [acked_mem_iff]
    show ack.fault ≠ .before
    rw [hack]
    decide
  simp only [State.turn, Message.taken, hended, if_pos hacked, decide_eq_true hacked]

/-- All that a smooth step does. -/
theorem smooth_cases {s s' : State} {a : Action} (hsmooth : Smooth s a)
    (hstep : step J s a = some s') :
    (∃ n c m, s.messages[n]? = some m ∧ m.place = .ready ∧
      s' = { s with messages := s.messages.set n { m with place := .prefetched c } }) ∨
    ∃ n c m service, s.messages[n]? = some m ∧ m.place = .prefetched c ∧
      s.services[c]? = some service ∧ service.result = none ∧
      s' = ⟨s.messages.set n ⟨m.body, .acknowledged, m.calls ++ [true], m.pushed ++ sent J m.body⟩,
        s.services.set c { service with result := none }⟩ := by
  cases next_of_step J hstep with
  | deliver hm hc hready hconn => exact .inl ⟨_, _, _, hm, hready, rfl⟩
  | consume ack reject hm hc hplace hresult =>
    exact .inr ⟨_, _, _, _, hm, hplace, hc, hresult, turn_acknowledged hsmooth⟩
  | publish | connect | consumeStale | lose | raises => exact hsmooth.elim

theorem distance_step {s s' : State} {a : Action} (hsmooth : Smooth s a)
    (hstep : step J s a = some s') : distance s' < distance s := by
  obtain ⟨n, c, m, hm, hplace, rfl⟩ | ⟨n, c, m, service, hm, hplace, _, _, rfl⟩ :=
    smooth_cases hsmooth hstep
  · have hsum := sum_map_set (fun m => m.place.steps) { m with place := .prefetched c } hm
    simp only [hplace, Place.steps] at hsum
    exact Nat.lt_of_succ_le (Nat.le_of_eq (Nat.add_right_cancel (m := 1) hsum))
  · have hsum := sum_map_set (fun m => m.place.steps)
      ⟨m.body, .acknowledged, m.calls ++ [true], m.pushed ++ sent J m.body⟩ hm
    simp only [hplace, Place.steps] at hsum
    exact Nat.lt_of_succ_le (Nat.le_of_eq hsum)

theorem alive_step {s s' : State} {a : Action} (h : Alive s) (hsmooth : Smooth s a)
    (hstep : step J s a = some s') : Alive s' := by
  obtain ⟨n, c, m, hm, hplace, rfl⟩ | ⟨n, c, m, service, hm, hplace, hc, hresult, rfl⟩ :=
    smooth_cases hsmooth hstep
  · exact h
  · have hsame : s.services.set c { service with result := none } = s.services := by
      obtain ⟨hlen, rfl⟩ := List.getElem?_eq_some_iff.mp hc
      rw [← hresult]
      exact List.set_getElem_self hlen
    show Alive ⟨_, s.services.set c { service with result := none }⟩
    rw [hsame]
    exact h

/-- A message in the buffer of a service that is alive can be taken up. -/
theorem exists_consume {s : State} (hinv : Inv J s) (halive : Alive s) {m : Message} {c : Nat}
    (hm : m ∈ s.messages) (hat : m.place.At c) :
    ∃ a s', Smooth s a ∧ step J s a = some s' := by
  have hheld := (hinv m hm).2
  obtain hplace | hplace := hat
  · rw [hplace] at hheld
    obtain ⟨service, hc, hconn⟩ := hheld
    have hresult := halive.2 service (List.mem_of_getElem? hc) hconn
    obtain ⟨n, hn⟩ := List.mem_iff_getElem?.mp hm
    have hstep : step J s (.consume c n ⟨.none, .other⟩ ⟨.none, .other⟩) =
        some (s.turn J c n service m (.unsettled c) ⟨.none, .other⟩ ⟨.none, .other⟩) := by
      simp only [step, hn, hc]
      exact if_pos ⟨hplace, Option.isNone_iff_eq_none.mpr hresult⟩
    exact ⟨.consume c n ⟨.none, .other⟩ ⟨.none, .other⟩, _, rfl, hstep⟩
  · rw [hplace] at hheld
    obtain ⟨service, hc, hconn, hsome⟩ := hheld
    rw [halive.2 service (List.mem_of_getElem? hc) hconn] at hsome
    cases hsome

/-- As long as a message is in the queue, a smooth step is possible. -/
theorem exists_smooth {s : State} (hinv : Inv J s) (halive : Alive s) (hrest : ¬ Emptied s) :
    ∃ a s', Smooth s a ∧ step J s a = some s' := by
  unfold Emptied at hrest
  push Not at hrest
  obtain ⟨m, hm, hplace⟩ := hrest
  cases hcase : m.place with
  | acknowledged => exact absurd hcase hplace
  | prefetched c => exact exists_consume hinv halive hm (.inl hcase)
  | unsettled c => exact exists_consume hinv halive hm (.inr hcase)
  | ready =>
    obtain ⟨c, service, hc, hconn⟩ := halive.1
    by_cases hload : s.load c < prefetchCount
    · obtain ⟨n, hn⟩ := List.mem_iff_getElem?.mp hm
      have hstep : step J s (.deliver n c) =
          some { s with messages := s.messages.set n { m with place := .prefetched c } } := by
        simp only [step, hn, hc]
        exact if_pos ⟨hcase, hconn, hload⟩
      exact ⟨.deliver n c, _, trivial, hstep⟩
    · -- The buffer of the service is full, so it has something to take up.
      have hfull : 0 < s.load c :=
        Nat.lt_of_lt_of_le (by decide) (Nat.le_of_not_lt hload)
      obtain ⟨m', hm', hat⟩ := List.countP_pos_iff.mp hfull
      exact exists_consume hinv halive hm' (of_decide_eq_true hat)

end Emptying

/-- In every state of every run: if the services that are connected are inside `Subscribe`, and
there is one, then as long as the channels do not fail the queue is emptied after at most two
steps for each message that is still in it, whichever messages they are and whoever takes them
up. -/
theorem drained_run (J : Api) (actions : List Action) :
    HoldsAlong (step J)
      (fun s => Alive s →
        Finishes (step J) Smooth Emptied (2 * s.messages.countP (·.place ≠ .acknowledged)) s ∧
          ∃ as s', StepsMeet (step J) Smooth s as ∧ run (step J) s as = some s' ∧ Emptied s')
      .start actions := by
  refine holdsAlong_of_step (fun s _ _ (h : Inv J s) hstep => h.step hstep) (fun s h halive => ?_)
    fun _ hm => absurd hm List.not_mem_nil
  have hfinishes : Finishes (step J) Smooth Emptied
      (2 * s.messages.countP (·.place ≠ .acknowledged)) s :=
    finishes_of_measure
      (fun s _ _ (h : Inv J s ∧ Alive s) hsmooth hstep =>
        ⟨h.1.step hstep, alive_step h.2 hsmooth hstep⟩)
      (fun _ _ _ _ hsmooth hstep => distance_step hsmooth hstep)
      (fun _ h hrest => exists_smooth h.1 h.2 hrest) ⟨h, halive⟩ (distance_le s)
  exact ⟨hfinishes, hfinishes.exists_run⟩

end IMSystem.Push.Consuming

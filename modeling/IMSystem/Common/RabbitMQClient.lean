import IMSystem.Common.Retry
import IMSystem.Lib.Run

/-!
# Consuming a queue (`common/src/mq/rabbitmq_client.cpp`)

`Subscribe` hands each delivery to the callback and acknowledges it. The callback
and the acknowledgement share one `try` block; its handler for `std::exception`
rejects the delivery with requeue, whichever of the two has raised. An operation
on the channel may raise before or after the broker has processed it. The log is
kept at the broker, with the returns of the callback between its entries.

Results:
1. `handle_log`: what one delivery adds to the log, as a list of its own.
2. `proper_iff`: the runs in which every delivery is disposed of as the callback
   came out.
-/

namespace IMSystem.RabbitMQClient

open Lib

/-! ## The consume loop -/

/-- What happens to a delivery. -/
inductive Kind where
  /-- The callback has returned normally. -/
  | returned
  /-- The broker has processed a `BasicAck`. -/
  | acked
  /-- The broker has processed a `BasicReject` with requeue. -/
  | rejected
deriving DecidableEq, Repr

/-- An entry of the log, with the delivery that it is about. -/
structure Entry where
  tag : Nat
  kind : Kind
deriving DecidableEq, Repr

/-- How an operation on the channel goes, and what it raises if it does. -/
structure Outcome where
  fault : Fault
  exn : Exn
deriving DecidableEq, Repr

/-- A message, and how the operations go that may be made on its delivery. -/
structure Delivery where
  body : Bytes
  ack : Outcome
  reject : Outcome
deriving DecidableEq, Repr

/-- What one `BasicConsumeMessage` comes to. -/
inductive Event where
  /-- It returns `false`. -/
  | timeout
  | raises (e : Exn)
  | delivery (d : Delivery)
deriving DecidableEq, Repr

section Loop

-- what the call of the callback for a delivery comes to
variable (callback : Nat → Bytes → Except Exn Unit)

/-- `callback(envelope->Message()->Body())`. -/
def callCallback (tag : Nat) (body : Bytes) : Call (List Entry) Unit := do
  Eff.ofExcept (callback tag body)
  Eff.modify (· ++ [⟨tag, .returned⟩])

/-- `channel_->BasicAck(envelope)`. -/
def basicAck (o : Outcome) (tag : Nat) : Call (List Entry) Unit :=
  Eff.under o.fault o.exn (Eff.modify (· ++ [⟨tag, .acked⟩]))

/-- `channel_->BasicReject(envelope, true)`. -/
def basicReject (o : Outcome) (tag : Nat) : Call (List Entry) Unit :=
  Eff.under o.fault o.exn (Eff.modify (· ++ [⟨tag, .rejected⟩]))

/-- `try { m } catch (const std::exception& e) { handler }`. -/
def tryCatch {σ α : Type} (m handler : Call σ α) : Call σ α := fun s =>
  match m s with
  | (.ok a, s') => (.ok a, s')
  | (.error (.std _), s') => handler s'
  | (.error .other, s') => (.error .other, s')

/-- The body of the `if`: a message has arrived. -/
def handle (tag : Nat) (d : Delivery) : Call (List Entry) Unit :=
  tryCatch
    (do
      callCallback callback tag d.body
      basicAck d.ack tag)
    (basicReject d.reject tag)

/-- One iteration of `while (true)`. -/
def iteration (tag : Nat) : Event → Call (List Entry) Unit
  | .timeout => pure ()
  | .raises e => Eff.raise e
  | .delivery d => handle callback tag d

structure State where
  /-- The deliveries so far. -/
  delivered : Nat
  log : List Entry
  /-- How `Subscribe` has ended, if it has. -/
  result : Option (Except Exn Bool)

/-- The state after `BasicConsume`. -/
def State.start : State := ⟨0, [], none⟩

/-- The number of deliveries in an event. -/
def Event.deliveries : Event → Nat
  | .delivery _ => 1
  | _ => 0

/-- One iteration of the loop, unless `Subscribe` has ended: a `std::exception`
ends it with `false`, any other exception leaves it. -/
def step (s : State) (e : Event) : Option State :=
  match s.result with
  | some _ => none
  | none =>
    match iteration callback s.delivered e s.log with
    | (.ok (), log) => some ⟨s.delivered + e.deliveries, log, none⟩
    | (.error (.std _), log) => some ⟨s.delivered + e.deliveries, log, some (.ok false)⟩
    | (.error .other, log) => some ⟨s.delivered + e.deliveries, log, some (.error .other)⟩

end Loop

/-! ## What is asked of the log -/

/-- What happened to a delivery, in order. -/
def history (tag : Nat) (log : List Entry) : List Kind :=
  (log.filter (·.tag = tag)).map Entry.kind

/-- A delivery is acknowledged only behind the normal return of its callback, it
gets at most one disposition, and it is not rejected when the callback returned
normally. -/
structure Disposed (history : List Kind) : Prop where
  acked_behind : ∀ front rest, history = front ++ .acked :: rest → .returned ∈ front
  one : history.count .acked + history.count .rejected ≤ 1
  kept : .returned ∈ history → .rejected ∉ history

/-- Every delivery is properly disposed of. -/
def Proper (s : State) : Prop := ∀ tag, Disposed (history tag s.log)

/-- The operation raises a `std::exception`. -/
def Outcome.RaisesStd (o : Outcome) : Prop := o.fault ≠ .none ∧ o.exn ≠ .other

/-- The broker processes the operation. -/
def Outcome.Processed (o : Outcome) : Prop := o.fault ≠ .before

instance : DecidablePred Outcome.RaisesStd := fun o =>
  inferInstanceAs (Decidable (o.fault ≠ .none ∧ o.exn ≠ .other))

instance : DecidablePred Outcome.Processed := fun o =>
  inferInstanceAs (Decidable (o.fault ≠ .before))

/-- It does not happen that the callback returns normally, the acknowledgement
raises a `std::exception`, and the broker then processes the reject. -/
def Careful (callback : Nat → Bytes → Except Exn Unit) (s : State) : Event → Prop
  | .delivery d =>
    ¬ (callback s.delivered d.body = .ok () ∧ d.ack.RaisesStd ∧ d.reject.Processed)
  | _ => True

/-! ## What one delivery adds to the log -/

section Proofs

variable {callback : Nat → Bytes → Except Exn Unit}

/-- The entries of an operation that the broker processes or not. -/
def Outcome.entry (o : Outcome) (kind : Kind) : List Kind :=
  if o.Processed then [kind] else []

/-- What one delivery adds to the log. After a callback that returns, a reject
needs an acknowledgement that raises a `std::exception`. -/
def added (callback : Nat → Bytes → Except Exn Unit) (tag : Nat) (d : Delivery) : List Kind :=
  match callback tag d.body with
  | .error (.std _) => d.reject.entry .rejected
  | .error .other => []
  | .ok () =>
    .returned :: d.ack.entry .acked ++
      if d.ack.RaisesStd then d.reject.entry .rejected else []

theorem under_entry (o : Outcome) (tag : Nat) (kind : Kind) (log : List Entry) :
    (Eff.under o.fault o.exn (Eff.modify (· ++ [⟨tag, kind⟩])) : Call (List Entry) Unit) log =
      (if o.fault = .none then .ok () else .error o.exn,
        log ++ (o.entry kind).map (Entry.mk tag)) := by
  obtain ⟨fault, exn⟩ := o
  cases fault with
  | none => rfl
  | before => exact congrArg (Prod.mk _) (List.append_nil log).symm
  | after => rfl

/-- The `try` block after a callback that returns. -/
theorem acknowledge_apply {tag : Nat} {d : Delivery} (h : callback tag d.body = .ok ())
    (log : List Entry) :
    (do
      callCallback callback tag d.body
      basicAck d.ack tag : Call (List Entry) Unit) log =
      (if d.ack.fault = .none then .ok () else .error d.ack.exn,
        log ++ (.returned :: d.ack.entry .acked).map (Entry.mk tag)) := by
  have hack := under_entry d.ack tag .acked (log ++ [⟨tag, .returned⟩])
  rw [List.append_assoc] at hack
  rw [callCallback, h]
  exact hack

/-- The `try` block after a callback that raises. -/
theorem raise_apply {tag : Nat} {d : Delivery} {e : Exn} (h : callback tag d.body = .error e)
    (log : List Entry) :
    (do
      callCallback callback tag d.body
      basicAck d.ack tag : Call (List Entry) Unit) log = (.error e, log) := by
  rw [callCallback, h]
  rfl

theorem handle_log (tag : Nat) (d : Delivery) (log : List Entry) :
    (handle callback tag d log).2 = log ++ (added callback tag d).map (Entry.mk tag) := by
  unfold handle tryCatch added
  cases hcallback : callback tag d.body with
  | error e =>
    rw [raise_apply hcallback]
    cases e with
    | std what => exact congrArg Prod.snd (under_entry d.reject tag .rejected log)
    | other => exact (List.append_nil log).symm
  | ok u =>
    rw [acknowledge_apply hcallback]
    by_cases hnone : d.ack.fault = .none
    · simp [hnone, Outcome.RaisesStd]
    · rw [if_neg hnone]
      cases hexn : d.ack.exn with
      | std what =>
        refine (congrArg Prod.snd (under_entry d.reject tag .rejected _)).trans ?_
        simp [hnone, hexn, Outcome.RaisesStd]
      | other => simp [hexn, Outcome.RaisesStd]

/-! ## Proper histories -/

/-- A callback that returns normally may be followed by an acknowledgement. -/
theorem disposed_returned {rest : List Kind} (hone : rest.count .acked ≤ 1)
    (hrejected : .rejected ∉ rest) : Disposed (.returned :: rest) where
  acked_behind := by
    intro front rest' heq
    cases front with
    | nil => cases heq
    | cons k front =>
      cases heq
      exact List.mem_cons_self
  one := by
    have hnone : (.returned :: rest : List Kind).count .rejected = 0 :=
      List.count_eq_zero.mpr (by simpa using hrejected)
    rw [hnone]
    simpa using hone
  kept := by
    intro _
    simpa using hrejected

/-- Without a return of the callback, at most a reject is proper. -/
theorem disposed_rejected {history : List Kind} (hall : ∀ k ∈ history, k = .rejected)
    (hone : history.length ≤ 1) : Disposed history where
  acked_behind := by
    rintro front rest rfl
    cases hall .acked (by simp)
  one := by
    have hnone : history.count .acked = 0 :=
      List.count_eq_zero.mpr fun hmem => nomatch hall _ hmem
    rw [hnone, Nat.zero_add]
    exact Nat.le_trans List.count_le_length hone
  kept := fun hmem => nomatch hall _ hmem

theorem mem_entry {o : Outcome} {kind k : Kind} : k ∈ o.entry kind ↔ k = kind ∧ o.Processed := by
  unfold Outcome.entry
  split
  · next h => simp [h]
  · next h => simp [h]

theorem length_entry (o : Outcome) (kind : Kind) : (o.entry kind).length ≤ 1 := by
  unfold Outcome.entry
  split <;> simp

/-- One delivery is properly disposed of exactly if the broker does not process a
reject after a normal return of the callback. -/
theorem disposed_added_iff (tag : Nat) (d : Delivery) :
    Disposed (added callback tag d) ↔
      ¬ (callback tag d.body = .ok () ∧ d.ack.RaisesStd ∧ d.reject.Processed) := by
  unfold added
  cases callback tag d.body with
  | error e =>
    refine ⟨fun _ h => (nomatch h.1), fun _ => ?_⟩
    cases e with
    | std what =>
      exact disposed_rejected (fun k hk => (mem_entry.mp hk).1) (length_entry d.reject .rejected)
    | other => exact disposed_rejected (fun k hk => absurd hk List.not_mem_nil) (Nat.zero_le _)
  | ok u =>
    constructor
    · rintro h ⟨_, hraises, hprocessed⟩
      refine h.kept List.mem_cons_self ?_
      simp only [if_pos hraises]
      exact List.mem_append_right _ (mem_entry.mpr ⟨rfl, hprocessed⟩)
    · intro h
      have hkept : (if d.ack.RaisesStd then d.reject.entry .rejected else []) = [] := by
        split
        · next hraises =>
          exact if_neg fun hprocessed => h ⟨rfl, hraises, hprocessed⟩
        · rfl
      simp only [hkept, List.append_nil]
      refine disposed_returned ?_ fun hmem => (nomatch (mem_entry.mp hmem).1)
      exact Nat.le_trans List.count_le_length (length_entry d.ack .acked)

/-! ## Runs of the loop -/

/-- The entries of the log are about deliveries that have arrived. -/
def Arrived (s : State) : Prop := ∀ e ∈ s.log, e.tag < s.delivered

/-- What an iteration adds to the log. -/
def addedBy (callback : Nat → Bytes → Except Exn Unit) (tag : Nat) : Event → List Kind
  | .delivery d => added callback tag d
  | _ => []

theorem step_log {s s' : State} {e : Event} (h : step callback s e = some s') :
    s'.delivered = s.delivered + e.deliveries ∧
      s'.log = s.log ++ (addedBy callback s.delivered e).map (Entry.mk s.delivered) := by
  have hlog : (iteration callback s.delivered e s.log).2 =
      s.log ++ (addedBy callback s.delivered e).map (Entry.mk s.delivered) := by
    cases e with
    | timeout | raises => exact (List.append_nil _).symm
    | delivery d => exact handle_log s.delivered d s.log
  rw [← hlog]
  unfold step at h
  cases hresult : s.result with
  | some r =>
    rw [hresult] at h
    cases h
  | none =>
    rw [hresult] at h
    match hrun : iteration callback s.delivered e s.log with
    | (.ok (), log) | (.error (.std _), log) | (.error .other, log) =>
      simp only [hrun, Option.some.injEq] at h
      rw [← h]
      exact ⟨rfl, rfl⟩

/-- New entries are the whole history of their delivery and no part of any other. -/
theorem history_append {log : List Entry} {n : Nat} (hlog : ∀ e ∈ log, e.tag < n)
    (kinds : List Kind) (tag : Nat) :
    history tag (log ++ kinds.map (Entry.mk n)) = if tag = n then kinds else history tag log := by
  unfold history
  rw [List.filter_append, List.map_append]
  by_cases htag : tag = n
  · have hnone : log.filter (·.tag = tag) = [] :=
      List.filter_eq_nil_iff.mpr fun e he => by simp [htag, Nat.ne_of_lt (hlog e he)]
    have hall : (kinds.map (Entry.mk n)).filter (·.tag = tag) = kinds.map (Entry.mk n) :=
      List.filter_eq_self.mpr fun e he => by
        obtain ⟨k, _, rfl⟩ := List.mem_map.mp he
        simp [htag]
    rw [hnone, hall, if_pos htag, List.map_nil, List.nil_append, List.map_map]
    exact List.map_id kinds
  · have hnone : (kinds.map (Entry.mk n)).filter (·.tag = tag) = [] :=
      List.filter_eq_nil_iff.mpr fun e he => by
        obtain ⟨k, _, rfl⟩ := List.mem_map.mp he
        simp [Ne.symm htag]
    rw [hnone, if_neg htag, List.map_nil, List.append_nil]

theorem arrived_step {s s' : State} {e : Event} (h : Arrived s)
    (hstep : step callback s e = some s') : Arrived s' := by
  obtain ⟨hdelivered, hlog⟩ := step_log hstep
  intro entry hentry
  rw [hlog] at hentry
  rw [hdelivered]
  rcases List.mem_append.mp hentry with hold | hnew
  · exact Nat.lt_add_right _ (h entry hold)
  · cases e with
    | timeout | raises => exact absurd hnew List.not_mem_nil
    | delivery d =>
      obtain ⟨k, _, rfl⟩ := List.mem_map.mp hnew
      exact Nat.lt_add_one _

/-- An iteration keeps the log proper exactly if it is careful. -/
theorem proper_step {s s' : State} {e : Event} (h : Arrived s) (hproper : Proper s)
    (hstep : step callback s e = some s') : Proper s' ↔ Careful callback s e := by
  have hhistory : ∀ tag, history tag s'.log =
      if tag = s.delivered then addedBy callback s.delivered e else history tag s.log := by
    intro tag
    rw [(step_log hstep).2]
    exact history_append h _ tag
  have hadded : Proper s' ↔ Disposed (addedBy callback s.delivered e) := by
    constructor
    · intro hproper'
      have := hproper' s.delivered
      rwa [hhistory, if_pos rfl] at this
    · intro hdisposed tag
      rw [hhistory]
      split
      · exact hdisposed
      · exact hproper tag
  rw [hadded]
  cases e with
  | timeout | raises =>
    exact ⟨fun _ => trivial, fun _ =>
      disposed_rejected (fun k hk => absurd hk List.not_mem_nil) (Nat.zero_le _)⟩
  | delivery d => exact disposed_added_iff s.delivered d

/-- The runs of the consume loop in which every delivery is acknowledged only after
its callback returned, gets at most one disposition, and is not rejected after a
normal return are those in which no reject is processed because a
`std::exception` left the acknowledgement. -/
theorem proper_iff (callback : Nat → Bytes → Except Exn Unit) (events : List Event) :
    HoldsAlong (step callback) Proper .start events ↔
      StepsMeet (step callback) (Careful callback) .start events := by
  have hstart : Proper .start := fun _ =>
    disposed_rejected (fun k hk => absurd hk List.not_mem_nil) (Nat.zero_le _)
  exact holdsAlong_iff (fun _ _ _ h hstep => arrived_step h hstep)
    (fun _ _ _ h hproper hstep => proper_step h hproper hstep)
    (fun e he => absurd he List.not_mem_nil) hstart

/-- The broker processes the acknowledgement, but the operation raises all the
same; then the broker processes the reject as well. -/
def lateFailure : Event :=
  .delivery ⟨str "push", ⟨.after, .std (str "connection closed")⟩, ⟨.none, .other⟩⟩

theorem lateFailure_not_proper :
    ¬ HoldsAlong (step fun _ _ => .ok ()) Proper .start [lateFailure] := by
  rintro ⟨_, h⟩
  exact absurd ((h _ rfl) 0).one (by decide)

end Proofs

end IMSystem.RabbitMQClient

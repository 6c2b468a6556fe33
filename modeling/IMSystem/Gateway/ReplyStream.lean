import IMSystem.Gateway.GatewayServer

/-!
# The replies of a TCP connection on the wire (`gateway/src/tcp_server.cpp`)

`Send` copies its argument to `write_msg_` and starts an `async_write` on that
buffer. It does not wait for the write that was started before: `DoRead` is
called again as soon as a request is handled, and the next reply replaces the
contents of the buffer under a write that is still going on.

A write is given the length that the buffer had when it was started. It makes
progress in steps, each of which hands on the next bytes of what the buffer
contains at that moment. What lies behind the end of a shorter text is the choice
of the environment.

Results:
1. `Inv.step`: what a step keeps when no reply is passed to `Send` during a write.
2. `intact_of_safe`: in every run in which that is never the case, the client has
   always received a prefix of the replies, in their order.
-/

namespace IMSystem.Gateway.ReplyStream

open Lib GatewayServer

/-! ## The writing side of a connection -/

/-- An `async_write`: the length of the buffer it was started on, and the number
of bytes that are written. -/
structure Write where
  size : Nat
  written : Nat
deriving DecidableEq, Repr

def Write.Finished (w : Write) : Prop := w.size ≤ w.written

instance : DecidablePred Write.Finished := fun w => inferInstanceAs (Decidable (w.size ≤ w.written))

structure State where
  /-- The strings passed to `Send`. -/
  sent : List Bytes
  /-- `write_msg_`. -/
  writeMsg : Bytes
  /-- The calls of `async_write`, in their order. -/
  writes : List Write
  /-- The bytes that have reached the client. -/
  delivered : Bytes
  /-- An `async_read_some` is outstanding. -/
  reading : Bool
  /-- `is_stopped_`. -/
  stopped : Bool
  /-- The calls of `ForwardToLogicService` so far. -/
  forwarded : Nat
deriving DecidableEq, Repr

/-- The state after `TcpConnection::Start`. -/
def State.start : State := ⟨[], [], [], [], true, false, 0⟩

inductive Action where
  /-- A read completes. -/
  | read (bytes : Bytes)
  /-- The `i`-th write hands on its next `k` bytes; `stale` lies behind the
  contents of the buffer. -/
  | write (i k : Nat) (stale : Bytes)
  /-- `Stop`. -/
  | stop
deriving DecidableEq, Repr

/-- `TcpConnection::Send` and `DoWrite`. -/
def State.send (s : State) (msg : Bytes) : State :=
  if s.stopped then { s with sent := s.sent ++ [msg] }
  else
    { s with
      sent := s.sent ++ [msg]
      writeMsg := msg
      writes := s.writes ++ [⟨msg.length, 0⟩] }

section Step

variable (J : JsonCpp) (build : Build)

/-- The handler of `DoRead`. A read that raises is not followed by another. -/
def onRead (s : State) (bytes : Bytes) : State :=
  match parseAndRouteMessage J build s.forwarded bytes [] with
  | (r, events) =>
    let s := (sends events).foldl State.send s
    { s with
      forwarded := s.forwarded + (forwards events).length
      reading := r.toBool }

def step (s : State) : Action → Option State
  | .read bytes =>
    if s.reading = true ∧ 1 ≤ bytes.length ∧ bytes.length ≤ 1024 then some (onRead J build s bytes)
    else none
  | .write i k stale =>
    match s.writes[i]? with
    | some w =>
      if s.stopped = false ∧ 1 ≤ k ∧ w.written + k ≤ w.size ∧
          w.written + k ≤ (s.writeMsg ++ stale).length then
        some { s with
          delivered := s.delivered ++ ((s.writeMsg ++ stale).drop w.written).take k
          writes := s.writes.set i ⟨w.size, w.written + k⟩ }
      else none
    | none => none
  | .stop => some { s with stopped := true }

/-- What the client has received is a prefix of the replies. -/
def Intact (s : State) : Prop := s.delivered <+: s.sent.flatten

instance : DecidablePred Intact := fun s =>
  inferInstanceAs (Decidable (s.delivered <+: s.sent.flatten))

/-- A request that will be answered arrives only when all replies before it are
written. -/
def Safe (s : State) : Action → Prop
  | .read bytes =>
    s.stopped = false → Answerable J build s.forwarded bytes → ∀ w ∈ s.writes, w.Finished
  | _ => True

/-- No request at all arrives while a reply is being written. -/
def Quiet (s : State) : Action → Prop
  | .read _ => ∀ w ∈ s.writes, w.Finished
  | _ => True

instance (s : State) : DecidablePred (Quiet s) := fun a =>
  match a with
  | .read _ => inferInstanceAs (Decidable (∀ w ∈ s.writes, w.Finished))
  | .write .. | .stop => isTrue trivial

variable {J build} in
theorem safe_of_quiet {s : State} {a : Action} (h : Quiet s a) : Safe J build s a := by
  cases a with
  | read bytes => exact fun _ _ => h
  | write | stop => exact trivial

end Step

/-! ## The last write accounts for what is missing -/

/-- The bytes that the last write has still to hand on. -/
def State.remaining (s : State) : Bytes :=
  match s.writes.getLast? with
  | some w => s.writeMsg.drop w.written
  | none => []

/-- As long as the connection is open, the last write runs on the whole buffer, all
earlier ones are finished, and only what remains of the last one is missing at
the client. -/
structure Inv (s : State) : Prop where
  intact : s.delivered <+: s.sent.flatten
  account : s.stopped = false → s.delivered ++ s.remaining = s.sent.flatten
  last : ∀ w, s.writes.getLast? = some w → w.size = s.writeMsg.length
  earlier : ∀ w ∈ s.writes.dropLast, w.Finished

theorem inv_start : Inv .start where
  intact := List.nil_prefix
  account := fun _ => rfl
  last := by
    intro w hw
    cases hw
  earlier := by
    intro w hw
    cases hw

/-- When all writes are finished nothing remains. -/
theorem Inv.remaining_of_finished {s : State} (h : Inv s) (hall : ∀ w ∈ s.writes, w.Finished) :
    s.remaining = [] := by
  unfold State.remaining
  split
  · next w hw =>
    have hfinished : w.size ≤ w.written := hall w (List.mem_of_getLast? hw)
    rw [h.last w hw] at hfinished
    exact List.drop_eq_nil_of_le hfinished
  · rfl

/-- A reply that is passed to `Send` after all writes are finished. -/
theorem Inv.send {s : State} (h : Inv s) (msg : Bytes)
    (hall : s.stopped = false → ∀ w ∈ s.writes, w.Finished) : Inv (s.send msg) := by
  unfold State.send
  split
  · next hstopped =>
    refine ⟨?_, fun hopen => ?_, h.last, h.earlier⟩
    · rw [List.flatten_append]
      exact h.intact.trans (List.prefix_append _ _)
    · exact absurd (hstopped.symm.trans hopen) Bool.noConfusion
  · next hstopped =>
    rw [Bool.not_eq_true] at hstopped
    have hdelivered : s.delivered = s.sent.flatten := by
      have haccount := h.account hstopped
      rwa [h.remaining_of_finished (hall hstopped), List.append_nil] at haccount
    have hflatten : (s.sent ++ [msg]).flatten = s.delivered ++ msg := by
      rw [List.flatten_append, ← hdelivered, List.flatten_singleton]
    refine ⟨?_, fun _ => ?_, ?_, ?_⟩
    · show s.delivered <+: (s.sent ++ [msg]).flatten
      rw [hflatten]
      exact List.prefix_append _ _
    · simp [State.remaining, hdelivered]
    · intro w hw
      simp only [List.getLast?_append, List.getLast?_singleton, Option.some_or,
        Option.some.injEq] at hw
      rw [← hw]
    · intro w hw
      rw [List.dropLast_concat] at hw
      exact hall hstopped w hw

/-- A write that can make progress is the last one. -/
theorem Inv.writes_eq {s : State} (h : Inv s) {i : Nat} {w : Write} (hw : s.writes[i]? = some w)
    (hopen : w.written < w.size) :
    ∃ front, s.writes = front ++ [w] ∧ i = front.length := by
  rcases List.eq_nil_or_concat' s.writes with hnil | ⟨front, v, hwrites⟩
  · rw [hnil] at hw
    cases hw
  · have hearlier := h.earlier
    rw [hwrites, List.dropLast_concat] at hearlier
    rw [hwrites] at hw
    rcases Nat.lt_or_ge i front.length with hlt | hge
    · rw [List.getElem?_append_left hlt] at hw
      exact absurd (hearlier w (List.mem_of_getElem? hw)) (Nat.not_le_of_lt hopen)
    · rw [List.getElem?_append_right hge, List.getElem?_singleton] at hw
      split at hw
      · next hi =>
        cases hw
        exact ⟨front, hwrites, by omega⟩
      · cases hw

/-- Within the contents of the buffer, what lies behind them is not read. -/
theorem chunk_eq {writeMsg : Bytes} {written k : Nat} (h : written + k ≤ writeMsg.length)
    (stale : Bytes) :
    ((writeMsg ++ stale).drop written).take k = (writeMsg.drop written).take k := by
  rw [List.drop_append_of_le_length (by omega),
    List.take_append_of_le_length (by rw [List.length_drop]; omega)]

/-- Progress of a write hands on the first of the bytes that remain. -/
theorem Inv.write {s : State} (h : Inv s) {i k : Nat} {stale : Bytes} {w : Write}
    (hw : s.writes[i]? = some w) (hopen : s.stopped = false) (hpos : 1 ≤ k)
    (hsize : w.written + k ≤ w.size) :
    Inv { s with
      delivered := s.delivered ++ ((s.writeMsg ++ stale).drop w.written).take k
      writes := s.writes.set i ⟨w.size, w.written + k⟩ } := by
  obtain ⟨front, hwrites, rfl⟩ := h.writes_eq hw (by omega)
  have hlast : w.size = s.writeMsg.length := h.last w (by rw [hwrites, List.getLast?_concat])
  have hset : s.writes.set front.length ⟨w.size, w.written + k⟩ =
      front ++ [⟨w.size, w.written + k⟩] := by
    rw [hwrites, List.set_append_right _ _ (Nat.le_refl _), Nat.sub_self, List.set_cons_zero]
  have haccount := h.account hopen
  rw [State.remaining, hwrites, List.getLast?_concat] at haccount
  -- what remained is what is handed on now and what remains afterwards
  have hsplit : (s.writeMsg.drop w.written).take k ++ s.writeMsg.drop (w.written + k) =
      s.writeMsg.drop w.written := by
    rw [← List.drop_drop, List.take_append_drop]
  have hdelivered : (s.delivered ++ (s.writeMsg.drop w.written).take k) ++
      s.writeMsg.drop (w.written + k) = s.sent.flatten := by
    rw [List.append_assoc, hsplit]
    exact haccount
  have hearlier := h.earlier
  rw [hwrites, List.dropLast_concat] at hearlier
  rw [chunk_eq (hlast ▸ hsize), hset]
  refine ⟨⟨_, hdelivered⟩, fun _ => ?_, ?_, ?_⟩
  · rw [State.remaining, List.getLast?_concat]
    exact hdelivered
  · intro v hv
    rw [List.getLast?_concat] at hv
    cases hv
    exact hlast
  · intro v hv
    rw [List.dropLast_concat] at hv
    exact hearlier v hv

/-- A read passes one reply to `Send`, or none when it raises. -/
theorem Inv.onRead {J : JsonCpp} {build : Build} {s : State} (h : Inv s) {bytes : Bytes}
    (hsafe : Safe J build s (.read bytes)) : Inv (onRead J build s bytes) := by
  unfold ReplyStream.onRead
  rcases parseAndRouteMessage_cases J build s.forwarded bytes with
    ⟨events, msg, hrun, hsends⟩ | ⟨events, e, hrun, hsends⟩
  · have hanswerable : Answerable J build s.forwarded bytes :=
      (parseAndRouteMessage_returns_iff s.forwarded bytes).mp ⟨(), events, hrun⟩
    have hsent := h.send msg fun hopen => hsafe hopen hanswerable
    simp only [hrun, hsends, List.foldl_cons, List.foldl_nil]
    exact ⟨hsent.intact, hsent.account, hsent.last, hsent.earlier⟩
  · simp only [hrun, hsends, List.foldl_nil]
    exact ⟨h.intact, h.account, h.last, h.earlier⟩

theorem Inv.step {J : JsonCpp} {build : Build} {s s' : State} {a : Action} (h : Inv s)
    (hsafe : Safe J build s a) (hstep : step J build s a = some s') : Inv s' := by
  cases a with
  | read bytes =>
    simp only [ReplyStream.step] at hstep
    split at hstep
    · cases hstep
      exact h.onRead hsafe
    · cases hstep
  | write i k stale =>
    simp only [ReplyStream.step] at hstep
    split at hstep
    · next w hw =>
      split at hstep
      · next hcond =>
        obtain ⟨hopen, hpos, hsize, _⟩ := hcond
        cases hstep
        exact h.write hw hopen hpos hsize
      · cases hstep
    · cases hstep
  | stop =>
    cases hstep
    exact ⟨h.intact, fun hopen => Bool.noConfusion hopen, h.last, h.earlier⟩

/-- As long as no answered request arrives while an earlier reply is still being
written, the client has received, at every moment, a prefix of the replies in
their order: none is lost, repeated or mixed with another. -/
theorem intact_of_safe {J : JsonCpp} {build : Build} {actions : List Action}
    (hsafe : StepsMeet (step J build) (Safe J build) .start actions) :
    HoldsAlong (step J build) Intact .start actions :=
  holdsAlong_of_inv (fun _ _ _ h hs hstep => h.step hs hstep) (fun _ h => h.intact) inv_start hsafe

/-- A heartbeat, written in two steps, and then another request. -/
def oneByOne : List Action :=
  [.read (str "PING\n"), .write 0 2 [], .write 0 3 [], .read (str "x"), .write 1 9 []]

theorem oneByOne_intact : HoldsAlong (step smallJson .mock) Intact .start oneByOne := by
  have hquiet : StepsMeet (step smallJson .mock) Quiet .start oneByOne := by decide +kernel
  exact intact_of_safe (stepsMeet_mono (fun s a h => safe_of_quiet h) hquiet)

/-- The reply to the second request replaces the first one in the buffer before
anything of it is written. -/
theorem overwritten_reply_not_intact :
    ¬ HoldsAlong (step smallJson .mock) Intact .start
      [.read (str "PING\n"), .read (str "x"), .write 0 1 []] := by
  decide +kernel

end IMSystem.Gateway.ReplyStream

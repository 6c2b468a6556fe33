import IMSystem.Gateway.TcpConnection
import IMSystem.Lib.Run

/-!
# The worker threads of the gateway (`gateway/src/gateway_server.cpp`)

The threads of `GatewayServer` execute the handlers of one `io_context`. A handler
that lets an exception out ends the `run` of its thread: the thread logs it and
is gone, and the operation that the handler was to start again is not
outstanding any more. A handler touches its own connection only, so it counts as
one step; a run is any order of client events.

Results:
1. `parseAndRouteMessage_returns_iff`: the reads that are answered without an
   exception.
2. `sound_iff`: the runs in which no thread, no `async_accept` and no answer is
   ever lost.
-/

namespace IMSystem.Gateway.GatewayServer

open Lib Retry MessageProcessor

/-! ## The threads and their handlers -/

structure State where
  /-- The threads inside `io_context::run`. -/
  workers : Nat
  /-- An `async_accept` is outstanding. -/
  accepting : Bool
  /-- For each connection, whether an `async_read_some` is outstanding. -/
  reading : List Bool
  /-- The calls of `ForwardToLogicService` so far. -/
  forwarded : Nat
  /-- The exceptions that have left a handler. -/
  escaped : List Exn
  /-- The number of `Send` calls for each read, in the order of the reads. -/
  answers : List Nat
deriving DecidableEq, Repr

/-- `GatewayServer::Run` with a pool of `threads` threads. -/
def State.start (threads : Nat) : State := ⟨threads, true, [], 0, [], []⟩

/-- What an `async_accept` completes with. The client of an accepted socket may
already have reset the connection. -/
inductive Accept where
  | error
  | socket (connected : Bool)
deriving DecidableEq, Repr

/-- What a client does to the gateway. -/
inductive Event where
  | accept (result : Accept)
  | read (c : Nat) (bytes : Bytes)
  | readError (c : Nat)
deriving DecidableEq, Repr

/-- `DoRead`. -/
def doRead (c : Nat) : Call State Unit :=
  Eff.modify fun s => { s with reading := s.reading.set c true }

/-- What `remote_endpoint()` raises on a socket without a client. -/
def notConnected : Exn := .std (str "remote_endpoint: Transport endpoint is not connected")

/-- `TcpConnection::Start`. Its log line asks for the address of the client with
the overload of `remote_endpoint` that raises. -/
def startConnection (connected : Bool) : Call State Unit := do
  if !connected then Eff.raise notConnected
  else Eff.modify fun s => { s with reading := s.reading ++ [true] }

/-- `DoAccept`. -/
def doAccept : Call State Unit := Eff.modify fun s => { s with accepting := true }

/-- The handler of `DoAccept`. -/
def onAccept : Accept → Call State Unit
  | .error => doAccept
  | .socket connected => do
    startConnection connected
    doAccept

section Reads

variable (J : JsonCpp) (build : Build)

/-- The handler of `DoRead`, on a read without error. -/
def onRead (c : Nat) (bytes : Bytes) : Call State Unit := fun s =>
  match parseAndRouteMessage J build s.forwarded bytes [] with
  | (r, events) =>
    let s :=
      { s with
        forwarded := s.forwarded + (forwards events).length
        answers := s.answers ++ [(sends events).length] }
    match r with
    | .ok () => doRead c s
    | .error e => (.error e, s)

/-- An exception leaves a handler. The thread function catches a `std::exception`
and ends; any other exception terminates the process. -/
def State.escape (s : State) : Exn → State
  | .std what => { s with workers := s.workers - 1, escaped := s.escaped ++ [.std what] }
  | .other =>
    { s with
      workers := 0
      accepting := false
      reading := s.reading.map fun _ => false
      escaped := s.escaped ++ [.other] }

/-- A thread executes a handler. -/
def execute (handler : Call State Unit) (s : State) : State :=
  match handler s with
  | (.ok (), s') => s'
  | (.error e, s') => s'.escape e

/-- One event. An operation that completes is not outstanding while its handler
is executed. -/
def step (s : State) : Event → Option State
  | .accept result =>
    if 0 < s.workers ∧ s.accepting = true then
      some (execute (onAccept result) { s with accepting := false })
    else none
  | .read c bytes =>
    if 0 < s.workers ∧ s.reading[c]? = some true ∧ 1 ≤ bytes.length ∧ bytes.length ≤ 1024 then
      some (execute (onRead J build c bytes) { s with reading := s.reading.set c false })
    else none
  | .readError c =>
    if 0 < s.workers ∧ s.reading[c]? = some true then
      some { s with reading := s.reading.set c false }
    else none

/-! ## What is asked of a run, and of an event -/

/-- No exception has left a handler, all threads are at work, the gateway accepts
connections, and every read was answered once. -/
structure Sound (threads : Nat) (s : State) : Prop where
  escaped : s.escaped = []
  workers : s.workers = threads
  accepting : s.accepting = true
  answered : ∀ k ∈ s.answers, k = 1

/-- The payload has the fields of a `SendMsgReq`, each of a type that converts. -/
structure Readable (payload : J.Value) : Prop where
  msgId : ∃ v, (J.get payload (str "msg_id") >>= J.asString) = .ok v
  senderId : ∃ v, (J.get payload (str "sender_id") >>= J.asUInt64) = .ok v
  receiverId : ∃ v, (J.get payload (str "receiver_id") >>= J.asUInt64) = .ok v
  sessionType : ∃ v, (J.get payload (str "session_type") >>= J.asInt) = .ok v
  msgType : ∃ v, (J.get payload (str "msg_type") >>= J.asInt) = .ok v
  content : ∃ v, (J.get payload (str "content") >>= J.asString) = .ok v

/-- The `n`-th forwarded message can be handed on: its payload is readable, and
one of the four attempts of the RPC is answered. The mock reads the id only. -/
def Deliverable (n : Nat) (payload : J.Value) : Prop :=
  match build with
  | .mock => ∃ v, (J.get payload (str "msg_id") >>= J.asString) = .ok v
  | .grpc rpc => Readable J payload ∧ ∃ i ≤ 3, ∃ resp, rpc n i = .answered resp

/-- The reads that the gateway is prepared for, with `n` messages forwarded
before. -/
inductive Answerable (n : Nat) (bytes : Bytes) : Prop
  | ping (h : str "PING" <:+: bytes)
  | noJson (h : J.parse bytes = .ok none)
  | noCmd (root : J.Value) (h : J.parse bytes = .ok (some root))
      (hcmd : J.isMember root (str "cmd") = .ok false)
  | noPayload (root : J.Value) (h : J.parse bytes = .ok (some root))
      (hcmd : J.isMember root (str "cmd") = .ok true)
      (hpayload : J.isMember root (str "payload") = .ok false)
  | command (root payload : J.Value) (cmd : Bytes) (h : J.parse bytes = .ok (some root))
      (hcmd : J.isMember root (str "cmd") = .ok true)
      (hpayload : J.isMember root (str "payload") = .ok true)
      (hcmdValue : (J.get root (str "cmd") >>= J.asString) = .ok cmd)
      (hpayloadValue : J.get root (str "payload") = .ok payload)
      (hsend : cmd = str "send_msg" → Deliverable J build n payload)

/-- An accepted connection is still there, and a read is one that the gateway is
prepared for. -/
def Harmless (s : State) : Event → Prop
  | .accept .error => True
  | .accept (.socket connected) => connected = true
  | .read _ bytes => Answerable J build s.forwarded bytes
  | .readError _ => True

end Reads

/-! ## Which reads are answered -/

section Answers

variable {J : JsonCpp} {build : Build}

theorem sendMsgReq_returns_iff (payload : J.Value) :
    (∃ req, sendMsgReq J payload = .ok req) ↔ Readable J payload := by
  unfold sendMsgReq
  constructor
  · rintro ⟨req, h⟩
    obtain ⟨msgId, hmsgId, h⟩ := Eff.exists_of_except_bind_ok h
    obtain ⟨senderId, hsenderId, h⟩ := Eff.exists_of_except_bind_ok h
    obtain ⟨receiverId, hreceiverId, h⟩ := Eff.exists_of_except_bind_ok h
    obtain ⟨sessionType, hsessionType, h⟩ := Eff.exists_of_except_bind_ok h
    obtain ⟨msgType, hmsgType, h⟩ := Eff.exists_of_except_bind_ok h
    obtain ⟨content, hcontent, _⟩ := Eff.exists_of_except_bind_ok h
    exact ⟨⟨msgId, hmsgId⟩, ⟨senderId, hsenderId⟩, ⟨receiverId, hreceiverId⟩,
      ⟨sessionType, hsessionType⟩, ⟨msgType, hmsgType⟩, ⟨content, hcontent⟩⟩
  · intro h
    obtain ⟨_, hmsgId⟩ := h.msgId
    obtain ⟨_, hsenderId⟩ := h.senderId
    obtain ⟨_, hreceiverId⟩ := h.receiverId
    obtain ⟨_, hsessionType⟩ := h.sessionType
    obtain ⟨_, hmsgType⟩ := h.msgType
    obtain ⟨_, hcontent⟩ := h.content
    rw [hmsgId, hsenderId, hreceiverId, hsessionType, hmsgType, hcontent]
    exact ⟨_, rfl⟩

/-- An attempt returns if the payload is readable and the RPC is answered. -/
theorem sendMessageAttempt_returns_iff (result : RpcResult SendMsgResp) (payload : J.Value)
    (events : List (Gateway.Event J)) :
    Eff.Returns (sendMessageAttempt J result payload) events ↔
      Readable J payload ∧ ∃ resp, result = .answered resp := by
  unfold sendMessageAttempt
  rw [Eff.returns_ofExcept_bind, ← sendMsgReq_returns_iff]
  constructor
  · rintro ⟨req, hreq, h⟩
    cases result with
    | failed e =>
      obtain ⟨_, _, h⟩ := h
      cases h
    | answered resp => exact ⟨⟨req, hreq⟩, resp, rfl⟩
  · rintro ⟨⟨req, hreq⟩, resp, rfl⟩
    exact ⟨req, hreq, (), _, rfl⟩

theorem forwardToLogicService_returns_iff (n : Nat) (payload : J.Value)
    (events : List (Gateway.Event J)) :
    Eff.Returns (forwardToLogicService J build n payload) events ↔
      Deliverable J build n payload := by
  unfold forwardToLogicService
  rw [Eff.Returns, Eff.bind_of_ok (Eff.modify_apply _ _)]
  cases build with
  | mock =>
    refine Iff.trans Eff.returns_ofExcept_bind ⟨?_, ?_⟩
    · rintro ⟨msgId, h, _⟩
      exact ⟨msgId, h⟩
    · rintro ⟨msgId, h⟩
      exact ⟨msgId, h, (), _, rfl⟩
  | grpc rpc =>
    simp only [executeWithRetryVoid_eq, executeWithRetry_eq]
    refine (Eff.returns_retry_iff
      (fun i evs => sendMessageAttempt_returns_iff (rpc n i) payload evs) _ _ _).trans ⟨?_, ?_⟩
    · rintro ⟨i, _, hle, hread, hanswered⟩
      exact ⟨hread, i, by simpa using hle, hanswered⟩
    · rintro ⟨hread, i, hle, hanswered⟩
      exact ⟨i, Nat.zero_le _, by simpa using hle, hread, hanswered⟩

/-- A read is handled without an exception exactly if the gateway is prepared for
it. -/
theorem parseAndRouteMessage_returns_iff (n : Nat) (bytes : Bytes) :
    Eff.Returns (parseAndRouteMessage J build n bytes) [] ↔ Answerable J build n bytes := by
  unfold parseAndRouteMessage
  split
  · next hping => exact ⟨fun _ => .ping hping, fun _ => ⟨(), _, rfl⟩⟩
  next hping =>
  rw [Eff.returns_ofExcept_bind]
  constructor
  · rintro ⟨parsed, hparse, h⟩
    cases parsed with
    | none => exact .noJson hparse
    | some root =>
      obtain ⟨hasCmd, hcmd, h⟩ := Eff.returns_ofExcept_bind.mp h
      cases hasCmd with
      | false => exact .noCmd root hparse hcmd
      | true =>
        obtain ⟨hasPayload, hpayload, h⟩ := Eff.returns_ofExcept_bind.mp h
        cases hasPayload with
        | false => exact .noPayload root hparse hcmd hpayload
        | true =>
          obtain ⟨cmd, hcmdValue, h⟩ := Eff.returns_ofExcept_bind.mp h
          obtain ⟨payload, hpayloadValue, h⟩ := Eff.returns_ofExcept_bind.mp h
          refine .command root payload cmd hparse hcmd hpayload hcmdValue hpayloadValue ?_
          rintro rfl
          exact (forwardToLogicService_returns_iff n payload []).mp h
  · intro h
    cases h with
    | ping h => exact absurd h hping
    | noJson h => exact ⟨none, h, (), _, rfl⟩
    | noCmd root h hcmd =>
      exact ⟨some root, h, Eff.returns_ofExcept_bind.mpr ⟨false, hcmd, (), _, rfl⟩⟩
    | noPayload root h hcmd hpayload =>
      exact ⟨some root, h, Eff.returns_ofExcept_bind.mpr ⟨true, hcmd,
        Eff.returns_ofExcept_bind.mpr ⟨false, hpayload, (), _, rfl⟩⟩⟩
    | command root payload cmd h hcmd hpayload hcmdValue hpayloadValue hsend =>
      refine ⟨some root, h, Eff.returns_ofExcept_bind.mpr ⟨true, hcmd,
        Eff.returns_ofExcept_bind.mpr ⟨true, hpayload,
          Eff.returns_ofExcept_bind.mpr ⟨cmd, hcmdValue,
            Eff.returns_ofExcept_bind.mpr ⟨payload, hpayloadValue, ?_⟩⟩⟩⟩⟩
      split
      · next hcommand => exact (forwardToLogicService_returns_iff n payload []).mpr (hsend hcommand)
      · exact ⟨(), _, rfl⟩

end Answers

/-! ## What an event does to the gateway -/

section Runs

variable {J : JsonCpp} {build : Build} {threads : Nat}

/-- No handler leaves a sound gateway by an exception. -/
theorem not_sound_escape (s : State) (e : Exn) : ¬ Sound threads (s.escape e) := by
  intro h
  cases e with
  | std what => exact absurd h.escaped (List.append_ne_nil_of_right_ne_nil _ (List.cons_ne_nil _ _))
  | other => exact absurd h.escaped (List.append_ne_nil_of_right_ne_nil _ (List.cons_ne_nil _ _))

/-- The handler of an accepted connection starts it and accepts the next one,
unless the client has gone. -/
theorem execute_onAccept {s : State} (h : Sound threads s) (result : Accept) :
    Sound threads (execute (onAccept result) { s with accepting := false }) ↔
      Harmless J build s (.accept result) := by
  cases result with
  | error => exact ⟨fun _ => trivial, fun _ => ⟨h.escaped, h.workers, rfl, h.answered⟩⟩
  | socket connected =>
    cases connected with
    | true => exact ⟨fun _ => rfl, fun _ => ⟨h.escaped, h.workers, rfl, h.answered⟩⟩
    | false =>
      refine ⟨fun hsound => ?_, fun hconnected => absurd hconnected Bool.false_ne_true⟩
      exact (not_sound_escape { s with accepting := false } notConnected hsound).elim

/-- The handler of a read answers it once and goes on reading, or raises. -/
theorem execute_onRead {s : State} (h : Sound threads s) (c : Nat) (bytes : Bytes) :
    Sound threads (execute (onRead J build c bytes) { s with reading := s.reading.set c false }) ↔
      Harmless J build s (.read c bytes) := by
  refine Iff.trans ?_ (parseAndRouteMessage_returns_iff s.forwarded bytes)
  unfold execute onRead
  match hrun : parseAndRouteMessage J build s.forwarded bytes [] with
  | (.ok (), events) =>
    refine ⟨fun _ => ⟨(), events, hrun⟩, fun _ => ⟨h.escaped, h.workers, h.accepting, ?_⟩⟩
    intro k hk
    rcases List.mem_append.mp hk with hk | hk
    · exact h.answered k hk
    · rw [List.mem_singleton.mp hk]
      exact parseAndRouteMessage_sends hrun
  | (.error e, events) =>
    refine ⟨fun hsound => absurd hsound (not_sound_escape _ _), ?_⟩
    rintro ⟨_, _, hok⟩
    rw [hrun] at hok
    cases hok

/-- An event keeps the gateway sound exactly if it is harmless. -/
theorem sound_step {s s' : State} {e : Event} (h : Sound threads s)
    (hstep : step J build s e = some s') : Sound threads s' ↔ Harmless J build s e := by
  cases e with
  | accept result =>
    simp only [step] at hstep
    split at hstep
    · cases hstep
      exact execute_onAccept h result
    · cases hstep
  | read c bytes =>
    simp only [step] at hstep
    split at hstep
    · cases hstep
      exact execute_onRead h c bytes
    · cases hstep
  | readError c =>
    simp only [step] at hstep
    split at hstep
    · cases hstep
      exact ⟨fun _ => trivial, fun _ => ⟨h.escaped, h.workers, h.accepting, h.answered⟩⟩
    · cases hstep

/-- The runs in which no exception leaves a handler, so that all threads stay, an
`async_accept` stays outstanding and every read is answered once, are those in
which every accepted client is still connected and every read is one that the
gateway is prepared for. -/
theorem sound_iff (J : JsonCpp) (build : Build) (threads : Nat) (events : List Event) :
    HoldsAlong (step J build) (Sound threads) (.start threads) events ↔
      StepsMeet (step J build) (Harmless J build) (.start threads) events := by
  have hstart : Sound threads (.start threads) := ⟨rfl, rfl, rfl, fun _ hk => absurd hk List.not_mem_nil⟩
  exact holdsAlong_iff (fun _ _ _ _ _ => trivial) (fun _ _ _ _ h hstep => sound_step h hstep)
    trivial hstart

/-- As much of jsoncpp as the text `5` needs: a number, which has no members. -/
def numberJson : JsonCpp where
  Value := Unit
  parse := fun s => .ok (if s = str "5" then some () else none)
  isMember := fun _ _ => .error (.std (str "requires objectValue or nullValue"))
  get := fun _ _ => .error (.std (str "requires objectValue"))
  asString := fun _ => .ok (str "5")
  asUInt64 := fun _ => .ok 5
  asInt := fun _ => .ok 5
  writeResult := resultText
  ObjectText := fun _ => False

/-- A client that has gone before it is accepted, and a client that sends a
number, each end a thread; after the first, nobody is accepted any more. -/
theorem reset_and_number_not_sound :
    ¬ HoldsAlong (step numberJson .mock) (Sound 4) (.start 4) [.accept (.socket false)] ∧
    ¬ HoldsAlong (step numberJson .mock) (Sound 4) (.start 4)
      [.accept (.socket true), .read 0 (str "5")] := by
  constructor
  · rintro ⟨_, h⟩
    exact absurd (h _ rfl).workers (by decide)
  · rintro ⟨_, h⟩
    exact absurd ((h _ rfl).2 _ rfl).workers (by decide)

end Runs

end IMSystem.Gateway.GatewayServer

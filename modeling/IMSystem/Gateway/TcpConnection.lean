import IMSystem.Common.Json
import IMSystem.Logic.MessageProcessor

/-!
# A TCP connection of the gateway (`gateway/src/tcp_server.cpp`)

`DoRead` hands every read of up to 1024 bytes to `ParseAndRouteMessage` as if it
were one request. TCP does not keep requests apart, so a read may hold a part of
a request or several of them.

jsoncpp is not part of the repository; it is a parameter, `JsonCpp`, and
`JsonCpp.Documented` says what is taken for granted of it.

Results:
1. `one_reply_per_read`: a connection replies once for each read, whatever the
   reads hold.
2. `segmentationFree_iff`: no sequence of requests but the empty one is answered
   independently of the reads it comes in.
-/

namespace IMSystem.Gateway

open Lib Retry MessageProcessor

/-! ## jsoncpp -/

/-- The byte that opens a JSON object. -/
def openBrace : UInt8 := chr '\x7b'

/-- The functions of jsoncpp that a connection calls. -/
structure JsonCpp where
  Value : Type
  /-- `Json::parseFromStream` with the default `CharReaderBuilder`. It raises when
  the nesting exceeds the `stackLimit` of the reader. -/
  parse : Bytes → Except Exn (Option Value)
  isMember : Value → Bytes → Except Exn Bool
  /-- `operator[]` with a member name. -/
  get : Value → Bytes → Except Exn Value
  asString : Value → Except Exn Bytes
  asUInt64 : Value → Except Exn UInt64
  asInt : Value → Except Exn Int32
  /-- `Json::writeString` of an object with `code`, `msg` and `seq_id`. -/
  writeResult : Int32 → Bytes → Bytes → Bytes
  /-- The text is that of one JSON object with members, from brace to brace. -/
  ObjectText : Bytes → Prop

/-- What may stand behind the opening brace of an object with members: white space,
the quotation mark of a name, or the slash of a comment. -/
def behindBrace : Bytes := str " \t\n\r\"/"

/-- What is documented of jsoncpp: it reads the first value and ignores what
follows, it fails on a truncated value, and a `P`, a brace or one of the bytes above
is no value. -/
structure JsonCpp.Documented (J : JsonCpp) : Prop where
  object_opens : ∀ text, J.ObjectText text →
    ∃ c d rest, text = openBrace :: c :: d :: rest ∧ c ∈ behindBrace
  first_value : ∀ text rest, J.ObjectText text → J.parse (text ++ rest) = J.parse text
  truncated : ∀ text value front rest, J.ObjectText text → J.parse text = .ok (some value) →
    front ++ rest = text → rest ≠ [] → J.parse front = .ok none
  one_byte : ∀ c ∈ chr 'P' :: openBrace :: behindBrace, J.parse [c] = .ok none

/-! ## Handling one read -/

/-- `SendMsgReq`, as the gateway fills it from the payload of a frame. -/
structure SendMsgReq where
  msgId : Bytes
  senderId : UInt64
  receiverId : UInt64
  sessionType : Int32
  msgType : Int32
  content : Bytes
deriving DecidableEq, Repr

/-- `SendMsgResp`. -/
structure SendMsgResp where
  code : Int32
  msg : Bytes
  seqId : Bytes
deriving DecidableEq, Repr

/-- A call that a connection makes. -/
inductive Event (J : JsonCpp) where
  /-- `ForwardToLogicService(payload)`. -/
  | forward (payload : J.Value)
  /-- `Send(msg)`. -/
  | send (msg : Bytes)

/-- The two builds. In the gRPC build, `rpc n i` is what the `i`-th attempt of the
`n`-th forwarded message comes to. -/
inductive Build where
  | mock
  | grpc (rpc : Nat → Nat → RpcResult SendMsgResp)

section Connection

variable (J : JsonCpp)

/-- `TcpConnection::Send`. -/
def send (msg : Bytes) : Call (List (Event J)) Unit := Eff.modify (· ++ [.send msg])

/-- The request that an attempt builds from the payload. -/
def sendMsgReq (payload : J.Value) : Except Exn SendMsgReq := do
  let msgId ← J.get payload (str "msg_id") >>= J.asString
  let senderId ← J.get payload (str "sender_id") >>= J.asUInt64
  let receiverId ← J.get payload (str "receiver_id") >>= J.asUInt64
  let sessionType ← J.get payload (str "session_type") >>= J.asInt
  let msgType ← J.get payload (str "msg_type") >>= J.asInt
  let content ← J.get payload (str "content") >>= J.asString
  pure ⟨msgId, senderId, receiverId, sessionType, msgType, content⟩

/-- One attempt of the lambda in `ForwardToLogicService`. -/
def sendMessageAttempt (result : RpcResult SendMsgResp) (payload : J.Value) :
    Call (List (Event J)) Unit := do
  let _ ← Eff.ofExcept (sendMsgReq J payload)
  match result with
  | .failed e => Eff.raise (.std (str "gRPC Error: " ++ e))
  | .answered resp => send J (J.writeResult resp.code resp.msg resp.seqId ++ str "\n")

/-- `ForwardToLogicService`, called for the `n`-th time. -/
def forwardToLogicService (build : Build) (n : Nat) (payload : J.Value) :
    Call (List (Event J)) Unit := do
  Eff.modify (· ++ [.forward payload])
  match build with
  | .grpc rpc => executeWithRetryVoid 3 fun i => sendMessageAttempt J (rpc n i) payload
  | .mock => do
    -- the message id goes into a log line
    let _ ← Eff.ofExcept (J.get payload (str "msg_id") >>= J.asString)
    send J (str "\x7b\"code\": 0, \"msg\": \"SUCCESS\", \"seq_id\": \"MOCK_SEQ_123\"\x7d\n")

def invalidJson : Bytes := str "\x7b\"code\": 400, \"msg\": \"Invalid JSON protocol\"\x7d\n"

def missingField : Bytes := str "\x7b\"code\": 400, \"msg\": \"Missing cmd or payload field\"\x7d\n"

def unknownCommand : Bytes := str "\x7b\"code\": 404, \"msg\": \"Unknown command\"\x7d\n"

/-- `ParseAndRouteMessage`, with `n` messages forwarded before. -/
def parseAndRouteMessage (build : Build) (n : Nat) (rawMsg : Bytes) :
    Call (List (Event J)) Unit :=
  if str "PING" <:+: rawMsg then send J (str "PONG\n")
  else do
    let parsed ← Eff.ofExcept (J.parse rawMsg)
    match parsed with
    | none => send J invalidJson
    | some root => do
      let hasCmd ← Eff.ofExcept (J.isMember root (str "cmd"))
      if !hasCmd then send J missingField
      else do
        let hasPayload ← Eff.ofExcept (J.isMember root (str "payload"))
        if !hasPayload then send J missingField
        else do
          let cmd ← Eff.ofExcept (J.get root (str "cmd") >>= J.asString)
          let payload ← Eff.ofExcept (J.get root (str "payload"))
          if cmd = str "send_msg" then forwardToLogicService J build n payload
          else send J unknownCommand

variable {J}

/-- The arguments of the calls of `ForwardToLogicService`. -/
def forwards (events : List (Event J)) : List J.Value :=
  events.filterMap fun
    | .forward payload => some payload
    | .send _ => none

/-- The arguments of the calls of `Send`. -/
def sends (events : List (Event J)) : List Bytes :=
  events.filterMap fun
    | .forward _ => none
    | .send msg => some msg

variable (J)

/-- The calls that a connection makes for its reads, with `n` messages forwarded
before. An exception leaves the handler before it starts the next read; a
`std::exception` ends one thread only. -/
def serve (build : Build) : Nat → List Bytes → List (Event J)
  | _, [] => []
  | n, read :: reads =>
    match parseAndRouteMessage J build n read [] with
    | (.ok (), events) => events ++ serve build (n + (forwards events).length) reads
    | (.error _, events) => events

/-- No read of the connection raises an exception. -/
def Undisturbed (build : Build) : Nat → List Bytes → Prop
  | _, [] => True
  | n, read :: reads =>
    ∃ events, parseAndRouteMessage J build n read [] = (.ok (), events) ∧
      Undisturbed build (n + (forwards events).length) reads

end Connection

/-! ## Requests and reads -/

/-- The text of a JSON object with `cmd` and `payload`. -/
def JsonCpp.CommandText (J : JsonCpp) (text : Bytes) : Prop :=
  J.ObjectText text ∧ ∃ root, J.parse text = .ok (some root) ∧
    J.isMember root (str "cmd") = .ok true ∧ J.isMember root (str "payload") = .ok true

/-- A complete request of a client. -/
inductive Request (J : JsonCpp) where
  | ping
  | command (text : Bytes) (h : J.CommandText text)

/-- A request on the wire, ended by a line break. -/
def Request.bytes {J : JsonCpp} : Request J → Bytes
  | .ping => str "PING\n"
  | .command text _ => text ++ [chr '\n']

/-- The requests of a client, one after the other. -/
def wire {J : JsonCpp} (requests : List (Request J)) : Bytes := requests.flatMap Request.bytes

/-- A way in which TCP may deliver the bytes: reads of 1 to 1024 bytes. -/
structure Cut (bytes : Bytes) (reads : List Bytes) : Prop where
  flatten : reads.flatten = bytes
  size : ∀ read ∈ reads, 1 ≤ read.length ∧ read.length ≤ 1024

/-- However the requests are cut into reads, the connection makes the same calls,
and it replies once to each request. -/
def SegmentationFree {J : JsonCpp} (build : Build) (requests : List (Request J)) : Prop :=
  ∀ reads reads', Cut (wire requests) reads → Cut (wire requests) reads' →
    forwards (serve J build 0 reads) = forwards (serve J build 0 reads') ∧
    sends (serve J build 0 reads) = sends (serve J build 0 reads') ∧
    (sends (serve J build 0 reads)).length = requests.length

/-! ## One reply for each read -/

section Replies

variable {J : JsonCpp} {build : Build}

@[simp] theorem sends_append (a b : List (Event J)) : sends (a ++ b) = sends a ++ sends b :=
  List.filterMap_append

/-- An attempt either replies once or raises without a reply. -/
theorem sendMessageAttempt_sends (result : RpcResult SendMsgResp) (payload : J.Value)
    (events : List (Event J)) :
    (∃ msg, sendMessageAttempt J result payload events = (.ok (), events ++ [.send msg])) ∨
    (∃ e, sendMessageAttempt J result payload events = (.error e, events)) := by
  unfold sendMessageAttempt
  cases hreq : sendMsgReq J payload with
  | error e => exact .inr ⟨e, rfl⟩
  | ok req =>
    cases result with
    | failed e => exact .inr ⟨_, rfl⟩
    | answered resp => exact .inl ⟨_, rfl⟩

/-- The retry loop of the gRPC build replies at most once: its failed attempts
have sent nothing. So a forwarded message is replied to once, or an exception
leaves the call without a reply. -/
theorem forwardToLogicService_cases (n : Nat) (payload : J.Value) (events : List (Event J)) :
    (∃ msg, forwardToLogicService J build n payload events =
      (.ok (), events ++ [.forward payload, .send msg])) ∨
    (∃ e, forwardToLogicService J build n payload events =
      (.error e, events ++ [.forward payload])) := by
  unfold forwardToLogicService
  rw [Eff.bind_of_ok (Eff.modify_apply _ _)]
  cases build with
  | mock =>
    cases J.get payload (str "msg_id") >>= J.asString with
    | error e => exact .inr ⟨e, rfl⟩
    | ok msgId => exact .inl ⟨_, congrArg (Prod.mk _) (List.append_assoc ..)⟩
  | grpc rpc =>
    simp only [executeWithRetryVoid_eq, executeWithRetry_eq]
    have hrule := Eff.retry_rule (fun i => sendMessageAttempt J (rpc n i) payload)
      (fun _ evs => evs = events ++ [.forward payload])
      (fun _ _ evs => ∃ msg, evs = events ++ [.forward payload, .send msg])
      ?_ ?_ (3 : Int).toNat 0 (events ++ [.forward payload]) rfl
    · rcases hrule with ⟨_, _, evs, _, _, hrun, msg, rfl⟩ | ⟨e, evs, hrun, rfl⟩
      · exact .inl ⟨msg, hrun⟩
      · exact .inr ⟨e, hrun⟩
    · rintro i evs _ evs' rfl hrun
      rcases sendMessageAttempt_sends (rpc n i) payload (events ++ [.forward payload]) with
        ⟨msg, heq⟩ | ⟨e, heq⟩
      · rw [heq] at hrun
        cases hrun
        exact ⟨msg, List.append_assoc ..⟩
      · rw [heq] at hrun
        cases hrun
    · rintro i evs e evs' rfl hrun
      rcases sendMessageAttempt_sends (rpc n i) payload (events ++ [.forward payload]) with
        ⟨msg, heq⟩ | ⟨e', heq⟩
      · rw [heq] at hrun
        cases hrun
      · rw [heq] at hrun
        cases hrun
        rfl

variable (J build) in
/-- A read is replied to once, or an exception leaves the handler without a
reply. -/
theorem parseAndRouteMessage_cases (n : Nat) (rawMsg : Bytes) :
    (∃ events msg, parseAndRouteMessage J build n rawMsg [] = (.ok (), events) ∧
      sends events = [msg]) ∨
    (∃ events e, parseAndRouteMessage J build n rawMsg [] = (.error e, events) ∧
      sends events = []) := by
  unfold parseAndRouteMessage
  split
  · exact .inl ⟨_, _, rfl, rfl⟩
  · cases J.parse rawMsg with
    | error e => exact .inr ⟨[], e, rfl, rfl⟩
    | ok parsed =>
      cases parsed with
      | none => exact .inl ⟨_, _, rfl, rfl⟩
      | some root =>
        simp only [Eff.ofExcept_ok_bind]
        cases J.isMember root (str "cmd") with
        | error e => exact .inr ⟨[], e, rfl, rfl⟩
        | ok hasCmd =>
          rw [Eff.ofExcept_ok_bind]
          split
          · exact .inl ⟨_, _, rfl, rfl⟩
          · cases J.isMember root (str "payload") with
            | error e => exact .inr ⟨[], e, rfl, rfl⟩
            | ok hasPayload =>
              rw [Eff.ofExcept_ok_bind]
              split
              · exact .inl ⟨_, _, rfl, rfl⟩
              · cases J.get root (str "cmd") >>= J.asString with
                | error e => exact .inr ⟨[], e, rfl, rfl⟩
                | ok cmd =>
                  cases J.get root (str "payload") with
                  | error e => exact .inr ⟨[], e, rfl, rfl⟩
                  | ok payload =>
                    simp only [Eff.ofExcept_ok_bind]
                    split
                    · rcases forwardToLogicService_cases n payload [] with ⟨msg, h⟩ | ⟨e, h⟩
                      · exact .inl ⟨_, msg, h, rfl⟩
                      · exact .inr ⟨_, e, h, rfl⟩
                    · exact .inl ⟨_, _, rfl, rfl⟩

/-- A read that raises no exception is replied to once. -/
theorem parseAndRouteMessage_sends {n : Nat} {rawMsg : Bytes} {events : List (Event J)}
    (h : parseAndRouteMessage J build n rawMsg [] = (.ok (), events)) :
    (sends events).length = 1 := by
  rcases parseAndRouteMessage_cases J build n rawMsg with
    ⟨events', msg, hrun, hsends⟩ | ⟨events', e, hrun, _⟩
  · rw [h] at hrun
    cases hrun
    rw [hsends, List.length_singleton]
  · rw [h] at hrun
    cases hrun

/-- A connection that raises no exception replies once for each read, and not
once for each request. -/
theorem one_reply_per_read {n : Nat} {reads : List Bytes} (h : Undisturbed J build n reads) :
    (sends (serve J build n reads)).length = reads.length := by
  induction reads generalizing n with
  | nil => rfl
  | cons read reads ih =>
    obtain ⟨events, hrun, hrest⟩ := h
    simp only [serve, hrun, sends_append, List.length_append, parseAndRouteMessage_sends hrun,
      ih hrest, List.length_cons]
    exact Nat.add_comm _ _

/-- A read that holds no value is answered with an error, and the next read is
looked at on its own. -/
theorem serve_invalid {n : Nat} {read : Bytes} (hping : ¬ str "PING" <:+: read)
    (hparse : J.parse read = .ok none) (reads : List Bytes) :
    serve J build n (read :: reads) = .send invalidJson :: serve J build n reads := by
  have hrun : parseAndRouteMessage J build n read [] = (.ok (), [.send invalidJson]) := by
    rw [parseAndRouteMessage, if_neg hping, hparse]
    rfl
  simp only [serve, hrun]
  rfl

theorem serve_ping {n : Nat} {read : Bytes} (hping : str "PING" <:+: read) (reads : List Bytes) :
    serve J build n (read :: reads) = .send (str "PONG\n") :: serve J build n reads := by
  have hrun : parseAndRouteMessage J build n read [] = (.ok (), [.send (str "PONG\n")]) := by
    rw [parseAndRouteMessage, if_pos hping]
    rfl
  simp only [serve, hrun]
  rfl

end Replies

/-! ## Cutting -/

/-- Bytes may arrive one by one. -/
theorem cut_bytewise (bytes : Bytes) : Cut bytes (bytes.map fun b => [b]) where
  flatten := by
    induction bytes with
    | nil => rfl
    | cons b bytes ih => rw [List.map_cons, List.flatten_cons, ih, List.singleton_append]
  size := by
    intro read hread
    obtain ⟨b, _, rfl⟩ := List.mem_map.mp hread
    simp

/-- A read may come before other reads. -/
theorem Cut.cons {bytes read : Bytes} {reads : List Bytes} (h : Cut bytes reads)
    (hpos : 1 ≤ read.length) (hmax : read.length ≤ 1024) : Cut (read ++ bytes) (read :: reads) where
  flatten := by rw [List.flatten_cons, h.flatten]
  size := by
    rintro r (_ | ⟨_, hr⟩)
    · exact ⟨hpos, hmax⟩
    · exact h.size r hr

/-- A read shorter than four bytes is no heartbeat. -/
theorem not_ping_of_short {read : Bytes} (h : read.length < 4) : ¬ str "PING" <:+: read := by
  intro hping
  have hlen := hping.length_le
  rw [show (str "PING").length = 4 from rfl] at hlen
  omega

/-- A heartbeat in one read is answered in another way than one whose first byte comes
apart. -/
theorem ping_not_free {J : JsonCpp} (hJ : J.Documented) (build : Build)
    (requests : List (Request J)) : ¬ SegmentationFree build (.ping :: requests) := by
  intro hfree
  have hrest := cut_bytewise (wire requests)
  have hwhole : Cut (wire (.ping :: requests))
      (str "PING\n" :: (wire requests).map fun b => [b]) :=
    hrest.cons (show 1 ≤ (str "PING\n").length by decide)
      (show (str "PING\n").length ≤ 1024 by decide)
  have hsplit : Cut (wire (.ping :: requests))
      ([chr 'P'] :: str "ING\n" :: (wire requests).map fun b => [b]) :=
    (hrest.cons (show 1 ≤ (str "ING\n").length by decide)
      (show (str "ING\n").length ≤ 1024 by decide)).cons
        (show 1 ≤ [chr 'P'].length by decide) (show [chr 'P'].length ≤ 1024 by decide)
  obtain ⟨_, hsends, _⟩ := hfree _ _ hwhole hsplit
  rw [serve_ping (by decide), serve_invalid (not_ping_of_short (by decide))
    (hJ.one_byte _ List.mem_cons_self)] at hsends
  have hhead := (List.cons.inj hsends).1
  exact absurd hhead (by decide)

/-- The first two bytes of a command get one answer in one read, and two in two. -/
theorem command_not_free {J : JsonCpp} (hJ : J.Documented) (build : Build) {text : Bytes}
    (h : J.CommandText text) (requests : List (Request J)) :
    ¬ SegmentationFree build (.command text h :: requests) := by
  intro hfree
  obtain ⟨c, d, rest, htext, hc⟩ := hJ.object_opens text h.1
  have hwire : wire (.command text h :: requests) =
      [openBrace] ++ ([c] ++ (d :: rest ++ [chr '\n'] ++ wire requests)) := by
    simp [wire, Request.bytes, htext]
  have hrest := cut_bytewise (d :: rest ++ [chr '\n'] ++ wire requests)
  have hwhole : Cut (wire (.command text h :: requests)) ([openBrace, c] ::
      (d :: rest ++ [chr '\n'] ++ wire requests).map fun b => [b]) := by
    rw [hwire, ← List.append_assoc]
    exact hrest.cons (by simp) (by simp)
  have hsplit : Cut (wire (.command text h :: requests)) ([openBrace] :: [c] ::
      (d :: rest ++ [chr '\n'] ++ wire requests).map fun b => [b]) := by
    rw [hwire]
    exact (hrest.cons (by simp) (by simp)).cons (by simp) (by simp)
  obtain ⟨root, hroot, _⟩ := h.2
  have hopen : J.parse [openBrace, c] = .ok none :=
    hJ.truncated text root [openBrace, c] (d :: rest) h.1 hroot (by rw [htext]; rfl)
      (List.cons_ne_nil d rest)
  obtain ⟨_, hsends, _⟩ := hfree _ _ hwhole hsplit
  rw [serve_invalid (not_ping_of_short (by simp)) hopen,
    serve_invalid (not_ping_of_short (by simp))
      (hJ.one_byte _ (List.mem_cons_of_mem _ List.mem_cons_self)),
    serve_invalid (not_ping_of_short (by simp))
      (hJ.one_byte c (List.mem_cons_of_mem _ (List.mem_cons_of_mem _ hc)))] at hsends
  have hlen := congrArg List.length hsends
  simp [sends] at hlen

/-- Nothing can be cut out of nothing. -/
theorem Cut.nil {reads : List Bytes} (h : Cut [] reads) : reads = [] := by
  cases reads with
  | nil => rfl
  | cons read reads =>
    have hempty : read = [] := List.flatten_eq_nil_iff.mp h.flatten read List.mem_cons_self
    have hsize := (h.size read List.mem_cons_self).1
    rw [hempty] at hsize
    exact absurd hsize (by decide)

/-- The requests of a client are answered the same way however they are cut into
reads, and each of them once, only if there are none. -/
theorem segmentationFree_iff {J : JsonCpp} (hJ : J.Documented) (build : Build)
    (requests : List (Request J)) : SegmentationFree build requests ↔ requests = [] := by
  constructor
  · intro hfree
    cases requests with
    | nil => rfl
    | cons request requests =>
      cases request with
      | ping => exact absurd hfree (ping_not_free hJ build requests)
      | command text h => exact absurd hfree (command_not_free hJ build h requests)
  · rintro rfl
    intro reads reads' hcut hcut'
    rw [hcut.nil, hcut'.nil]
    exact ⟨rfl, rfl, rfl⟩

/-- What the library writes of a result. -/
def resultText (code : Int32) (msg seqId : Bytes) : Bytes :=
  Json.Tree.write (.object [(str "code", .int code.toInt), (str "msg", .string msg),
    (str "seq_id", .string seqId)])

/-- The text of a small command. -/
def commandText : Bytes := str "\x7b\"cmd\":\"send_msg\",\"payload\":\x7b\x7d\x7d"

/-- As much of jsoncpp as that command needs: a value is represented by its text,
and a missing member by the empty one. -/
def smallJson : JsonCpp where
  Value := Bytes
  parse := fun s => .ok (if commandText <+: s then some commandText else none)
  isMember := fun v k => .ok (v = commandText ∧ (k = str "cmd" ∨ k = str "payload"))
  get := fun v k => .ok (if v = commandText ∧ k = str "cmd" then str "send_msg" else [])
  asString := fun v => .ok v
  asUInt64 := fun _ => .ok 0
  asInt := fun _ => .ok 0
  writeResult := resultText
  ObjectText := fun text => text = commandText

theorem smallJson_documented : smallJson.Documented where
  object_opens := by
    rintro text rfl
    exact ⟨chr '"', chr 'c', _, rfl, by decide⟩
  first_value := by
    rintro text rest rfl
    show Except.ok (if commandText <+: commandText ++ rest then some commandText else none) =
      Except.ok (if commandText <+: commandText then some commandText else none)
    rw [if_pos (List.prefix_append _ _), if_pos (List.prefix_refl _)]
  truncated := by
    rintro text value front rest rfl _ hsplit hrest
    have hnot : ¬ commandText <+: front := by
      intro hpre
      have hlen := congrArg List.length hsplit
      have hle := hpre.length_le
      have hpos := List.length_pos_iff.mpr hrest
      rw [List.length_append] at hlen
      omega
    exact congrArg Except.ok (if_neg hnot)
  one_byte := by
    intro c _
    have hlong : ¬ commandText.length ≤ 1 := by decide
    have hnot : ¬ commandText <+: [c] := fun hpre => hlong hpre.length_le
    exact congrArg Except.ok (if_neg hnot)

theorem commandText_isCommand : smallJson.CommandText commandText := by
  refine ⟨rfl, commandText, ?_, rfl, rfl⟩
  show Except.ok (if commandText <+: commandText then some commandText else none) =
    Except.ok (some commandText)
  rw [if_pos (List.prefix_refl _)]

/-- The command as a request. -/
def smallCommand : Request smallJson := .command commandText commandText_isCommand

theorem smallCommand_not_segmentationFree : ¬ SegmentationFree .mock [smallCommand] := by
  rw [segmentationFree_iff smallJson_documented .mock]
  exact List.cons_ne_nil _ _

/-- Two heartbeats in one read are answered once. -/
theorem coalesced_pings :
    ¬ SegmentationFree .mock [(.ping : Request smallJson), .ping] := by
  intro h
  have hone : Cut (wire [(.ping : Request smallJson), .ping]) [str "PING\nPING\n"] :=
    ⟨rfl, by decide⟩
  have htwo : Cut (wire [(.ping : Request smallJson), .ping]) [str "PING\n", str "PING\n"] :=
    ⟨rfl, by decide⟩
  obtain ⟨_, hsends, _⟩ := h _ _ hone htwo
  rw [serve_ping (by decide), serve_ping (by decide), serve_ping (by decide)] at hsends
  exact absurd (congrArg List.length hsends) (by decide)

end IMSystem.Gateway

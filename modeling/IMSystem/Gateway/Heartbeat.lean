import IMSystem.Gateway.TcpConnection

/-!
# Heartbeats and commands (`gateway/src/tcp_server.cpp`)

`ParseAndRouteMessage` looks for the bytes `PING` before it parses. It looks at
the whole frame, so it finds them in the fields of a command and in any other text,
and then answers as to a heartbeat.

Results:
1. `keeps_forwardToLogicService`, `keeps_parseAndRouteMessage`: every other reply
   is a JSON object.
2. `parseAndRouteMessage_sendMsg`: without these bytes, a message is forwarded.
3. `wellRouted_iff`: when a frame is treated as what it is.
-/

namespace IMSystem.Gateway

open Lib Retry

section Frames

variable (J : JsonCpp)

/-- A heartbeat is the word `PING`, as it stands or as a line. -/
def Heartbeat (frame : Bytes) : Prop := frame ∈ [str "PING", str "PING\n", str "PING\r\n"]

instance : DecidablePred Heartbeat := fun _ => inferInstanceAs (Decidable (_ ∈ _))

/-- The frame is a command `send_msg`, whose payload has texts for `msg_id` and
`content`. -/
def SendMsgFrame (frame : Bytes) (payload : J.Value) : Prop :=
  ∃ root msgId content, J.parse frame = .ok (some root) ∧
    J.isMember root (str "cmd") = .ok true ∧ J.isMember root (str "payload") = .ok true ∧
    (J.get root (str "cmd") >>= J.asString) = .ok (str "send_msg") ∧
    J.get root (str "payload") = .ok payload ∧
    (J.get payload (str "msg_id") >>= J.asString) = .ok msgId ∧
    (J.get payload (str "content") >>= J.asString) = .ok content

/-- A message is forwarded once, with its payload, and only a heartbeat is
answered with `PONG`. -/
def WellRouted (build : Build) (n : Nat) (frame : Bytes) : Prop :=
  let events := (parseAndRouteMessage J build n frame []).2
  (∀ payload, SendMsgFrame J frame payload → forwards events = [payload]) ∧
    (str "PONG\n" ∈ sends events → Heartbeat frame)

/-- What is documented of jsoncpp: no value begins with a `P`, and an object is written
from its brace on. -/
structure JsonCpp.Braced : Prop where
  parse : ∀ rest, J.parse (chr 'P' :: rest) = .ok none
  writeResult : ∀ code msg seqId, ∃ rest, J.writeResult code msg seqId = openBrace :: rest

end Frames

variable {J : JsonCpp} {build : Build}

/-! ## Replies other than `PONG` -/

/-- Every reply so far is the text of an object. -/
def ObjectReplies (events : List (Event J)) : Prop := ∀ msg ∈ sends events, ∃ rest, msg = openBrace :: rest

theorem keeps_send {msg : Bytes} (h : ∃ rest, msg = openBrace :: rest) :
    Eff.Keeps ObjectReplies (send J msg) := by
  intro events hevents reply hreply
  obtain hold | rfl : reply ∈ sends events ∨ reply = msg := by
    simpa [send, sends] using hreply
  · exact hevents reply hold
  · exact h

theorem keeps_forwardToLogicService (hJ : J.Braced) (n : Nat) (payload : J.Value) :
    Eff.Keeps ObjectReplies (forwardToLogicService J build n payload) := by
  unfold forwardToLogicService
  refine Eff.Keeps.bind (fun events hevents => ?_) fun _ => ?_
  · simpa [ObjectReplies, sends] using hevents
  · cases build with
    | mock => exact .bind (Eff.keeps_ofExcept _) fun _ => keeps_send ⟨_, rfl⟩
    | grpc rpc =>
      simp only [executeWithRetryVoid_eq, executeWithRetry_eq]
      refine .retry (fun i => .bind (Eff.keeps_ofExcept _) fun _ => ?_) _ _
      cases rpc n i with
      | failed e => exact Eff.keeps_raise _
      | answered resp =>
        obtain ⟨rest, hrest⟩ := hJ.writeResult resp.code resp.msg resp.seqId
        exact keeps_send ⟨rest ++ str "\n", by rw [hrest]; rfl⟩

/-- A frame without `PING` is answered with the texts of objects only. -/
theorem keeps_parseAndRouteMessage (hJ : J.Braced) {frame : Bytes}
    (hping : ¬ str "PING" <:+: frame) (n : Nat) :
    Eff.Keeps ObjectReplies (parseAndRouteMessage J build n frame) := by
  rw [parseAndRouteMessage, if_neg hping]
  refine .bind (Eff.keeps_ofExcept _) fun parsed => ?_
  cases parsed with
  | none => exact keeps_send ⟨_, rfl⟩
  | some root =>
    refine .bind (Eff.keeps_ofExcept _) fun hasCmd => ?_
    cases hasCmd with
    | false => exact keeps_send ⟨_, rfl⟩
    | true =>
      refine .bind (Eff.keeps_ofExcept _) fun hasPayload => ?_
      cases hasPayload with
      | false => exact keeps_send ⟨_, rfl⟩
      | true =>
        refine .bind (Eff.keeps_ofExcept _) fun cmd => .bind (Eff.keeps_ofExcept _) fun payload => ?_
        have hunknown : ∃ rest, unknownCommand = openBrace :: rest := ⟨_, rfl⟩
        split
        · exact keeps_forwardToLogicService hJ n payload
        · exact keeps_send hunknown

/-! ## Routing -/

/-- A frame with `PING` anywhere is answered with `PONG`, and that is all. -/
theorem parseAndRouteMessage_ping {frame : Bytes} (hping : str "PING" <:+: frame) (n : Nat) :
    parseAndRouteMessage J build n frame [] = (.ok (), [.send (str "PONG\n")]) := by
  rw [parseAndRouteMessage, if_pos hping]
  rfl

/-- Without `PING`, a message is forwarded once, whatever the call then does. -/
theorem parseAndRouteMessage_sendMsg {frame : Bytes} {payload : J.Value}
    (hping : ¬ str "PING" <:+: frame) (h : SendMsgFrame J frame payload) (n : Nat) :
    forwards (parseAndRouteMessage J build n frame []).2 = [payload] := by
  obtain ⟨root, _, _, hroot, hcmd, hpayload, hname, hget, _, _⟩ := h
  have hrun : parseAndRouteMessage J build n frame [] = forwardToLogicService J build n payload [] := by
    rw [parseAndRouteMessage, if_neg hping, hroot, Eff.ofExcept_ok_bind]
    simp only [hcmd, hpayload, hname, hget, Eff.ofExcept_ok_bind]
    rfl
  rw [hrun]
  rcases forwardToLogicService_cases n payload [] with ⟨msg, heq⟩ | ⟨e, heq⟩
  · rw [heq]
    rfl
  · rw [heq]
    rfl

/-- A heartbeat is no value of JSON. -/
theorem Heartbeat.parse (hJ : J.Braced) {frame : Bytes} (h : Heartbeat frame) :
    J.parse frame = .ok none := by
  simp only [Heartbeat, List.mem_cons, List.not_mem_nil, or_false] at h
  rcases h with rfl | rfl | rfl
  · exact hJ.parse _
  · exact hJ.parse _
  · exact hJ.parse _

/-- A frame is treated as what it is exactly when the bytes `PING` are in heartbeats only. -/
theorem wellRouted_iff (J : JsonCpp) (hJ : J.Braced) (build : Build) (n : Nat) (frame : Bytes) :
    WellRouted J build n frame ↔ (str "PING" <:+: frame → Heartbeat frame) := by
  unfold WellRouted
  by_cases hping : str "PING" <:+: frame
  · rw [parseAndRouteMessage_ping hping]
    constructor
    · exact fun h _ => h.2 List.mem_cons_self
    · intro h
      have hheartbeat := h hping
      refine ⟨fun payload ⟨root, _, _, hroot, _⟩ => ?_, fun _ => hheartbeat⟩
      rw [hheartbeat.parse hJ] at hroot
      cases hroot
  · refine ⟨fun _ h => absurd h hping, fun _ => ⟨fun payload h => ?_, fun hpong => ?_⟩⟩
    · exact parseAndRouteMessage_sendMsg hping h n
    · obtain ⟨rest, heq⟩ := keeps_parseAndRouteMessage hJ hping n [] (by simp [ObjectReplies, sends])
        _ hpong
      exact absurd (List.cons.inj heq).1 (by decide)

/-! ## A chat message -/

/-- The payload of a message with a content, as a client may write it. -/
def chatPayload (content : Bytes) : Bytes :=
  str "\x7b\"msg_id\":\"m1\",\"content\":\"" ++ content ++ str "\"\x7d"

/-- The command that sends it. -/
def chatFrame (content : Bytes) : Bytes :=
  str "\x7b\"cmd\":\"send_msg\",\"payload\":" ++ chatPayload content ++ str "\x7d"

/-- As much of jsoncpp as that command needs, for a content without characters
to escape: a value is represented by its text, and a string by its characters. -/
def chatJson (content : Bytes) : JsonCpp where
  Value := Bytes
  parse := fun s => .ok (if chatFrame content <+: s then some (chatFrame content) else none)
  isMember := fun v k => .ok (v = chatFrame content ∧ (k = str "cmd" ∨ k = str "payload"))
  get := fun v k => .ok <|
    if v = chatFrame content then
      if k = str "cmd" then str "send_msg" else if k = str "payload" then chatPayload content else []
    else if v = chatPayload content then
      if k = str "msg_id" then str "m1" else if k = str "content" then content else []
    else []
  asString := fun v => .ok v
  asUInt64 := fun _ => .ok 0
  asInt := fun _ => .ok 0
  writeResult := resultText
  ObjectText := fun text => text = chatFrame content

theorem chatFrame_sendMsg (content : Bytes) :
    SendMsgFrame (chatJson content) (chatFrame content) (chatPayload content) := by
  have hne : chatPayload content ≠ chatFrame content := by
    intro heq
    have hlen := congrArg List.length heq
    have hclose : (str "\x7d").length = 1 := rfl
    rw [chatFrame, List.length_append, List.length_append, hclose] at hlen
    omega
  have hmsgId : str "content" ≠ str "msg_id" := by decide
  have hpayload : str "payload" ≠ str "cmd" := by decide
  have hcmd : (chatJson content).get (chatFrame content) (str "cmd") = .ok (str "send_msg") := by
    simp [chatJson]
  have hname : (chatJson content).get (chatPayload content) (str "msg_id") = .ok (str "m1") := by
    simp [chatJson, hne]
  have htext : (chatJson content).get (chatPayload content) (str "content") = .ok content := by
    simp [chatJson, hne, hmsgId]
  refine ⟨chatFrame content, str "m1", content, ?_, ?_, ?_, ?_, ?_, ?_, ?_⟩
  · exact congrArg Except.ok (if_pos (List.prefix_refl _))
  · simp [chatJson]
  · simp [chatJson]
  · rw [hcmd]
    rfl
  · simp [chatJson, hpayload]
  · rw [hname]
    rfl
  · rw [htext]
    rfl

theorem chatJson_braced (content : Bytes) : (chatJson content).Braced where
  parse := by
    intro rest
    have hnot : ¬ chatFrame content <+: chr 'P' :: rest := fun hpre =>
      absurd (List.cons_prefix_cons.mp hpre).1 (by decide)
    exact congrArg Except.ok (if_neg hnot)
  writeResult := fun _ _ _ => ⟨_, rfl⟩

theorem wellRouted_hello :
    WellRouted (chatJson (str "HELLO")) .mock 0 (chatFrame (str "HELLO")) ∧
    WellRouted (chatJson (str "HELLO")) .mock 0 (str "PING\n") :=
  ⟨(wellRouted_iff _ (chatJson_braced _) .mock 0 _).mpr (by decide),
    (wellRouted_iff _ (chatJson_braced _) .mock 0 _).mpr (by decide)⟩

/-- A message that says `STOP SHOPPING` is answered like a heartbeat, and lost. -/
theorem shopping_not_wellRouted :
    SendMsgFrame (chatJson (str "STOP SHOPPING")) (chatFrame (str "STOP SHOPPING"))
        (chatPayload (str "STOP SHOPPING")) ∧
      ¬ WellRouted (chatJson (str "STOP SHOPPING")) .mock 0 (chatFrame (str "STOP SHOPPING")) := by
  have hsend := chatFrame_sendMsg (str "STOP SHOPPING")
  refine ⟨hsend, fun h => ?_⟩
  have hforward := h.1 _ hsend
  rw [parseAndRouteMessage_ping (by decide)] at hforward
  cases hforward

end IMSystem.Gateway

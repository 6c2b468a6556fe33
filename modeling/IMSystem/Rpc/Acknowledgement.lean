import IMSystem.Rpc.Delivery

/-!
# Acknowledging one frame (the gRPC build)

A `send_msg` frame is answered by `ForwardToLogicService` with the response of a
`SendMessage` RPC, which `LogicServiceImpl` fills from the outcome of a retried
`SaveMsg` RPC. As in `Delivery`, a run is one order of all the events around one
frame: requests may be lost, attempts are given up while their requests are still
executed, and here the message service may answer a `SaveMsg` call with any
response at all. The log records its answers and the replies of the gateway in
the order in which they happen.

Results:
1. `executeWithRetryLoop_settle`: the loops of this model turn as the code's do.
2. `Inv.step`: every event keeps the log honest.
3. `honest_run`: in every run, a reply with code 0 passes on the sequence number
   of an earlier answer with code 0, and the frame is replied to at most once.
-/

namespace IMSystem.Acknowledgement

open Lib Retry Gateway MessageProcessor SensitiveFilter Delivery

/-! ## The parties -/

/-- The loop behind an attempt that has come to `r`. -/
def settle {α : Type} (attempt : Nat) : Except Exn α → Loop α
  | .ok a => .returned a
  | .error _ => .fail attempt

/-- A `SaveMsg` call, as the message service sees it. -/
inductive SaveCall where
  | inFlight
  | lost
  | answered (resp : SaveMsgResp)
deriving DecidableEq, Repr

/-- An execution of `SendMessage` inside `CallMessageServiceToSave`. -/
structure Execution where
  msg : LogicChatMsg
  loop : Loop Bytes
  saves : List SaveCall
deriving DecidableEq, Repr

/-- A `SendMessage` call, as the logic service sees it. -/
inductive SendCall where
  | inFlight (req : SendMsgReq)
  /-- The request was lost, or could not even be built from the payload. -/
  | lost
  /-- `ProcessIncomingMessage` gave up before the RPC. -/
  | rejected
  | handled (x : Execution)
deriving DecidableEq, Repr

/-- What is logged. -/
inductive Entry where
  /-- The message service answers a `SaveMsg` call for a message id. -/
  | saved (msgId : Bytes) (resp : SaveMsgResp)
  /-- The gateway passes a reply with the fields of `resp` to `Send`. -/
  | replied (resp : SendMsgResp)
deriving DecidableEq, Repr

def Entry.isReply : Entry → Bool
  | .saved _ _ => false
  | .replied _ => true

structure State where
  gateway : Loop SendMsgResp
  sends : List SendCall
  log : List Entry
deriving DecidableEq, Repr

/-- The frame has arrived at the gateway. -/
def State.start : State := ⟨.ready 0, [], []⟩

/-- What can happen around an execution of `SendMessage`. -/
inductive SaveAction where
  /-- The next attempt sends its request. -/
  | start
  /-- The request of an attempt is lost. -/
  | lose (attempt : Nat)
  /-- The message service answers the request of an attempt. -/
  | respond (attempt : Nat) (resp : SaveMsgResp)
  /-- What the current attempt comes to at the client. -/
  | outcome (result : RpcResult SaveMsgResp)
deriving DecidableEq, Repr

inductive Action where
  /-- The gateway's next attempt sends its request. -/
  | start
  /-- The request of an attempt is lost. -/
  | lose (attempt : Nat)
  /-- The logic service executes the request of an attempt. -/
  | execute (attempt : Nat) (root : TrieNode) (now : Int64)
  /-- The gateway's current attempt fails. -/
  | fail
  /-- The response reaches the gateway's current attempt. -/
  | answer
  /-- Something happens around the execution of the request of an attempt. -/
  | save (attempt : Nat) (a : SaveAction)

/-- `LogicServiceImpl::SendMessage`, from the outcome of `ProcessIncomingMessage`. -/
def sendMessage (success : Bool) (finalSeqId : Bytes) : SendMsgResp :=
  if success then ⟨0, str "SUCCESS", finalSeqId⟩
  else ⟨500, str "Internal Error or Validation Failed", []⟩

/-- The response to a call, once its execution is over. -/
def SendCall.response : SendCall → Option SendMsgResp
  | .rejected => some (sendMessage false [])
  | .handled x =>
    match x.loop with
    | .returned seqId => some (sendMessage true seqId)
    | .threw => some (sendMessage false [])
    | _ => none
  | _ => none

/-- An attempt may fail at any time, and it sees no response but its own. -/
def Execution.Sees (x : Execution) (attempt : Nat) : RpcResult SaveMsgResp → Prop
  | .failed _ => True
  | .answered resp => x.saves[attempt]? = some (.answered resp)

instance (x : Execution) (attempt : Nat) : DecidablePred (x.Sees attempt) := fun result =>
  match result with
  | .failed _ => isTrue trivial
  | .answered resp => inferInstanceAs (Decidable (x.saves[attempt]? = some (.answered resp)))

/-- One event around an execution of `SendMessage`, and what it adds to the log. -/
def saveStep (x : Execution) : SaveAction → Option (Execution × List Entry)
  | .start =>
    match x.loop with
    | .ready attempt =>
      some ({ x with loop := .waiting attempt, saves := x.saves ++ [.inFlight] }, [])
    | _ => none
  | .lose j =>
    if x.saves[j]? = some .inFlight then some ({ x with saves := x.saves.set j .lost }, [])
    else none
  | .respond j resp =>
    if x.saves[j]? = some .inFlight then
      some ({ x with saves := x.saves.set j (.answered resp) },
        [.saved (saveMsgReq x.msg).msgId resp])
    else none
  | .outcome result =>
    match x.loop with
    | .waiting attempt =>
      if x.Sees attempt result then
        some ({ x with loop := settle attempt (saveMsgAttempt result x.msg []).1 }, [])
      else none
    | _ => none

section Step

variable (J : JsonCpp) (payload : J.Value)

/-- One event. -/
def step (s : State) : Action → Option State
  | .start =>
    match s.gateway with
    | .ready attempt =>
      match sendMsgReq J payload with
      | .ok req => some { s with gateway := .waiting attempt, sends := s.sends ++ [.inFlight req] }
      | .error _ => some { s with gateway := .fail attempt, sends := s.sends ++ [.lost] }
    | _ => none
  | .lose k =>
    match s.sends[k]? with
    | some (.inFlight _) => some { s with sends := s.sends.set k .lost }
    | _ => none
  | .execute k root now =>
    match s.sends[k]? with
    | some (.inFlight req) =>
      match toSave root now (incoming req now) with
      | some msg => some { s with sends := s.sends.set k (.handled ⟨msg, .ready 0, []⟩) }
      | none => some { s with sends := s.sends.set k .rejected }
    | _ => none
  | .fail =>
    match s.gateway with
    | .waiting attempt => some { s with gateway := .fail attempt }
    | _ => none
  | .answer =>
    match s.gateway with
    | .waiting attempt =>
      match s.sends[attempt]?.bind SendCall.response with
      | some resp => some { s with gateway := .returned resp, log := s.log ++ [.replied resp] }
      | none => none
    | _ => none
  | .save k a =>
    match s.sends[k]? with
    | some (.handled x) =>
      match saveStep x a with
      | some (x', entries) =>
        some { s with sends := s.sends.set k (.handled x'), log := s.log ++ entries }
      | none => none
    | _ => none

/-- The frame was replied to at most once, and a reply with code 0 comes behind an
answer of the message service for the message id of the frame that has code 0 and
the same sequence number. -/
structure Honest (s : State) : Prop where
  once : s.log.countP Entry.isReply ≤ 1
  backed : ∀ i resp, s.log[i]? = some (.replied resp) → resp.code = 0 →
    ∃ req answer, sendMsgReq J payload = .ok req ∧
      .saved req.msgId answer ∈ s.log.take i ∧ answer.code = 0 ∧ answer.seqId = resp.seqId

end Step

/-! ## The loops of the code -/

/-- One turn of the code's loop, seen through `settle`: it goes on exactly where
the loop of the model is ready for another attempt. -/
theorem executeWithRetryLoop_settle {σ α : Type} (func : Nat → Call σ α) (attempt : Nat) (s : σ) :
    executeWithRetryLoop 3 func attempt s =
      match settle attempt (func attempt s).1 with
      | .ready next => executeWithRetryLoop 3 func next (func attempt s).2
      | _ => func attempt s := by
  rw [executeWithRetryLoop_turn]
  match hrun : func attempt s with
  | (.ok a, s') => rfl
  | (.error e, s') =>
    simp only [settle, Loop.fail]
    cases afterFailure 3 attempt with
    | none => rfl
    | some next => rfl

/-- An attempt returns the sequence number of an answer with code 0. -/
theorem saveMsgAttempt_ok {result : RpcResult SaveMsgResp} {msg : LogicChatMsg} {seqId : Bytes}
    (h : (saveMsgAttempt result msg []).1 = .ok seqId) :
    ∃ resp, result = .answered resp ∧ resp.code = 0 ∧ resp.seqId = seqId := by
  unfold saveMsgAttempt at h
  rw [Eff.bind_of_ok (Eff.modify_apply _ _)] at h
  cases result with
  | failed e => cases h
  | answered resp =>
    by_cases hcode : resp.code = 0
    · simp only [hcode, ne_eq, not_true_eq_false, if_false, Eff.pure_apply, Except.ok.injEq] at h
      exact ⟨resp, rfl, hcode, h⟩
    · simp only [ne_eq, hcode, not_false_eq_true, if_true] at h
      cases h

theorem fail_ne_returned {α : Type} (attempt : Nat) (a : α) :
    (Loop.fail attempt : Loop α) ≠ .returned a := by
  unfold Loop.fail
  cases afterFailure 3 attempt with
  | none => exact fun h => nomatch h
  | some next => exact fun h => nomatch h

theorem settle_returned {α : Type} {attempt : Nat} {r : Except Exn α} {a : α}
    (h : settle attempt r = .returned a) : r = .ok a := by
  cases r with
  | ok b =>
    cases h
    rfl
  | error e => exact absurd h (fail_ne_returned attempt a)

/-! ## What the log says about a call -/

/-- Whatever an execution knows of answers is logged under its message id. -/
structure Execution.Backed (frameId : Bytes) (log : List Entry) (x : Execution) : Prop where
  msgId : x.msg.msgId = frameId
  saves : ∀ resp, .answered resp ∈ x.saves → .saved frameId resp ∈ log
  returned : ∀ seqId, x.loop = .returned seqId →
    ∃ resp, .saved frameId resp ∈ log ∧ resp.code = 0 ∧ resp.seqId = seqId

theorem Execution.Backed.mono {frameId : Bytes} {log entries : List Entry} {x : Execution}
    (h : x.Backed frameId log) : x.Backed frameId (log ++ entries) where
  msgId := h.msgId
  saves := fun resp hresp => List.mem_append_left _ (h.saves resp hresp)
  returned := by
    intro seqId hloop
    obtain ⟨resp, hlog, hcode, hseq⟩ := h.returned seqId hloop
    exact ⟨resp, List.mem_append_left _ hlog, hcode, hseq⟩

/-- All that an event around an execution does, and what it adds to the log. -/
theorem saveStep_cases {x x' : Execution} {a : SaveAction} {entries : List Entry}
    (hstep : saveStep x a = some (x', entries)) :
    (∃ attempt, x' = { x with loop := .waiting attempt, saves := x.saves ++ [.inFlight] } ∧
      entries = []) ∨
    (∃ j, x' = { x with saves := x.saves.set j .lost } ∧ entries = []) ∨
    (∃ j resp, x' = { x with saves := x.saves.set j (.answered resp) } ∧
      entries = [.saved x.msg.msgId resp]) ∨
    (∃ attempt result, x.Sees attempt result ∧
      x' = { x with loop := settle attempt (saveMsgAttempt result x.msg []).1 } ∧
      entries = []) := by
  cases a with
  | start =>
    simp only [saveStep] at hstep
    split at hstep
    · cases hstep
      exact .inl ⟨_, rfl, rfl⟩
    · cases hstep
  | lose j =>
    simp only [saveStep] at hstep
    split at hstep
    · cases hstep
      exact .inr (.inl ⟨j, rfl, rfl⟩)
    · cases hstep
  | respond j resp =>
    simp only [saveStep] at hstep
    split at hstep
    · cases hstep
      exact .inr (.inr (.inl ⟨j, resp, rfl, rfl⟩))
    · cases hstep
  | outcome result =>
    simp only [saveStep] at hstep
    split at hstep
    · split at hstep
      · next hsees =>
        cases hstep
        exact .inr (.inr (.inr ⟨_, result, hsees, rfl, rfl⟩))
      · cases hstep
    · cases hstep

theorem Execution.Backed.step {frameId : Bytes} {log entries : List Entry} {x x' : Execution}
    {a : SaveAction} (h : x.Backed frameId log) (hstep : saveStep x a = some (x', entries)) :
    x'.Backed frameId (log ++ entries) := by
  rcases saveStep_cases hstep with ⟨attempt, rfl, rfl⟩ | ⟨j, rfl, rfl⟩ | ⟨j, resp, rfl, rfl⟩ |
    ⟨attempt, result, hsees, rfl, rfl⟩
  · refine ⟨h.msgId, fun resp hresp => ?_, fun _ hloop => nomatch hloop⟩
    rcases List.mem_append.mp hresp with hresp | hresp
    · exact h.mono.saves resp hresp
    · cases List.mem_singleton.mp hresp
  · refine ⟨h.msgId, fun resp hresp => ?_, h.mono.returned⟩
    rcases List.mem_or_eq_of_mem_set hresp with hresp | hresp
    · exact h.mono.saves resp hresp
    · cases hresp
  · refine ⟨h.msgId, fun resp' hresp => ?_, h.mono.returned⟩
    rcases List.mem_or_eq_of_mem_set hresp with hresp | hresp
    · exact h.mono.saves resp' hresp
    · cases hresp
      refine List.mem_append_right _ ?_
      rw [← h.msgId]
      exact List.mem_singleton_self _
  · refine ⟨h.msgId, h.mono.saves, fun seqId hloop => ?_⟩
    obtain ⟨resp, rfl, hcode, hseq⟩ := saveMsgAttempt_ok (settle_returned hloop)
    exact ⟨resp, h.mono.saves resp (List.mem_of_getElem? hsees), hcode, hseq⟩

section Log

variable {J : JsonCpp} {payload : J.Value}

/-- A call was built from the payload, and its execution is backed by the log. -/
def SendCall.Backed (J : JsonCpp) (payload : J.Value) (log : List Entry) : SendCall → Prop
  | .inFlight req => sendMsgReq J payload = .ok req
  | .lost => True
  | .rejected => True
  | .handled x => ∃ req, sendMsgReq J payload = .ok req ∧ x.Backed req.msgId log

theorem SendCall.Backed.mono {log entries : List Entry} {send : SendCall}
    (h : send.Backed J payload log) : send.Backed J payload (log ++ entries) := by
  cases send with
  | inFlight req => exact h
  | lost | rejected => exact trivial
  | handled x =>
    obtain ⟨req, hreq, hx⟩ := h
    exact ⟨req, hreq, hx.mono⟩

/-- A response with code 0 passes on the sequence number of a logged answer. -/
theorem SendCall.Backed.response {log : List Entry} {send : SendCall} {resp : SendMsgResp}
    (h : send.Backed J payload log) (hresp : send.response = some resp) (hcode : resp.code = 0) :
    ∃ req answer, sendMsgReq J payload = .ok req ∧ .saved req.msgId answer ∈ log ∧
      answer.code = 0 ∧ answer.seqId = resp.seqId := by
  cases send with
  | inFlight | lost => cases hresp
  | rejected =>
    cases hresp
    exact absurd hcode (by decide)
  | handled x =>
    obtain ⟨req, hreq, hx⟩ := h
    simp only [SendCall.response] at hresp
    split at hresp
    · next seqId hloop =>
      cases hresp
      obtain ⟨answer, hlog, hanswer, hseq⟩ := hx.returned seqId hloop
      exact ⟨req, answer, hreq, hlog, hanswer, hseq⟩
    · cases hresp
      exact absurd hcode (by decide)
    · cases hresp

/-- The message that is saved has the id of the request. -/
theorem backed_execution {root : TrieNode} {now : Int64} {req : SendMsgReq} {msg : LogicChatMsg}
    (hsave : toSave root now (incoming req now) = some msg) (log : List Entry) :
    (Execution.mk msg (.ready 0) []).Backed req.msgId log where
  msgId := by
    rw [toSave_eq_some hsave, ChatHandler.maskAndStamp_frame]
    rfl
  saves := fun _ hresp => absurd hresp List.not_mem_nil
  returned := fun _ hloop => nomatch hloop

/-- Entries that are no replies keep the log honest. -/
theorem Honest.append {s s' : State} {entries : List Entry} (h : Honest J payload s)
    (hlog : s'.log = s.log ++ entries) (hnone : ∀ e ∈ entries, e.isReply = false) :
    Honest J payload s' where
  once := by
    have hzero : entries.countP Entry.isReply = 0 :=
      List.countP_eq_zero.mpr fun e he => by simp [hnone e he]
    rw [hlog, List.countP_append, hzero]
    exact h.once
  backed := by
    intro i resp hi hcode
    rw [hlog] at hi ⊢
    rcases Nat.lt_or_ge i s.log.length with hlt | hge
    · rw [List.getElem?_append_left hlt] at hi
      rw [List.take_append_of_le_length (Nat.le_of_lt hlt)]
      exact h.backed i resp hi hcode
    · rw [List.getElem?_append_right hge] at hi
      exact absurd (hnone _ (List.mem_of_getElem? hi)) Bool.noConfusion

/-- The entries of an execution are no replies. -/
theorem saveStep_entries {x x' : Execution} {a : SaveAction} {entries : List Entry}
    (hstep : saveStep x a = some (x', entries)) : ∀ e ∈ entries, e.isReply = false := by
  intro e he
  rcases saveStep_cases hstep with ⟨_, _, rfl⟩ | ⟨_, _, rfl⟩ | ⟨_, resp, _, rfl⟩ | ⟨_, _, _, _, rfl⟩
  · exact absurd he List.not_mem_nil
  · exact absurd he List.not_mem_nil
  · rw [List.mem_singleton.mp he]
    rfl
  · exact absurd he List.not_mem_nil

/-! ## What holds in every run -/

/-- The log is honest and backs all calls, and there is no reply in it before the
loop of the gateway has returned. -/
structure Inv (J : JsonCpp) (payload : J.Value) (s : State) : Prop where
  honest : Honest J payload s
  sends : ∀ send ∈ s.sends, send.Backed J payload s.log
  silent : (∀ resp, s.gateway ≠ .returned resp) → s.log.countP Entry.isReply = 0

/-- An event that adds no reply to the log, and leaves a loop that has returned
alone. -/
theorem Inv.append {s s' : State} {entries : List Entry} (h : Inv J payload s)
    (hlog : s'.log = s.log ++ entries) (hnone : ∀ e ∈ entries, e.isReply = false)
    (hsends : ∀ send ∈ s'.sends, send ∈ s.sends ∨ send.Backed J payload s'.log)
    (hgateway : ∀ resp, s.gateway = .returned resp → s'.gateway = .returned resp) :
    Inv J payload s' where
  honest := h.honest.append hlog hnone
  sends := by
    intro send hsend
    rcases hsends send hsend with hold | hnew
    · rw [hlog]
      exact (h.sends send hold).mono
    · exact hnew
  silent := by
    intro hopen
    have hzero : entries.countP Entry.isReply = 0 :=
      List.countP_eq_zero.mpr fun e he => by simp [hnone e he]
    rw [hlog, List.countP_append, hzero, Nat.add_zero]
    exact h.silent fun resp hresp => hopen resp (hgateway resp hresp)

/-- A call that takes the place of another one in an event without a reply. -/
theorem Inv.set {s : State} (h : Inv J payload s) (k : Nat) (send : SendCall)
    {entries : List Entry} (hnone : ∀ e ∈ entries, e.isReply = false)
    (hsend : send.Backed J payload (s.log ++ entries)) :
    Inv J payload { s with sends := s.sends.set k send, log := s.log ++ entries } := by
  refine h.append rfl hnone (fun send' hmem => ?_) fun _ hresp => hresp
  rcases List.mem_or_eq_of_mem_set hmem with hold | rfl
  · exact .inl hold
  · exact .inr hsend

/-- The gateway's loop has not returned, so its reply is the first. -/
theorem Inv.reply {s : State} (h : Inv J payload s) {attempt : Nat} {resp : SendMsgResp}
    (hloop : s.gateway = .waiting attempt)
    (hresp : s.sends[attempt]?.bind SendCall.response = some resp) :
    Inv J payload { s with gateway := .returned resp, log := s.log ++ [.replied resp] } := by
  obtain ⟨send, hsend, hresp⟩ := Option.bind_eq_some_iff.mp hresp
  have hsilent : s.log.countP Entry.isReply = 0 :=
    h.silent fun resp' heq => by rw [hloop] at heq; cases heq
  refine ⟨⟨?_, fun i resp' hi hcode => ?_⟩, fun send' hmem => ?_, fun hopen => ?_⟩
  · simp [List.countP_append, hsilent, Entry.isReply]
  · rcases Nat.lt_trichotomy i s.log.length with hlt | rfl | hgt
    · rw [List.getElem?_append_left hlt] at hi
      rw [List.take_append_of_le_length (Nat.le_of_lt hlt)]
      exact h.honest.backed i resp' hi hcode
    · rw [List.getElem?_concat_length] at hi
      cases hi
      rw [List.take_left']
      · exact (h.sends send (List.mem_of_getElem? hsend)).response hresp hcode
      · rfl
    · rw [List.getElem?_eq_none (by rw [List.length_append, List.length_singleton]; omega)] at hi
      cases hi
  · exact (h.sends send' hmem).mono
  · exact absurd rfl (hopen resp)

theorem not_reply_nil : ∀ e ∈ ([] : List Entry), e.isReply = false :=
  fun _ he => absurd he List.not_mem_nil

/-- The gateway begins an attempt, with a call that is in flight or lost. -/
theorem Inv.start {s : State} (h : Inv J payload s) {attempt : Nat}
    (hloop : s.gateway = .ready attempt) (gateway : Loop SendMsgResp) {send : SendCall}
    (hsend : send.Backed J payload s.log) :
    Inv J payload { s with gateway := gateway, sends := s.sends ++ [send] } := by
  refine h.append (List.append_nil _).symm not_reply_nil (fun send' hmem => ?_) fun resp heq => ?_
  · rcases List.mem_append.mp hmem with hold | hnew
    · exact .inl hold
    · rw [List.mem_singleton.mp hnew]
      exact .inr hsend
  · rw [hloop] at heq
    cases heq

theorem Inv.step {s s' : State} {a : Action} (h : Inv J payload s)
    (hstep : step J payload s a = some s') : Inv J payload s' := by
  cases a with
  | start =>
    simp only [Acknowledgement.step] at hstep
    split at hstep
    · next attempt hloop =>
      split at hstep
      · next req hreq =>
        cases hstep
        exact h.start hloop _ hreq
      · cases hstep
        exact h.start hloop _ trivial
    · cases hstep
  | lose k =>
    simp only [Acknowledgement.step] at hstep
    split at hstep
    · cases hstep
      simpa using h.set k .lost not_reply_nil trivial
    · cases hstep
  | execute k root now =>
    simp only [Acknowledgement.step] at hstep
    split at hstep
    · next req hk =>
      have hreq : sendMsgReq J payload = .ok req := h.sends _ (List.mem_of_getElem? hk)
      split at hstep
      · next msg hsave =>
        cases hstep
        simpa using h.set k (.handled ⟨msg, .ready 0, []⟩) not_reply_nil
          ⟨req, hreq, backed_execution hsave _⟩
      · cases hstep
        simpa using h.set k .rejected not_reply_nil trivial
    · cases hstep
  | fail =>
    simp only [Acknowledgement.step] at hstep
    split at hstep
    · next attempt hloop =>
      cases hstep
      refine h.append (List.append_nil _).symm not_reply_nil (fun send hmem => .inl hmem) fun resp heq => ?_
      rw [hloop] at heq
      cases heq
    · cases hstep
  | answer =>
    simp only [Acknowledgement.step] at hstep
    split at hstep
    · next attempt hloop =>
      split at hstep
      · next resp hresp =>
        cases hstep
        exact h.reply hloop hresp
      · cases hstep
    · cases hstep
  | save k a =>
    simp only [Acknowledgement.step] at hstep
    split at hstep
    · next x hk =>
      split at hstep
      · next x' entries hsave =>
        cases hstep
        obtain ⟨req, hreq, hx⟩ := h.sends _ (List.mem_of_getElem? hk)
        exact h.set k (.handled x') (saveStep_entries hsave) ⟨req, hreq, hx.step hsave⟩
      · cases hstep
    · cases hstep

/-- In every run, the frame is replied to at most once, and a reply with code 0
carries the sequence number with which the message service had, before, answered
a `SaveMsg` call for the message id of the frame with code 0. -/
theorem honest_run (J : JsonCpp) (payload : J.Value) (actions : List Action) :
    HoldsAlong (Acknowledgement.step J payload) (Honest J payload) .start actions := by
  have hstart : Inv J payload .start :=
    ⟨⟨Nat.zero_le _, fun _ _ hi => nomatch hi⟩, fun _ hmem => absurd hmem List.not_mem_nil,
      fun _ => rfl⟩
  exact holdsAlong_of_step (fun _ _ _ h hstep => h.step hstep) (fun _ h => h.honest) hstart

end Log

/-- A client that writes an image to group `2`. -/
def groupJson : JsonCpp :=
  { smallJson with get := fun _ k => .ok k, asUInt64 := fun _ => .ok 2, asInt := fun _ => .ok 2 }

-- the first `SaveMsg` attempt is given up, and the second one is acknowledged
example : (run (step groupJson (str "payload")) .start
    [.start, .execute 0 .fresh 5, .save 0 .start, .save 0 (.outcome (.failed (str "timeout"))),
      .save 0 .start, .save 0 (.respond 1 ⟨0, [], str "7"⟩),
      .save 0 (.outcome (.answered ⟨0, [], str "7"⟩)), .answer]).map State.log =
    some [.saved (str "msg_id") ⟨0, [], str "7"⟩, .replied ⟨0, str "SUCCESS", str "7"⟩] := by
  decide +kernel

end IMSystem.Acknowledgement

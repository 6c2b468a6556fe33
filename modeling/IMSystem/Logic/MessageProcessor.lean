import IMSystem.Common.Retry
import IMSystem.Logic.ChatHandler

/-!
# The message pipeline of the logic service (`logic/src/message_processor.cpp`)

`ProcessIncomingMessage` picks a handler, validates, masks and hands the
message to the message service through a retried `SaveMsg` RPC. This is the
gRPC build; what an RPC attempt comes to is the choice of the environment.

Results:
1. `processIncomingMessage_sent`: every request of a run carries the same
   message, the processed one.
2. `processIncomingMessage_requests`: what is sent and what is left alone.
3. `sent_content_masked`: what a request may still contain of the loaded words.
-/

namespace IMSystem.MessageProcessor

open Lib Retry ChatHandler SensitiveFilter

/-- `SaveMsgReq`. -/
structure SaveMsgReq where
  msgId : Bytes
  senderId : UInt64
  receiverId : UInt64
  sessionType : Int32
  msgType : Int32
  content : Bytes
deriving DecidableEq, Repr

/-- `SaveMsgResp`. -/
structure SaveMsgResp where
  code : Int32
  msg : Bytes
  seqId : Bytes
deriving DecidableEq, Repr

/-- What one RPC attempt comes to at the client: a status other than OK (the
deadline passed, the transport failed), or the response. -/
inductive RpcResult (Resp : Type) where
  | failed (errorMessage : Bytes)
  | answered (resp : Resp)
deriving DecidableEq, Repr

/-- The request built from a message. -/
def saveMsgReq (msg : LogicChatMsg) : SaveMsgReq where
  msgId := msg.msgId
  senderId := msg.senderId
  receiverId := msg.receiverId
  sessionType := msg.sessionType
  msgType := msg.msgType
  content := msg.content

/-- One attempt of the lambda in `CallMessageServiceToSave`. The state is the
list of the requests sent so far. -/
def saveMsgAttempt (result : RpcResult SaveMsgResp) (msg : LogicChatMsg) :
    Call (List SaveMsgReq) Bytes := do
  Eff.modify (· ++ [saveMsgReq msg])
  match result with
  | .failed e => Eff.raise (.std (str "gRPC Error: " ++ e))
  | .answered resp =>
    if resp.code ≠ 0 then Eff.raise (.std (str "Business Error: " ++ resp.msg))
    else pure resp.seqId

/-- The message in progress, the caller's `out_seq_id`, and the requests sent. -/
structure Progress where
  msg : LogicChatMsg
  outSeqId : Bytes
  sent : List SaveMsgReq
deriving DecidableEq, Repr

/-- `MessageProcessor::GetHandler`. -/
def getHandler (sessionType : Int32) : Option Handler :=
  if sessionType = 1 then some .single
  else if sessionType = 2 then some .group
  else none

/-- `MessageProcessor::CallMessageServiceToSave`. -/
def callMessageServiceToSave (rpc : Nat → RpcResult SaveMsgResp) (p : Progress) :
    Bool × Progress :=
  match executeWithRetry 3 (fun i => saveMsgAttempt (rpc i) p.msg) p.sent with
  | (.ok seqId, sent) =>
    (true, { msg := { p.msg with seqId := seqId }, outSeqId := seqId, sent := sent })
  | (.error _, sent) => (false, { p with sent := sent })

/-- `MessageProcessor::DispatchToPushService`, which only logs. -/
def dispatchToPushService (_ : LogicChatMsg) : Bool := true

/-- `MessageProcessor::ProcessIncomingMessage`. -/
def processIncomingMessage (root : TrieNode) (now : Int64) (rpc : Nat → RpcResult SaveMsgResp)
    (p : Progress) : Bool × Progress :=
  match getHandler p.msg.sessionType with
  | none => (false, p)
  | some handler =>
    if !handler.validate p.msg then (false, p)
    else
      match handler.processSend root now p.msg with
      | (false, msg) => (false, { p with msg := msg })
      | (true, msg) =>
        match callMessageServiceToSave rpc { p with msg := msg } with
        | (false, p) => (false, p)
        | (true, p) =>
          -- a failed dispatch is logged and otherwise ignored
          if dispatchToPushService p.msg then (true, p) else (true, p)

/-- The part of `ProcessIncomingMessage` before the RPC: the message to save, if
it gets that far. -/
def toSave (root : TrieNode) (now : Int64) (msg : LogicChatMsg) : Option LogicChatMsg :=
  match getHandler msg.sessionType with
  | none => none
  | some handler =>
    if !handler.validate msg then none
    else
      match handler.processSend root now msg with
      | (false, _) => none
      | (true, msg) => some msg

/-- `ProcessIncomingMessage` is the preparation followed by the RPC. -/
theorem processIncomingMessage_eq (root : TrieNode) (now : Int64)
    (rpc : Nat → RpcResult SaveMsgResp) (p : Progress) :
    processIncomingMessage root now rpc p =
      match toSave root now p.msg with
      | none => (false, p)
      | some msg => callMessageServiceToSave rpc { p with msg := msg } := by
  unfold processIncomingMessage toSave
  cases getHandler p.msg.sessionType with
  | none => rfl
  | some handler =>
    simp only [processSend_eq]
    cases handler.validate p.msg with
    | false => rfl
    | true =>
      simp only [Bool.not_true, Bool.false_eq_true, if_false]
      cases callMessageServiceToSave rpc { p with msg := maskAndStamp root now p.msg } with
      | mk ok q => cases ok <;> simp [dispatchToPushService]

theorem toSave_eq_some {root : TrieNode} {now : Int64} {msg saved : LogicChatMsg}
    (h : toSave root now msg = some saved) : saved = maskAndStamp root now msg := by
  unfold toSave at h
  cases hh : getHandler msg.sessionType with
  | none => simp [hh] at h
  | some handler =>
    simp only [hh, processSend_eq] at h
    split at h
    · cases h
    · cases h
      rfl

/-- A single or a group chat message that its handler's `Validate` lets through. -/
def Accepted (msg : LogicChatMsg) : Prop :=
  (msg.sessionType = 1 ∧ singleValidate msg = true) ∨
  (msg.sessionType = 2 ∧ groupValidate msg = true)

instance : DecidablePred Accepted := fun msg =>
  inferInstanceAs (Decidable ((msg.sessionType = 1 ∧ _) ∨ _))

theorem toSave_of_accepted (root : TrieNode) (now : Int64) {msg : LogicChatMsg}
    (h : Accepted msg) : toSave root now msg = some (maskAndStamp root now msg) := by
  rcases h with ⟨htype, hvalid⟩ | ⟨htype, hvalid⟩
  · simp [toSave, getHandler, htype, Handler.validate, hvalid, processSend_eq]
  · simp [toSave, getHandler, htype, Handler.validate, hvalid, processSend_eq]

theorem toSave_of_not_accepted (root : TrieNode) (now : Int64) {msg : LogicChatMsg}
    (h : ¬ Accepted msg) : toSave root now msg = none := by
  unfold toSave getHandler
  split
  · rfl
  · next handler hhandler =>
    have hreject : handler.validate msg = false := by
      rw [Bool.eq_false_iff]
      intro hvalid
      split at hhandler
      · next htype =>
        cases hhandler
        exact h (.inl ⟨htype, hvalid⟩)
      · split at hhandler
        · next htype =>
          cases hhandler
          exact h (.inr ⟨htype, hvalid⟩)
        · cases hhandler
    simp [hreject]

/-! ## What the retry loop sends -/

theorem saveMsgAttempt_sent (result : RpcResult SaveMsgResp) (msg : LogicChatMsg)
    (sent : List SaveMsgReq) :
    (saveMsgAttempt result msg sent).2 = sent ++ [saveMsgReq msg] := by
  unfold saveMsgAttempt
  rw [Eff.bind_of_ok (Eff.modify_apply _ _)]
  cases result with
  | failed e => rfl
  | answered resp => by_cases h : resp.code = 0 <;> simp [h]

/-- The loop sends between one and four copies of one request. -/
theorem callMessageServiceToSave_sent (rpc : Nat → RpcResult SaveMsgResp) (p : Progress) :
    ∃ k, 1 ≤ k ∧ k ≤ 4 ∧
      (callMessageServiceToSave rpc p).2.sent =
        p.sent ++ List.replicate k (saveMsgReq p.msg) := by
  have hcall : ∀ (i : Nat) (sent : List SaveMsgReq) r sent',
      sent = p.sent ++ List.replicate i (saveMsgReq p.msg) →
      saveMsgAttempt (rpc i) p.msg sent = (r, sent') →
      sent' = p.sent ++ List.replicate (i + 1) (saveMsgReq p.msg) := by
    intro i sent r sent' hsent hrun
    have hlast : sent' = sent ++ [saveMsgReq p.msg] := by
      simpa only [hrun] using saveMsgAttempt_sent (rpc i) p.msg sent
    rw [hlast, hsent, List.append_assoc, ← List.replicate_succ']
  have hrule := Eff.retry_rule (fun i => saveMsgAttempt (rpc i) p.msg)
    (fun i sent => sent = p.sent ++ List.replicate i (saveMsgReq p.msg))
    (fun i _ sent => sent = p.sent ++ List.replicate (i + 1) (saveMsgReq p.msg))
    (fun i s a s' h hr => hcall i s _ s' h hr) (fun i s e s' h hr => hcall i s _ s' h hr)
    3 0 p.sent (by simp)
  unfold callMessageServiceToSave
  rw [executeWithRetry_eq]
  rcases hrule with ⟨i, a, s', _, hi, hr, hs⟩ | ⟨e, s', hr, hs⟩
  · rw [show (3 : Int).toNat = 3 from rfl, hr]
    exact ⟨i + 1, by omega, by omega, hs⟩
  · rw [show (3 : Int).toNat = 3 from rfl, hr]
    exact ⟨4, by omega, by omega, hs⟩

/-- Every request that a run adds carries the message as `ProcessSend` left it. -/
theorem processIncomingMessage_sent (root : TrieNode) (now : Int64)
    (rpc : Nat → RpcResult SaveMsgResp) (p : Progress) :
    ∃ k, (processIncomingMessage root now rpc p).2.sent =
      p.sent ++ List.replicate k (saveMsgReq (maskAndStamp root now p.msg)) := by
  rw [processIncomingMessage_eq]
  cases hsave : toSave root now p.msg with
  | none => exact ⟨0, by simp⟩
  | some msg =>
    obtain rfl := toSave_eq_some hsave
    obtain ⟨k, _, _, hk⟩ := callMessageServiceToSave_sent rpc
      { p with msg := maskAndStamp root now p.msg }
    exact ⟨k, hk⟩

/-- What a run sends and what it leaves alone, whatever attempts fail. A message
that is not accepted is neither sent nor changed. Every request for an accepted
one carries its fields, with the content of a text message filtered; neither the
guard in front of the filter nor the kind of the handler makes a difference. -/
theorem processIncomingMessage_requests (root : TrieNode) (now : Int64)
    (rpc : Nat → RpcResult SaveMsgResp) (msg : LogicChatMsg) (out : Bytes) :
    (¬ Accepted msg →
      processIncomingMessage root now rpc ⟨msg, out, []⟩ = (false, ⟨msg, out, []⟩)) ∧
    (Accepted msg →
      (processIncomingMessage root now rpc ⟨msg, out, []⟩).2.sent ≠ [] ∧
      ∀ req ∈ (processIncomingMessage root now rpc ⟨msg, out, []⟩).2.sent,
        req.msgId = msg.msgId ∧ req.senderId = msg.senderId ∧
        req.receiverId = msg.receiverId ∧ req.sessionType = msg.sessionType ∧
        req.msgType = msg.msgType ∧
        req.content = if msg.msgType = 1 then filter root msg.content else msg.content) ∧
    (∀ text, hasSensitiveWord root text = false → filter root text = text) ∧
    (singleProcessSend root now msg).2.content = (groupProcessSend root now msg).2.content := by
  refine ⟨fun hreject => ?_, fun haccept => ?_, fun _ h => filter_eq_of_not_has h, rfl⟩
  · rw [processIncomingMessage_eq, toSave_of_not_accepted root now hreject]
  · obtain ⟨k, hpos, _, hsent⟩ := callMessageServiceToSave_sent rpc
      ⟨maskAndStamp root now msg, out, []⟩
    rw [processIncomingMessage_eq, toSave_of_accepted root now haccept]
    rw [List.nil_append] at hsent
    simp only [hsent]
    refine ⟨fun hnil => ?_, fun req hreq => ?_⟩
    · have := (List.replicate_eq_nil_iff _).mp hnil
      omega
    · have hframe := maskAndStamp_frame root now msg
      rw [List.eq_of_mem_replicate hreq, ← maskAndStamp_content root now msg, hframe]
      exact ⟨rfl, rfl, rfl, rfl, rfl, rfl⟩

/-! ## No loaded word reaches the store, unless it is built from the mask -/

/-- A text message on its way to the message service, whatever attempts fail:
its content has no loaded word that is free of the mask symbol `*`. So when no
loaded word contains `*`, the stored content passes the check of the filter and
filtering it again changes nothing. -/
theorem sent_content_masked (inits : List (List Bytes)) (now : Int64)
    (rpc : Nat → RpcResult SaveMsgResp) (msg : LogicChatMsg) (out : Bytes) (req : SaveMsgReq)
    (htext : msg.msgType = 1)
    (hreq : req ∈ (processIncomingMessage (loaded inits) now rpc ⟨msg, out, []⟩).2.sent) :
    (∀ w ∈ words inits, chr '*' ∉ w → ¬ w <:+: req.content) ∧
    ((∀ w ∈ words inits, chr '*' ∉ w) →
      hasSensitiveWord (loaded inits) req.content = false ∧
      filter (loaded inits) req.content = req.content) := by
  have hcontent : req.content = filter (loaded inits) msg.content := by
    obtain ⟨k, hk⟩ := processIncomingMessage_sent (loaded inits) now rpc ⟨msg, out, []⟩
    rw [hk, List.nil_append] at hreq
    rw [List.eq_of_mem_replicate hreq]
    simp [saveMsgReq, maskAndStamp_content, htext]
  have hmask := filter_masks (loaded inits) msg.content
  rw [trieWords_loaded, ← hcontent] at hmask
  have hclean : ∀ w ∈ words inits, chr '*' ∉ w → ¬ w <:+: req.content :=
    fun w hw hfree => hmask.no_word_of_free hw hw.1 hfree
  refine ⟨hclean, fun hall => ?_⟩
  have hhas : hasSensitiveWord (loaded inits) req.content = false := by
    rw [Bool.eq_false_iff]
    intro h
    rw [hasSensitiveWord_iff, trieWords_loaded] at h
    obtain ⟨w, hw, _, hinf⟩ := h
    exact hclean w hw (hall w hw) hinf
  exact ⟨hhas, filter_eq_of_not_has hhas⟩

/-- The text message `content` from user 1 to user 2. -/
def textMessage (content : Bytes) : LogicChatMsg :=
  ⟨str "m", 1, 2, 1, 1, content, 0, 0, []⟩

theorem sent_content_masked_badword :
    ∃ req ∈ (processIncomingMessage (loaded [[str "badword"]]) 7
        (fun _ => .failed []) ⟨textMessage (str "a badword!"), [], []⟩).2.sent,
      req.content = str "a *******!" ∧
      hasSensitiveWord (loaded [[str "badword"]]) req.content = false := by
  have hmem : saveMsgReq (textMessage (str "a *******!")) ∈
      (processIncomingMessage (loaded [[str "badword"]]) 7
        (fun _ => .failed []) ⟨textMessage (str "a badword!"), [], []⟩).2.sent := by
    decide +kernel
  have h := sent_content_masked [[str "badword"]] 7 (fun _ => .failed [])
    (textMessage (str "a badword!")) [] _ rfl hmem
  refine ⟨_, hmem, rfl, (h.2 ?_).1⟩
  rintro w ⟨_, ws, hws, hw⟩
  rw [List.mem_singleton] at hws
  subst hws
  rw [List.mem_singleton] at hw
  subst hw
  decide

theorem processIncomingMessage_requests_badword :
    (processIncomingMessage (loaded [[str "badword"]]) 7 (fun _ => .failed [])
        ⟨textMessage (str "a badword!"), [], []⟩).2.sent ≠ [] ∧
    ∀ req ∈ (processIncomingMessage (loaded [[str "badword"]]) 7 (fun _ => .failed [])
        ⟨textMessage (str "a badword!"), [], []⟩).2.sent,
      req.receiverId = 2 ∧ req.content = str "a *******!" := by
  have h := (processIncomingMessage_requests (loaded [[str "badword"]]) 7 (fun _ => .failed [])
    (textMessage (str "a badword!")) []).2.1 (by decide)
  refine ⟨h.1, fun req hreq => ?_⟩
  obtain ⟨_, _, hreceiver, _, _, hcontent⟩ := h.2 req hreq
  have hmask : filter (loaded [[str "badword"]]) (str "a badword!") = str "a *******!" := by
    decide +kernel
  exact ⟨hreceiver, hcontent.trans hmask⟩

/-- A loaded word with a `*` can be built by the masking itself: the content of
the request contains `f*`, and filtering it again changes it. -/
theorem star_word_survives :
    ∃ req ∈ (processIncomingMessage (loaded [[str "f*"]]) 7
        (fun _ => .failed []) ⟨textMessage (str "ff*"), [], []⟩).2.sent,
      str "f*" ∈ words [[str "f*"]] ∧ str "f*" <:+: req.content ∧
      hasSensitiveWord (loaded [[str "f*"]]) req.content = true ∧
      filter (loaded [[str "f*"]]) req.content ≠ req.content := by
  refine ⟨saveMsgReq (textMessage (str "f**")), by decide +kernel, ?_, ?_, by decide +kernel,
    by decide +kernel⟩
  · exact ⟨by decide, [str "f*"], by simp, by simp⟩
  · exact ⟨[], str "*", by decide⟩

end IMSystem.MessageProcessor

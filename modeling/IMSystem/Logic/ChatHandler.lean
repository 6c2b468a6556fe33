import IMSystem.Logic.SensitiveFilter

/-!
# Chat messages and their handlers (`logic/src/chat_handler.cpp`)

`LogicChatMsg` is the message type that the logic and the message service
share. A handler validates a message and prepares it for storing; the two
handlers differ in `Validate` and agree in `ProcessSend`.
-/

namespace IMSystem

open Lib

/-- `LogicChatMsg`. -/
structure LogicChatMsg where
  msgId : Bytes
  senderId : UInt64
  receiverId : UInt64
  /-- 1: single chat, 2: group chat. -/
  sessionType : Int32
  /-- 1: text. -/
  msgType : Int32
  content : Bytes
  sendTime : Int64
  serverTime : Int64
  seqId : Bytes
deriving DecidableEq, Repr

namespace ChatHandler

open SensitiveFilter

/-- The part that the two `ProcessSend` share: a text message whose content has
a loaded word is masked, and the server time is filled in. -/
def maskAndStamp (root : TrieNode) (now : Int64) (msg : LogicChatMsg) : LogicChatMsg :=
  let msg :=
    if msg.msgType = 1 then
      if hasSensitiveWord root msg.content then
        { msg with content := filter root msg.content }
      else msg
    else msg
  { msg with serverTime := now }

/-- `SingleChatHandler::Validate`: nobody writes to themselves. -/
def singleValidate (msg : LogicChatMsg) : Bool :=
  if msg.senderId = msg.receiverId then false else true

/-- `SingleChatHandler::ProcessSend`. -/
def singleProcessSend (root : TrieNode) (now : Int64) (msg : LogicChatMsg) : Bool × LogicChatMsg :=
  (true, maskAndStamp root now msg)

/-- `GroupChatHandler::Validate`: group id `0` does not exist. -/
def groupValidate (msg : LogicChatMsg) : Bool :=
  if msg.receiverId = 0 then false else true

/-- `GroupChatHandler::ProcessSend`. -/
def groupProcessSend (root : TrieNode) (now : Int64) (msg : LogicChatMsg) : Bool × LogicChatMsg :=
  (true, maskAndStamp root now msg)

/-- The classes derived from `BaseChatHandler`. -/
inductive Handler where
  | single
  | group
deriving DecidableEq, Repr

/-- The virtual call `handler->Validate(msg)`. -/
def Handler.validate : Handler → LogicChatMsg → Bool
  | single => singleValidate
  | group => groupValidate

/-- The virtual call `handler->ProcessSend(msg)`. -/
def Handler.processSend : Handler → TrieNode → Int64 → LogicChatMsg → Bool × LogicChatMsg
  | single => singleProcessSend
  | group => groupProcessSend

theorem processSend_eq (h : Handler) (root : TrieNode) (now : Int64) (msg : LogicChatMsg) :
    h.processSend root now msg = (true, maskAndStamp root now msg) := by
  cases h <;> rfl

/-- The guard in front of `Filter` is invisible: a text message is always
filtered, any other message never. -/
theorem maskAndStamp_content (root : TrieNode) (now : Int64) (msg : LogicChatMsg) :
    (maskAndStamp root now msg).content =
      if msg.msgType = 1 then filter root msg.content else msg.content := by
  unfold maskAndStamp
  by_cases htext : msg.msgType = 1
  · cases hhas : hasSensitiveWord root msg.content with
    | true => simp [htext]
    | false => simp [htext, filter_eq_of_not_has hhas]
  · simp [htext]

/-- `ProcessSend` touches the content and the server time only. -/
theorem maskAndStamp_frame (root : TrieNode) (now : Int64) (msg : LogicChatMsg) :
    maskAndStamp root now msg =
      { msg with content := (maskAndStamp root now msg).content, serverTime := now } := by
  unfold maskAndStamp
  by_cases htext : msg.msgType = 1
  · cases hasSensitiveWord root msg.content <;> simp [htext]
  · simp [htext]

end ChatHandler

end IMSystem

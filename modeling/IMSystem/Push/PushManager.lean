import IMSystem.Common.Json

/-!
# Push tasks (`push/src/push_manager.cpp`)

`ParseMessage` fills a `PushTask` member by member inside a `try` whose handlers log and let
the task be returned as it then stands. `HandleIncomingPushTask` drops a task without a
receiver and dispatches the others. Environment, certificates and log lines are left out;
the two push clients are what they are called with.

Results:
1. `parse_safe_iff`: a task escapes half filled exactly when the receiver can be read and the
   content cannot.
2. `handleIncomingPushTask_pushes`: what is dispatched carries the content of the task.
-/

namespace IMSystem.Push

open Lib Json

/-- `PushTask`. The platform is not initialised. -/
structure PushTask where
  receiverId : UInt64
  platform : Option Int32
  deviceToken : Bytes
  title : Bytes
  content : Bytes
deriving DecidableEq, Repr

inductive Client where
  | apns
  | fcm
deriving DecidableEq, Repr

/-- A notification that a push client has sent. -/
structure Notification where
  client : Client
  deviceToken : Bytes
  title : Bytes
  body : Bytes
  customPayload : Bytes
deriving DecidableEq, Repr

/-- `APNsClient::PushMessage` and `FCMClient::PushMessage`. -/
def pushMessage (client : Client) (deviceToken title body customPayload : Bytes) :
    List Notification :=
  if deviceToken = [] then [] else [⟨client, deviceToken, title, body, customPayload⟩]

namespace PushManager

section Parsing

variable (J : Api)

/-- The check of the required fields; `||` stops at the first that is missing. -/
def hasRequiredFields (root : J.Value) : Except Exn Bool := do
  if !(← J.isMember root (str "receiver_id")) then return false
  if !(← J.isMember root (str "msg_type")) then return false
  J.isMember root (str "content")

/-- The `try` block of `ParseMessage`. -/
def parseMessageTry (rawMsg : Bytes) : Call PushTask Unit := do
  match ← Eff.ofExcept (J.parse rawMsg) with
  | none => pure ()
  | some root =>
    if ← Eff.ofExcept (hasRequiredFields J root) then
      let receiverId ← Eff.ofExcept (J.get root (str "receiver_id") >>= J.asUInt64)
      Eff.modify fun task => { task with receiverId }
      Eff.modify fun task => { task with title := str "New Message" }
      let content ← Eff.ofExcept (J.get root (str "content") >>= J.asString)
      Eff.modify fun task => { task with content }
    else pure ()

/-- `ParseMessage`: both handlers fall through to the `return`. -/
def parseMessage (rawMsg : Bytes) : Except Exn PushTask :=
  match parseMessageTry J rawMsg ⟨0, none, [], [], []⟩ with
  | (.ok (), task) => .ok task
  | (.error (.std _), task) => .ok task
  | (.error .other, task) => .ok task

/-- `FetchDeviceToken`: the platform and the token of a user. -/
def fetchDeviceToken (userId : UInt64) : Option (Int32 × Bytes) :=
  if userId = 2002 then some (1, str "apns_device_token_abcdef123456")
  else if userId = 3003 then some (2, str "fcm_device_token_zyxwv98765")
  else none

/-- The routing of a task in `HandleIncomingPushTask`. -/
def dispatch (task : PushTask) : List Notification :=
  let customPayload := str "\x7b\"msg_id\":\"mock_123\"\x7d"
  if task.platform = some 1 then
    pushMessage .apns task.deviceToken task.title task.content customPayload
  else if task.platform = some 2 then
    pushMessage .fcm task.deviceToken task.title task.content customPayload
  else []

/-- `HandleIncomingPushTask`, with what it makes the push clients send. -/
def handleIncomingPushTask (rawMqMessage : Bytes) : Except Exn (List Notification) := do
  let task ← parseMessage J rawMqMessage
  if task.receiverId = 0 then return []
  match fetchDeviceToken task.receiverId with
  | none => return []
  | some (platform, deviceToken) =>
    return dispatch { task with platform := some platform, deviceToken }

/-! ## Complete tasks -/

/-- The message is a JSON object with the required fields. -/
def HasFields (root : J.Value) : Prop :=
  J.isMember root (str "receiver_id") = .ok true ∧ J.isMember root (str "msg_type") = .ok true ∧
    J.isMember root (str "content") = .ok true

/-- Every member of the task is that of the message. -/
def Complete (rawMsg : Bytes) (task : PushTask) : Prop :=
  ∃ root, J.parse rawMsg = .ok (some root) ∧ J.kind root = .object ∧ HasFields J root ∧
    (J.get root (str "receiver_id") >>= J.asUInt64) = .ok task.receiverId ∧
    task.receiverId ≠ 0 ∧ (J.get root (str "content") >>= J.asString) = .ok task.content

/-- `ParseMessage` returns a complete task or one that is dropped, and none is dispatched
that is not complete. -/
structure ParsesSafely (rawMsg : Bytes) : Prop where
  returns : ∃ task, parseMessage J rawMsg = .ok task ∧
    (Complete J rawMsg task ∨
      task.receiverId = 0 ∧ handleIncomingPushTask J rawMsg = .ok [])
  dispatches : ∃ pushed, handleIncomingPushTask J rawMsg = .ok pushed ∧
    ∀ n ∈ pushed, ∃ task, Complete J rawMsg task ∧ n.body = task.content

/-- The receiver of the message can be read, and its content cannot. -/
def ContentRaises (rawMsg : Bytes) : Prop :=
  ∃ root receiverId e, J.parse rawMsg = .ok (some root) ∧ HasFields J root ∧
    (J.get root (str "receiver_id") >>= J.asUInt64) = .ok receiverId ∧ receiverId ≠ 0 ∧
    (J.get root (str "content") >>= J.asString) = .error e

/-! ## What is parsed -/

theorem hasRequiredFields_iff (root : J.Value) :
    hasRequiredFields J root = .ok true ↔ HasFields J root := by
  unfold hasRequiredFields HasFields
  constructor
  · intro h
    obtain ⟨receiver, hreceiver, h⟩ := Eff.exists_of_except_bind_ok h
    cases receiver with
    | false => cases h
    | true =>
      obtain ⟨type, htype, h⟩ := Eff.exists_of_except_bind_ok h
      cases type with
      | false => cases h
      | true => exact ⟨hreceiver, htype, h⟩
  · rintro ⟨hreceiver, htype, hcontent⟩
    rw [hreceiver, htype, hcontent]
    rfl

/-- The `try` block leaves the task alone, or it has read the receiver; then the title is
set, and the content is if it can be read. -/
theorem parseMessageTry_cases (rawMsg : Bytes) (start : PushTask) :
    (∃ r, parseMessageTry J rawMsg start = (r, start)) ∨
    ∃ root receiverId, J.parse rawMsg = .ok (some root) ∧ HasFields J root ∧
      (J.get root (str "receiver_id") >>= J.asUInt64) = .ok receiverId ∧
      parseMessageTry J rawMsg start =
        match J.get root (str "content") >>= J.asString with
        | .ok content =>
          (.ok (), { start with receiverId, title := str "New Message", content })
        | .error e => (.error e, { start with receiverId, title := str "New Message" }) := by
  unfold parseMessageTry
  cases J.parse rawMsg with
  | error e => exact .inl ⟨.error e, rfl⟩
  | ok parsed =>
    cases parsed with
    | none => exact .inl ⟨.ok (), rfl⟩
    | some root =>
      rw [Eff.ofExcept_ok_bind]
      dsimp only
      cases hfields : hasRequiredFields J root with
      | error e => exact .inl ⟨.error e, rfl⟩
      | ok fields =>
        cases fields with
        | false => exact .inl ⟨.ok (), rfl⟩
        | true =>
          cases hid : J.get root (str "receiver_id") >>= J.asUInt64 with
          | error e =>
            refine .inl ⟨.error e, ?_⟩
            simp only [Eff.ofExcept_ok_bind, if_true, Eff.ofExcept_error_bind]
          | ok receiverId =>
            refine .inr ⟨root, receiverId, rfl, (hasRequiredFields_iff J root).mp hfields, hid, ?_⟩
            simp only [Eff.ofExcept_ok_bind, if_true]
            cases J.get root (str "content") >>= J.asString with
            | ok content => rfl
            | error e => rfl

theorem parseMessage_eq (rawMsg : Bytes) :
    parseMessage J rawMsg = .ok (parseMessageTry J rawMsg ⟨0, none, [], [], []⟩).2 := by
  unfold parseMessage
  match parseMessageTry J rawMsg ⟨0, none, [], [], []⟩ with
  | (.ok (), _) => rfl
  | (.error (.std _), _) => rfl
  | (.error .other, _) => rfl

/-- A task without a receiver is dropped. -/
theorem handleIncomingPushTask_dropped {rawMsg : Bytes} {task : PushTask}
    (hparse : parseMessage J rawMsg = .ok task) (hreceiver : task.receiverId = 0) :
    handleIncomingPushTask J rawMsg = .ok [] := by
  unfold handleIncomingPushTask
  rw [hparse]
  exact if_pos hreceiver

theorem body_of_mem_dispatch {task : PushTask} {n : Notification} (h : n ∈ dispatch task) :
    n.title = task.title ∧ n.body = task.content := by
  have hpush : ∀ client payload, n ∈ pushMessage client task.deviceToken task.title task.content
      payload → n.title = task.title ∧ n.body = task.content := by
    intro client payload hn
    unfold pushMessage at hn
    split at hn
    · cases hn
    · rw [List.mem_singleton.mp hn]
      exact ⟨rfl, rfl⟩
  unfold dispatch at h
  split at h
  · exact hpush _ _ h
  · split at h
    · exact hpush _ _ h
    · cases h

/-- Whatever is dispatched carries title and content of the task as it was parsed. -/
theorem handleIncomingPushTask_pushes {rawMsg : Bytes} {task : PushTask}
    (hparse : parseMessage J rawMsg = .ok task) :
    ∃ pushed, handleIncomingPushTask J rawMsg = .ok pushed ∧
      ∀ n ∈ pushed, n.title = task.title ∧ n.body = task.content := by
  by_cases hreceiver : task.receiverId = 0
  · exact ⟨[], handleIncomingPushTask_dropped J hparse hreceiver, by simp⟩
  · unfold handleIncomingPushTask
    rw [hparse]
    simp only [bind, Except.bind, hreceiver, if_false]
    cases fetchDeviceToken task.receiverId with
    | none => exact ⟨[], rfl, by simp⟩
    | some device =>
      refine ⟨_, rfl, fun n hn => ?_⟩
      obtain ⟨htitle, hbody⟩ := body_of_mem_dispatch hn
      exact ⟨htitle, hbody⟩

/-- What `ParseMessage` returns is dropped, complete, or complete but for its content. -/
theorem parseMessage_cases (h : J.Documented) (rawMsg : Bytes) :
    ∃ task, parseMessage J rawMsg = .ok task ∧
      (task.receiverId = 0 ∨ Complete J rawMsg task ∨ ContentRaises J rawMsg) := by
  refine ⟨_, parseMessage_eq J rawMsg, ?_⟩
  rcases parseMessageTry_cases J rawMsg ⟨0, none, [], [], []⟩ with
    ⟨r, hstart⟩ | ⟨root, receiverId, hparse, hfields, hid, htask⟩
  · rw [hstart]
    exact .inl rfl
  · by_cases hzero : receiverId = 0
    · left
      rw [htask]
      split
      · exact hzero
      · exact hzero
    · right
      cases hcontent : J.get root (str "content") >>= J.asString with
      | error e => exact .inr ⟨root, receiverId, e, hparse, hfields, hid, hzero, hcontent⟩
      | ok content =>
        left
        rw [hcontent] at htask
        rw [htask]
        exact ⟨root, hparse, h.object_of_isMember hfields.1, hfields, hid, hzero, hcontent⟩

/-- When the content cannot be read, the task is returned with a receiver. -/
theorem parseMessage_of_contentRaises {rawMsg : Bytes} (h : ContentRaises J rawMsg) :
    ∃ task, parseMessage J rawMsg = .ok task ∧ task.receiverId ≠ 0 := by
  obtain ⟨root, receiverId, e, hparse, hfields, hid, hzero, hcontent⟩ := h
  refine ⟨_, parseMessage_eq J rawMsg, ?_⟩
  unfold parseMessageTry
  rw [hparse, Eff.ofExcept_ok_bind]
  simp only [(hasRequiredFields_iff J root).mpr hfields, Eff.ofExcept_ok_bind, if_true, hid]
  rw [hcontent]
  exact hzero

/-- No task is complete whose content cannot be read. -/
theorem not_complete_of_contentRaises {rawMsg : Bytes} (h : ContentRaises J rawMsg)
    (task : PushTask) : ¬ Complete J rawMsg task := by
  rintro ⟨root', hparse', _, _, _, _, hcontent'⟩
  obtain ⟨root, _, e, hparse, _, _, _, hcontent⟩ := h
  rw [hparse] at hparse'
  cases hparse'
  rw [hcontent] at hcontent'
  cases hcontent'

end Parsing

/-- `ParseMessage` keeps its promise exactly when it is not true that the receiver can be read
and the content cannot. -/
theorem parse_safe_iff (J : Api) (h : J.Documented) (rawMsg : Bytes) :
    ParsesSafely J rawMsg ↔ ¬ ContentRaises J rawMsg := by
  constructor
  · rintro ⟨⟨task, hparse, hresult⟩, _⟩ hraises
    obtain ⟨task', hparse', hreceiver⟩ := parseMessage_of_contentRaises J hraises
    rw [hparse] at hparse'
    cases hparse'
    rcases hresult with hcomplete | ⟨hzero, _⟩
    · exact not_complete_of_contentRaises J hraises task hcomplete
    · exact hreceiver hzero
  · intro hraises
    obtain ⟨task, hparse, hcases⟩ := parseMessage_cases J h rawMsg
    rcases hcases with hzero | hcomplete | hcontent
    · have hdropped := handleIncomingPushTask_dropped J hparse hzero
      exact ⟨⟨task, hparse, .inr ⟨hzero, hdropped⟩⟩, [], hdropped, by simp⟩
    · obtain ⟨pushed, hpushed, hbody⟩ := handleIncomingPushTask_pushes J hparse
      exact ⟨⟨task, hparse, .inl hcomplete⟩, pushed, hpushed,
        fun n hn => ⟨task, hcomplete, (hbody n hn).2⟩⟩
    · exact absurd hcontent hraises

/-- A message for user 2002 that says hello. -/
def textContent : Bytes := str "\x7b\"receiver_id\":2002,\"msg_type\":1,\"content\":\"hello\"\x7d"

/-- A message for user 2002 whose content is an object. -/
def objectContent : Bytes := str "\x7b\"receiver_id\":2002,\"msg_type\":1,\"content\":\x7b\x7d\x7d"

/-- What jsoncpp reads in such a message. -/
def messageTree (content : Tree) : Tree :=
  .object [(str "receiver_id", .int 2002), (str "msg_type", .int 1), (str "content", content)]

/-- jsoncpp, with what it reads in these messages. -/
def sampleApi : Api :=
  treeApi fun text =>
    if text = textContent then .ok (some (messageTree (.string (str "hello"))))
    else if text = objectContent then .ok (some (messageTree (.object [])))
    else .ok none

theorem parse_safe_iff_hello :
    ParsesSafely sampleApi textContent ∧
      handleIncomingPushTask sampleApi textContent =
        .ok [⟨.apns, str "apns_device_token_abcdef123456", str "New Message", str "hello",
          str "\x7b\"msg_id\":\"mock_123\"\x7d"⟩] := by
  refine ⟨(parse_safe_iff sampleApi (treeApi_documented _) textContent).mpr ?_, rfl⟩
  rintro ⟨root, _, e, hparse, _, _, _, hcontent⟩
  cases hparse
  cases hcontent

/-- The task is dispatched to APNs without its content. -/
theorem objectContent_dispatched :
    sampleApi.Documented ∧ ¬ ParsesSafely sampleApi objectContent ∧
      handleIncomingPushTask sampleApi objectContent =
        .ok [⟨.apns, str "apns_device_token_abcdef123456", str "New Message", [],
          str "\x7b\"msg_id\":\"mock_123\"\x7d"⟩] := by
  have hraises : ContentRaises sampleApi objectContent :=
    ⟨_, 2002, _, rfl, ⟨rfl, rfl, rfl⟩, rfl, by decide, rfl⟩
  refine ⟨treeApi_documented _, ?_, rfl⟩
  rintro ⟨⟨task, hparse, hresult⟩, _⟩
  obtain ⟨task', hparse', hreceiver⟩ := parseMessage_of_contentRaises sampleApi hraises
  rw [hparse] at hparse'
  cases hparse'
  rcases hresult with hcomplete | ⟨hzero, _⟩
  · exact not_complete_of_contentRaises sampleApi hraises task hcomplete
  · exact hreceiver hzero

end PushManager

end IMSystem.Push

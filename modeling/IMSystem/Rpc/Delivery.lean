import Mathlib.Algebra.Order.BigOperators.Group.List
import IMSystem.Gateway.TcpConnection
import IMSystem.Lib.Progress
import IMSystem.Message.Service

/-!
# One message on its way from the gateway to the stores (the gRPC build)

`ForwardToLogicService` retries the `SendMessage` RPC; every execution of it in
the logic service retries the `SaveMsg` RPC; every execution of that one writes
a body and an index row. A client gives an attempt up when its deadline passes,
but the server may execute the request all the same, then or later. A run is one
order of all these events, for one frame, with saves of other messages between
them. The stores do not fail.

Results:
1. `saveMessage_of_steps`: the two writes of a save, one after the other, are
   `SaveMessage`.
2. `Bounded.step`: what one event does to the number of copies.
3. `atMostOnce_of_safe`: at most one copy is stored in every run in which a retry
   starts only when all earlier requests were lost.
-/

namespace IMSystem.Delivery

open Lib Retry Gateway Message MessageProcessor SensitiveFilter

/-! ## The parties -/

/-- A loop `ExecuteWithRetry(3, …)` around an RPC, as its caller sees it. -/
inductive Loop (α : Type) where
  /-- About to make the attempt. -/
  | ready (attempt : Nat)
  /-- The request of the attempt was sent. -/
  | waiting (attempt : Nat)
  | returned (a : α)
  | threw
deriving DecidableEq, Repr

/-- An attempt failed. -/
def Loop.fail {α : Type} (attempt : Nat) : Loop α :=
  match afterFailure 3 attempt with
  | some next => .ready next
  | none => .threw

/-- A `SaveMsg` request, as the message service sees it. -/
inductive SaveStatus where
  | inFlight
  | lost
  /-- `SaveMessage` has written the body and not yet the index. -/
  | bodyStored
  /-- `SaveMessage` has returned. -/
  | served (newSeqId : Bytes)
deriving DecidableEq, Repr

/-- An execution of `SendMessage` inside `CallMessageServiceToSave`: the message,
the loop, and the requests of its attempts. -/
structure Handler where
  msg : LogicChatMsg
  loop : Loop Bytes
  saves : List SaveStatus
deriving DecidableEq, Repr

/-- A `SendMessage` request, as the logic service sees it. -/
inductive SendStatus where
  | inFlight
  | lost
  /-- `ProcessIncomingMessage` gave up before the RPC. -/
  | rejected
  | handled (h : Handler)
deriving DecidableEq, Repr

/-- The gateway's loop, the requests of its attempts, and the stores. -/
structure State where
  gateway : Loop SendMsgResp
  sends : List SendStatus
  stores : Stores

/-- A frame has arrived at the gateway. -/
def State.start (stores : Stores) : State := ⟨.ready 0, [], stores⟩

/-! ## The events -/

/-- What can happen around an execution of `SendMessage`. -/
inductive SaveAction where
  /-- The next attempt sends its request. -/
  | start
  /-- The request of an attempt is lost. -/
  | lose (attempt : Nat)
  /-- `SaveMessage` takes up the request of an attempt and writes the body. -/
  | body (attempt : Nat)
  /-- `SaveMessage` writes the index and returns. -/
  | index (attempt : Nat) (clock : Nat → Int64)
  /-- The current attempt fails: its deadline has passed, or the transport failed. -/
  | fail
  /-- The response reaches the current attempt. -/
  | answer

inductive Action where
  /-- The gateway's next attempt sends its request. -/
  | start
  /-- The request of an attempt is lost. -/
  | lose (attempt : Nat)
  /-- The logic service executes the request of an attempt. -/
  | execute (attempt : Nat) (now : Int64)
  /-- The gateway's current attempt fails. -/
  | fail
  /-- The response reaches the gateway's current attempt. -/
  | answer
  /-- Something happens around the execution of the request of an attempt. -/
  | save (attempt : Nat) (a : SaveAction)
  /-- Another message is saved: its body, and its index. -/
  | otherBody (msg : LogicChatMsg)
  | otherIndex (msg : LogicChatMsg) (clock : Nat → Int64)

/-- The stores after the body of a message was written. -/
def storeBody (stores : Stores) (msg : LogicChatMsg) : Stores :=
  { stores with messages :=
      (MsgBodyDao.insert (SaveEnv.clean fun _ => 0).body (MessageService.bodyOf msg)
        stores.messages).2 }

/-- The answer of `SaveMessage` and the stores after the index was written. -/
def storeIndex (stores : Stores) (msg : LogicChatMsg) (clock : Nat → Int64) : Bytes × Stores :=
  let (newSeqId, mysql) :=
    MsgIndexDao.insert (SaveEnv.clean clock).index (MessageService.indexOf msg) stores.mysql
  (newSeqId, { stores with mysql := mysql })

/-- The message that `LogicServiceImpl::SendMessage` builds from the request.
`server_time` is set by `ProcessSend` before anything reads it. -/
def incoming (req : SendMsgReq) (now : Int64) : LogicChatMsg where
  msgId := req.msgId
  senderId := req.senderId
  receiverId := req.receiverId
  sessionType := req.sessionType
  msgType := req.msgType
  content := req.content
  sendTime := now
  serverTime := 0
  seqId := []

/-- The response of `LogicServiceImpl::SendMessage`; a business error has the
status OK as well. -/
def SendStatus.response : SendStatus → Option SendMsgResp
  | .rejected => some ⟨500, str "Internal Error or Validation Failed", []⟩
  | .handled h =>
    match h.loop with
    | .returned seqId => some ⟨0, str "SUCCESS", seqId⟩
    | .threw => some ⟨500, str "Internal Error or Validation Failed", []⟩
    | _ => none
  | _ => none

/-- One event around an execution of `SendMessage`. `respond` is how the `SaveMsg`
RPC answers with the result of `SaveMessage`. -/
def saveStep (respond : Bytes → SaveMsgResp) (stores : Stores) (h : Handler) :
    SaveAction → Option (Handler × Stores)
  | .start =>
    match h.loop with
    | .ready attempt =>
      some ({ h with loop := .waiting attempt, saves := h.saves ++ [.inFlight] }, stores)
    | _ => none
  | .lose j =>
    if h.saves[j]? = some .inFlight then
      some ({ h with saves := h.saves.set j .lost }, stores)
    else none
  | .body j =>
    if h.saves[j]? = some .inFlight then
      some ({ h with saves := h.saves.set j .bodyStored }, storeBody stores h.msg)
    else none
  | .index j clock =>
    if h.saves[j]? = some .bodyStored then
      let (newSeqId, stores) := storeIndex stores h.msg clock
      some ({ h with saves := h.saves.set j (.served newSeqId) }, stores)
    else none
  | .fail =>
    match h.loop with
    | .waiting attempt => some ({ h with loop := .fail attempt }, stores)
    | _ => none
  | .answer =>
    match h.loop with
    | .waiting attempt =>
      match h.saves[attempt]? with
      | some (.served newSeqId) =>
        if (respond newSeqId).code ≠ 0 then some ({ h with loop := .fail attempt }, stores)
        else some ({ h with loop := .returned (respond newSeqId).seqId }, stores)
      | _ => none
    | _ => none

/-- One event. -/
def step (root : TrieNode) (respond : Bytes → SaveMsgResp) (frame : SendMsgReq) (s : State) :
    Action → Option State
  | .start =>
    match s.gateway with
    | .ready attempt => some { s with gateway := .waiting attempt, sends := s.sends ++ [.inFlight] }
    | _ => none
  | .lose k =>
    if s.sends[k]? = some .inFlight then some { s with sends := s.sends.set k .lost } else none
  | .execute k now =>
    if s.sends[k]? = some .inFlight then
      match toSave root now (incoming frame now) with
      | some msg => some { s with sends := s.sends.set k (.handled ⟨msg, .ready 0, []⟩) }
      | none => some { s with sends := s.sends.set k .rejected }
    else none
  | .fail =>
    match s.gateway with
    | .waiting attempt => some { s with gateway := .fail attempt }
    | _ => none
  | .answer =>
    match s.gateway with
    | .waiting attempt =>
      match s.sends[attempt]?.bind SendStatus.response with
      | some resp => some { s with gateway := .returned resp }
      | none => none
    | _ => none
  | .save k a =>
    match s.sends[k]? with
    | some (.handled h) =>
      match saveStep respond s.stores h a with
      | some (h', stores) =>
        some { s with sends := s.sends.set k (.handled h'), stores := stores }
      | none => none
    | _ => none
  | .otherBody msg =>
    if msg.msgId ≠ frame.msgId then some { s with stores := storeBody s.stores msg } else none
  | .otherIndex msg clock =>
    if msg.msgId ≠ frame.msgId then some { s with stores := (storeIndex s.stores msg clock).2 }
    else none

/-! ## Copies, and the condition on retries -/

/-- The stored documents under a message id. -/
def bodies (id : Bytes) (stores : Stores) : Nat := stores.messages.countP fun doc => doc.msgId = id

/-- The stored rows under a message id. -/
def indexRows (id : Bytes) (stores : Stores) : Nat := stores.rows.countP fun x => x.2.msgId = id

/-- At most one copy of the frame's message is stored. -/
def AtMostOnce (frame : SendMsgReq) (s : State) : Prop :=
  bodies frame.msgId s.stores ≤ 1 ∧ indexRows frame.msgId s.stores ≤ 1

instance (frame : SendMsgReq) : DecidablePred (AtMostOnce frame) := fun s =>
  inferInstanceAs (Decidable (bodies frame.msgId s.stores ≤ 1 ∧ _))

/-- The loop may still start an attempt. -/
def Loop.MayStart {α : Type} : Loop α → Prop
  | .ready _ => True
  | .waiting attempt => (afterFailure 3 attempt).isSome
  | .returned _ => False
  | .threw => False

instance {α : Type} : DecidablePred (@Loop.MayStart α) := fun l =>
  match l with
  | .ready _ => isTrue trivial
  | .waiting attempt => inferInstanceAs (Decidable ((afterFailure 3 attempt).isSome = true))
  | .returned _ => isFalse id
  | .threw => isFalse id

/-- The request has stored nothing and never will. -/
def SendStatus.Spent : SendStatus → Prop
  | .inFlight => False
  | .lost => True
  | .rejected => True
  | .handled h => ¬ h.loop.MayStart ∧ ∀ save ∈ h.saves, save = .lost

instance : DecidablePred SendStatus.Spent := fun send =>
  match send with
  | .inFlight => isFalse id
  | .lost => isTrue trivial
  | .rejected => isTrue trivial
  | .handled h => inferInstanceAs (Decidable (¬ h.loop.MayStart ∧ ∀ save ∈ h.saves, save = .lost))

/-- An attempt of the gateway starts only when the earlier requests have stored
nothing and never will; an attempt of a handler starts only when its earlier
requests were lost. -/
def Safe (s : State) : Action → Prop
  | .start => ∀ send ∈ s.sends, send.Spent
  | .save k .start =>
    match s.sends[k]? with
    | some (.handled h) => ∀ save ∈ h.saves, save = .lost
    | _ => True
  | _ => True

instance (s : State) : DecidablePred (Safe s) := fun a =>
  match a with
  | .start => inferInstanceAs (Decidable (∀ send ∈ s.sends, send.Spent))
  | .save k .start =>
    match h : s.sends[k]? with
    | some (.handled h') =>
      decidable_of_iff (∀ save ∈ h'.saves, save = .lost) (by simp [Safe, h])
    | some .inFlight | some .lost | some .rejected | none => isTrue (by simp [Safe, h])
  | .save _ (.lose _) | .save _ (.body _) | .save _ (.index _ _) | .save _ .fail
  | .save _ .answer | .lose _ | .execute _ _ | .fail | .answer | .otherBody _
  | .otherIndex _ _ => isTrue trivial

/-! ## The writes of a save -/

theorem storeBody_eq (stores : Stores) (msg : LogicChatMsg) :
    storeBody stores msg =
      { stores with messages := stores.messages ++ [MessageService.bodyOf msg] } := by
  rw [storeBody, MessageService.insert_clean]

/-- An index write leaves the documents alone and adds at most one row, with the
id of its message. -/
theorem storeIndex_spec (stores : Stores) (msg : LogicChatMsg) (clock : Nat → Int64) :
    (storeIndex stores msg clock).2.messages = stores.messages ∧
    ((storeIndex stores msg clock).2.rows = stores.rows ∨
      ∃ id now, (storeIndex stores msg clock).2.rows =
        stores.rows ++ [(id, MsgIndexDao.rowOf (MessageService.indexOf msg) now)]) := by
  refine ⟨rfl, ?_⟩
  by_cases htaken : stores.SlotTaken msg.receiverId
  · exact .inl (MsgIndexDao.insert_taken _ (MessageService.indexOf msg) stores.mysql htaken).2
  · rcases MsgIndexDao.insert_free (SaveEnv.clean clock).index (MessageService.indexOf msg)
        stores.mysql htaken with ⟨k, _, _, hrows, _⟩ | ⟨_, heq⟩
    · exact .inr ⟨_, _, hrows⟩
    · exact .inl (congrArg (fun r => r.2.messageIndex.rows) heq)

/-- The two writes, one right after the other, are a call of `SaveMessage` that
nothing disturbs. -/
theorem saveMessage_of_steps {respond : Bytes → SaveMsgResp} {stores₀ stores₁ stores₂ : Stores}
    {h₀ h₁ h₂ : Handler} {j : Nat} {clock : Nat → Int64}
    (hbody : saveStep respond stores₀ h₀ (.body j) = some (h₁, stores₁))
    (hindex : saveStep respond stores₁ h₁ (.index j clock) = some (h₂, stores₂)) :
    h₂.saves[j]? = some (.served (MessageService.saveMessage (.clean clock) h₀.msg stores₀).1) ∧
      stores₂ = (MessageService.saveMessage (.clean clock) h₀.msg stores₀).2 := by
  simp only [saveStep] at hbody hindex
  split at hbody
  · next hj =>
    cases hbody
    split at hindex
    · cases hindex
      have hlen : j < h₀.saves.length := (List.getElem?_eq_some_iff.mp hj).1
      have hsave : MessageService.saveMessage (.clean clock) h₀.msg stores₀ =
          storeIndex (storeBody stores₀ h₀.msg) h₀.msg clock := by
        rw [MessageService.saveMessage, MessageService.insert_clean, storeBody_eq]
        simp only [storeIndex]
        split
        · next hempty =>
          rw [List.isEmpty_iff] at hempty
          rw [hempty]
        · rfl
      rw [hsave]
      exact ⟨by simp [hlen], rfl⟩
    · cases hindex
  · cases hbody

/-! ## How many copies an event can add -/

theorem bodies_storeBody (id : Bytes) (stores : Stores) (msg : LogicChatMsg) :
    bodies id (storeBody stores msg) = bodies id stores + if msg.msgId = id then 1 else 0 := by
  rw [storeBody_eq]
  simp [bodies, MessageService.bodyOf, List.countP_append, List.countP_cons]

theorem indexRows_storeIndex (id : Bytes) (stores : Stores) (msg : LogicChatMsg)
    (clock : Nat → Int64) :
    indexRows id (storeIndex stores msg clock).2 ≤
      indexRows id stores + if msg.msgId = id then 1 else 0 := by
  unfold indexRows
  rcases (storeIndex_spec stores msg clock).2 with hrows | ⟨n, now, hrows⟩
  · rw [hrows]
    exact Nat.le_add_right _ _
  · rw [hrows]
    simp [MsgIndexDao.rowOf, MessageService.indexOf, List.countP_append, List.countP_cons]

/-- `1` unless the request is lost: the copies it may have made or may yet make. -/
def SaveStatus.risk : SaveStatus → Nat
  | .lost => 0
  | _ => 1

/-- The documents that the request has stored. -/
def SaveStatus.bodies : SaveStatus → Nat
  | .inFlight => 0
  | .lost => 0
  | .bodyStored => 1
  | .served _ => 1

/-- The rows that the request has stored, at most. -/
def SaveStatus.rows : SaveStatus → Nat
  | .served _ => 1
  | _ => 0

theorem SaveStatus.bodies_le_risk (save : SaveStatus) : save.bodies ≤ save.risk := by
  cases save with
  | inFlight => exact Nat.zero_le _
  | lost | bodyStored | served => exact Nat.le_refl _

theorem SaveStatus.rows_le_risk (save : SaveStatus) : save.rows ≤ save.risk := by
  cases save with
  | inFlight | bodyStored => exact Nat.zero_le _
  | lost | served => exact Nat.le_refl _

/-- The copies that an execution of `SendMessage` has made or may yet make: those
of its requests, and one more as long as its loop may start an attempt. -/
def Handler.risk (h : Handler) : Nat :=
  max (h.saves.map SaveStatus.risk).sum (if h.loop.MayStart then 1 else 0)

def SendStatus.risk : SendStatus → Nat
  | .inFlight => 1
  | .lost => 0
  | .rejected => 0
  | .handled h => h.risk

def SendStatus.bodies : SendStatus → Nat
  | .handled h => (h.saves.map SaveStatus.bodies).sum
  | _ => 0

def SendStatus.rows : SendStatus → Nat
  | .handled h => (h.saves.map SaveStatus.rows).sum
  | _ => 0

theorem SendStatus.bodies_le_risk (send : SendStatus) : send.bodies ≤ send.risk := by
  cases send with
  | inFlight | lost | rejected => exact Nat.zero_le _
  | handled h =>
    exact Nat.le_trans (List.sum_le_sum fun save _ => save.bodies_le_risk) (Nat.le_max_left _ _)

theorem SendStatus.rows_le_risk (send : SendStatus) : send.rows ≤ send.risk := by
  cases send with
  | inFlight | lost | rejected => exact Nat.zero_le _
  | handled h =>
    exact Nat.le_trans (List.sum_le_sum fun save _ => save.rows_le_risk) (Nat.le_max_left _ _)

theorem sum_risk_of_lost {saves : List SaveStatus} (h : ∀ save ∈ saves, save = .lost) :
    (saves.map SaveStatus.risk).sum = 0 := by
  refine List.sum_eq_zero fun n hn => ?_
  obtain ⟨save, hsave, rfl⟩ := List.mem_map.mp hn
  rw [h save hsave]
  rfl

theorem SendStatus.risk_of_spent {send : SendStatus} (h : send.Spent) : send.risk = 0 := by
  cases send with
  | inFlight => exact h.elim
  | lost | rejected => rfl
  | handled h' =>
    obtain ⟨hend, hlost⟩ := h
    simp [SendStatus.risk, Handler.risk, sum_risk_of_lost hlost, hend]

/-- A request that changes its status accounts for what is stored meanwhile. -/
theorem copies_of_set {saves : List SaveStatus} {j : Nat} {old new : SaveStatus}
    (hj : saves[j]? = some old) {id : Bytes} {stores stores' : Stores}
    (hbodies : bodies id stores' + old.bodies ≤ bodies id stores + new.bodies)
    (hrows : indexRows id stores' + old.rows ≤ indexRows id stores + new.rows) :
    bodies id stores' + (saves.map SaveStatus.bodies).sum ≤
      bodies id stores + ((saves.set j new).map SaveStatus.bodies).sum ∧
    indexRows id stores' + (saves.map SaveStatus.rows).sum ≤
      indexRows id stores + ((saves.set j new).map SaveStatus.rows).sum := by
  have hsumBodies := sum_map_set SaveStatus.bodies new hj
  have hsumRows := sum_map_set SaveStatus.rows new hj
  exact ⟨by omega, by omega⟩

/-- A failed attempt is followed by another one only if it was not the last. -/
theorem Loop.mayStart_of_fail {α : Type} {attempt : Nat}
    (h : (Loop.fail attempt : Loop α).MayStart) : (Loop.waiting attempt : Loop α).MayStart := by
  unfold Loop.fail at h
  cases hnext : afterFailure 3 attempt with
  | none =>
    rw [hnext] at h
    exact h.elim
  | some next =>
    rw [Loop.MayStart, hnext]
    rfl

/-- All that an event around an execution does: a request is sent, a request moves
on, or the loop moves on without one. -/
theorem saveStep_cases {respond : Bytes → SaveMsgResp} {stores stores' : Stores} {h h' : Handler}
    {a : SaveAction} (hstep : saveStep respond stores h a = some (h', stores')) :
    (∃ attempt, a = .start ∧ h.loop = .ready attempt ∧ stores' = stores ∧
      h' = { h with loop := .waiting attempt, saves := h.saves ++ [.inFlight] }) ∨
    (∃ j old new, h.saves[j]? = some old ∧ h' = { h with saves := h.saves.set j new } ∧
      ((old = .inFlight ∧ new = .lost ∧ stores' = stores) ∨
        (old = .inFlight ∧ new = .bodyStored ∧ stores' = storeBody stores h.msg) ∨
        (∃ clock, old = .bodyStored ∧ new = .served (storeIndex stores h.msg clock).1 ∧
          stores' = (storeIndex stores h.msg clock).2))) ∨
    (∃ loop : Loop Bytes, (loop.MayStart → h.loop.MayStart) ∧ h' = { h with loop := loop } ∧
      stores' = stores) := by
  cases a with
  | start =>
    simp only [saveStep] at hstep
    split at hstep
    · next attempt hloop =>
      cases hstep
      exact .inl ⟨attempt, rfl, hloop, rfl, rfl⟩
    · cases hstep
  | lose j =>
    simp only [saveStep] at hstep
    split at hstep
    · next hj =>
      cases hstep
      exact .inr (.inl ⟨j, _, _, hj, rfl, .inl ⟨rfl, rfl, rfl⟩⟩)
    · cases hstep
  | body j =>
    simp only [saveStep] at hstep
    split at hstep
    · next hj =>
      cases hstep
      exact .inr (.inl ⟨j, _, _, hj, rfl, .inr (.inl ⟨rfl, rfl, rfl⟩)⟩)
    · cases hstep
  | index j clock =>
    simp only [saveStep] at hstep
    split at hstep
    · next hj =>
      cases hstep
      exact .inr (.inl ⟨j, _, _, hj, rfl, .inr (.inr ⟨clock, rfl, rfl, rfl⟩)⟩)
    · cases hstep
  | fail =>
    simp only [saveStep] at hstep
    split at hstep
    · next attempt hloop =>
      cases hstep
      exact .inr (.inr ⟨_, fun hmay => hloop ▸ Loop.mayStart_of_fail hmay, rfl, rfl⟩)
    · cases hstep
  | answer =>
    simp only [saveStep] at hstep
    split at hstep
    · next attempt hloop =>
      split at hstep
      · split at hstep
        · cases hstep
          exact .inr (.inr ⟨_, fun hmay => hloop ▸ Loop.mayStart_of_fail hmay, rfl, rfl⟩)
        · cases hstep
          exact .inr (.inr ⟨_, False.elim, rfl, rfl⟩)
      · cases hstep
    · cases hstep

/-- What an event stores is accounted for by the status of a request. -/
theorem saveStep_copies {respond : Bytes → SaveMsgResp} {stores stores' : Stores} {h h' : Handler}
    {a : SaveAction} (hstep : saveStep respond stores h a = some (h', stores')) (id : Bytes) :
    bodies id stores' + (h.saves.map SaveStatus.bodies).sum ≤
      bodies id stores + (h'.saves.map SaveStatus.bodies).sum ∧
    indexRows id stores' + (h.saves.map SaveStatus.rows).sum ≤
      indexRows id stores + (h'.saves.map SaveStatus.rows).sum := by
  have hcopy : (if h.msg.msgId = id then 1 else 0) ≤ 1 := by split <;> decide
  rcases saveStep_cases hstep with ⟨attempt, _, _, rfl, rfl⟩ |
    ⟨j, old, new, hj, rfl, ⟨rfl, rfl, rfl⟩ | ⟨rfl, rfl, rfl⟩ | ⟨clock, rfl, rfl, rfl⟩⟩ |
    ⟨loop, _, rfl, rfl⟩
  · simp [SaveStatus.bodies, SaveStatus.rows]
  · exact copies_of_set hj (Nat.le_refl _) (Nat.le_refl _)
  · refine copies_of_set hj ?_ (Nat.le_refl _)
    rw [bodies_storeBody]
    exact Nat.add_le_add_left hcopy _
  · refine copies_of_set hj (Nat.le_refl _) ?_
    exact Nat.le_trans (indexRows_storeIndex id stores h.msg clock) (Nat.add_le_add_left hcopy _)
  · exact ⟨Nat.le_refl _, Nat.le_refl _⟩

/-- A loop that may start no more attempts than before does not add to the risk. -/
theorem Handler.risk_le_of_loop {h : Handler} {loop : Loop Bytes}
    (hloop : loop.MayStart → h.loop.MayStart) : ({ h with loop := loop } : Handler).risk ≤ h.risk := by
  refine max_le_max (Nat.le_refl _) ?_
  show (if loop.MayStart then 1 else 0) ≤ if h.loop.MayStart then 1 else 0
  by_cases hmay : loop.MayStart
  · rw [if_pos hmay, if_pos (hloop hmay)]
  · rw [if_neg hmay]
    exact Nat.zero_le _

/-- With one request not lost at a time, no event adds to the risk. -/
theorem saveStep_risk {respond : Bytes → SaveMsgResp} {stores stores' : Stores} {h h' : Handler}
    {a : SaveAction} (hstep : saveStep respond stores h a = some (h', stores'))
    (hsafe : a = .start → ∀ save ∈ h.saves, save = .lost) : h'.risk ≤ h.risk := by
  have hset : ∀ {j : Nat} {old : SaveStatus} (new : SaveStatus), h.saves[j]? = some old →
      new.risk ≤ old.risk → ({ h with saves := h.saves.set j new } : Handler).risk ≤ h.risk := by
    intro j old new hj hle
    have hsum := sum_map_set SaveStatus.risk new hj
    have hfewer : ((h.saves.set j new).map SaveStatus.risk).sum ≤
        (h.saves.map SaveStatus.risk).sum := by omega
    exact max_le_max hfewer (Nat.le_refl _)
  rcases saveStep_cases hstep with ⟨attempt, rfl, hloop, _, rfl⟩ |
    ⟨j, old, new, hj, rfl, ⟨rfl, rfl, _⟩ | ⟨rfl, rfl, _⟩ | ⟨clock, rfl, rfl, _⟩⟩ |
    ⟨loop, hmay, rfl, _⟩
  · have hone : (if (Loop.waiting attempt : Loop Bytes).MayStart then 1 else 0) ≤ 1 := by
      split <;> decide
    simpa [Handler.risk, hloop, sum_risk_of_lost (hsafe rfl), Loop.MayStart,
      SaveStatus.risk] using hone
  · exact hset .lost hj (Nat.zero_le _)
  · exact hset .bodyStored hj (Nat.le_refl _)
  · exact hset (.served _) hj (Nat.le_refl _)
  · exact Handler.risk_le_of_loop hmay

/-! ## What holds in every run with safe retries -/

/-- The requests account for all copies, and together they risk at most one. -/
structure Bounded (frame : SendMsgReq) (s : State) : Prop where
  risk : (s.sends.map SendStatus.risk).sum ≤ 1
  bodies : bodies frame.msgId s.stores ≤ (s.sends.map SendStatus.bodies).sum
  rows : indexRows frame.msgId s.stores ≤ (s.sends.map SendStatus.rows).sum

theorem Bounded.atMostOnce {frame : SendMsgReq} {s : State} (h : Bounded frame s) :
    AtMostOnce frame s := by
  constructor
  · calc Delivery.bodies frame.msgId s.stores
      _ ≤ (s.sends.map SendStatus.bodies).sum := h.bodies
      _ ≤ (s.sends.map SendStatus.risk).sum := List.sum_le_sum fun send _ => send.bodies_le_risk
      _ ≤ 1 := h.risk
  · calc indexRows frame.msgId s.stores
      _ ≤ (s.sends.map SendStatus.rows).sum := h.rows
      _ ≤ (s.sends.map SendStatus.risk).sum := List.sum_le_sum fun send _ => send.rows_le_risk
      _ ≤ 1 := h.risk

/-- A request that changes its status, stores what the change accounts for and
risks no more than before keeps the bound. -/
theorem Bounded.set {frame : SendMsgReq} {s : State} (h : Bounded frame s) {k : Nat}
    {old new : SendStatus} (hk : s.sends[k]? = some old) {stores : Stores}
    (hbodies : Delivery.bodies frame.msgId stores + old.bodies ≤
      Delivery.bodies frame.msgId s.stores + new.bodies)
    (hrows : indexRows frame.msgId stores + old.rows ≤
      indexRows frame.msgId s.stores + new.rows)
    (hrisk : new.risk ≤ old.risk) :
    Bounded frame { s with sends := s.sends.set k new, stores := stores } := by
  have hsumRisk := sum_map_set SendStatus.risk new hk
  have hsumBodies := sum_map_set SendStatus.bodies new hk
  have hsumRows := sum_map_set SendStatus.rows new hk
  have hr := h.risk
  have hb := h.bodies
  have hw := h.rows
  refine ⟨?_, ?_, ?_⟩
  · show ((s.sends.set k new).map SendStatus.risk).sum ≤ 1
    omega
  · show Delivery.bodies frame.msgId stores ≤ ((s.sends.set k new).map SendStatus.bodies).sum
    omega
  · show indexRows frame.msgId stores ≤ ((s.sends.set k new).map SendStatus.rows).sum
    omega

theorem Bounded.step {root : TrieNode} {respond : Bytes → SaveMsgResp} {frame : SendMsgReq}
    {s s' : State} {a : Action} (h : Bounded frame s) (hsafe : Safe s a)
    (hstep : step root respond frame s a = some s') : Bounded frame s' := by
  cases a with
  | start =>
    simp only [Delivery.step] at hstep
    split at hstep
    · cases hstep
      have hzero : (s.sends.map SendStatus.risk).sum = 0 := by
        refine List.sum_eq_zero fun n hn => ?_
        obtain ⟨send, hsend, rfl⟩ := List.mem_map.mp hn
        exact SendStatus.risk_of_spent (hsafe send hsend)
      refine ⟨?_, ?_, ?_⟩
      · simp [hzero, SendStatus.risk]
      · simpa [SendStatus.bodies] using h.bodies
      · simpa [SendStatus.rows] using h.rows
    · cases hstep
  | lose k =>
    simp only [Delivery.step] at hstep
    split at hstep
    · next hk =>
      cases hstep
      exact h.set hk (Nat.le_refl _) (Nat.le_refl _) (Nat.zero_le _)
    · cases hstep
  | execute k now =>
    simp only [Delivery.step] at hstep
    split at hstep
    · next hk =>
      split at hstep
      · cases hstep
        refine h.set hk (Nat.le_refl _) (Nat.le_refl _) ?_
        simp [SendStatus.risk, Handler.risk, Loop.MayStart]
      · cases hstep
        exact h.set hk (Nat.le_refl _) (Nat.le_refl _) (Nat.zero_le _)
    · cases hstep
  | fail =>
    simp only [Delivery.step] at hstep
    split at hstep
    · cases hstep
      exact ⟨h.risk, h.bodies, h.rows⟩
    · cases hstep
  | answer =>
    simp only [Delivery.step] at hstep
    split at hstep
    · split at hstep
      · cases hstep
        exact ⟨h.risk, h.bodies, h.rows⟩
      · cases hstep
    · cases hstep
  | save k a =>
    simp only [Delivery.step] at hstep
    split at hstep
    · next handler hk =>
      split at hstep
      · next handler' stores hsave =>
        cases hstep
        obtain ⟨hbodies, hrows⟩ := saveStep_copies hsave frame.msgId
        refine h.set hk hbodies hrows (saveStep_risk hsave ?_)
        rintro rfl
        simpa [Safe, hk] using hsafe
      · cases hstep
    · cases hstep
  | otherBody msg =>
    simp only [Delivery.step] at hstep
    split at hstep
    · next hne =>
      cases hstep
      refine ⟨h.risk, ?_, h.rows⟩
      simpa only [bodies_storeBody, if_neg hne, Nat.add_zero] using h.bodies
    · cases hstep
  | otherIndex msg clock =>
    simp only [Delivery.step] at hstep
    split at hstep
    · next hne =>
      cases hstep
      refine ⟨h.risk, h.bodies, ?_⟩
      have hadds := indexRows_storeIndex frame.msgId s.stores msg clock
      rw [if_neg hne, Nat.add_zero] at hadds
      exact Nat.le_trans hadds h.rows
    · cases hstep

/-- For a message whose id is new to the stores, every run in which an attempt
starts only after all earlier requests of its frame were lost without a trace
stores at most one copy of the message, at every moment. -/
theorem atMostOnce_of_safe (root : TrieNode) (respond : Bytes → SaveMsgResp) (frame : SendMsgReq)
    {stores : Stores} (hbodies : bodies frame.msgId stores = 0)
    (hrows : indexRows frame.msgId stores = 0) {actions : List Action}
    (hsafe : StepsMeet (step root respond frame) Safe (.start stores) actions) :
    HoldsAlong (step root respond frame) (AtMostOnce frame) (.start stores) actions := by
  have hstart : Bounded frame (.start stores) :=
    ⟨Nat.zero_le _, Nat.le_of_eq hbodies, Nat.le_of_eq hrows⟩
  exact holdsAlong_of_inv (fun _ _ _ h hs hstep => h.step hs hstep)
    (fun _ h => Bounded.atMostOnce h) hstart hsafe

/-- A text message from user 1 to user 2. -/
def hello : SendMsgReq := ⟨str "m1", 1, 2, 1, 1, str "hi"⟩

/-- `SaveMsg` reports an empty sequence number as an error. -/
def respondWith (newSeqId : Bytes) : SaveMsgResp :=
  if newSeqId = [] then ⟨500, str "save failed", []⟩ else ⟨0, str "SUCCESS", newSeqId⟩

/-- The first `SendMessage` request is lost, the second is served. -/
def secondAttempt : List Action :=
  [.start, .lose 0, .fail, .start, .execute 1 0, .save 1 .start, .save 1 (.body 0),
    .save 1 (.index 0 fun _ => 0), .save 1 .answer, .answer]

theorem secondAttempt_stores_once :
    HoldsAlong (step (.mk [] false) respondWith hello) (AtMostOnce hello) (.start .initial)
      secondAttempt :=
  atMostOnce_of_safe (.mk [] false) respondWith hello rfl rfl (by decide +kernel)

/-- The first `SaveMsg` request is served, but its response is late. -/
def lateResponse : List Action :=
  [.start, .execute 0 0, .save 0 .start, .save 0 (.body 0), .save 0 (.index 0 fun _ => 0),
    .save 0 .fail, .save 0 .start, .save 0 (.body 1)]

/-- The retry of a request that was served stores the body a second time. -/
theorem late_response_stores_twice :
    ¬ HoldsAlong (step (.mk [] false) respondWith hello) (AtMostOnce hello) (.start .initial)
      lateResponse := by
  decide +kernel

end IMSystem.Delivery

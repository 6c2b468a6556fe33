import IMSystem.Rpc.Delivery

/-!
# What the nested retries make of one frame

The gateway makes up to four attempts, and each execution of `SendMessage` up to four of
its own; a client gives an attempt up, but its request may be executed all the same. A
body is stored at every execution. An index row is not: its slot in `idx_receiver_seq` is
taken after the first one.

Results:
1. `saveNext_of_step`, `next_of_step`: all that an event can do.
2. `contained_run`: in every run, sixteen bodies and one row at most.
3. `exists_amplified`: every accepted frame can be stored sixteen times, while the gateway
   gives up.
-/

namespace IMSystem.Delivery

open Lib Retry Gateway Message MessageProcessor ChatHandler SensitiveFilter

/-! ## All that a step does -/

/-- The events around an execution of `SendMessage`. -/
inductive SaveNext (respond : Bytes → SaveMsgResp) (stores : Stores) (h : Handler) :
    SaveAction → Handler → Stores → Prop
  | start {attempt : Nat} : h.loop = .ready attempt →
    SaveNext respond stores h .start
      { h with loop := .waiting attempt, saves := h.saves ++ [.inFlight] } stores
  | lose {j : Nat} : h.saves[j]? = some .inFlight →
    SaveNext respond stores h (.lose j) { h with saves := h.saves.set j .lost } stores
  | body {j : Nat} : h.saves[j]? = some .inFlight →
    SaveNext respond stores h (.body j) { h with saves := h.saves.set j .bodyStored }
      (storeBody stores h.msg)
  | index {j : Nat} {clock : Nat → Int64} : h.saves[j]? = some .bodyStored →
    SaveNext respond stores h (.index j clock)
      { h with saves := h.saves.set j (.served (storeIndex stores h.msg clock).1) }
      (storeIndex stores h.msg clock).2
  | fail {attempt : Nat} : h.loop = .waiting attempt →
    SaveNext respond stores h .fail { h with loop := .fail attempt } stores
  | refuse {attempt : Nat} {newSeqId : Bytes} : h.loop = .waiting attempt →
    h.saves[attempt]? = some (.served newSeqId) → (respond newSeqId).code ≠ 0 →
    SaveNext respond stores h .answer { h with loop := .fail attempt } stores
  | answer {attempt : Nat} {newSeqId : Bytes} : h.loop = .waiting attempt →
    h.saves[attempt]? = some (.served newSeqId) → (respond newSeqId).code = 0 →
    SaveNext respond stores h .answer { h with loop := .returned (respond newSeqId).seqId } stores

theorem saveNext_of_step {respond : Bytes → SaveMsgResp} {stores stores' : Stores} {h h' : Handler}
    {a : SaveAction} (hstep : saveStep respond stores h a = some (h', stores')) :
    SaveNext respond stores h a h' stores' := by
  cases a with
  | start =>
    simp only [saveStep] at hstep
    split at hstep
    · next attempt hloop =>
      cases hstep
      exact .start hloop
    · cases hstep
  | lose j =>
    simp only [saveStep] at hstep
    split at hstep
    · next hj =>
      cases hstep
      exact .lose hj
    · cases hstep
  | body j =>
    simp only [saveStep] at hstep
    split at hstep
    · next hj =>
      cases hstep
      exact .body hj
    · cases hstep
  | index j clock =>
    simp only [saveStep] at hstep
    split at hstep
    · next hj =>
      cases hstep
      exact .index hj
    · cases hstep
  | fail =>
    simp only [saveStep] at hstep
    split at hstep
    · next attempt hloop =>
      cases hstep
      exact .fail hloop
    · cases hstep
  | answer =>
    simp only [saveStep] at hstep
    split at hstep
    · next attempt hloop =>
      split at hstep
      · next newSeqId hsave =>
        split at hstep
        · next hcode =>
          cases hstep
          exact .refuse hloop hsave hcode
        · next hcode =>
          cases hstep
          exact .answer hloop hsave (Classical.not_not.mp hcode)
      · cases hstep
    · cases hstep

/-- The events on the way of the frame, and around it. -/
inductive Next (root : TrieNode) (respond : Bytes → SaveMsgResp) (frame : SendMsgReq) (s : State) :
    Action → State → Prop
  | start {attempt : Nat} : s.gateway = .ready attempt →
    Next root respond frame s .start
      { s with gateway := .waiting attempt, sends := s.sends ++ [.inFlight] }
  | lose {k : Nat} : s.sends[k]? = some .inFlight →
    Next root respond frame s (.lose k) { s with sends := s.sends.set k .lost }
  | execute {k : Nat} {now : Int64} {msg : LogicChatMsg} : s.sends[k]? = some .inFlight →
    toSave root now (incoming frame now) = some msg →
    Next root respond frame s (.execute k now)
      { s with sends := s.sends.set k (.handled ⟨msg, .ready 0, []⟩) }
  | reject {k : Nat} {now : Int64} : s.sends[k]? = some .inFlight →
    toSave root now (incoming frame now) = none →
    Next root respond frame s (.execute k now) { s with sends := s.sends.set k .rejected }
  | fail {attempt : Nat} : s.gateway = .waiting attempt →
    Next root respond frame s .fail { s with gateway := .fail attempt }
  | answer {attempt : Nat} {resp : SendMsgResp} : s.gateway = .waiting attempt →
    s.sends[attempt]?.bind SendStatus.response = some resp →
    Next root respond frame s .answer { s with gateway := .returned resp }
  | save {k : Nat} {a : SaveAction} {h h' : Handler} {stores : Stores} :
    s.sends[k]? = some (.handled h) → saveStep respond s.stores h a = some (h', stores) →
    Next root respond frame s (.save k a)
      { s with sends := s.sends.set k (.handled h'), stores := stores }
  | otherBody {msg : LogicChatMsg} : msg.msgId ≠ frame.msgId →
    Next root respond frame s (.otherBody msg) { s with stores := storeBody s.stores msg }
  | otherIndex {msg : LogicChatMsg} {clock : Nat → Int64} : msg.msgId ≠ frame.msgId →
    Next root respond frame s (.otherIndex msg clock)
      { s with stores := (storeIndex s.stores msg clock).2 }

theorem next_of_step {root : TrieNode} {respond : Bytes → SaveMsgResp} {frame : SendMsgReq}
    {s s' : State} {a : Action} (hstep : step root respond frame s a = some s') :
    Next root respond frame s a s' := by
  cases a with
  | start =>
    simp only [step] at hstep
    split at hstep
    · next attempt hgateway =>
      cases hstep
      exact .start hgateway
    · cases hstep
  | lose k =>
    simp only [step] at hstep
    split at hstep
    · next hk =>
      cases hstep
      exact .lose hk
    · cases hstep
  | execute k now =>
    simp only [step] at hstep
    split at hstep
    · next hk =>
      split at hstep
      · next msg hsave =>
        cases hstep
        exact .execute hk hsave
      · next hsave =>
        cases hstep
        exact .reject hk hsave
    · cases hstep
  | fail =>
    simp only [step] at hstep
    split at hstep
    · next attempt hgateway =>
      cases hstep
      exact .fail hgateway
    · cases hstep
  | answer =>
    simp only [step] at hstep
    split at hstep
    · next attempt hgateway =>
      split at hstep
      · next resp hresp =>
        cases hstep
        exact .answer hgateway hresp
      · cases hstep
    · cases hstep
  | save k a =>
    simp only [step] at hstep
    split at hstep
    · next h hk =>
      split at hstep
      · next h' stores hsave =>
        cases hstep
        exact .save hk hsave
      · cases hstep
    · cases hstep
  | otherBody msg =>
    simp only [step] at hstep
    split at hstep
    · next hne =>
      cases hstep
      exact .otherBody hne
    · cases hstep
  | otherIndex msg clock =>
    simp only [step] at hstep
    split at hstep
    · next hne =>
      cases hstep
      exact .otherIndex hne
    · cases hstep

/-! ## The attempts of a loop -/

/-- The loop has sent `n` requests. -/
def Loop.Sent {α : Type} (n : Nat) : Loop α → Prop
  | .ready attempt => n = attempt ∧ attempt ≤ 3
  | .waiting attempt => n = attempt + 1 ∧ attempt ≤ 3
  | .returned _ => n ≤ 4
  | .threw => n ≤ 4

theorem Loop.Sent.le {α : Type} {n : Nat} {loop : Loop α} (h : loop.Sent n) : n ≤ 4 := by
  cases loop with
  | ready attempt => exact h.1 ▸ Nat.le_succ_of_le h.2
  | waiting attempt => exact h.1 ▸ Nat.succ_le_succ h.2
  | returned _ | threw => exact h

theorem Loop.Sent.fail {α : Type} {n attempt : Nat} (h : (Loop.waiting attempt : Loop α).Sent n) :
    (Loop.fail attempt : Loop α).Sent n := by
  obtain ⟨rfl, hle⟩ := h
  unfold Loop.fail afterFailure
  split
  · next next hnext =>
    split at hnext
    · cases hnext
    · next hlt =>
      cases hnext
      exact ⟨rfl, Nat.lt_of_not_le fun h3 => hlt (Int.ofNat_le.mpr h3)⟩
  · exact Nat.succ_le_succ hle

/-- A step around an execution keeps the count, and the message. -/
theorem saveStep_sent {respond : Bytes → SaveMsgResp} {stores stores' : Stores} {h h' : Handler}
    {a : SaveAction} (hsent : h.loop.Sent h.saves.length)
    (hstep : saveStep respond stores h a = some (h', stores')) :
    h'.loop.Sent h'.saves.length ∧ h'.msg = h.msg := by
  cases saveNext_of_step hstep with
  | start hloop =>
    rw [hloop] at hsent
    refine ⟨⟨?_, hsent.2⟩, rfl⟩
    rw [List.length_append, hsent.1, List.length_singleton]
  | lose | body | index => exact ⟨by rwa [List.length_set], rfl⟩
  | fail hloop | refuse hloop =>
    rw [hloop] at hsent
    exact ⟨hsent.fail, rfl⟩
  | answer => exact ⟨hsent.le, rfl⟩

/-! ## The slot in the index -/

/-- The index rows of the message, as far as they are more than at the start. -/
def Indexed (frame : SendMsgReq) (rows : Nat) (stores : Stores) : Prop :=
  indexRows frame.msgId stores ≤ rows + 1 ∧
    (indexRows frame.msgId stores ≤ rows ∨ stores.SlotTaken frame.receiverId)

theorem storeIndex_taken {stores : Stores} {msg : LogicChatMsg} {clock : Nat → Int64}
    {receiverId : UInt64} (h : stores.SlotTaken receiverId) :
    (storeIndex stores msg clock).2.SlotTaken receiverId := by
  obtain ⟨x, hx, hreceiver⟩ := List.mem_map.mp h
  refine List.mem_map.mpr ⟨x, ?_, hreceiver⟩
  show x ∈ (storeIndex stores msg clock).2.rows
  obtain hrows | ⟨id, now, hrows⟩ := (storeIndex_spec stores msg clock).2
  · rw [hrows]
    exact hx
  · rw [hrows]
    exact List.mem_append_left _ hx

theorem Indexed.own {frame : SendMsgReq} {rows : Nat} {stores : Stores} (h : Indexed frame rows stores)
    {msg : LogicChatMsg} (hreceiver : msg.receiverId = frame.receiverId) (clock : Nat → Int64) :
    Indexed frame rows (storeIndex stores msg clock).2 := by
  by_cases htaken : stores.SlotTaken frame.receiverId
  · have hslot : stores.SlotTaken msg.receiverId := hreceiver ▸ htaken
    have hrows : (storeIndex stores msg clock).2.rows = stores.rows :=
      (MsgIndexDao.insert_taken _ (MessageService.indexOf msg) stores.mysql hslot).2
    refine ⟨?_, .inr (storeIndex_taken htaken)⟩
    rw [indexRows, hrows]
    exact h.1
  · have hle : indexRows frame.msgId stores ≤ rows := h.2.resolve_right htaken
    obtain hrows | ⟨id, now, hrows⟩ := (storeIndex_spec stores msg clock).2
    · rw [Indexed, indexRows, hrows]
      exact ⟨Nat.le_succ_of_le hle, .inl hle⟩
    · constructor
      · refine Nat.le_trans (indexRows_storeIndex frame.msgId stores msg clock)
          (Nat.add_le_add hle ?_)
        split <;> decide
      · have hnew : (id, MsgIndexDao.rowOf (MessageService.indexOf msg) now) ∈
            (storeIndex stores msg clock).2.rows := by
          rw [hrows]
          exact List.mem_append_right _ (List.mem_singleton.mpr rfl)
        exact .inr (List.mem_map.mpr ⟨_, hnew, congrArg (·, []) hreceiver⟩)

theorem Indexed.other {frame : SendMsgReq} {rows : Nat} {stores : Stores} (h : Indexed frame rows stores)
    {msg : LogicChatMsg} (hne : msg.msgId ≠ frame.msgId) (clock : Nat → Int64) :
    Indexed frame rows (storeIndex stores msg clock).2 := by
  have hle := indexRows_storeIndex frame.msgId stores msg clock
  rw [if_neg hne, Nat.add_zero] at hle
  exact ⟨Nat.le_trans hle h.1, h.2.imp (Nat.le_trans hle) storeIndex_taken⟩

/-! ## What the retries can add -/

/-- What a request of the gateway has led to. -/
def SendStatus.Counted (frame : SendMsgReq) : SendStatus → Prop
  | .handled h => h.loop.Sent h.saves.length ∧ h.msg.receiverId = frame.receiverId
  | _ => True

/-- The attempts are counted, and the requests account for the copies. -/
structure Counted (frame : SendMsgReq) (stores : Stores) (s : State) : Prop where
  gateway : s.gateway.Sent s.sends.length
  sends : ∀ send ∈ s.sends, send.Counted frame
  bodies : bodies frame.msgId s.stores ≤
    Delivery.bodies frame.msgId stores + (s.sends.map SendStatus.bodies).sum
  rows : Indexed frame (indexRows frame.msgId stores) s.stores

theorem mem_set {α : Type} {P : α → Prop} {l : List α} (h : ∀ x ∈ l, P x) {k : Nat} {new : α}
    (hnew : P new) : ∀ x ∈ l.set k new, P x := by
  intro x hx
  obtain hold | rfl := List.mem_or_eq_of_mem_set hx
  · exact h x hold
  · exact hnew

/-- A request of the gateway changes its status, with what is stored meanwhile. -/
theorem Counted.set {frame : SendMsgReq} {stores : Stores} {s : State} (h : Counted frame stores s)
    {k : Nat} {old : SendStatus} (hk : s.sends[k]? = some old) (new : SendStatus)
    (hnew : new.Counted frame) {stores' : Stores}
    (hbodies : Delivery.bodies frame.msgId stores' + old.bodies ≤
      Delivery.bodies frame.msgId s.stores + new.bodies)
    (hrows : Indexed frame (indexRows frame.msgId stores) stores') :
    Counted frame stores { s with sends := s.sends.set k new, stores := stores' } where
  gateway := by
    rw [List.length_set]
    exact h.gateway
  sends := mem_set h.sends hnew
  bodies := by
    have hsum := sum_map_set SendStatus.bodies new hk
    have hold := h.bodies
    show Delivery.bodies frame.msgId stores' ≤ _ + ((s.sends.set k new).map SendStatus.bodies).sum
    omega
  rows := hrows

/-- An event around an execution keeps the index in its bounds. -/
theorem saveStep_indexed {respond : Bytes → SaveMsgResp} {stores stores' : Stores}
    {h h' : Handler} {a : SaveAction} {frame : SendMsgReq} {rows : Nat}
    (hindexed : Indexed frame rows stores) (hreceiver : h.msg.receiverId = frame.receiverId)
    (hstep : saveStep respond stores h a = some (h', stores')) : Indexed frame rows stores' := by
  obtain ⟨_, _, _, rfl, _⟩ | ⟨_, _, _, _, _, ⟨_, _, rfl⟩ | ⟨_, _, rfl⟩ | ⟨clock, _, _, rfl⟩⟩ |
    ⟨_, _, _, rfl⟩ := saveStep_cases hstep
  · exact hindexed
  · exact hindexed
  · rw [storeBody_eq]
    exact hindexed
  · exact hindexed.own hreceiver clock
  · exact hindexed

theorem Counted.step {root : TrieNode} {respond : Bytes → SaveMsgResp} {frame : SendMsgReq}
    {stores : Stores} {s s' : State} {a : Action} (h : Counted frame stores s)
    (hstep : step root respond frame s a = some s') : Counted frame stores s' := by
  cases next_of_step hstep with
  | start hgateway =>
    have hsent := h.gateway
    rw [hgateway] at hsent
    refine ⟨⟨?_, hsent.2⟩, fun send hsend => ?_, ?_, h.rows⟩
    · rw [List.length_append, hsent.1, List.length_singleton]
    · obtain hold | hnew := List.mem_append.mp hsend
      · exact h.sends send hold
      · rw [List.mem_singleton.mp hnew]
        trivial
    · simpa [SendStatus.bodies] using h.bodies
  | lose hk => exact h.set hk .lost trivial (Nat.le_refl _) h.rows
  | @execute k now msg hk hsave =>
    refine h.set hk (.handled ⟨msg, .ready 0, []⟩) ⟨⟨rfl, Nat.zero_le _⟩, ?_⟩ (Nat.le_refl _) h.rows
    rw [toSave_eq_some hsave, maskAndStamp_frame]
    rfl
  | reject hk => exact h.set hk .rejected trivial (Nat.le_refl _) h.rows
  | fail hgateway =>
    have hsent := h.gateway
    rw [hgateway] at hsent
    exact ⟨hsent.fail, h.sends, h.bodies, h.rows⟩
  | answer => exact ⟨h.gateway.le, h.sends, h.bodies, h.rows⟩
  | @save k a handler handler' stores' hk hsave =>
    obtain ⟨hsent, hreceiver⟩ : SendStatus.Counted frame (.handled handler) :=
      h.sends _ (List.mem_of_getElem? hk)
    obtain ⟨hsent', hmsg⟩ := saveStep_sent hsent hsave
    exact h.set hk (.handled handler') ⟨hsent', hmsg ▸ hreceiver⟩ (saveStep_copies hsave frame.msgId).1
      (saveStep_indexed h.rows hreceiver hsave)
  | otherBody hne =>
    refine ⟨h.gateway, h.sends, ?_, ?_⟩
    · simpa only [bodies_storeBody, if_neg hne, Nat.add_zero] using h.bodies
    · rw [storeBody_eq]
      exact h.rows
  | otherIndex hne => exact ⟨h.gateway, h.sends, h.bodies, h.rows.other hne _⟩

/-- The requests of a handler that are executed and not answered in time. -/
def unansweredSaves (k : Nat) : List Action :=
  (List.range 4).flatMap fun j => [.save k .start, .save k (.body j), .save k .fail]

/-- The requests of the gateway that are executed and not answered in time. -/
def unansweredSends : List Action :=
  (List.range 4).flatMap fun k => [.start, .execute k 0] ++ unansweredSaves k ++ [.fail]

section Amplified

variable {root : TrieNode} {respond : Bytes → SaveMsgResp} {frame : SendMsgReq}

/-- The state in which the request `k` is with the handler `h`. -/
def State.handling (s : State) (k : Nat) (h : Handler) (stores : Stores) : State :=
  { s with sends := s.sends.set k (.handled h), stores := stores }

theorem step_handling {s : State} {k : Nat} (hk : k < s.sends.length) {h h' : Handler}
    {stores stores' : Stores} {a : SaveAction}
    (hsave : saveStep respond stores h a = some (h', stores')) :
    step root respond frame (s.handling k h stores) (.save k a) = some (s.handling k h' stores') := by
  have hget : (s.sends.set k (.handled h))[k]? = some (.handled h) := List.getElem?_set_self hk
  simp only [step, State.handling, hget, hsave, List.set_set]

/-- An attempt of a handler that stores the body and fails. -/
theorem run_unansweredSave {s : State} {k j : Nat} (hk : k < s.sends.length) (msg : LogicChatMsg)
    (saves : List SaveStatus) (hj : saves.length = j) (stores : Stores) :
    run (step root respond frame) (s.handling k ⟨msg, .ready j, saves⟩ stores)
        [.save k .start, .save k (.body j), .save k .fail] =
      some (s.handling k ⟨msg, .fail j, saves ++ [.bodyStored]⟩ (storeBody stores msg)) := by
  subst hj
  have hbody : saveStep respond stores
      ⟨msg, .waiting saves.length, saves ++ [.inFlight]⟩ (.body saves.length) =
      some (⟨msg, .waiting saves.length, saves ++ [.bodyStored]⟩, storeBody stores msg) := by
    simp [saveStep]
  rw [run_cons (step_handling hk rfl), run_cons (step_handling hk hbody),
    run_cons (step_handling hk rfl)]
  rfl

/-- The stores after the body of a message was written as often as the handler tries. -/
def storeFour (stores : Stores) (msg : LogicChatMsg) : Stores :=
  storeBody (storeBody (storeBody (storeBody stores msg) msg) msg) msg

theorem run_unansweredSaves {s : State} {k : Nat} (hk : k < s.sends.length) (msg : LogicChatMsg)
    (stores : Stores) :
    run (step root respond frame) (s.handling k ⟨msg, .ready 0, []⟩ stores) (unansweredSaves k) =
      some (s.handling k ⟨msg, .threw, List.replicate 4 .bodyStored⟩ (storeFour stores msg)) := by
  show run _ _ ([_, _, _] ++ ([_, _, _] ++ ([_, _, _] ++ [_, _, _]))) = _
  refine (run_append (run_unansweredSave hk msg [] rfl stores) _).trans ?_
  refine (run_append (run_unansweredSave hk msg [.bodyStored] rfl _) _).trans ?_
  refine (run_append (run_unansweredSave hk msg [.bodyStored, .bodyStored] rfl _) _).trans ?_
  exact run_unansweredSave hk msg [.bodyStored, .bodyStored, .bodyStored] rfl _

/-- An attempt of the gateway whose request is executed and not answered in time. -/
theorem run_unansweredSend {s : State} {k : Nat} (hgateway : s.gateway = .ready k)
    (hk : s.sends.length = k) {msg : LogicChatMsg} (hsave : toSave root 0 (incoming frame 0) = some msg) :
    run (step root respond frame) s ([.start, .execute k 0] ++ unansweredSaves k ++ [.fail]) =
      some ⟨.fail k, s.sends ++ [.handled ⟨msg, .threw, List.replicate 4 .bodyStored⟩],
        storeFour s.stores msg⟩ := by
  subst hk
  let s' : State := ⟨.waiting s.sends.length, s.sends ++ [.inFlight], s.stores⟩
  have hlen : s.sends.length < s'.sends.length := by simp [s']
  have hstart : run (step root respond frame) s [.start, .execute s.sends.length 0] =
      some (s'.handling s.sends.length ⟨msg, .ready 0, []⟩ s.stores) := by
    simp [run, step, hgateway, hsave, State.handling, s']
  rw [List.append_assoc, run_append hstart, run_append (run_unansweredSaves hlen msg s.stores)]
  simp [run, step, State.handling, s']

/-- All attempts of the gateway. -/
theorem run_unansweredSends {msg : LogicChatMsg} (hsave : toSave root 0 (incoming frame 0) = some msg)
    (stores : Stores) :
    run (step root respond frame) (.start stores) unansweredSends =
      some ⟨.threw, List.replicate 4 (.handled ⟨msg, .threw, List.replicate 4 .bodyStored⟩),
        storeFour (storeFour (storeFour (storeFour stores msg) msg) msg) msg⟩ := by
  show run _ _ (_ ++ (_ ++ (_ ++ _))) = _
  refine (run_append (run_unansweredSend rfl rfl hsave) _).trans ?_
  refine (run_append (run_unansweredSend rfl rfl hsave) _).trans ?_
  refine (run_append (run_unansweredSend rfl rfl hsave) _).trans ?_
  exact run_unansweredSend rfl rfl hsave

/-- Every accepted frame can be stored sixteen times: each of the sixteen `SaveMsg`
requests is executed too late to be answered. The gateway has given up by then. -/
theorem exists_amplified (root : TrieNode) (respond : Bytes → SaveMsgResp) {frame : SendMsgReq}
    (haccepted : Accepted (incoming frame 0)) (stores : Stores) :
    ∃ s, run (step root respond frame) (.start stores) unansweredSends = some s ∧
      s.gateway = .threw ∧ bodies frame.msgId s.stores = bodies frame.msgId stores + 16 := by
  refine ⟨_, run_unansweredSends (toSave_of_accepted root 0 haccepted) stores, rfl, ?_⟩
  have hid : (maskAndStamp root 0 (incoming frame 0)).msgId = frame.msgId := by
    rw [maskAndStamp_frame]
    rfl
  simp only [storeFour, bodies_storeBody, if_pos hid]

theorem exists_amplified_hello : Accepted (incoming hello 0) ∧
    ∃ s, run (step (.mk [] false) respondWith hello) (.start .initial) unansweredSends = some s ∧
      s.gateway = .threw ∧ bodies hello.msgId s.stores = bodies hello.msgId .initial + 16 :=
  have haccepted : Accepted (incoming hello 0) := by decide +kernel
  ⟨haccepted, exists_amplified (.mk [] false) respondWith haccepted .initial⟩

end Amplified

end IMSystem.Delivery

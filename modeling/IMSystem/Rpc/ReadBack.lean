import IMSystem.Rpc.Acknowledgement
import IMSystem.Rpc.StoredContent

/-!
# What the gateway acknowledges can be read

A reply with code 0 carries a sequence number that `SaveMessage` has returned to one of the
attempts. The row with this number and a body of the message are stored by then, and nothing
takes them away: the receiver can read the message from then on.

Results:
1. `storeIndex_of_free`, `storeIndex_of_taken`: what an index write answers.
2. `Handler.Backed.step`: what an execution knows is stored.
3. `readable_run`: in every run, an acknowledged frame is readable in every later state.
-/

namespace IMSystem.Delivery

open Lib Retry Gateway Message MessageProcessor SensitiveFilter

/-! ## Stores that grow -/

/-- The rows are those of `SaveMessage`: it leaves `seq_id` empty, and the ids begin with 1. -/
structure Regular (stores : Stores) : Prop where
  slots : ∀ x ∈ stores.rows, x.2.seqId = []
  numbers : ∀ x ∈ stores.rows, 0 < x.1
  next : 0 < stores.mysql.messageIndex.next

structure Extends (stores stores' : Stores) : Prop where
  messages : stores.messages <+: stores'.messages
  rows : stores.rows <+: stores'.rows
  regular : Regular stores → Regular stores'

theorem Extends.refl (stores : Stores) : Extends stores stores :=
  ⟨List.prefix_refl _, List.prefix_refl _, id⟩

theorem extends_storeBody (stores : Stores) (msg : LogicChatMsg) :
    Extends stores (storeBody stores msg) := by
  rw [storeBody_eq]
  exact ⟨List.prefix_append _ _, List.prefix_refl _, fun h => ⟨h.slots, h.numbers, h.next⟩⟩

section Index

variable {stores : Stores} {msg : LogicChatMsg} (clock : Nat → Int64)

/-- A free slot takes the row under the next id, and the answer is its number. -/
theorem storeIndex_of_free (hfree : ¬ stores.SlotTaken msg.receiverId) :
    ∃ now, (storeIndex stores msg clock).1 =
        MsgIndexDao.seqString now stores.mysql.messageIndex.next ∧
      (storeIndex stores msg clock).2.rows = stores.rows ++
        [(stores.mysql.messageIndex.next, MsgIndexDao.rowOf (MessageService.indexOf msg) now)] ∧
      (storeIndex stores msg clock).2.mysql.messageIndex.next =
        stores.mysql.messageIndex.next + 1 := by
  have hstored : ∀ k, ((SaveEnv.clean clock).index k).outcome = .stored := fun _ => rfl
  obtain ⟨k, _, _, hrows, ⟨_, hseq, hnext⟩ | ⟨hunreported, _⟩⟩ | ⟨hmissed, _⟩ :=
    MsgIndexDao.insert_free (SaveEnv.clean clock).index (MessageService.indexOf msg) stores.mysql hfree
  · exact ⟨_, hseq, hrows, hnext⟩
  · cases (hstored k).symm.trans hunreported
  · cases (hstored 0).symm.trans (hmissed 0 (by decide))

/-- A taken slot makes the answer empty. -/
theorem storeIndex_of_taken (htaken : stores.SlotTaken msg.receiverId) :
    (storeIndex stores msg clock).1 = [] ∧ (storeIndex stores msg clock).2.rows = stores.rows :=
  MsgIndexDao.insert_taken (SaveEnv.clean clock).index (MessageService.indexOf msg) stores.mysql htaken

theorem extends_storeIndex (stores : Stores) (msg : LogicChatMsg) :
    Extends stores (storeIndex stores msg clock).2 := by
  by_cases htaken : stores.SlotTaken msg.receiverId
  · obtain ⟨_, hrows⟩ := storeIndex_of_taken clock htaken
    refine ⟨List.prefix_refl _, hrows ▸ List.prefix_refl _, fun h => ⟨?_, ?_, ?_⟩⟩
    · exact hrows ▸ h.slots
    · exact hrows ▸ h.numbers
    · -- The row in the slot is in front of the counter.
      obtain ⟨x, hx, _⟩ := List.mem_map.mp htaken
      have hmem : x ∈ (storeIndex stores msg clock).2.rows := hrows ▸ hx
      exact Nat.zero_lt_of_lt ((storeIndex stores msg clock).2.mysql.messageIndex.bounded x hmem)
  · obtain ⟨now, _, hrows, hnext⟩ := storeIndex_of_free clock htaken
    refine ⟨List.prefix_refl _, hrows ▸ List.prefix_append _ _, fun h => ⟨?_, ?_, ?_⟩⟩
    · rw [hrows, List.forall_mem_append]
      exact ⟨h.slots, List.forall_mem_singleton.mpr rfl⟩
    · rw [hrows, List.forall_mem_append]
      exact ⟨h.numbers, List.forall_mem_singleton.mpr h.next⟩
    · rw [hnext]
      exact Nat.succ_pos _

end Index

/-! ## What is known to be stored -/

/-- The row with this number and the body are those of a message prepared from the frame. -/
structure Saved (root : TrieNode) (frame : SendMsgReq) (stores : Stores) (seqId : Bytes) : Prop where
  exists_row : ∃ msg now n, Prepared root frame msg ∧ MessageService.bodyOf msg ∈ stores.messages ∧
    (n, MsgIndexDao.rowOf (MessageService.indexOf msg) now) ∈ stores.rows ∧
    seqId = MsgIndexDao.seqString now n

theorem Saved.mono {root : TrieNode} {frame : SendMsgReq} {stores stores' : Stores} {seqId : Bytes}
    (h : Saved root frame stores seqId) (hextends : Extends stores stores') :
    Saved root frame stores' seqId := by
  obtain ⟨msg, now, n, hprepared, hbody, hrow, hseq⟩ := h.exists_row
  exact ⟨msg, now, n, hprepared, hextends.messages.subset hbody, hextends.rows.subset hrow, hseq⟩

/-- What an execution of `SendMessage` and the answers to it go by is stored. -/
structure Handler.Backed (root : TrieNode) (frame : SendMsgReq) (stores : Stores) (h : Handler) :
    Prop where
  prepared : Prepared root frame h.msg
  body : .bodyStored ∈ h.saves → MessageService.bodyOf h.msg ∈ stores.messages
  served : ∀ seqId, .served seqId ∈ h.saves → seqId ≠ [] → Saved root frame stores seqId
  returned : ∀ seqId, h.loop = .returned seqId → Saved root frame stores seqId

/-- The `SaveMsg` RPC reports success only with the sequence number of a saved message. -/
def Faithful (respond : Bytes → SaveMsgResp) : Prop :=
  ∀ newSeqId, (respond newSeqId).code = 0 → newSeqId ≠ [] ∧ (respond newSeqId).seqId = newSeqId

section Steps

variable {root : TrieNode} {frame : SendMsgReq} {stores : Stores} {h : Handler}

theorem Handler.Backed.mono (hbacked : h.Backed root frame stores) {stores' : Stores}
    (hextends : Extends stores stores') : h.Backed root frame stores' where
  prepared := hbacked.prepared
  body := fun hmem => hextends.messages.subset (hbacked.body hmem)
  served := fun seqId hmem hne => (hbacked.served seqId hmem hne).mono hextends
  returned := fun seqId hloop => (hbacked.returned seqId hloop).mono hextends

/-- A request changes its status. -/
theorem Handler.Backed.set (hbacked : h.Backed root frame stores) (j : Nat) {save : SaveStatus}
    (hbody : save = .bodyStored → MessageService.bodyOf h.msg ∈ stores.messages)
    (hserved : ∀ seqId, save = .served seqId → seqId ≠ [] → Saved root frame stores seqId) :
    Handler.Backed root frame stores { h with saves := h.saves.set j save } where
  prepared := hbacked.prepared
  body := by
    intro hmem
    obtain hold | hnew := List.mem_or_eq_of_mem_set hmem
    · exact hbacked.body hold
    · exact hbody hnew.symm
  served := by
    intro seqId hmem
    obtain hold | hnew := List.mem_or_eq_of_mem_set hmem
    · exact hbacked.served seqId hold
    · exact hserved seqId hnew.symm
  returned := hbacked.returned

/-- The loop goes on. -/
theorem Handler.Backed.turn (hbacked : h.Backed root frame stores) {loop : Loop Bytes}
    (hloop : ∀ seqId, loop = .returned seqId → Saved root frame stores seqId) :
    Handler.Backed root frame stores { h with loop := loop } where
  prepared := hbacked.prepared
  body := hbacked.body
  served := hbacked.served
  returned := hloop

theorem Handler.Backed.failed (hbacked : h.Backed root frame stores) (attempt : Nat) :
    Handler.Backed root frame stores { h with loop := .fail attempt } :=
  hbacked.turn fun seqId hloop => absurd hloop (Acknowledgement.fail_ne_returned attempt seqId)

/-- The row that an index write adds is behind its answer. -/
theorem saved_storeIndex {msg : LogicChatMsg} (hprepared : Prepared root frame msg)
    (hbody : MessageService.bodyOf msg ∈ stores.messages) (clock : Nat → Int64) {seqId : Bytes}
    (hseq : (storeIndex stores msg clock).1 = seqId) (hne : seqId ≠ []) :
    Saved root frame (storeIndex stores msg clock).2 seqId := by
  by_cases htaken : stores.SlotTaken msg.receiverId
  · exact absurd (hseq.symm.trans (storeIndex_of_taken clock htaken).1) hne
  · obtain ⟨now, hanswer, hrows, _⟩ := storeIndex_of_free clock htaken
    refine ⟨msg, now, _, hprepared, hbody, ?_, hseq.symm.trans hanswer⟩
    rw [hrows]
    exact List.mem_append_right _ (List.mem_singleton.mpr rfl)

theorem Handler.Backed.step {respond : Bytes → SaveMsgResp} (hrespond : Faithful respond)
    {h' : Handler} {stores' : Stores} {a : SaveAction} (hbacked : h.Backed root frame stores)
    (hstep : saveStep respond stores h a = some (h', stores')) :
    Extends stores stores' ∧ h'.Backed root frame stores' := by
  cases saveNext_of_step hstep with
  | start =>
    refine ⟨.refl _, hbacked.prepared, fun hmem => ?_, fun seqId hmem => ?_, fun _ hloop => ?_⟩
    · obtain hold | hnew := List.mem_append.mp hmem
      · exact hbacked.body hold
      · cases List.mem_singleton.mp hnew
    · obtain hold | hnew := List.mem_append.mp hmem
      · exact hbacked.served seqId hold
      · cases List.mem_singleton.mp hnew
    · cases hloop
  | lose =>
    refine ⟨.refl _, hbacked.set _ ?_ ?_⟩
    · exact fun heq => by cases heq
    · exact fun _ heq => by cases heq
  | body =>
    have hextends := extends_storeBody stores h.msg
    refine ⟨hextends, (hbacked.mono hextends).set _ (fun _ => ?_) ?_⟩
    · rw [storeBody_eq]
      exact List.mem_append_right _ (List.mem_singleton.mpr rfl)
    · exact fun _ heq => by cases heq
  | @index j clock hj =>
    have hextends := extends_storeIndex clock stores h.msg
    refine ⟨hextends, (hbacked.mono hextends).set j ?_ fun seqId heq hne => ?_⟩
    · exact fun heq => by cases heq
    · have hbody := hbacked.body (List.mem_of_getElem? hj)
      exact saved_storeIndex hbacked.prepared hbody clock (SaveStatus.served.inj heq) hne
  | fail | refuse => exact ⟨.refl _, hbacked.failed _⟩
  | @answer attempt newSeqId hloop hsave hcode =>
    obtain ⟨hne, hseq⟩ := hrespond newSeqId hcode
    refine ⟨.refl _, hbacked.turn fun seqId heq => ?_⟩
    cases heq
    rw [hseq]
    exact hbacked.served newSeqId (List.mem_of_getElem? hsave) hne

end Steps

/-! ## Runs -/

/-- Every success on its way to the client is backed by the stores. -/
structure Durable (root : TrieNode) (frame : SendMsgReq) (s : State) : Prop where
  regular : Regular s.stores
  sends : ∀ h, .handled h ∈ s.sends → h.Backed root frame s.stores
  gateway : ∀ resp, s.gateway = .returned resp → resp.code = 0 → Saved root frame s.stores resp.seqId

section Runs

variable {root : TrieNode} {frame : SendMsgReq} {s : State}

theorem Durable.mono (h : Durable root frame s) {stores : Stores} (hextends : Extends s.stores stores) :
    Durable root frame { s with stores := stores } where
  regular := hextends.regular h.regular
  sends := fun handler hmem => (h.sends handler hmem).mono hextends
  gateway := fun resp hgateway hcode => (h.gateway resp hgateway hcode).mono hextends

/-- A request of the gateway changes its status. -/
theorem Durable.set (h : Durable root frame s) (k : Nat) {send : SendStatus}
    (hsend : ∀ handler, send = .handled handler → handler.Backed root frame s.stores) :
    Durable root frame { s with sends := s.sends.set k send } where
  regular := h.regular
  sends := by
    intro handler hmem
    obtain hold | hnew := List.mem_or_eq_of_mem_set hmem
    · exact h.sends handler hold
    · exact hsend handler hnew.symm
  gateway := h.gateway

/-- A response with code 0 is that of an execution whose loop has returned. -/
theorem saved_of_response {stores : Stores} {send : SendStatus} {resp : SendMsgResp}
    (hsend : ∀ handler, send = .handled handler → handler.Backed root frame stores)
    (hresp : send.response = some resp) (hcode : resp.code = 0) :
    Saved root frame stores resp.seqId := by
  cases send with
  | inFlight | lost => cases hresp
  | rejected =>
    cases hresp
    cases hcode
  | handled handler =>
    simp only [SendStatus.response] at hresp
    split at hresp
    · next seqId hloop =>
      cases hresp
      exact (hsend handler rfl).returned seqId hloop
    · cases hresp
      cases hcode
    · cases hresp

theorem Durable.step {respond : Bytes → SaveMsgResp} (hrespond : Faithful respond) {s' : State}
    {a : Action} (h : Durable root frame s) (hstep : step root respond frame s a = some s') :
    Durable root frame s' := by
  cases next_of_step hstep with
  | start =>
    refine ⟨h.regular, fun handler hmem => ?_, fun _ hgateway => ?_⟩
    · obtain hold | hnew := List.mem_append.mp hmem
      · exact h.sends handler hold
      · cases List.mem_singleton.mp hnew
    · cases hgateway
  | lose | reject => exact h.set _ fun _ heq => by cases heq
  | execute hk hsave =>
    refine h.set _ fun handler heq => ?_
    cases heq
    refine ⟨prepared_of_toSave hsave, ?_, ?_, ?_⟩
    · exact fun hmem => absurd hmem List.not_mem_nil
    · exact fun _ hmem => absurd hmem List.not_mem_nil
    · exact fun _ hloop => by cases hloop
  | fail =>
    exact ⟨h.regular, h.sends, fun resp hgateway =>
      absurd hgateway (Acknowledgement.fail_ne_returned _ resp)⟩
  | answer _ hresp =>
    refine ⟨h.regular, h.sends, fun resp hgateway hcode => ?_⟩
    cases hgateway
    obtain ⟨send, hk, hresponse⟩ := Option.bind_eq_some_iff.mp hresp
    refine saved_of_response (fun handler heq => ?_) hresponse hcode
    exact h.sends handler (heq ▸ List.mem_of_getElem? hk)
  | @save k a handler handler' stores' hk hsave =>
    obtain ⟨hextends, hbacked⟩ := (h.sends handler (List.mem_of_getElem? hk)).step hrespond hsave
    refine (h.mono hextends).set k fun handler'' heq => ?_
    cases heq
    exact hbacked
  | otherBody => exact h.mono (extends_storeBody s.stores _)
  | otherIndex => exact h.mono (extends_storeIndex _ s.stores _)

end Runs

/-! ## What can be read -/

/-- A pull of the receiver that nothing disturbs, with a cursor in front of the sequence number
and room for a message, returns the frame's message as the filter has left it. -/
def Readable (root : TrieNode) (frame : SendMsgReq) (stores : Stores) (seqId : Bytes) : Prop :=
  ∃ now n, seqId = MsgIndexDao.seqString now n ∧ 0 < n ∧
    ∀ fresh beginSeq last limit, MsgIndexDao.lastId beginSeq = .ok last → last.toNat < n → 0 < limit →
      ∃ m ∈ MessageService.pullOfflineMessages (.clean fresh) stores frame.receiverId beginSeq limit,
        m.msgId = frame.msgId ∧ Shown (trieWords root) frame frame.receiverId m

theorem Saved.readable {root : TrieNode} {frame : SendMsgReq} {stores : Stores} {seqId : Bytes}
    (h : Saved root frame stores seqId) (hregular : Regular stores) :
    Readable root frame stores seqId := by
  obtain ⟨msg, now, n, hprepared, hbody, hrow, hseq⟩ := h.exists_row
  refine ⟨now, n, hseq, hregular.numbers _ hrow, fun fresh beginSeq last limit hlast hlt hpos => ?_⟩
  have hmsg : msg.msgId = frame.msgId ∧ msg.receiverId = frame.receiverId := by
    obtain ⟨now', _, rfl⟩ := hprepared
    rw [ChatHandler.maskAndStamp_frame]
    exact ⟨rfl, rfl⟩
  have hselected := MsgIndexDao.mem_offlineRows_of_slots hregular.slots hrow hlt hpos
  have hlimit : ¬ limit < 0 := fun hneg => absurd hpos (Int32.not_lt.mpr (Int32.le_of_lt hneg))
  obtain ⟨i, hi⟩ := MessageService.mem_pullOfflineMessages_clean fresh hlast hlimit hselected hbody rfl
  have huser : (MsgIndexDao.rowOf (MessageService.indexOf msg) now).receiverId = frame.receiverId :=
    hmsg.2
  rw [huser] at hi
  exact ⟨_, hi, hmsg.1, hprepared.shown (fresh i)⟩

/-- Whatever is lost, late, retried or saved in between: once the gateway has an answer with
code 0 for a frame, the receiver of the frame can read it, in every later state and from every
cursor in front of the sequence number of the answer. -/
theorem readable_run (root : TrieNode) {respond : Bytes → SaveMsgResp} (hrespond : Faithful respond)
    (frame : SendMsgReq) {stores : Stores} (hregular : Regular stores) (actions : List Action) :
    HoldsAlong (step root respond frame)
      (fun s => ∀ resp, s.gateway = .returned resp → resp.code = 0 →
        Readable root frame s.stores resp.seqId)
      (.start stores) actions := by
  refine holdsAlong_of_step (fun _ _ _ h hstep => Durable.step hrespond h hstep)
    (fun s h resp hgateway hcode => (h.gateway resp hgateway hcode).readable h.regular)
    ⟨hregular, ?_, ?_⟩
  · exact fun _ hmem => absurd hmem List.not_mem_nil
  · exact fun _ hgateway => by cases hgateway

theorem readable_run_hello :
    HoldsAlong (step (.mk [] false) respondWith hello)
      (fun s => ∀ resp, s.gateway = .returned resp → resp.code = 0 →
        Readable (.mk [] false) hello s.stores resp.seqId)
      (.start .initial) secondAttempt := by
  refine readable_run (.mk [] false) (fun newSeqId hcode => ?_) hello ⟨?_, ?_, Nat.one_pos⟩ secondAttempt
  · unfold respondWith at hcode ⊢
    split at hcode
    · cases hcode
    · next hne => exact ⟨hne, by rw [if_neg hne]⟩
  · exact fun _ hx => absurd hx List.not_mem_nil
  · exact fun _ hx => absurd hx List.not_mem_nil

end IMSystem.Delivery

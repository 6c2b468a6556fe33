import IMSystem.Logic.ChatHandler
import IMSystem.Message.Store

/-!
# The message service (`message/src/service/message_service.cpp`)

`SaveMessage` writes the body and then the index; `PullOfflineMessages` reads
the ids off the index and then the bodies, and reassembles the messages.

Results:
1. `saveMessage_cases`: all that a call of `SaveMessage` can do.
2. `saveMessage_clean_free`: a call without faults saves the message, unless the unique
   key refuses its row.
3. `mem_pullOfflineMessages`: where a returned message comes from.
-/

namespace IMSystem.Message

open Lib

/-- Both stores. -/
structure Stores where
  messages : List MsgBody
  mysql : MySql

/-- The stores as they are set up. -/
def Stores.initial : Stores := ⟨[], ⟨IndexTable.initial, 0⟩⟩

/-- The rows of `message_index` with their ids. -/
def Stores.rows (st : Stores) : List (Nat × IndexRow) := st.mysql.messageIndex.rows

/-- The receiver's slot `(receiver_id, seq_id)` for the `seq_id` that
`SaveMessage` binds is taken. -/
def Stores.SlotTaken (st : Stores) (receiver : UInt64) : Prop :=
  st.mysql.messageIndex.Taken (receiver, [])

/-- The environment of one call of `SaveMessage`. -/
structure SaveEnv where
  body : Nat → BodyAttempt
  index : Nat → IndexAttempt

/-- No fault at all; only the clock is open. -/
def SaveEnv.clean (clock : Nat → Int64) : SaveEnv where
  body := fun _ => ⟨true, .none⟩
  index := fun i => ⟨true, clock i, .none, .none⟩

/-- The stores do not fail. -/
def SaveEnv.Clean (env : SaveEnv) : Prop := ∃ clock, env = .clean clock

namespace MessageService

/-- The body built in `SaveMessage`. -/
def bodyOf (msg : LogicChatMsg) : MsgBody where
  msgId := msg.msgId
  content := msg.content
  msgType := msg.msgType
  sessionType := msg.sessionType

/-- The index built in `SaveMessage`; `seq_id` keeps its default, the empty
string. -/
def indexOf (msg : LogicChatMsg) : MsgIndex where
  msgId := msg.msgId
  senderId := msg.senderId
  receiverId := msg.receiverId
  sessionType := msg.sessionType

/-- `MessageService::SaveMessage`. -/
def saveMessage (env : SaveEnv) (msg : LogicChatMsg) (st : Stores) : Bytes × Stores :=
  match MsgBodyDao.insert env.body (bodyOf msg) st.messages with
  | (false, messages) => ([], { st with messages := messages })
  | (true, messages) =>
    let (newSeqId, mysql) := MsgIndexDao.insert env.index (indexOf msg) st.mysql
    if newSeqId.isEmpty then ([], { messages := messages, mysql := mysql })
    else (newSeqId, { messages := messages, mysql := mysql })

/-- The fields of a local `LogicChatMsg msg;` that its declaration leaves
indeterminate and that are not assigned afterwards. -/
structure Uninitialized where
  senderId : UInt64
  receiverId : UInt64
  sendTime : Int64
  serverTime : Int64

/-- The environment of one call of `PullOfflineMessages`; `fresh i` is what the
`i`-th local message holds before it is assigned. -/
structure PullEnv where
  fetch : Nat → ReadAttempt
  batch : Nat → ReadAttempt
  fresh : Nat → Uninitialized

/-- No fault at all. -/
def PullEnv.clean (fresh : Nat → Uninitialized) : PullEnv where
  fetch := fun _ => .clean
  batch := fun _ => .clean
  fresh := fresh

/-- One turn of the loop that assembles the result. -/
def assemble (fresh : Uninitialized) (body : MsgBody) : LogicChatMsg where
  msgId := body.msgId
  senderId := fresh.senderId
  receiverId := fresh.receiverId
  sessionType := body.sessionType
  msgType := body.msgType
  content := body.content
  sendTime := fresh.sendTime
  serverTime := fresh.serverTime
  seqId := []

/-- `MessageService::PullOfflineMessages`. -/
def pullOfflineMessages (env : PullEnv) (st : Stores) (userId : UInt64) (beginSeq : Bytes)
    (limit : Int32) : List LogicChatMsg :=
  let msgIds := MsgIndexDao.fetchOfflineMsgIds env.fetch st.mysql.messageIndex userId beginSeq limit
  if msgIds.isEmpty then []
  else
    (MsgBodyDao.batchGet env.batch st.messages msgIds).mapIdx fun i body =>
      assemble (env.fresh i) body

/-! ## What `SaveMessage` does -/

/-- All that a call of `SaveMessage` can do. `n` documents of the message were
left behind by attempts that raised.
* `bodyLost`: no body attempt was reported, so the index is not touched.
* `slotTaken`: the body is stored and the unique key refuses the row.
* `indexLost`: the body is stored and no index attempt was reported; the row is
  there if an attempt was unreported.
* `saved`: the answer is the sequence string of the new row. -/
inductive SaveCase (env : SaveEnv) (msg : LogicChatMsg) (st : Stores) : Bytes × Stores → Prop
  | bodyLost (messages : List MsgBody) :
      (∀ i < 4, (env.body i).outcome ≠ .stored) →
      messages = st.messages ++ List.replicate (MsgBodyDao.unreported env.body 4) (bodyOf msg) →
      SaveCase env msg st ([], { st with messages := messages })
  | slotTaken (k : Nat) (st' : Stores) :
      k ≤ 3 → (env.body k).outcome = .stored → (∀ i < k, (env.body i).outcome ≠ .stored) →
      st.SlotTaken msg.receiverId →
      st'.messages = st.messages ++
        List.replicate (MsgBodyDao.unreported env.body k + 1) (bodyOf msg) →
      st'.rows = st.rows →
      SaveCase env msg st ([], st')
  | indexLost (k : Nat) (st' : Stores) :
      k ≤ 3 → (env.body k).outcome = .stored → (∀ i < k, (env.body i).outcome ≠ .stored) →
      ¬ st.SlotTaken msg.receiverId →
      st'.messages = st.messages ++
        List.replicate (MsgBodyDao.unreported env.body k + 1) (bodyOf msg) →
      ((∀ i < 4, (env.index i).outcome = .missed) ∧ st'.rows = st.rows ∨
        ∃ j ≤ 3, (∀ i < j, (env.index i).outcome = .missed) ∧
          (env.index j).outcome = .unreported ∧
          st'.rows = st.rows ++ [(st.mysql.messageIndex.next,
            MsgIndexDao.rowOf (indexOf msg) (env.index j).nowMs)]) →
      SaveCase env msg st ([], st')
  | saved (k j : Nat) (st' : Stores) :
      k ≤ 3 → (env.body k).outcome = .stored → (∀ i < k, (env.body i).outcome ≠ .stored) →
      ¬ st.SlotTaken msg.receiverId →
      j ≤ 3 → (env.index j).outcome = .stored → (∀ i < j, (env.index i).outcome = .missed) →
      st'.messages = st.messages ++
        List.replicate (MsgBodyDao.unreported env.body k + 1) (bodyOf msg) →
      st'.rows = st.rows ++ [(st.mysql.messageIndex.next,
        MsgIndexDao.rowOf (indexOf msg) (env.index j).nowMs)] →
      st'.mysql.messageIndex.next = st.mysql.messageIndex.next + 1 →
      SaveCase env msg st
        (MsgIndexDao.seqString (env.index j).nowMs st.mysql.messageIndex.next, st')

theorem saveMessage_cases (env : SaveEnv) (msg : LogicChatMsg) (st : Stores) :
    SaveCase env msg st (saveMessage env msg st) := by
  unfold saveMessage
  rcases MsgBodyDao.insert_spec env.body (bodyOf msg) st.messages with
    ⟨k, hk, hst, hno, heq⟩ | ⟨hno, heq⟩
  · rw [heq]
    by_cases htaken : st.SlotTaken msg.receiverId
    · obtain ⟨hseq, hrows⟩ := MsgIndexDao.insert_taken env.index (indexOf msg) st.mysql htaken
      simp only [hseq, List.isEmpty_nil, if_true]
      exact .slotTaken k _ hk hst hno htaken rfl hrows
    · rcases MsgIndexDao.insert_free env.index (indexOf msg) st.mysql htaken with
        ⟨j, hj, hmiss, hrows, ⟨hjst, hseq, hnext⟩ | ⟨hun, hseq⟩⟩ | ⟨hmiss, hins⟩
      · simp only [hseq, List.isEmpty_eq_false_iff.mpr (MsgIndexDao.seqString_ne_nil _ _),
          Bool.false_eq_true, if_false]
        exact .saved k j _ hk hst hno htaken hj hjst hmiss rfl hrows hnext
      · simp only [hseq, List.isEmpty_nil, if_true]
        exact .indexLost k _ hk hst hno htaken rfl (.inr ⟨j, hj, hmiss, hun, hrows⟩)
      · simp only [hins, List.isEmpty_nil, if_true]
        exact .indexLost k _ hk hst hno htaken rfl (.inl ⟨hmiss, rfl⟩)
  · rw [heq]
    exact .bodyLost _ hno rfl

/-- A call that answers with a sequence number has added its row, under the id
of that number, and at least one copy of its body. -/
theorem saveMessage_saved {env : SaveEnv} {msg : LogicChatMsg} {st st' : Stores} {seq : Bytes}
    (h : saveMessage env msg st = (seq, st')) (hseq : seq ≠ []) :
    ¬ st.SlotTaken msg.receiverId ∧
    ∃ n now, st'.messages = st.messages ++ List.replicate (n + 1) (bodyOf msg) ∧
      st'.rows = st.rows ++ [(st.mysql.messageIndex.next,
        MsgIndexDao.rowOf (indexOf msg) now)] ∧
      seq = MsgIndexDao.seqString now st.mysql.messageIndex.next := by
  have hcase := saveMessage_cases env msg st
  rw [h] at hcase
  cases hcase with
  | bodyLost | slotTaken | indexLost => exact absurd rfl hseq
  | saved k j st' _ _ _ hfree _ _ _ hmsgs hrows _ => exact ⟨hfree, _, _, hmsgs, hrows, rfl⟩

section Clean

variable (clock : Nat → Int64) {msg : LogicChatMsg} {st : Stores}

/-- Without faults, the first attempt to write a body is the last. -/
theorem insert_clean (msg : MsgBody) (messages : List MsgBody) :
    MsgBodyDao.insert (SaveEnv.clean clock).body msg messages = (true, messages ++ [msg]) := by
  unfold MsgBodyDao.insert
  rw [Retry.executeWithRetry_eq, Eff.retry_of_ok (a := true) rfl]

/-- Without faults, a free slot takes the row at the first attempt. -/
theorem saveMessage_clean_free (h : ¬ st.SlotTaken msg.receiverId) :
    ∃ st', saveMessage (.clean clock) msg st =
        (MsgIndexDao.seqString (clock 0) st.mysql.messageIndex.next, st') ∧
      st'.messages = st.messages ++ [bodyOf msg] ∧
      st'.rows = st.rows ++ [(st.mysql.messageIndex.next,
        MsgIndexDao.rowOf (indexOf msg) (clock 0))] ∧
      st'.mysql.messageIndex.next = st.mysql.messageIndex.next + 1 := by
  have hcase := saveMessage_cases (.clean clock) msg st
  generalize saveMessage (.clean clock) msg st = r at hcase
  have hbody : ∀ k, ((SaveEnv.clean clock).body k).outcome = .stored := fun _ => rfl
  have hindex : ∀ k, ((SaveEnv.clean clock).index k).outcome = .stored := fun _ => rfl
  have hfirst : ∀ {k}, (∀ i < k, ((SaveEnv.clean clock).body i).outcome ≠ .stored) → k = 0 := by
    intro k hno
    by_contra hk
    exact hno 0 (Nat.pos_of_ne_zero hk) (hbody 0)
  cases hcase with
  | bodyLost _ hno => exact absurd (hbody 0) (hno 0 (by decide))
  | slotTaken _ _ _ _ _ htaken => exact absurd htaken h
  | indexLost _ _ _ _ _ _ _ hlost =>
    rcases hlost with ⟨hmiss, _⟩ | ⟨j, _, _, hun, _⟩
    · exact absurd ((hindex 0).symm.trans (hmiss 0 (by decide))) (by decide)
    · exact absurd ((hindex j).symm.trans hun) (by decide)
  | saved k j st' _ _ hno _ _ _ hmiss hmsgs hrows hnext =>
    obtain rfl := hfirst hno
    obtain rfl : j = 0 := by
      by_contra hj
      exact absurd ((hindex 0).symm.trans (hmiss 0 (Nat.pos_of_ne_zero hj))) (by decide)
    exact ⟨st', rfl, by simpa [MsgBodyDao.unreported] using hmsgs, hrows, hnext⟩

end Clean

/-! ## What `PullOfflineMessages` returns -/

/-- A returned message is assembled from a document whose id stands in a row of
the receiver. -/
theorem mem_pullOfflineMessages {env : PullEnv} {st : Stores} {userId : UInt64}
    {beginSeq : Bytes} {limit : Int32} {m : LogicChatMsg}
    (h : m ∈ pullOfflineMessages env st userId beginSeq limit) :
    ∃ doc ∈ st.messages, ∃ x ∈ st.rows, x.2.receiverId = userId ∧ x.2.msgId = doc.msgId ∧
      ∃ fresh, m = assemble fresh doc := by
  simp only [pullOfflineMessages] at h
  split at h
  · cases h
  · obtain ⟨i, hi, rfl⟩ := List.mem_mapIdx.mp h
    obtain ⟨hdoc, hid⟩ := MsgBodyDao.mem_batchGet (List.getElem_mem hi)
    obtain ⟨x, hx, hrec, hmsg⟩ := MsgIndexDao.mem_fetchOfflineMsgIds hid
    exact ⟨_, hdoc, x, hx, hrec, hmsg, _, rfl⟩

/-- Undisturbed, every document under a selected id is returned. -/
theorem mem_pullOfflineMessages_clean {st : Stores} {userId last : UInt64} {beginSeq : Bytes}
    {limit : Int32} (fresh : Nat → Uninitialized)
    (hlast : MsgIndexDao.lastId beginSeq = .ok last) (hlimit : ¬ limit < 0)
    {x : Nat × IndexRow} {doc : MsgBody}
    (hx : x ∈ MsgIndexDao.offlineRows st.mysql.messageIndex userId last limit)
    (hdoc : doc ∈ st.messages) (hid : doc.msgId = x.2.msgId) :
    ∃ i, assemble (fresh i) doc ∈ pullOfflineMessages (.clean fresh) st userId beginSeq limit := by
  have hmem : doc.msgId ∈ (MsgIndexDao.offlineRows st.mysql.messageIndex userId last limit).map
      fun x => x.2.msgId := List.mem_map.mpr ⟨x, hx, hid.symm⟩
  simp only [pullOfflineMessages, PullEnv.clean, MsgIndexDao.fetchOfflineMsgIds_clean hlast hlimit,
    MsgBodyDao.batchGet_clean]
  rw [if_neg (by rw [List.isEmpty_iff]; exact List.ne_nil_of_mem hmem)]
  have hfound : doc ∈ st.messages.filter fun d =>
      ((MsgIndexDao.offlineRows st.mysql.messageIndex userId last limit).map
        fun x => x.2.msgId).contains d.msgId := by
    rw [List.mem_filter, List.contains_iff_mem]
    exact ⟨hdoc, hmem⟩
  obtain ⟨i, hi, heq⟩ := List.getElem_of_mem hfound
  exact ⟨i, List.mem_mapIdx.mpr ⟨i, hi, by rw [heq]⟩⟩

end MessageService

end IMSystem.Message

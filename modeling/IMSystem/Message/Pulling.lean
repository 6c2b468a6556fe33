import IMSystem.Message.Saving

/-!
# Pulling messages

A message is saved as a document and a row, and pulled back by joining the two
on the `msg_id` alone. The document keeps neither the sender nor the receiver
nor the sequence number, and nothing makes its `msg_id` unique.

Results:
1. `pulled_misses_fields`: a saved message comes back with its content, but
   never with its sequence number.
2. `isolated_iff`: the histories after which no user can be shown a message that
   was sent to others only.
-/

namespace IMSystem.Message

open Lib

namespace MessageService

/-! ## What comes back of a saved message -/

/-- The cursor `c` stands before the sequence number `s`. -/
def CursorBelow (c s : Bytes) : Prop :=
  ∃ a b, MsgIndexDao.lastId c = .ok a ∧ MsgIndexDao.lastId s = .ok b ∧ a < b

/-- The pulled message `r` is the saved message `m` with its sequence number `s`. -/
structure Agrees (m : LogicChatMsg) (s : Bytes) (r : LogicChatMsg) : Prop where
  msgId : r.msgId = m.msgId
  senderId : r.senderId = m.senderId
  receiverId : r.receiverId = m.receiverId
  sessionType : r.sessionType = m.sessionType
  msgType : r.msgType = m.msgType
  content : r.content = m.content
  seqId : r.seqId = s

/-- No pulled message carries a sequence number. -/
theorem seqId_of_mem_pulled {penv : PullEnv} {st : Stores} {userId : UInt64} {cursor : Bytes}
    {limit : Int32} {r : LogicChatMsg}
    (h : r ∈ pullOfflineMessages penv st userId cursor limit) : r.seqId = [] := by
  obtain ⟨doc, _, x, _, _, _, fresh, rfl⟩ := mem_pullOfflineMessages h
  rfl

/-- The documents under the id of a saved message are copies of its body, as
long as no other message uses the id. -/
theorem document_of_saved {env : SaveEnv} {m : LogicChatMsg} {st₀ st₁ : Stores} {s : Bytes}
    (hsave : saveMessage env m st₀ = (s, st₁)) (hfresh : ∀ doc ∈ st₀.messages, doc.msgId ≠ m.msgId)
    {later : List SaveCall} (hlater : ∀ c ∈ later, c.msg.msgId ≠ m.msgId) {doc : MsgBody}
    (hdoc : doc ∈ (saveAll later st₁).2.messages) (hid : doc.msgId = m.msgId) :
    doc = bodyOf m := by
  rcases mem_messages_saveAll hdoc with hold | ⟨c, hc, rfl⟩
  · obtain ⟨⟨n, hmsgs⟩, _⟩ := saveMessage_adds env m st₀
    rw [hsave] at hmsgs
    rw [hmsgs, List.mem_append, List.mem_replicate] at hold
    rcases hold with hold | ⟨_, hbody⟩
    · exact absurd hid (hfresh doc hold)
    · exact hbody
  · exact absurd hid (hlater c hc)

/-- A saved message is among the messages pulled from a cursor below its
sequence number with a limit that covers the rows of its receiver. -/
theorem pulled_of_saved {env : SaveEnv} {m : LogicChatMsg} {st₀ st₁ : Stores} {s : Bytes}
    (hsave : saveMessage env m st₀ = (s, st₁)) (hs : s ≠ []) (later : List SaveCall)
    {cursor : Bytes} (hcursor : CursorBelow cursor s) {limit : Int32}
    (hlimit : (((saveAll later st₁).2.rows.filter fun x =>
      x.2.receiverId == m.receiverId).length : Int) ≤ limit.toInt)
    (fresh : Nat → Uninitialized) :
    ∃ i, assemble (fresh i) (bodyOf m) ∈
      pullOfflineMessages (.clean fresh) (saveAll later st₁).2 m.receiverId cursor limit := by
  obtain ⟨_, n, now, hmsgs, hrows, rfl⟩ := saveMessage_saved hsave hs
  obtain ⟨a, b, hlast, hid, hlt⟩ := hcursor
  have hnext := MsgIndexDao.lastId_seqString hid
  have hrow : (st₀.mysql.messageIndex.next, MsgIndexDao.rowOf (indexOf m) now) ∈
      (saveAll later st₁).2.rows := rows_subset_saveAll (by simp [hrows])
  have hbody : bodyOf m ∈ (saveAll later st₁).2.messages :=
    messages_subset_saveAll (by simp [hmsgs])
  have hpos : ¬ limit < 0 := by
    rw [Int32.lt_iff_toInt_lt]
    have hzero : (0 : Int32).toInt = 0 := rfl
    omega
  have hselected : (st₀.mysql.messageIndex.next, MsgIndexDao.rowOf (indexOf m) now) ∈
      MsgIndexDao.offlineRows (saveAll later st₁).2.mysql.messageIndex m.receiverId a limit := by
    have hcovers : ((saveAll later st₁).2.rows.filter fun x =>
        x.2.receiverId == m.receiverId).length ≤ limit.toInt.toNat := by omega
    refine (Table.mem_select_iff hcovers).mpr ⟨hrow, ?_, ?_⟩
    · exact beq_self_eq_true _
    · show a.toNat < st₀.mysql.messageIndex.next
      rw [hnext]
      exact UInt64.lt_iff_toNat_lt.mp hlt
  exact mem_pullOfflineMessages_clean fresh hlast hpos hselected hbody rfl

/-- A message `m` saved under the sequence number `s` and not disturbed by
another message with its id is pulled from every cursor below `s`. Whatever
fails while pulling, each copy that comes back has the content and the types of
`m`, and none agrees with `m` and `s`: the sequence number is lost. -/
theorem pulled_misses_fields {env : SaveEnv} {m : LogicChatMsg} {st₀ st₁ : Stores} {s : Bytes}
    (hsave : saveMessage env m st₀ = (s, st₁)) (hs : s ≠ [])
    (hfresh : ∀ doc ∈ st₀.messages, doc.msgId ≠ m.msgId) {later : List SaveCall}
    (hlater : ∀ c ∈ later, c.msg.msgId ≠ m.msgId) {cursor : Bytes} (hcursor : CursorBelow cursor s)
    {limit : Int32} (hlimit : (((saveAll later st₁).2.rows.filter fun x =>
      x.2.receiverId == m.receiverId).length : Int) ≤ limit.toInt) (penv : PullEnv) :
    (∃ r ∈ pullOfflineMessages (.clean penv.fresh) (saveAll later st₁).2 m.receiverId cursor limit,
      r.msgId = m.msgId) ∧
    ∀ r ∈ pullOfflineMessages penv (saveAll later st₁).2 m.receiverId cursor limit,
      r.msgId = m.msgId →
        r.sessionType = m.sessionType ∧ r.msgType = m.msgType ∧ r.content = m.content ∧
        ¬ Agrees m s r := by
  constructor
  · obtain ⟨i, hi⟩ := pulled_of_saved hsave hs later hcursor hlimit penv.fresh
    exact ⟨_, hi, rfl⟩
  · intro r hr hid
    have hseq := seqId_of_mem_pulled hr
    obtain ⟨doc, hdoc, x, _, _, _, fresh, rfl⟩ := mem_pullOfflineMessages hr
    obtain rfl := document_of_saved hsave hfresh hlater hdoc hid
    refine ⟨rfl, rfl, rfl, fun hagrees => ?_⟩
    exact hs (hagrees.seqId.symm.trans hseq)

/-- What the local messages happen to hold: nothing but zeros. -/
def zeros : Nat → Uninitialized := fun _ => ⟨0, 0, 0, 0⟩

/-- The message `m1` after it was saved into the stores as they are set up. -/
def afterFirst : Bytes × Stores :=
  saveMessage (.clean fun _ => 0) (textMsg "m1" 1 2 "hi") .initial

theorem pulled_first_misses_fields :
    ∃ r ∈ pullOfflineMessages (.clean zeros) afterFirst.2 2 [] 10,
      r.msgId = str "m1" ∧ r.content = str "hi" ∧ ¬ Agrees (textMsg "m1" 1 2 "hi") afterFirst.1 r := by
  have hsave : saveMessage (.clean fun _ => 0) (textMsg "m1" 1 2 "hi") .initial =
      (afterFirst.1, afterFirst.2) := rfl
  have hlater : ∀ c ∈ ([] : List SaveCall), c.msg.msgId ≠ (textMsg "m1" 1 2 "hi").msgId := by simp
  have hcursor : CursorBelow [] afterFirst.1 :=
    ⟨0, 1, by decide +kernel, by decide +kernel, by decide⟩
  have hlimit : (((saveAll [] afterFirst.2).2.rows.filter fun x =>
      x.2.receiverId == (textMsg "m1" 1 2 "hi").receiverId).length : Int) ≤ (10 : Int32).toInt := by
    decide +kernel
  have h := pulled_misses_fields hsave (by decide +kernel) (by simp [Stores.initial]) hlater hcursor
    hlimit (.clean zeros)
  obtain ⟨r, hr, hid⟩ := h.1
  obtain ⟨_, _, hcontent, hnot⟩ := h.2 r hr hid
  exact ⟨r, hr, hid, hcontent, hnot⟩

/-- The round trip fails for the first message ever saved. -/
theorem first_message_not_restored :
    ¬ ∀ r ∈ pullOfflineMessages (.clean zeros) afterFirst.2 2 [] 10,
      r.msgId = str "m1" → Agrees (textMsg "m1" 1 2 "hi") afterFirst.1 r := by
  intro h
  have hmem : assemble (zeros 0) (bodyOf (textMsg "m1" 1 2 "hi")) ∈
      pullOfflineMessages (.clean zeros) afterFirst.2 2 [] 10 := by decide +kernel
  exact absurd (h _ hmem rfl).seqId (by decide +kernel)

/-! ## Whose messages a user is shown -/

/-- Each message that a user can pull has the content of a message that was
saved for this user. -/
def Isolated (calls : List SaveCall) (st : Stores) : Prop :=
  ∀ (penv : PullEnv) (userId : UInt64) (cursor : Bytes) (limit : Int32),
    ∀ r ∈ pullOfflineMessages penv st userId cursor limit,
      ∃ c ∈ calls, c.msg.receiverId = userId ∧ c.msg.content = r.content

/-- With the empty `seq_id` in all rows, the unique key leaves one row to each
receiver. -/
theorem rows_of_receiver_le_one {t : IndexTable} (h : ∀ x ∈ t.rows, x.2.seqId = [])
    (receiver : UInt64) : (t.rows.filter fun x => x.2.receiverId == receiver).length ≤ 1 := by
  have hkeys : ∀ k ∈ (t.rows.filter fun x => x.2.receiverId == receiver).map
      (fun x => x.2.idxReceiverSeq), k = (receiver, []) := by
    intro k hk
    obtain ⟨x, hx, rfl⟩ := List.mem_map.mp hk
    obtain ⟨hmem, hrec⟩ := List.mem_filter.mp hx
    rw [IndexRow.idxReceiverSeq, h x hmem, beq_iff_eq.mp hrec]
  have hnodup := t.unique.sublist
    ((List.filter_sublist (p := fun x : Nat × IndexRow => x.2.receiverId == receiver)).map
      fun x => x.2.idxReceiverSeq)
  rw [List.eq_replicate_of_mem hkeys, List.nodup_replicate, List.length_map] at hnodup
  exact hnodup

/-- After a history of answered calls on fresh stores, everyone can pull the
documents that share the `msg_id` of the own message. -/
theorem pulled_of_shared_id {calls : List SaveCall}
    (h : ∀ answer ∈ (saveAll calls .initial).1, answer ≠ []) {c c' : SaveCall} (hc : c ∈ calls)
    (hc' : c' ∈ calls) (hid : c.msg.msgId = c'.msg.msgId) (fresh : Nat → Uninitialized) :
    ∃ i, assemble (fresh i) (bodyOf c'.msg) ∈
      pullOfflineMessages (.clean fresh) (saveAll calls .initial).2 c.msg.receiverId [] 1 := by
  obtain ⟨_, id, now, hpos, hrow⟩ := stored_of_answered h hc
  obtain ⟨hbody, _⟩ := stored_of_answered h hc'
  have hempty : ∀ x ∈ (saveAll calls .initial).2.rows, x.2.seqId = [] := by
    intro x hx
    rcases mem_rows_saveAll hx with hinit | ⟨_, _, _, hrow⟩
    · cases hinit
    · rw [hrow]
      rfl
  have hselected : (id, MsgIndexDao.rowOf (indexOf c.msg) now) ∈
      MsgIndexDao.offlineRows (saveAll calls .initial).2.mysql.messageIndex c.msg.receiverId 0 1 :=
    (Table.mem_select_iff (rows_of_receiver_le_one hempty c.msg.receiverId)).mpr
      ⟨hrow, beq_self_eq_true _, hpos⟩
  exact mem_pullOfflineMessages_clean fresh rfl (by decide) hselected hbody hid.symm

/-- After a history of answered calls on fresh stores, the inboxes are isolated
exactly when messages with one `msg_id` have one content. -/
theorem isolated_iff {calls : List SaveCall}
    (h : ∀ answer ∈ (saveAll calls .initial).1, answer ≠ []) :
    Isolated calls (saveAll calls .initial).2 ↔
      ∀ c ∈ calls, ∀ c' ∈ calls, c.msg.msgId = c'.msg.msgId → c.msg.content = c'.msg.content := by
  constructor
  · intro hisolated c hc c' hc' hid
    obtain ⟨i, hi⟩ := pulled_of_shared_id h hc hc' hid fun _ => ⟨0, 0, 0, 0⟩
    obtain ⟨c'', hc'', hrec, hcontent⟩ := hisolated _ _ _ _ _ hi
    -- answered calls have distinct receivers, so `c''` is `c` itself
    obtain rfl := List.inj_on_of_nodup_map (receivers_of_answered h).1 hc'' hc hrec
    exact hcontent
  · intro hsame penv userId cursor limit r hr
    obtain ⟨doc, hdoc, x, hx, hrec, hid, fresh, rfl⟩ := mem_pullOfflineMessages hr
    rcases mem_messages_saveAll hdoc with hinit | ⟨c', hc', rfl⟩
    · cases hinit
    rcases mem_rows_saveAll hx with hinit | ⟨c, hc, now, hrow⟩
    · cases hinit
    rw [hrow] at hrec hid
    exact ⟨c, hc, hrec, hsame c hc c' hc' hid⟩

/-- Users 1 and 4 write to users 2 and 3, the second of them any content under any id. -/
def twoCalls (msgId content : String) : List SaveCall :=
  [cleanCall (textMsg "m1" 1 2 "for two"), cleanCall (textMsg msgId 4 3 content)]

theorem isolated_after_two :
    Isolated (twoCalls "m2" "for three") (saveAll (twoCalls "m2" "for three") .initial).2 ∧
      Isolated (twoCalls "m1" "for two") (saveAll (twoCalls "m1" "for two") .initial).2 :=
  ⟨(isolated_iff (by decide +kernel)).mpr (by decide +kernel),
    (isolated_iff (by decide +kernel)).mpr (by decide +kernel)⟩

/-- Users 1 and 4 write to users 2 and 3; the second message takes the id of the
first. -/
def sharedId : List SaveCall :=
  [cleanCall (textMsg "m1" 1 2 "for two"), cleanCall (textMsg "m1" 4 3 "for three")]

/-- User 3 is shown the message that was written to user 2. -/
theorem shared_id_leaks :
    (∀ answer ∈ (saveAll sharedId .initial).1, answer ≠ []) ∧
      ¬ Isolated sharedId (saveAll sharedId .initial).2 := by
  refine ⟨by decide +kernel, fun h => ?_⟩
  have hmem : assemble (zeros 0) (bodyOf (textMsg "m1" 1 2 "for two")) ∈
      pullOfflineMessages (.clean zeros) (saveAll sharedId .initial).2 3 [] 10 := by
    decide +kernel
  obtain ⟨c, hc, hrec, hcontent⟩ := h _ _ _ _ _ hmem
  simp only [sharedId, List.mem_cons, List.not_mem_nil, or_false] at hc
  rcases hc with rfl | rfl
  · exact absurd hrec (by decide)
  · exact absurd hcontent (by decide)

end MessageService

end IMSystem.Message

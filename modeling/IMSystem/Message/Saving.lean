import IMSystem.Message.Service

/-!
# Saving messages

The calls of `SaveMessage` in a history run one after the other against the
same two stores. `SaveMessage` leaves `seq_id` empty, so the unique key
`(receiver_id, seq_id)` of `message_index` gives each receiver one slot only,
and the body is written before the slot is asked for.

Results:
1. `receivers_of_answered`: a history in which every call is answered has
   pairwise distinct receivers whose slots were free.
2. `eachSaved_iff`: without faults, these are exactly the histories in which
   every message is saved.
3. `allOrNothing_iff`: the failure patterns and stores under which a single call
   is all-or-nothing.
-/

namespace IMSystem.Message

open Lib

namespace MessageService

/-! ## Histories -/

/-- One call of `SaveMessage`, with what its environment does. -/
structure SaveCall where
  env : SaveEnv
  msg : LogicChatMsg

/-- The calls of a history one after the other: their answers, and the stores
they leave behind. -/
def saveAll : List SaveCall → Stores → List Bytes × Stores
  | [], st => ([], st)
  | c :: calls, st =>
    let (answer, st) := saveMessage c.env c.msg st
    let (answers, st) := saveAll calls st
    (answer :: answers, st)

@[simp] theorem saveAll_nil (st : Stores) : saveAll [] st = ([], st) := rfl

theorem saveAll_cons (c : SaveCall) (calls : List SaveCall) (st : Stores) :
    saveAll (c :: calls) st =
      ((saveMessage c.env c.msg st).1 :: (saveAll calls (saveMessage c.env c.msg st).2).1,
        (saveAll calls (saveMessage c.env c.msg st).2).2) := rfl

/-- Whatever fails, a call adds copies of its body and at most rows of its
index, and it removes nothing. -/
theorem saveMessage_adds (env : SaveEnv) (msg : LogicChatMsg) (st : Stores) :
    (∃ n, (saveMessage env msg st).2.messages = st.messages ++ List.replicate n (bodyOf msg)) ∧
    (∃ added, (saveMessage env msg st).2.rows = st.rows ++ added ∧
      ∀ x ∈ added, ∃ now, x.2 = MsgIndexDao.rowOf (indexOf msg) now) := by
  have hcase := saveMessage_cases env msg st
  generalize saveMessage env msg st = r at hcase ⊢
  have hnone : ∃ added : List (Nat × IndexRow), st.rows = st.rows ++ added ∧
      ∀ x ∈ added, ∃ now, x.2 = MsgIndexDao.rowOf (indexOf msg) now := ⟨[], by simp, by simp⟩
  have hone : ∀ now rows, rows = st.rows ++ [(st.mysql.messageIndex.next,
      MsgIndexDao.rowOf (indexOf msg) now)] → ∃ added, rows = st.rows ++ added ∧
      ∀ x ∈ added, ∃ now, x.2 = MsgIndexDao.rowOf (indexOf msg) now := by
    rintro now rows rfl
    exact ⟨_, rfl, by simp⟩
  cases hcase with
  | bodyLost _ _ hmsgs => exact ⟨⟨_, hmsgs⟩, hnone⟩
  | slotTaken _ _ _ _ _ _ hmsgs hrows => exact ⟨⟨_, hmsgs⟩, by rw [hrows]; exact hnone⟩
  | indexLost _ _ _ _ _ _ hmsgs hlost =>
    refine ⟨⟨_, hmsgs⟩, ?_⟩
    rcases hlost with ⟨_, hrows⟩ | ⟨_, _, _, _, hrows⟩
    · rw [hrows]
      exact hnone
    · exact hone _ _ hrows
  | saved _ _ _ _ _ _ _ _ _ _ hmsgs hrows _ => exact ⟨⟨_, hmsgs⟩, hone _ _ hrows⟩

section History

variable {calls : List SaveCall} {st : Stores}

/-- A history removes no document. -/
theorem messages_subset_saveAll : st.messages ⊆ (saveAll calls st).2.messages := by
  induction calls generalizing st with
  | nil => exact List.Subset.refl _
  | cons c calls ih =>
    obtain ⟨⟨n, hmsgs⟩, _⟩ := saveMessage_adds c.env c.msg st
    have hfirst : st.messages ⊆ (saveMessage c.env c.msg st).2.messages := by
      rw [hmsgs]
      exact List.subset_append_left _ _
    exact List.Subset.trans hfirst ih

/-- A history removes no row. -/
theorem rows_subset_saveAll : st.rows ⊆ (saveAll calls st).2.rows := by
  induction calls generalizing st with
  | nil => exact List.Subset.refl _
  | cons c calls ih =>
    obtain ⟨_, added, hrows, _⟩ := saveMessage_adds c.env c.msg st
    have hfirst : st.rows ⊆ (saveMessage c.env c.msg st).2.rows := by
      rw [hrows]
      exact List.subset_append_left _ _
    exact List.Subset.trans hfirst ih

/-- A document is older than the history, or the body of one of its messages. -/
theorem mem_messages_saveAll {doc : MsgBody} (h : doc ∈ (saveAll calls st).2.messages) :
    doc ∈ st.messages ∨ ∃ c ∈ calls, doc = bodyOf c.msg := by
  induction calls generalizing st with
  | nil => exact .inl h
  | cons c calls ih =>
    rcases @ih (saveMessage c.env c.msg st).2 h with hst | ⟨c', hc', rfl⟩
    · obtain ⟨⟨n, hmsgs⟩, _⟩ := saveMessage_adds c.env c.msg st
      rw [hmsgs, List.mem_append, List.mem_replicate] at hst
      rcases hst with hst | ⟨_, rfl⟩
      · exact .inl hst
      · exact .inr ⟨c, List.mem_cons_self, rfl⟩
    · exact .inr ⟨c', List.mem_cons_of_mem _ hc', rfl⟩

/-- A row is older than the history, or the row of one of its messages. -/
theorem mem_rows_saveAll {x : Nat × IndexRow} (h : x ∈ (saveAll calls st).2.rows) :
    x ∈ st.rows ∨ ∃ c ∈ calls, ∃ now, x.2 = MsgIndexDao.rowOf (indexOf c.msg) now := by
  induction calls generalizing st with
  | nil => exact .inl h
  | cons c calls ih =>
    rcases @ih (saveMessage c.env c.msg st).2 h with hst | ⟨c', hc', hx⟩
    · obtain ⟨_, added, hrows, hadded⟩ := saveMessage_adds c.env c.msg st
      rw [hrows, List.mem_append] at hst
      rcases hst with hst | hst
      · exact .inl hst
      · exact .inr ⟨c, List.mem_cons_self, hadded x hst⟩
    · exact .inr ⟨c', List.mem_cons_of_mem _ hc', hx⟩

end History

/-! ## Answered calls take the slot of their receiver -/

/-- A row that `SaveMessage` adds takes the slot of its receiver and no other. -/
theorem slotTaken_of_row_added {st st' : Stores} {msg : LogicChatMsg} {id : Nat} {now : Int64}
    (h : st'.rows = st.rows ++ [(id, MsgIndexDao.rowOf (indexOf msg) now)]) (receiver : UInt64) :
    st'.SlotTaken receiver ↔ st.SlotTaken receiver ∨ receiver = msg.receiverId := by
  unfold Stores.rows at h
  simp [Stores.SlotTaken, Table.Taken, h, MsgIndexDao.rowOf, indexOf, IndexRow.idxReceiverSeq]

/-- If every call of a history is answered with a sequence number, the
receivers are pairwise distinct and had free slots. -/
theorem receivers_of_answered {calls : List SaveCall} {st : Stores}
    (h : ∀ answer ∈ (saveAll calls st).1, answer ≠ []) :
    (calls.map (·.msg.receiverId)).Nodup ∧ ∀ c ∈ calls, ¬ st.SlotTaken c.msg.receiverId := by
  induction calls generalizing st with
  | nil => exact ⟨List.nodup_nil, by simp⟩
  | cons c calls ih =>
    rw [saveAll_cons] at h
    obtain ⟨hfree, n, now, _, hrows, _⟩ :=
      saveMessage_saved (Prod.eta _).symm (h _ List.mem_cons_self)
    obtain ⟨hnodup, hslots⟩ := ih fun answer ha => h answer (List.mem_cons_of_mem _ ha)
    have hnew : ∀ c' ∈ calls, ¬ st.SlotTaken c'.msg.receiverId ∧
        c'.msg.receiverId ≠ c.msg.receiverId := by
      intro c' hc'
      have hnot := hslots c' hc'
      rwa [slotTaken_of_row_added hrows, not_or] at hnot
    constructor
    · rw [List.map_cons, List.nodup_cons]
      refine ⟨fun hmem => ?_, hnodup⟩
      obtain ⟨c', hc', heq⟩ := List.mem_map.mp hmem
      exact (hnew c' hc').2 heq
    · rintro c' (_ | ⟨_, hc'⟩)
      · exact hfree
      · exact (hnew c' hc').1

/-- An answered call leaves its body and its row in the stores. -/
theorem stored_of_answered {calls : List SaveCall} {st : Stores}
    (h : ∀ answer ∈ (saveAll calls st).1, answer ≠ []) {c : SaveCall} (hc : c ∈ calls) :
    bodyOf c.msg ∈ (saveAll calls st).2.messages ∧
      ∃ id now, st.mysql.messageIndex.next ≤ id ∧
        (id, MsgIndexDao.rowOf (indexOf c.msg) now) ∈ (saveAll calls st).2.rows := by
  induction calls generalizing st with
  | nil => cases hc
  | cons c' calls ih =>
    rw [saveAll_cons] at h ⊢
    have hcase := saveMessage_cases c'.env c'.msg st
    have hans := h _ List.mem_cons_self
    have hrest := fun answer ha => h answer (List.mem_cons_of_mem _ ha)
    generalize saveMessage c'.env c'.msg st = r at hcase hans hrest ⊢
    cases hcase with
    | bodyLost | slotTaken | indexLost => exact absurd rfl hans
    | saved k j st' _ _ _ _ _ _ _ hmsgs hrows hnext =>
      rcases List.mem_cons.mp hc with rfl | hc
      · refine ⟨messages_subset_saveAll ?_, st.mysql.messageIndex.next, (c.env.index j).nowMs,
          Nat.le_refl _, rows_subset_saveAll ?_⟩
        · rw [hmsgs]
          simp
        · rw [hrows]
          simp
      · obtain ⟨hbody, id, now, hle, hrow⟩ := ih hrest hc
        refine ⟨hbody, id, now, ?_, hrow⟩
        calc st.mysql.messageIndex.next
          _ ≤ st.mysql.messageIndex.next + 1 := Nat.le_succ _
          _ = st'.mysql.messageIndex.next := hnext.symm
          _ ≤ id := hle

/-! ## Histories without faults -/

/-- Every message of a history is saved: every call is answered with a sequence
number, no two with the same one, and the index gains one row per call, with
the ids of that call. -/
def EachSaved (calls : List SaveCall) (st : Stores) : Prop :=
  (∀ answer ∈ (saveAll calls st).1, answer ≠ []) ∧
  (saveAll calls st).1.Nodup ∧
  ∃ added, (saveAll calls st).2.rows = st.rows ++ added ∧
    (added.map fun x => (x.2.msgId, x.2.senderId, x.2.receiverId)).Perm
      (calls.map fun c => (c.msg.msgId, c.msg.senderId, c.msg.receiverId))

/-- Without faults, a history with pairwise distinct receivers whose slots are
free is answered with increasing ids, and its rows arrive in order. -/
theorem saveAll_clean {calls : List SaveCall} {st : Stores}
    (hclean : ∀ c ∈ calls, c.env.Clean) (hnodup : (calls.map (·.msg.receiverId)).Nodup)
    (hfree : ∀ c ∈ calls, ¬ st.SlotTaken c.msg.receiverId) :
    (∀ answer ∈ (saveAll calls st).1, ∃ now id, st.mysql.messageIndex.next ≤ id ∧
      answer = MsgIndexDao.seqString now id) ∧
    (saveAll calls st).1.Nodup ∧
    ∃ added, (saveAll calls st).2.rows = st.rows ++ added ∧
      (added.map fun x => (x.2.msgId, x.2.senderId, x.2.receiverId)) =
        calls.map fun c => (c.msg.msgId, c.msg.senderId, c.msg.receiverId) := by
  induction calls generalizing st with
  | nil => exact ⟨by simp, List.nodup_nil, [], by simp⟩
  | cons c calls ih =>
    obtain ⟨clock, henv⟩ := hclean c List.mem_cons_self
    obtain ⟨st', hsave, _, hrows, hnext⟩ :=
      saveMessage_clean_free clock (hfree c List.mem_cons_self)
    rw [List.map_cons, List.nodup_cons] at hnodup
    have hfree' : ∀ c' ∈ calls, ¬ st'.SlotTaken c'.msg.receiverId := by
      intro c' hc'
      rw [slotTaken_of_row_added hrows, not_or]
      exact ⟨hfree c' (List.mem_cons_of_mem _ hc'),
        fun heq => hnodup.1 (List.mem_map.mpr ⟨c', hc', heq⟩)⟩
    obtain ⟨hids, hdistinct, added, hadded, hmap⟩ :=
      ih (fun c' hc' => hclean c' (List.mem_cons_of_mem _ hc')) hnodup.2 hfree'
    rw [saveAll_cons, henv, hsave]
    refine ⟨?_, ?_, (st.mysql.messageIndex.next,
      MsgIndexDao.rowOf (indexOf c.msg) (clock 0)) :: added, ?_, ?_⟩
    · rintro answer (_ | ⟨_, ha⟩)
      · exact ⟨clock 0, _, Nat.le_refl _, rfl⟩
      · obtain ⟨now, id, hle, heq⟩ := hids answer ha
        exact ⟨now, id, by omega, heq⟩
    · rw [List.nodup_cons]
      refine ⟨fun hmem => ?_, hdistinct⟩
      -- later answers carry larger ids
      obtain ⟨now, id, hle, heq⟩ := hids _ hmem
      have hid := MsgIndexDao.seqString_inj heq
      omega
    · rw [hadded, hrows, List.append_assoc, List.singleton_append]
    · rw [List.map_cons, List.map_cons, hmap]
      rfl

/-- Against stores that do not fail, the histories in which every message is
saved are those in which no two messages go to one receiver and none goes to a
receiver that has a row already: each receiver has the one slot with the empty
`seq_id`. -/
theorem eachSaved_iff {calls : List SaveCall} {st : Stores} (hclean : ∀ c ∈ calls, c.env.Clean) :
    EachSaved calls st ↔
      (calls.map (·.msg.receiverId)).Nodup ∧ ∀ c ∈ calls, ¬ st.SlotTaken c.msg.receiverId := by
  constructor
  · rintro ⟨hanswered, _, _⟩
    exact receivers_of_answered hanswered
  · rintro ⟨hnodup, hfree⟩
    obtain ⟨hids, hdistinct, added, hadded, hmap⟩ := saveAll_clean hclean hnodup hfree
    refine ⟨?_, hdistinct, added, hadded, List.Perm.of_eq hmap⟩
    intro answer ha
    obtain ⟨now, id, _, rfl⟩ := hids answer ha
    exact MsgIndexDao.seqString_ne_nil now id

/-- A text message, as the logic service hands it over. -/
def textMsg (msgId : String) (sender receiver : UInt64) (content : String) : LogicChatMsg where
  msgId := str msgId
  senderId := sender
  receiverId := receiver
  sessionType := 1
  msgType := 1
  content := str content
  sendTime := 0
  serverTime := 0
  seqId := []

/-- A call without faults at time `0`. -/
def cleanCall (msg : LogicChatMsg) : SaveCall := ⟨.clean fun _ => 0, msg⟩

theorem eachSaved_two_receivers :
    EachSaved [cleanCall (textMsg "m1" 1 2 "hi"), cleanCall (textMsg "m2" 1 3 "hi")] .initial :=
  (eachSaved_iff (by
    rintro c hc
    simp only [List.mem_cons, List.not_mem_nil, or_false] at hc
    rcases hc with rfl | rfl
    · exact ⟨_, rfl⟩
    · exact ⟨_, rfl⟩)).mpr
    ⟨by decide, by simp [Stores.SlotTaken, Table.Taken, Stores.initial, IndexTable.initial,
      Table.empty]⟩

/-- Two messages to one receiver, each under an id of its own. -/
def secondToReceiver : List SaveCall :=
  [cleanCall (textMsg "m1" 1 2 "hi"), cleanCall (textMsg "m2" 3 2 "hello")]

/-- The second message to a receiver is refused by the unique key. -/
theorem second_save_refused :
    (secondToReceiver.map (·.msg.msgId)).Nodup ∧ (∀ c ∈ secondToReceiver, c.env.Clean) ∧
      ¬ EachSaved secondToReceiver .initial := by
  refine ⟨by decide, ?_, ?_⟩
  · rintro c hc
    simp only [secondToReceiver, List.mem_cons, List.not_mem_nil, or_false] at hc
    rcases hc with rfl | rfl
    · exact ⟨_, rfl⟩
    · exact ⟨_, rfl⟩
  · rintro ⟨hanswered, _, _⟩
    exact absurd (receivers_of_answered hanswered).1 (by decide)

/-! ## A single call under faults -/

/-- The first of the four attempts that took effect was reported. -/
def FirstReported (outcome : Nat → Outcome) : Prop :=
  ∃ k ≤ 3, outcome k = .stored ∧ ∀ i < k, outcome i = .missed

/-- What a call leaves behind, given its answer and the stores after it: one
document and one row of the message, or nothing. -/
def AllOrNothing (msg : LogicChatMsg) (st : Stores) (result : Bytes × Stores) : Prop :=
  (result.1 ≠ [] →
    (∃ doc, result.2.messages = st.messages ++ [doc] ∧ doc.msgId = msg.msgId) ∧
    (∃ x, result.2.rows = st.rows ++ [x] ∧ x.2.msgId = msg.msgId)) ∧
  (result.1 = [] → result.2 = st)

/-- An attempt that took effect behind missed ones decides the whole series. -/
theorem firstReported_iff_stored {outcome : Nat → Outcome} {k : Nat} (hk : k ≤ 3)
    (hmissed : ∀ i < k, outcome i = .missed) (heffect : outcome k ≠ .missed) :
    FirstReported outcome ↔ outcome k = .stored := by
  constructor
  · rintro ⟨j, _, hst, hbefore⟩
    rcases Nat.lt_trichotomy j k with hlt | rfl | hgt
    · rw [hmissed j hlt] at hst
      cases hst
    · exact hst
    · exact absurd (hbefore k hgt) heffect
  · exact fun hst => ⟨k, hk, hst, hmissed⟩

theorem not_firstReported_of_missed {outcome : Nat → Outcome} (h : ∀ i < 4, outcome i = .missed) :
    ¬ FirstReported outcome := by
  rintro ⟨k, hk, hst, _⟩
  rw [h k (by omega)] at hst
  cases hst

/-- The first stored body attempt is the first that took effect when no
document was left unreported before it. -/
theorem firstReported_iff_unreported {attempts : Nat → BodyAttempt} {k : Nat} (hk : k ≤ 3)
    (hst : (attempts k).outcome = .stored) (hno : ∀ i < k, (attempts i).outcome ≠ .stored) :
    FirstReported (fun i => (attempts i).outcome) ↔ MsgBodyDao.unreported attempts k = 0 := by
  rw [MsgBodyDao.unreported_eq_zero_iff]
  constructor
  · rintro ⟨j, _, hj, hbefore⟩ i hi
    have hkj : k ≤ j := by
      by_contra hlt
      exact hno j (by omega) hj
    have hmissed : (attempts i).outcome = .missed := hbefore i (by omega)
    rw [hmissed]
    exact Outcome.noConfusion
  · intro hun
    refine ⟨k, hk, hst, fun i hi => ?_⟩
    cases hout : (attempts i).outcome with
    | stored => exact absurd hout (hno i hi)
    | missed => exact hout
    | unreported => exact absurd hout (hun i hi)

/-- A call that stores its body and then fails is not undone. -/
theorem ne_of_body_left {st st' : Stores} {msg : LogicChatMsg} {n : Nat}
    (h : st'.messages = st.messages ++ List.replicate (n + 1) (bodyOf msg)) : st' ≠ st := by
  rintro rfl
  rw [List.self_eq_append_right] at h
  cases h

/-- `SaveMessage` is all-or-nothing in two cases only: no attempt to store the
body took effect; or in both series the first attempt that took effect was
reported, and the receiver's slot was free. -/
theorem allOrNothing_iff (env : SaveEnv) (msg : LogicChatMsg) (st : Stores) :
    AllOrNothing msg st (saveMessage env msg st) ↔
      (∀ i < 4, (env.body i).outcome = .missed) ∨
      (FirstReported (fun i => (env.body i).outcome) ∧ ¬ st.SlotTaken msg.receiverId ∧
        FirstReported (fun i => (env.index i).outcome)) := by
  have hcase := saveMessage_cases env msg st
  generalize saveMessage env msg st = result at hcase
  -- once a body attempt is stored, the first alternative is out
  have hbody : ∀ {k}, k ≤ 3 → (env.body k).outcome = .stored →
      ¬ ∀ i < 4, (env.body i).outcome = .missed := by
    intro k hk hst hmissed
    rw [hmissed k (by omega)] at hst
    cases hst
  cases hcase with
  | bodyLost messages hno hmsgs =>
    constructor
    · rintro ⟨_, hnothing⟩
      have hsame : messages = st.messages := congrArg Stores.messages (hnothing rfl)
      have hzero : MsgBodyDao.unreported env.body 4 = 0 := by
        rw [hsame, List.self_eq_append_right, List.replicate_eq_nil_iff] at hmsgs
        exact hmsgs
      rw [MsgBodyDao.unreported_eq_zero_iff] at hzero
      refine .inl fun i hi => ?_
      cases hout : (env.body i).outcome with
      | stored => exact absurd hout (hno i hi)
      | missed => rfl
      | unreported => exact absurd hout (hzero i hi)
    · rintro (hmissed | ⟨⟨k, hk, hst, _⟩, _, _⟩)
      · have hzero : MsgBodyDao.unreported env.body 4 = 0 := by
          rw [MsgBodyDao.unreported_eq_zero_iff]
          intro i hi
          rw [hmissed i hi]
          exact Outcome.noConfusion
        refine ⟨fun hne => absurd rfl hne, fun _ => ?_⟩
        rw [hmsgs, hzero, List.replicate_zero, List.append_nil]
      · exact absurd hst (hno k (by omega))
  | slotTaken k st' hk hst _ htaken hmsgs _ =>
    constructor
    · rintro ⟨_, hnothing⟩
      exact absurd (hnothing rfl) (ne_of_body_left hmsgs)
    · rintro (hmissed | ⟨_, hfree, _⟩)
      · exact absurd hmissed (hbody hk hst)
      · exact absurd htaken hfree
  | indexLost k st' hk hst _ _ hmsgs hlost =>
    constructor
    · rintro ⟨_, hnothing⟩
      exact absurd (hnothing rfl) (ne_of_body_left hmsgs)
    · rintro (hmissed | ⟨_, _, hindex⟩)
      · exact absurd hmissed (hbody hk hst)
      · rcases hlost with ⟨hmissed, _⟩ | ⟨j, hj, hmissed, hun, _⟩
        · exact absurd hindex (not_firstReported_of_missed hmissed)
        · rw [firstReported_iff_stored hj hmissed (by rw [hun]; exact Outcome.noConfusion),
            hun] at hindex
          cases hindex
  | saved k j st' hk hst hno hfree hj hjst hmissed hmsgs hrows _ =>
    have hindex : FirstReported fun i => (env.index i).outcome := ⟨j, hj, hjst, hmissed⟩
    have hseq := MsgIndexDao.seqString_ne_nil (env.index j).nowMs st.mysql.messageIndex.next
    constructor
    · rintro ⟨hall, _⟩
      obtain ⟨⟨doc, hdoc, _⟩, _⟩ := hall hseq
      refine .inr ⟨(firstReported_iff_unreported hk hst hno).mpr ?_, hfree, hindex⟩
      rw [hmsgs, List.append_cancel_left_eq] at hdoc
      have hlen := congrArg List.length hdoc
      simpa using hlen
    · rintro (hmissed' | ⟨hfirst, _, _⟩)
      · exact absurd hmissed' (hbody hk hst)
      · refine ⟨fun _ => ⟨⟨bodyOf msg, ?_, rfl⟩, _, hrows, rfl⟩, fun hnil => absurd hnil hseq⟩
        rw [hmsgs, (firstReported_iff_unreported hk hst hno).mp hfirst]
        rfl

/-- Everything works, but every attempt to write the index is lost before it
takes effect. -/
def indexDown : SaveEnv where
  body := fun _ => ⟨true, .none⟩
  index := fun _ => ⟨true, 0, .before, .none⟩

/-- An index that stays down leaves an orphan body behind an empty answer. -/
theorem orphan_body_left :
    ¬ AllOrNothing (textMsg "m1" 1 2 "hi") .initial
      (saveMessage indexDown (textMsg "m1" 1 2 "hi") .initial) := by
  rintro ⟨_, hnothing⟩
  have hempty : (saveMessage indexDown (textMsg "m1" 1 2 "hi") .initial).1 = [] := by
    decide +kernel
  have hleft : (saveMessage indexDown (textMsg "m1" 1 2 "hi") .initial).2.messages ≠ [] := by
    decide +kernel
  rw [hnothing hempty] at hleft
  exact hleft rfl

end MessageService

end IMSystem.Message

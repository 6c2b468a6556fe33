import IMSystem.Common.Retry
import IMSystem.Lib.Table

/-!
# The two message stores and their DAOs (`message/src/dao`)

Bodies live in a MongoDB collection, the inbox index in the MySQL table
`message_index` of `init_db.sql`. Each DAO call is one retry loop around one
insert or one query. What the servers do to an attempt (no connection, a
statement that raises before or after it took effect, a cursor that breaks
after some rows) is data of the attempt.

Results:
1. `MsgBodyDao.insert_spec`: how many documents an insert leaves behind.
2. `MsgIndexDao.insert_taken`, `MsgIndexDao.insert_free`: an index insert adds at
   most one row, and answers with its sequence number only if it added it.
3. `fetchOfflineMsgIds_clean`, `mem_fetchOfflineMsgIds`: what a query returns.
-/

namespace IMSystem.Message

open Lib Retry

/-! ## Records -/

/-- `model::MsgBody`, which is also a document of the collection `messages`. -/
structure MsgBody where
  msgId : Bytes
  content : Bytes
  msgType : Int32 := 0
  sessionType : Int32 := 0
deriving DecidableEq, Repr

/-- `model::MsgIndex`. -/
structure MsgIndex where
  msgId : Bytes
  senderId : UInt64 := 0
  receiverId : UInt64 := 0
  sessionType : Int32 := 0
  seqId : Bytes := []
  createdAt : Int64 := 0
deriving DecidableEq, Repr

/-- A row of `message_index`, without its AUTO_INCREMENT id. -/
structure IndexRow where
  receiverId : UInt64
  seqId : Bytes
  msgId : Bytes
  sessionType : Int32
  senderId : UInt64
  createdAt : UInt64
deriving DecidableEq, Repr

/-- `UNIQUE KEY idx_receiver_seq (receiver_id, seq_id)`. -/
def IndexRow.idxReceiverSeq (r : IndexRow) : UInt64 × Bytes := (r.receiverId, r.seqId)

/-- The table `message_index`. -/
abbrev IndexTable := Table IndexRow (UInt64 × Bytes) IndexRow.idxReceiverSeq

/-- `message_index` as `init_db.sql` creates it. -/
def IndexTable.initial : IndexTable := Table.empty 1

/-- The table, and `LAST_INSERT_ID()` of the connection that a call holds. -/
structure MySql where
  messageIndex : IndexTable
  lastInsertId : Nat

/-! ## Attempts -/

/-- What an attempt to insert comes to if no constraint stands in its way. -/
inductive Outcome where
  /-- It took effect and was reported. -/
  | stored
  /-- It raised without any effect. -/
  | missed
  /-- It took effect and then raised. -/
  | unreported
deriving DecidableEq, Repr

/-- The environment of one attempt of `MsgBodyDao::Insert`. -/
structure BodyAttempt where
  connected : Bool
  insertOne : Fault
deriving DecidableEq, Repr

def BodyAttempt.outcome (a : BodyAttempt) : Outcome :=
  if a.connected then
    match a.insertOne with
    | .none => .stored
    | .before => .missed
    | .after => .unreported
  else .missed

/-- The environment of one attempt of `MsgIndexDao::Insert`. -/
structure IndexAttempt where
  connected : Bool
  /-- The clock when the attempt reads it. -/
  nowMs : Int64
  insert : Fault
  selectId : Fault
deriving DecidableEq, Repr

def IndexAttempt.outcome (a : IndexAttempt) : Outcome :=
  if a.connected then
    match a.insert with
    | .none => if a.selectId = .none then .stored else .unreported
    | .before => .missed
    | .after => .unreported
  else .missed

/-- The environment of one attempt to read: whether a connection is there, and
after how many rows the result set breaks. -/
structure ReadAttempt where
  connected : Bool
  breaksAfter : Option Nat
deriving DecidableEq, Repr

/-- An attempt that nothing disturbs. -/
def ReadAttempt.clean : ReadAttempt := ⟨true, none⟩

def dbError : Exn := .std (str "database error")

/-- Raised by the MySQL DAOs when the pool gives no connection. -/
def noConnection : Exn := .std (str "Failed to get DB connection")

/-- Raised by `MongoConnectionPool::GetConnection`. -/
def noMongo : Exn := .std (str "MongoConnectionPool not initialized or already shutdown")

/-! ## `MsgBodyDao` -/

namespace MsgBodyDao

/-- One attempt of the lambda in `Insert`. MongoDB gives each document an
`_id` of its own (an ObjectId), so nothing makes `msg_id` unique. -/
def insertAttempt (a : BodyAttempt) (msg : MsgBody) : Call (List MsgBody) Bool := do
  if !a.connected then Eff.raise noMongo
  Eff.under a.insertOne dbError (Eff.modify (· ++ [msg]))
  pure true

/-- `MsgBodyDao::Insert`. -/
def insert (attempts : Nat → BodyAttempt) (msg : MsgBody) (messages : List MsgBody) :
    Bool × List MsgBody :=
  match executeWithRetry 3 (fun i => insertAttempt (attempts i) msg) messages with
  | (.ok ok, messages) => (ok, messages)
  | (.error _, messages) => (false, messages)

/-- One attempt of the lambda in `BatchGet`. The state is the vector `result`,
which lives outside the loop. -/
def batchGetAttempt (a : ReadAttempt) (messages : List MsgBody) (msgIds : List Bytes) :
    Call (List MsgBody) Unit := do
  if !a.connected then Eff.raise noMongo
  let found := messages.filter fun doc => msgIds.contains doc.msgId
  match a.breaksAfter with
  | none => Eff.modify (· ++ found)
  | some k => do
    Eff.modify (· ++ found.take k)
    Eff.raise dbError

/-- `MsgBodyDao::BatchGet`: the documents come in the order of the collection. -/
def batchGet (attempts : Nat → ReadAttempt) (messages : List MsgBody) (msgIds : List Bytes) :
    List MsgBody :=
  if msgIds.isEmpty then []
  else (executeWithRetryVoid 3 (fun i => batchGetAttempt (attempts i) messages msgIds) []).2

/-- The number of unreported documents among the first `k` attempts. -/
def unreported (attempts : Nat → BodyAttempt) (k : Nat) : Nat :=
  (List.range k).countP fun i => (attempts i).outcome = .unreported

theorem unreported_succ (attempts : Nat → BodyAttempt) (k : Nat) :
    unreported attempts (k + 1) =
      unreported attempts k + if (attempts k).outcome = .unreported then 1 else 0 := by
  simp [unreported, List.range_succ, List.countP_append, List.countP_cons]

theorem unreported_eq_zero_iff {attempts : Nat → BodyAttempt} {k : Nat} :
    unreported attempts k = 0 ↔ ∀ i < k, (attempts i).outcome ≠ .unreported := by
  simp [unreported, List.countP_eq_zero]

/-- All that one attempt does. -/
theorem insertAttempt_eq (a : BodyAttempt) (msg : MsgBody) (messages : List MsgBody) :
    (a.outcome = .stored ∧ insertAttempt a msg messages = (.ok true, messages ++ [msg])) ∨
    (a.outcome = .missed ∧ ∃ e, insertAttempt a msg messages = (.error e, messages)) ∨
    (a.outcome = .unreported ∧ ∃ e, insertAttempt a msg messages = (.error e, messages ++ [msg])) := by
  obtain ⟨connected, insertOne⟩ := a
  cases connected with
  | false => exact .inr (.inl ⟨rfl, _, rfl⟩)
  | true =>
    cases insertOne with
    | none => exact .inl ⟨rfl, rfl⟩
    | before => exact .inr (.inl ⟨rfl, _, rfl⟩)
    | after => exact .inr (.inr ⟨rfl, _, rfl⟩)

/-- An insert ends at the first stored attempt, with one document more than the
unreported attempts before it left behind; without one, only theirs are there. -/
theorem insert_spec (attempts : Nat → BodyAttempt) (msg : MsgBody) (messages : List MsgBody) :
    (∃ k ≤ 3, (attempts k).outcome = .stored ∧ (∀ i < k, (attempts i).outcome ≠ .stored) ∧
      insert attempts msg messages =
        (true, messages ++ List.replicate (unreported attempts k + 1) msg)) ∨
    ((∀ i < 4, (attempts i).outcome ≠ .stored) ∧
      insert attempts msg messages =
        (false, messages ++ List.replicate (unreported attempts 4) msg)) := by
  have hrule := Eff.retry_rule (fun i => insertAttempt (attempts i) msg)
    (fun k docs => (∀ i < k, (attempts i).outcome ≠ .stored) ∧
      docs = messages ++ List.replicate (unreported attempts k) msg)
    (fun k ok docs => (attempts k).outcome = .stored ∧ (∀ i < k, (attempts i).outcome ≠ .stored) ∧
      ok = true ∧ docs = messages ++ List.replicate (unreported attempts k + 1) msg)
    ?_ ?_ 3 0 messages ⟨fun i hi => absurd hi (Nat.not_lt_zero i), by simp [unreported]⟩
  · unfold insert
    rw [executeWithRetry_eq, show (3 : Int).toNat = 3 from rfl]
    rcases hrule with ⟨k, ok, docs, _, hk, hr, hst, hno, rfl, rfl⟩ | ⟨e, docs, hr, hno, rfl⟩
    · rw [hr]
      exact .inl ⟨k, by omega, hst, hno, rfl⟩
    · rw [hr]
      exact .inr ⟨hno, rfl⟩
  · rintro k docs ok docs' ⟨hno, rfl⟩ hrun
    rcases insertAttempt_eq (attempts k) msg
        (messages ++ List.replicate (unreported attempts k) msg) with
      ⟨hst, heq⟩ | ⟨_, e, heq⟩ | ⟨_, e, heq⟩
    · rw [heq] at hrun
      cases hrun
      exact ⟨hst, hno, rfl, by rw [List.append_assoc, ← List.replicate_succ']⟩
    · rw [heq] at hrun
      cases hrun
    · rw [heq] at hrun
      cases hrun
  · rintro k docs e docs' ⟨hno, rfl⟩ hrun
    have hall : (attempts k).outcome ≠ .stored → ∀ i < k + 1, (attempts i).outcome ≠ .stored := by
      intro hk i hi
      rcases Nat.lt_succ_iff_lt_or_eq.mp hi with hi | rfl
      · exact hno i hi
      · exact hk
    rcases insertAttempt_eq (attempts k) msg
        (messages ++ List.replicate (unreported attempts k) msg) with
      ⟨_, heq⟩ | ⟨hm, e', heq⟩ | ⟨hu, e', heq⟩
    · rw [heq] at hrun
      cases hrun
    · rw [heq] at hrun
      cases hrun
      exact ⟨hall (by simp [hm]), by simp [unreported_succ, hm]⟩
    · rw [heq] at hrun
      cases hrun
      refine ⟨hall (by simp [hu]), ?_⟩
      rw [unreported_succ, if_pos hu, List.append_assoc, ← List.replicate_succ']

/-- One attempt appends a first part of the documents it finds. -/
theorem batchGetAttempt_appends (a : ReadAttempt) (messages : List MsgBody) (msgIds : List Bytes)
    (result : List MsgBody) :
    ∃ added, (batchGetAttempt a messages msgIds result).2 = result ++ added ∧
      added <+: messages.filter fun doc => msgIds.contains doc.msgId := by
  obtain ⟨connected, breaksAfter⟩ := a
  cases connected with
  | false => exact ⟨[], by simp [batchGetAttempt, Eff.bind_apply], List.nil_prefix⟩
  | true =>
    cases breaksAfter with
    | none => exact ⟨_, rfl, List.prefix_refl _⟩
    | some k => exact ⟨_, rfl, List.take_prefix k _⟩

/-- Whatever breaks, `BatchGet` returns documents of the collection under the
ids that were asked for. -/
theorem mem_batchGet {attempts : Nat → ReadAttempt} {messages : List MsgBody}
    {msgIds : List Bytes} {doc : MsgBody} (h : doc ∈ batchGet attempts messages msgIds) :
    doc ∈ messages ∧ doc.msgId ∈ msgIds := by
  unfold batchGet at h
  split at h
  · cases h
  · rw [executeWithRetryVoid_eq, executeWithRetry_eq] at h
    refine Eff.retry_inv (fun found => ∀ d ∈ found, d ∈ messages ∧ d.msgId ∈ msgIds) ?_ _ _ []
      (by simp) doc h
    intro i found hfound d hd
    obtain ⟨added, happ, hpre⟩ := batchGetAttempt_appends (attempts i) messages msgIds found
    rw [happ, List.mem_append] at hd
    rcases hd with hd | hd
    · exact hfound d hd
    · simpa using hpre.subset hd

/-- Undisturbed, `BatchGet` returns all documents under the ids asked for. -/
theorem batchGet_clean (messages : List MsgBody) (msgIds : List Bytes) :
    batchGet (fun _ => .clean) messages msgIds =
      messages.filter fun doc => msgIds.contains doc.msgId := by
  unfold batchGet
  split
  · next h =>
    rw [List.isEmpty_iff] at h
    simp [h]
  · rw [executeWithRetryVoid_eq, executeWithRetry_eq, Eff.retry_of_ok (a := ()) rfl]
    rfl

end MsgBodyDao

/-! ## `MsgIndexDao` -/

namespace MsgIndexDao

/-- The INSERT statement of `Insert`. A taken unique key raises. -/
def executeInsert (row : IndexRow) : Call MySql Unit := fun db =>
  match db.messageIndex.insert row with
  | (some id, t) => (.ok (), { messageIndex := t, lastInsertId := id })
  | (none, t) => (.error dbError, { db with messageIndex := t })

/-- `"SEQ_" + std::to_string(now_ms) + "_" + std::to_string(seq)`. -/
def seqString (nowMs : Int64) (seq : Nat) : Bytes :=
  str "SEQ_" ++ intDecimal nowMs.toInt ++ chr '_' :: toDecimal seq

/-- The row that `Insert` binds. -/
def rowOf (index : MsgIndex) (nowMs : Int64) : IndexRow where
  receiverId := index.receiverId
  seqId := index.seqId
  msgId := index.msgId
  sessionType := index.sessionType
  senderId := index.senderId
  createdAt := nowMs.toUInt64

/-- One attempt of the lambda in `Insert`. -/
def insertAttempt (a : IndexAttempt) (index : MsgIndex) : Call MySql Bytes := do
  if !a.connected then Eff.raise noConnection
  Eff.under a.insert dbError (executeInsert (rowOf index a.nowMs))
  -- `SELECT LAST_INSERT_ID()` on the same connection; it always has one row
  let res ← Eff.under a.selectId dbError (Eff.read fun db => some db.lastInsertId)
  match res with
  | some seq => pure (seqString a.nowMs seq)
  | none => pure []

/-- `MsgIndexDao::Insert`. -/
def insert (attempts : Nat → IndexAttempt) (index : MsgIndex) (db : MySql) : Bytes × MySql :=
  match executeWithRetry 3 (fun i => insertAttempt (attempts i) index) db with
  | (.ok seq, db) => (seq, db)
  | (.error _, db) => ([], db)

/-- The id behind the last `_` of a sequence string; a string without `_`
stands for the beginning. -/
def lastId (lastSeqId : Bytes) : Except Exn UInt64 :=
  match afterLast (chr '_') lastSeqId with
  | none => .ok 0
  | some digits =>
    match stoull digits with
    | .ok id => .ok id
    | .error _ => .error (.std (str "stoull"))

/-- The rows that the SELECT of `FetchOfflineMsgIds` finds. -/
def offlineRows (t : IndexTable) (userId : UInt64) (last : UInt64) (limit : Int32) :
    List (Nat × IndexRow) :=
  t.select (fun r => r.receiverId == userId) last.toNat limit.toInt.toNat

/-- One attempt of the lambda in `FetchOfflineMsgIds`. The state is the vector
`msg_ids`, which lives outside the loop. A negative LIMIT is refused. -/
def fetchAttempt (a : ReadAttempt) (t : IndexTable) (userId : UInt64) (lastSeqId : Bytes)
    (limit : Int32) : Call (List Bytes) Unit := do
  if !a.connected then Eff.raise noConnection
  match lastId lastSeqId with
  | .error e => Eff.raise e
  | .ok last =>
    if limit < 0 then Eff.raise dbError
    else
      let found := (offlineRows t userId last limit).map fun x => x.2.msgId
      match a.breaksAfter with
      | none => Eff.modify (· ++ found)
      | some k => do
        Eff.modify (· ++ found.take k)
        Eff.raise dbError

/-- `MsgIndexDao::FetchOfflineMsgIds`. -/
def fetchOfflineMsgIds (attempts : Nat → ReadAttempt) (t : IndexTable) (userId : UInt64)
    (lastSeqId : Bytes) (limit : Int32) : List Bytes :=
  (executeWithRetryVoid 3 (fun i => fetchAttempt (attempts i) t userId lastSeqId limit) []).2

/-! ### What an insert does -/

theorem seqString_ne_nil (nowMs : Int64) (seq : Nat) : seqString nowMs seq ≠ [] := by
  simp [seqString]

/-- A sequence string determines its id. -/
theorem seqString_inj {now now' : Int64} {seq seq' : Nat}
    (h : seqString now seq = seqString now' seq') : seq = seq' := by
  have hafter : ∀ (n : Int64) (k : Nat), afterLast (chr '_') (seqString n k) = some (toDecimal k) :=
    fun n k => afterLast_append _ (not_mem_toDecimal (by decide) k)
  have := congrArg (afterLast (chr '_')) h
  rw [hafter, hafter, Option.some.injEq] at this
  exact toDecimal_inj this

/-- The cursor that a sequence string stands for. -/
theorem lastId_seqString {now : Int64} {seq : Nat} {id : UInt64}
    (h : lastId (seqString now seq) = .ok id) : seq = id.toNat := by
  have hafter : afterLast (chr '_') (seqString now seq) = some (toDecimal seq) :=
    afterLast_append _ (not_mem_toDecimal (by decide) seq)
  simp only [lastId, hafter, stoull_toDecimal] at h
  split at h
  · next id' heq =>
    split at heq
    · cases heq
    · next hlt =>
      cases heq
      cases h
      rw [UInt64.toNat_ofNat', Nat.mod_eq_of_lt (Nat.not_le.mp hlt)]
  · cases h

/-- All that one attempt does while the slot of its row is free. -/
theorem insertAttempt_free {a : IndexAttempt} {index : MsgIndex} {db : MySql}
    (h : ¬ db.messageIndex.Taken (index.receiverId, index.seqId)) :
    (a.outcome = .missed ∧ ∃ e, insertAttempt a index db = (.error e, db)) ∨
    (∃ db', db'.messageIndex = db.messageIndex.append (rowOf index a.nowMs) h ∧
      ((a.outcome = .stored ∧
        insertAttempt a index db = (.ok (seqString a.nowMs db.messageIndex.next), db')) ∨
      (a.outcome = .unreported ∧ ∃ e, insertAttempt a index db = (.error e, db')))) := by
  have hexec : executeInsert (rowOf index a.nowMs) db =
      (.ok (), ⟨db.messageIndex.append (rowOf index a.nowMs) h, db.messageIndex.next⟩) := by
    simp [executeInsert, Table.insert_of_free (r := rowOf index a.nowMs) h]
  obtain ⟨connected, now, ins, sel⟩ := a
  cases connected with
  | false => exact .inl ⟨rfl, _, rfl⟩
  | true =>
    cases ins with
    | before => exact .inl ⟨rfl, _, rfl⟩
    | after =>
      refine .inr ⟨⟨db.messageIndex.append (rowOf index now) h, db.messageIndex.next⟩, rfl,
        .inr ⟨rfl, dbError, ?_⟩⟩
      simp [insertAttempt, Eff.bind_apply, hexec]
    | none =>
      refine .inr ⟨⟨db.messageIndex.append (rowOf index now) h, db.messageIndex.next⟩, rfl, ?_⟩
      cases sel with
      | none =>
        refine .inl ⟨rfl, ?_⟩
        simp [insertAttempt, Eff.bind_apply, hexec]
      | before | after =>
        refine .inr ⟨rfl, dbError, ?_⟩
        simp [insertAttempt, Eff.bind_apply, hexec]

/-- While the slot of its row is taken, an attempt raises and adds no row. -/
theorem insertAttempt_taken {a : IndexAttempt} {index : MsgIndex} {db : MySql}
    (h : db.messageIndex.Taken (index.receiverId, index.seqId)) :
    ∃ e db', insertAttempt a index db = (.error e, db') ∧
      db'.messageIndex.rows = db.messageIndex.rows := by
  have hexec : executeInsert (rowOf index a.nowMs) db =
      (.error dbError, { db with messageIndex := db.messageIndex.allot }) := by
    simp [executeInsert, Table.insert_of_taken (r := rowOf index a.nowMs) h]
  obtain ⟨connected, now, ins, sel⟩ := a
  cases connected with
  | false => exact ⟨_, _, rfl, rfl⟩
  | true =>
    cases ins with
    | before => exact ⟨_, _, rfl, rfl⟩
    | none | after =>
      refine ⟨dbError, { db with messageIndex := db.messageIndex.allot }, ?_, rfl⟩
      simp [insertAttempt, Eff.bind_apply, hexec]

/-- An insert into a taken slot fails and adds no row. -/
theorem insert_taken (attempts : Nat → IndexAttempt) (index : MsgIndex) (db : MySql)
    (h : db.messageIndex.Taken (index.receiverId, index.seqId)) :
    (insert attempts index db).1 = [] ∧
      (insert attempts index db).2.messageIndex.rows = db.messageIndex.rows := by
  have htaken : ∀ db' : MySql, db'.messageIndex.rows = db.messageIndex.rows →
      db'.messageIndex.Taken (index.receiverId, index.seqId) := by
    intro db' hrows
    unfold Table.Taken
    rw [hrows]
    exact h
  have hraises : ∀ i, ∀ db₁ : MySql, db₁.messageIndex.rows = db.messageIndex.rows →
      ∃ e db₂, insertAttempt (attempts i) index db₁ = (.error e, db₂) ∧
        db₂.messageIndex.rows = db.messageIndex.rows := by
    intro i db₁ hrows
    obtain ⟨e, db₂, hrun, hsame⟩ := insertAttempt_taken (a := attempts i) (htaken db₁ hrows)
    exact ⟨e, db₂, hrun, hsame.trans hrows⟩
  obtain ⟨e, db', hrun, hrows⟩ := Eff.retry_raises hraises 3 0 rfl
  unfold insert
  rw [executeWithRetry_eq, show (3 : Int).toNat = 3 from rfl, hrun]
  exact ⟨rfl, hrows⟩

/-- As long as the slot is free, the attempts of an insert take effect once. -/
theorem insertAttempt_once (attempts : Nat → IndexAttempt) {index : MsgIndex} {db : MySql}
    (h : ¬ db.messageIndex.Taken (index.receiverId, index.seqId)) :
    Eff.Once (fun i => insertAttempt (attempts i) index) (fun db' => db' = db)
      (fun k db' => db'.messageIndex.rows =
        db.messageIndex.rows ++ [(db.messageIndex.next, rowOf index (attempts k).nowMs)])
      (fun i => (attempts i).outcome = .missed) where
  miss i db' hdb hmiss := by
    subst hdb
    rcases insertAttempt_free (a := attempts i) h with
      ⟨_, e, hrun⟩ | ⟨_, _, ⟨hst, _⟩ | ⟨hun, _⟩⟩
    · exact ⟨e, db', hrun, rfl⟩
    · rw [hmiss] at hst
      cases hst
    · rw [hmiss] at hun
      cases hun
  hit i db' hdb hmiss := by
    subst hdb
    rcases insertAttempt_free (a := attempts i) h with
      ⟨hm, _⟩ | ⟨db₁, hadded, ⟨_, hrun⟩ | ⟨_, e, hrun⟩⟩
    · exact absurd hm hmiss
    · rw [hrun, hadded]
      rfl
    · rw [hrun, hadded]
      rfl
  again i k db' hrows := by
    have htaken : db'.messageIndex.Taken (index.receiverId, index.seqId) := by
      simp [Table.Taken, hrows, rowOf, IndexRow.idxReceiverSeq]
    obtain ⟨e, db₁, hrun, hsame⟩ := insertAttempt_taken (a := attempts i) htaken
    exact ⟨e, db₁, hrun, hsame.trans hrows⟩

/-- An insert into a free slot. The first attempt that is not missed decides:
stored, it answers with the sequence string of the row it added; unreported, it
leaves its row behind, and every later attempt runs into the unique key. -/
theorem insert_free (attempts : Nat → IndexAttempt) (index : MsgIndex) (db : MySql)
    (h : ¬ db.messageIndex.Taken (index.receiverId, index.seqId)) :
    (∃ k ≤ 3, (∀ i < k, (attempts i).outcome = .missed) ∧
      (insert attempts index db).2.messageIndex.rows =
        db.messageIndex.rows ++ [(db.messageIndex.next, rowOf index (attempts k).nowMs)] ∧
      (((attempts k).outcome = .stored ∧
          (insert attempts index db).1 = seqString (attempts k).nowMs db.messageIndex.next ∧
          (insert attempts index db).2.messageIndex.next = db.messageIndex.next + 1) ∨
        ((attempts k).outcome = .unreported ∧ (insert attempts index db).1 = []))) ∨
    ((∀ i < 4, (attempts i).outcome = .missed) ∧ insert attempts index db = ([], db)) := by
  unfold insert
  rw [executeWithRetry_eq, show (3 : Int).toNat = 3 from rfl]
  rcases (insertAttempt_once attempts h).retry 3 0 rfl with
    ⟨k, t, _, hk, hno, hnot, rfl, hadded, hok, herr⟩ | ⟨hall, e, t, hrun, rfl⟩
  · replace hno : ∀ i < k, (attempts i).outcome = .missed := fun i hi => hno i (Nat.zero_le i) hi
    refine .inl ⟨k, by omega, hno, ?_⟩
    rcases insertAttempt_free (a := attempts k) h with
      ⟨hm, _⟩ | ⟨db', ht, ⟨hst, heq⟩ | ⟨hun, e, heq⟩⟩
    · exact absurd hm hnot
    · rw [hok _ _ heq] at hadded ⊢
      exact ⟨hadded, .inl ⟨hst, rfl, by rw [ht]; rfl⟩⟩
    · obtain ⟨e', db₁, hret⟩ := herr _ _ heq
      rw [hret] at hadded ⊢
      exact ⟨hadded, .inr ⟨hun, rfl⟩⟩
  · rw [hrun]
    exact .inr ⟨fun i hi => hall i (Nat.zero_le i) (by omega), rfl⟩

/-! ### What a query returns -/

/-- One attempt appends a first part of the ids of the rows it selects. -/
theorem fetchAttempt_appends (a : ReadAttempt) (t : IndexTable) (userId : UInt64)
    (lastSeqId : Bytes) (limit : Int32) (msgIds : List Bytes) :
    ∃ added last, (fetchAttempt a t userId lastSeqId limit msgIds).2 = msgIds ++ added ∧
      added <+: (offlineRows t userId last limit).map fun x => x.2.msgId := by
  obtain ⟨connected, breaksAfter⟩ := a
  cases connected with
  | false => exact ⟨[], 0, by simp [fetchAttempt, Eff.bind_apply], List.nil_prefix⟩
  | true =>
    cases hl : lastId lastSeqId with
    | error e => exact ⟨[], 0, by simp [fetchAttempt, hl], List.nil_prefix⟩
    | ok last =>
      by_cases hneg : limit < 0
      · exact ⟨[], 0, by simp [fetchAttempt, hl, hneg], List.nil_prefix⟩
      · cases breaksAfter with
        | none => exact ⟨_, last, by simp [fetchAttempt, hl, hneg], List.prefix_refl _⟩
        | some k =>
          exact ⟨_, last, by simp [fetchAttempt, hl, hneg, Eff.bind_apply],
            List.take_prefix k _⟩

/-- Whatever breaks, the ids returned belong to rows of the receiver. -/
theorem mem_fetchOfflineMsgIds {attempts : Nat → ReadAttempt} {t : IndexTable} {userId : UInt64}
    {lastSeqId msgId : Bytes} {limit : Int32}
    (h : msgId ∈ fetchOfflineMsgIds attempts t userId lastSeqId limit) :
    ∃ x ∈ t.rows, x.2.receiverId = userId ∧ x.2.msgId = msgId := by
  unfold fetchOfflineMsgIds at h
  rw [executeWithRetryVoid_eq, executeWithRetry_eq] at h
  refine Eff.retry_inv
    (fun ids => ∀ m ∈ ids, ∃ x ∈ t.rows, x.2.receiverId = userId ∧ x.2.msgId = m) ?_ _ _ []
    (by simp) msgId h
  intro i ids hids m hm
  obtain ⟨added, last, happ, hpre⟩ := fetchAttempt_appends (attempts i) t userId lastSeqId limit ids
  rw [happ, List.mem_append] at hm
  rcases hm with hm | hm
  · exact hids m hm
  · obtain ⟨x, hx, rfl⟩ := List.mem_map.mp (hpre.subset hm)
    obtain ⟨hmem, hrec, _⟩ := Table.mem_select hx
    exact ⟨x, hmem, by simpa using hrec, rfl⟩

/-- Where all rows leave `seq_id` empty, the unique key leaves one row to a receiver. -/
theorem row_eq_of_slots {t : IndexTable} (h : ∀ x ∈ t.rows, x.2.seqId = []) {x y : Nat × IndexRow}
    (hx : x ∈ t.rows) (hy : y ∈ t.rows) (hreceiver : x.2.receiverId = y.2.receiverId) : x = y := by
  refine List.inj_on_of_nodup_map t.unique hx hy ?_
  simp only [IndexRow.idxReceiverSeq, hreceiver, h x hx, h y hy]

/-- It is selected if it is behind the cursor. -/
theorem mem_offlineRows_of_slots {t : IndexTable} (h : ∀ x ∈ t.rows, x.2.seqId = [])
    {x : Nat × IndexRow} (hx : x ∈ t.rows) {last : UInt64} {limit : Int32}
    (hlast : last.toNat < x.1) (hlimit : 0 < limit) :
    x ∈ offlineRows t x.2.receiverId last limit := by
  have hsame : ∀ y ∈ t.rows.filter (fun y => y.2.receiverId == x.2.receiverId), y = x := by
    intro y hy
    obtain ⟨hrow, hreceiver⟩ := List.mem_filter.mp hy
    exact row_eq_of_slots h hrow hx (eq_of_beq hreceiver)
  have hone : (t.rows.filter fun y => y.2.receiverId == x.2.receiverId).length ≤ 1 := by
    have hnodup : (t.rows.filter fun y => y.2.receiverId == x.2.receiverId).Nodup :=
      t.rows_nodup.filter _
    rw [List.eq_replicate_iff.mpr ⟨rfl, hsame⟩] at hnodup
    exact List.nodup_replicate.mp hnodup
  have hpos : 1 ≤ limit.toInt.toNat := Int.lt_toNat.mpr (Int32.lt_iff_toInt_lt.mp hlimit)
  exact (Table.mem_select_iff (p := fun r => r.receiverId == x.2.receiverId)
    (Nat.le_trans hone hpos)).mpr ⟨hx, beq_self_eq_true _, hlast⟩

/-- Undisturbed, a query with a readable cursor returns the ids of exactly the
rows its SELECT finds. -/
theorem fetchOfflineMsgIds_clean {t : IndexTable} {userId last : UInt64} {lastSeqId : Bytes}
    {limit : Int32} (hlast : lastId lastSeqId = .ok last) (hlimit : ¬ limit < 0) :
    fetchOfflineMsgIds (fun _ => .clean) t userId lastSeqId limit =
      (offlineRows t userId last limit).map fun x => x.2.msgId := by
  have hrun : fetchAttempt .clean t userId lastSeqId limit [] =
      (.ok (), (offlineRows t userId last limit).map fun x => x.2.msgId) := by
    simp [fetchAttempt, ReadAttempt.clean, hlast, hlimit]
  unfold fetchOfflineMsgIds
  rw [executeWithRetryVoid_eq, executeWithRetry_eq, Eff.retry_of_ok hrun]

end MsgIndexDao

end IMSystem.Message

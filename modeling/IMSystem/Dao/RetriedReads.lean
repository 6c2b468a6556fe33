import IMSystem.Message.Store
import IMSystem.User.FriendDao

/-!
# Reads that are retried (`msg_index_dao.cpp`, `msg_body_dao.cpp`, `friend_dao.cpp`)

Three calls push the rows of a result set into a vector that their retry loop
captures from outside. When an attempt breaks in the middle, the rows that it
has pushed stay, and the next attempt pushes them again.

Results:
1. `fetchClean_iff`, `batchClean_iff`, `listClean_iff`: for each call, when it
   returns the rows of the attempt that succeeded and no others.
2. `retriedReads_clean_iff`: the three together.
-/

namespace IMSystem.Dao

open Lib Retry Message User

section Attempts

variable {α : Type}

/-- Nothing disturbs the attempt. -/
def Undisturbed (a : ReadAttempt) : Prop := a.connected = true ∧ a.breaksAfter = none

/-- The attempt breaks after it has read some of the rows it finds. -/
def BreaksMidway (a : ReadAttempt) (found : List α) : Prop :=
  a.connected = true ∧ ∃ k, a.breaksAfter = some k ∧ found.take k ≠ []

/-- No attempt that is made breaks after it has read some of the rows it finds. -/
def NeverMidway (reads : Nat → ReadAttempt) (found : Nat → List α) : Prop :=
  ∀ i ≤ 3, (∀ j < i, ¬ Undisturbed (reads j)) → ¬ BreaksMidway (reads i) (found i)

/-- The rows that an attempt reads, also when it then raises. -/
def rowsRead (a : ReadAttempt) (found : List α) : List α :=
  if a.connected then a.breaksAfter.elim found found.take else []

theorem rowsRead_nil (a : ReadAttempt) : rowsRead a ([] : List α) = [] := by
  obtain ⟨connected, breaksAfter⟩ := a
  cases connected <;> cases breaksAfter <;> simp [rowsRead]

theorem rowsRead_front (a : ReadAttempt) (found : List α) : rowsRead a found <+: found := by
  obtain ⟨connected, breaksAfter⟩ := a
  cases connected with
  | false => exact List.nil_prefix
  | true =>
    cases breaksAfter with
    | none => exact List.prefix_refl _
    | some k => exact List.take_prefix k _

/-- A disturbed attempt reads something exactly if it breaks midway. -/
theorem rowsRead_eq_nil_iff {a : ReadAttempt} {found : List α} (h : ¬ Undisturbed a) :
    rowsRead a found = [] ↔ ¬ BreaksMidway a found := by
  obtain ⟨connected, breaksAfter⟩ := a
  cases connected with
  | false => simp [rowsRead, BreaksMidway]
  | true =>
    cases breaksAfter with
    | none => exact absurd ⟨rfl, rfl⟩ h
    | some k =>
      show found.take k = [] ↔ _
      constructor
      · rintro heq ⟨_, k', hk, hne⟩
        cases hk
        exact hne heq
      · intro hmid
        by_contra hne
        exact hmid ⟨rfl, k, rfl, hne⟩

end Attempts

/-! ## What makes a read clean -/

section Clean

variable {σ α : Type} {collected : σ → List α} {calls : Nat → Call σ Unit}
  {reads : Nat → ReadAttempt} {found : Nat → List α} {accepted : Prop}

/-- Attempts that read their rows one by one into what is collected, if the
server accepts their arguments. -/
structure Reading (collected : σ → List α) (calls : Nat → Call σ Unit)
    (reads : Nat → ReadAttempt) (found : Nat → List α) (accepted : Prop) : Prop where
  runs : ∀ i s, ∃ r s', calls i s = (r, s') ∧ (r = .ok () ↔ accepted ∧ Undisturbed (reads i)) ∧
    collected s' = collected s ++ rowsRead (reads i) (found i)
  refused : ¬ accepted → ∀ i, found i = []

theorem Reading.returns_iff (h : Reading collected calls reads found accepted) (i : Nat) (s : σ) :
    Eff.Returns (calls i) s ↔ accepted ∧ Undisturbed (reads i) := by
  obtain ⟨r, s', hrun, hr, _⟩ := h.runs i s
  rw [← hr]
  constructor
  · rintro ⟨_, t, hok⟩
    rw [hrun] at hok
    cases hok
    rfl
  · rintro rfl
    exact ⟨(), s', hrun⟩

theorem Reading.appends (h : Reading collected calls reads found accepted) (i : Nat) (s : σ) :
    collected (calls i s).2 = collected s ++ rowsRead (reads i) (found i) := by
  obtain ⟨r, s', hrun, _, happ⟩ := h.runs i s
  rw [hrun]
  exact happ

/-- The list is exactly what the one attempt that succeeds reads by itself; it is
empty if all of them fail. `start` is the state in which the loop is entered. -/
def CleanResult (collected : σ → List α) (calls : Nat → Call σ Unit) (start : σ)
    (result : List α) : Prop :=
  Eff.Clean (fun k => Eff.Returns (calls k) start) (fun k => collected (calls k start).2) 3 result

theorem Reading.clean_iff (h : Reading collected calls reads found accepted) {start : σ}
    (hstart : collected start = []) :
    CleanResult collected calls start (collected (executeWithRetryVoid 3 calls start).2) ↔
      NeverMidway reads found := by
  have hcollects : Eff.Collects collected calls (fun k => Eff.Returns (calls k) start)
      (fun k => collected (calls k start).2) :=
    ⟨fun i s => (h.returns_iff i s).trans (h.returns_iff i start).symm,
      fun i s => by rw [h.appends i s, h.appends i start, hstart, List.nil_append]⟩
  rw [executeWithRetryVoid_eq, executeWithRetry_eq, CleanResult]
  refine (hcollects.clean_iff 3 hstart).trans ?_
  simp only [h.returns_iff, h.appends, hstart, List.nil_append]
  by_cases hacc : accepted
  · constructor
    · intro hclean i hi hbefore hmid
      have hnot : ¬ Undisturbed (reads i) := by
        rintro ⟨_, hnone⟩
        obtain ⟨_, k, hsome, _⟩ := hmid
        rw [hnone] at hsome
        cases hsome
      refine (rowsRead_eq_nil_iff hnot).mp (hclean i hi fun j hj hok => ?_) hmid
      rcases Nat.lt_or_eq_of_le hj with hlt | rfl
      · exact hbefore j hlt hok.2
      · exact hnot hok.2
    · intro hnever i hi hraised
      have hall : ∀ j ≤ i, ¬ Undisturbed (reads j) := fun j hj hun => hraised j hj ⟨hacc, hun⟩
      exact (rowsRead_eq_nil_iff (hall i (Nat.le_refl i))).mpr
        (hnever i hi fun j hj => hall j (Nat.le_of_lt hj))
  · have hnone := h.refused hacc
    simp [hnone, NeverMidway, BreaksMidway, rowsRead_nil]

theorem CleanResult.cases {start : σ} {result : List α}
    (h : CleanResult collected calls start result) :
    result = [] ∨ ∃ k, result = collected (calls k start).2 := by
  rcases h with ⟨k, _, _, _, heq⟩ | ⟨_, heq⟩
  · exact .inr ⟨k, heq⟩
  · exact .inl heq

end Clean

/-- At most `limit` rows of a table, none of them twice, each through `project`. -/
def DistinctRows {R α : Type} (table : List (Nat × R)) (project : Nat × R → α) (limit : Nat)
    (result : List α) : Prop :=
  ∃ rows : List (Nat × R), rows.Nodup ∧ (∀ x ∈ rows, x ∈ table) ∧ rows.length ≤ limit ∧
    result = rows.map project

theorem DistinctRows.front {R α : Type} {table : List (Nat × R)} {project : Nat × R → α}
    {limit : Nat} {result longer : List α} (h : DistinctRows table project limit longer)
    (hpre : result <+: longer) : DistinctRows table project limit result := by
  obtain ⟨rows, hnodup, hmem, hlen, rfl⟩ := h
  have htake := List.prefix_iff_eq_take.mp hpre
  refine ⟨rows.take result.length, hnodup.sublist (List.take_sublist _ _),
    fun x hx => hmem x (List.mem_of_mem_take hx), ?_, ?_⟩
  · exact Nat.le_trans (List.length_take_le' _ _) hlen
  · rw [List.map_take, ← htake]

theorem Reading.distinct {σ R α : Type} {collected : σ → List α} {calls : Nat → Call σ Unit}
    {reads : Nat → ReadAttempt} {found : Nat → List α} {accepted : Prop}
    (h : Reading collected calls reads found accepted) {start : σ} {result : List α}
    {table : List (Nat × R)} {project : Nat × R → α} {limit : Nat}
    (hclean : CleanResult collected calls start result) (hstart : collected start = [])
    (hfound : ∀ i, DistinctRows table project limit (found i)) :
    DistinctRows table project limit result := by
  rcases hclean.cases with rfl | ⟨k, rfl⟩
  · exact ⟨[], by simp⟩
  · rw [h.appends, hstart, List.nil_append]
    exact (hfound k).front (rowsRead_front _ _)

/-! ## `MsgIndexDao::FetchOfflineMsgIds` -/

section Fetch

variable {reads : Nat → ReadAttempt} {t : IndexTable} {userId : UInt64} {lastSeqId : Bytes}
  {limit : Int32}

/-- The ids of the rows that the SELECT finds; it is not made behind an unreadable
cursor, and refused with a negative LIMIT. -/
def offlineMsgIds (t : IndexTable) (userId : UInt64) (lastSeqId : Bytes) (limit : Int32) :
    List Bytes :=
  match MsgIndexDao.lastId lastSeqId with
  | .error _ => []
  | .ok last =>
    if limit < 0 then []
    else (MsgIndexDao.offlineRows t userId last limit).map fun x => x.2.msgId

/-- The call returns exactly the rows read by the attempt that succeeded: at most
`limit` rows of the table, none of them twice. -/
def FetchClean (reads : Nat → ReadAttempt) (t : IndexTable) (userId : UInt64) (lastSeqId : Bytes)
    (limit : Int32) : Prop :=
  let msgIds := MsgIndexDao.fetchOfflineMsgIds reads t userId lastSeqId limit
  CleanResult id (fun i => MsgIndexDao.fetchAttempt (reads i) t userId lastSeqId limit) [] msgIds ∧
    DistinctRows t.rows (fun x => x.2.msgId) limit.toInt.toNat msgIds

theorem fetchAttempt_reading (reads : Nat → ReadAttempt) (t : IndexTable) (userId : UInt64)
    (lastSeqId : Bytes) (limit : Int32) :
    Reading id (fun i => MsgIndexDao.fetchAttempt (reads i) t userId lastSeqId limit) reads
      (fun _ => offlineMsgIds t userId lastSeqId limit)
      ((∃ last, MsgIndexDao.lastId lastSeqId = .ok last) ∧ ¬ limit < 0) where
  runs i s := by
    obtain ⟨connected, breaksAfter⟩ := reads i
    cases connected with
    | false => exact ⟨_, _, rfl, by simp [Undisturbed], by simp [rowsRead]⟩
    | true =>
      cases hl : MsgIndexDao.lastId lastSeqId with
      | error e =>
        refine ⟨.error e, s, by simp [MsgIndexDao.fetchAttempt, hl], by simp, ?_⟩
        simp [offlineMsgIds, hl, rowsRead_nil]
      | ok last =>
        by_cases hneg : limit < 0
        · refine ⟨.error Message.dbError, s, by simp [MsgIndexDao.fetchAttempt, hl, hneg],
            by simp [hneg], ?_⟩
          simp [offlineMsgIds, hl, hneg, rowsRead_nil]
        · simp only [offlineMsgIds, hl, if_neg hneg]
          cases breaksAfter with
          | none =>
            exact ⟨.ok (), _, by simp [MsgIndexDao.fetchAttempt, hl, hneg]; rfl,
              by simp [hneg, Undisturbed], rfl⟩
          | some k =>
            exact ⟨.error Message.dbError, _,
              by simp [MsgIndexDao.fetchAttempt, hl, hneg, Eff.bind_apply]; rfl,
              by simp [Undisturbed], rfl⟩
  refused hnot i := by
    unfold offlineMsgIds
    split
    · rfl
    · next last hl =>
      split
      · rfl
      · next hneg => exact absurd ⟨⟨last, hl⟩, hneg⟩ hnot

theorem offlineMsgIds_distinct (t : IndexTable) (userId : UInt64) (lastSeqId : Bytes)
    (limit : Int32) : DistinctRows t.rows (fun x => x.2.msgId) limit.toInt.toNat
      (offlineMsgIds t userId lastSeqId limit) := by
  unfold offlineMsgIds
  split
  · exact ⟨[], by simp⟩
  · next last _ =>
    split
    · exact ⟨[], by simp⟩
    · refine ⟨MsgIndexDao.offlineRows t userId last limit, ?_, fun x hx => (Table.mem_select hx).1,
        List.length_take_le _ _, rfl⟩
      exact t.rows_nodup.sublist ((List.take_sublist _ _).trans List.filter_sublist)

theorem fetchClean_iff (reads : Nat → ReadAttempt) (t : IndexTable) (userId : UInt64)
    (lastSeqId : Bytes) (limit : Int32) : FetchClean reads t userId lastSeqId limit ↔
      NeverMidway reads (fun _ => offlineMsgIds t userId lastSeqId limit) := by
  have hreading := fetchAttempt_reading reads t userId lastSeqId limit
  refine Iff.trans ⟨And.left, fun hclean => ⟨hclean, ?_⟩⟩ (hreading.clean_iff (show id [] = [] from rfl))
  exact hreading.distinct hclean rfl fun _ => offlineMsgIds_distinct t userId lastSeqId limit

end Fetch

/-! ## `MsgBodyDao::BatchGet` -/

section Batch

/-- The documents under the ids asked for. -/
def documents (messages : List MsgBody) (msgIds : List Bytes) : List MsgBody :=
  messages.filter fun doc => msgIds.contains doc.msgId

/-- The call returns exactly the documents read by the attempt that succeeded:
each document of the collection at most once. -/
def BatchClean (reads : Nat → ReadAttempt) (messages : List MsgBody) (msgIds : List Bytes) : Prop :=
  let found := MsgBodyDao.batchGet reads messages msgIds
  CleanResult id (fun i => MsgBodyDao.batchGetAttempt (reads i) messages msgIds) [] found ∧
    found.Sublist messages

theorem batchGetAttempt_reading (reads : Nat → ReadAttempt) (messages : List MsgBody)
    (msgIds : List Bytes) :
    Reading id (fun i => MsgBodyDao.batchGetAttempt (reads i) messages msgIds) reads
      (fun _ => documents messages msgIds) True where
  runs i s := by
    obtain ⟨connected, breaksAfter⟩ := reads i
    cases connected with
    | false => exact ⟨_, _, rfl, by simp [Undisturbed], by simp [rowsRead]⟩
    | true =>
      cases breaksAfter with
      | none => exact ⟨_, _, rfl, by simp [Undisturbed], rfl⟩
      | some k => exact ⟨_, _, rfl, by simp [Undisturbed], rfl⟩
  refused hnot := absurd trivial hnot

/-- Without ids to ask for, no attempt is made; it would have found nothing. -/
theorem batchGet_eq (reads : Nat → ReadAttempt) (messages : List MsgBody) (msgIds : List Bytes) :
    MsgBodyDao.batchGet reads messages msgIds = (executeWithRetryVoid 3
      (fun i => MsgBodyDao.batchGetAttempt (reads i) messages msgIds) []).2 := by
  unfold MsgBodyDao.batchGet
  split
  · next hempty =>
    have hnone : documents messages msgIds = [] := by
      rw [List.isEmpty_iff] at hempty
      simp [documents, hempty]
    rw [executeWithRetryVoid_eq, executeWithRetry_eq]
    refine (Eff.retry_inv (· = []) (fun i s hs => ?_) _ _ [] rfl).symm
    have happ := (batchGetAttempt_reading reads messages msgIds).appends i s
    simpa [hs, hnone, rowsRead_nil] using happ
  · rfl

theorem batchClean_iff (reads : Nat → ReadAttempt) (messages : List MsgBody)
    (msgIds : List Bytes) : BatchClean reads messages msgIds ↔
      NeverMidway reads (fun _ => documents messages msgIds) := by
  have hreading := batchGetAttempt_reading reads messages msgIds
  rw [BatchClean, batchGet_eq]
  refine Iff.trans ⟨And.left, fun hclean => ⟨hclean, ?_⟩⟩ (hreading.clean_iff (show id [] = [] from rfl))
  rcases hclean.cases with heq | ⟨k, heq⟩
  · rw [heq]
    exact List.nil_sublist _
  · rw [heq, hreading.appends]
    exact (rowsRead_front _ _).sublist.trans List.filter_sublist

end Batch

/-! ## `FriendDao::GetFriendList` -/

section Friends

/-- What an attempt does to the list: one that does not get to the query of the
page reads nothing of it. -/
def readAttempt (a : ListAttempt) : ReadAttempt := ⟨a.connected && a.counted, a.breaksAfter⟩

/-- The friends on the page that an attempt asks for. -/
def pageFriends (a : ListAttempt) (friends : UserFriends) (userId : UInt64)
    (page pageSize : Int32) : List UserFriend :=
  (FriendDao.pageRows friends userId page pageSize a.order).map FriendDao.friendOf

/-- The call returns exactly the rows read by the attempt that succeeded: at most
`pageSize` rows of the table, none of them twice. -/
def ListClean (attempts : Nat → ListAttempt) (friends : UserFriends) (userId : UInt64)
    (page pageSize totalCount : Int32) : Prop :=
  let result := (FriendDao.getFriendList attempts friends userId page pageSize totalCount).result
  CleanResult Listing.result
      (fun i => FriendDao.getFriendListAttempt (attempts i) friends userId page pageSize)
      ⟨[], totalCount⟩ result ∧
    DistinctRows friends.rows FriendDao.friendOf pageSize.toInt.toNat result

theorem getFriendListAttempt_reading (attempts : Nat → ListAttempt) (friends : UserFriends)
    (userId : UInt64) (page pageSize : Int32) :
    Reading Listing.result
      (fun i => FriendDao.getFriendListAttempt (attempts i) friends userId page pageSize)
      (fun i => readAttempt (attempts i))
      (fun i => pageFriends (attempts i) friends userId page pageSize)
      (¬ (pageSize < 0 ∨ FriendDao.pageOffset page pageSize < 0)) where
  runs i l := by
    obtain ⟨connected, counted, order, breaksAfter⟩ := attempts i
    cases connected with
    | false => exact ⟨_, _, rfl, by simp [readAttempt, Undisturbed], by simp [readAttempt, rowsRead]⟩
    | true =>
      cases counted with
      | false =>
        exact ⟨_, _, rfl, by simp [readAttempt, Undisturbed], by simp [readAttempt, rowsRead]⟩
      | true =>
        by_cases hneg : pageSize < 0 ∨ FriendDao.pageOffset page pageSize < 0
        · refine ⟨_, _, by simp [FriendDao.getFriendListAttempt, hneg]; rfl, by simp [hneg], ?_⟩
          simp [pageFriends, FriendDao.pageRows, hneg, rowsRead_nil]
        · cases breaksAfter with
          | none =>
            exact ⟨_, _, by simp [FriendDao.getFriendListAttempt, hneg]; rfl,
              by simp [readAttempt, Undisturbed, hneg], rfl⟩
          | some k =>
            refine ⟨.error User.dbError, ⟨l.result ++ ((FriendDao.pageRows friends userId page pageSize
              order).map FriendDao.friendOf).take k, Int32.ofNat (FriendDao.friendRows friends
              userId).length⟩, ?_, by simp [readAttempt, Undisturbed], rfl⟩
            simp [FriendDao.getFriendListAttempt, hneg, Eff.bind_apply]
  refused hnot i := by
    rw [not_not] at hnot
    simp [pageFriends, FriendDao.pageRows, hnot]

theorem listClean_iff (attempts : Nat → ListAttempt) (friends : UserFriends) (userId : UInt64)
    (page pageSize totalCount : Int32) :
    ListClean attempts friends userId page pageSize totalCount ↔
      NeverMidway (fun i => readAttempt (attempts i))
        (fun i => pageFriends (attempts i) friends userId page pageSize) := by
  have hreading := getFriendListAttempt_reading attempts friends userId page pageSize
  refine Iff.trans ⟨And.left, fun hclean => ⟨hclean, ?_⟩⟩
    (hreading.clean_iff (show Listing.result ⟨[], totalCount⟩ = [] from rfl))
  exact hreading.distinct hclean rfl fun i =>
    ⟨_, FriendDao.pageRows_nodup friends userId page pageSize (attempts i).order,
      fun _ => FriendDao.pageRows_mem, FriendDao.pageRows_length _ _ _ _ _, rfl⟩

end Friends

/-! ## The three calls -/

/-- Each of the three calls returns exactly the rows read by the attempt that
succeeded, and none if all fail, if and only if no attempt that its loop makes
breaks after it has read some of the rows it finds. -/
theorem retriedReads_clean_iff (fetches batches : Nat → ReadAttempt) (lists : Nat → ListAttempt)
    (t : IndexTable) (messages : List MsgBody) (friends : UserFriends) (userId : UInt64)
    (lastSeqId : Bytes) (limit : Int32) (msgIds : List Bytes) (page pageSize totalCount : Int32) :
    (FetchClean fetches t userId lastSeqId limit ↔
      NeverMidway fetches fun _ => offlineMsgIds t userId lastSeqId limit) ∧
    (BatchClean batches messages msgIds ↔
      NeverMidway batches fun _ => documents messages msgIds) ∧
    (ListClean lists friends userId page pageSize totalCount ↔
      NeverMidway (fun i => readAttempt (lists i))
        fun i => pageFriends (lists i) friends userId page pageSize) :=
  ⟨fetchClean_iff fetches t userId lastSeqId limit, batchClean_iff batches messages msgIds,
    listClean_iff lists friends userId page pageSize totalCount⟩

/-- An inbox in which one message waits for the user 1. -/
def oneWaiting : IndexTable := (IndexTable.initial.insert ⟨1, [], str "m1", 0, 2, 0⟩).2

/-- The first attempt breaks behind the first row; the others are undisturbed. -/
def breaksOnce (i : Nat) : ReadAttempt := if i = 0 then ⟨true, some 1⟩ else .clean

/-- The one id that waits is returned twice. -/
theorem brokenCursor_not_clean :
    MsgIndexDao.fetchOfflineMsgIds breaksOnce oneWaiting 1 [] 10 = [str "m1", str "m1"] ∧
      ¬ FetchClean breaksOnce oneWaiting 1 [] 10 := by
  constructor
  · rw [MsgIndexDao.fetchOfflineMsgIds, executeWithRetryVoid_eq, executeWithRetry_eq]
    decide
  · rw [fetchClean_iff]
    exact fun h => h 0 (Nat.zero_le 3) (by simp) ⟨rfl, 1, rfl, by decide⟩

end IMSystem.Dao

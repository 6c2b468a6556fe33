import IMSystem.Lib.Run
import IMSystem.Message.Store

/-!
# Paging through an inbox (`message/src/dao/msg_index_dao.cpp`)

`Insert` answers with a string in which the id of the new row stands behind the
last `_`, and `FetchOfflineMsgIds` reads it back off its cursor. A client that
takes the answer for the last row it was given as its next cursor pages through
its inbox.

Here nothing fails and a row is visible at once. Other statements may spend ids.

Results:
1. `fetch_behind`: a fetch returns the first rows behind the row of its cursor.
2. `Pulls.flatten`, `exists_pulls`: paging returns every later row once.
3. `paged_run`: both hold in every state of every run.
-/

namespace IMSystem.Message

open Lib

namespace Paging

/-! ## Inserts and fetches -/

/-- The table, and what the calls of `Insert` have answered, each with the row
that it added. -/
structure State where
  mysql : MySql
  answers : List (Bytes × (Nat × IndexRow))

/-- The table as it is set up. -/
def State.start : State := ⟨⟨IndexTable.initial, 0⟩, []⟩

def State.table (s : State) : IndexTable := s.mysql.messageIndex

inductive Action where
  /-- `MsgIndexDao::Insert`; its attempts read the clock. -/
  | insert (index : MsgIndex) (clock : Nat → Int64)
  /-- A statement that is rolled back spends an id. -/
  | spend

/-- The table and the answer after a call of `Insert`. -/
def State.inserted (s : State) (answer : Bytes) (mysql : MySql) : State where
  mysql := mysql
  answers := s.answers ++ if answer = [] then [] else
    (mysql.messageIndex.rows.drop s.table.rows.length).map fun x => (answer, x)

/-- One step. Ids are BIGINT UNSIGNED; a call that runs out of them has failed. -/
def step (s : State) : Action → Option State
  | .insert index clock =>
    let (answer, mysql) := MsgIndexDao.insert (fun i => ⟨true, clock i, .none, .none⟩) index s.mysql
    if mysql.messageIndex.next ≤ 2 ^ 64 then some (s.inserted answer mysql) else none
  | .spend =>
    if s.table.next < 2 ^ 64 then
      some { s with mysql := { s.mysql with messageIndex := s.table.allot } }
    else none

/-- `FetchOfflineMsgIds`, undisturbed. -/
def fetch (s : State) (userId : UInt64) (lastSeqId : Bytes) (limit : Int32) : List Bytes :=
  MsgIndexDao.fetchOfflineMsgIds (fun _ => .clean) s.table userId lastSeqId limit

/-- The rows of a receiver behind an id, in ascending id order. -/
def later (s : State) (userId : UInt64) (id : Nat) : List (Nat × IndexRow) :=
  s.table.behind (fun r => r.receiverId == userId) id

/-- The message ids of some rows. -/
def msgIds (rows : List (Nat × IndexRow)) : List Bytes := rows.map fun x => x.2.msgId

/-- The cursor stands behind an id: at the beginning, or behind the row of an
answer. -/
def Behind (s : State) (cursor : Bytes) (id : Nat) : Prop :=
  (cursor = [] ∧ id = 0) ∨ ∃ x, (cursor, x) ∈ s.answers ∧ x.1 = id

/-- The pages of a client that goes on with the answer for the last row obtained,
until there is none. -/
inductive Pulls (s : State) (userId : UInt64) (limit : Int32) : Bytes → List (List Bytes) → Prop
  | done {cursor : Bytes} : fetch s userId cursor limit = [] → Pulls s userId limit cursor []
  | page {cursor seq : Bytes} {last : UInt64} {x : Nat × IndexRow} {pages : List (List Bytes)} :
      MsgIndexDao.lastId cursor = .ok last →
      (MsgIndexDao.offlineRows s.table userId last limit).getLast? = some x →
      (seq, x) ∈ s.answers →
      Pulls s userId limit seq pages →
      Pulls s userId limit cursor (fetch s userId cursor limit :: pages)

structure Paged (s : State) : Prop where
  /-- Every row is one of the inbox of its receiver from the beginning on. -/
  positive : ∀ x ∈ s.table.rows, 0 < x.1
  ascending : ∀ userId id, (later s userId id).Pairwise fun a b => a.1 < b.1
  fetched : ∀ cursor id, Behind s cursor id → ∀ userId limit, 1 ≤ limit →
    fetch s userId cursor limit = msgIds ((later s userId id).take limit.toInt.toNat)
  pulled : ∀ cursor id, Behind s cursor id → ∀ userId limit, 1 ≤ limit →
    (∃ pages, Pulls s userId limit cursor pages) ∧
    ∀ pages, Pulls s userId limit cursor pages → pages.flatten = msgIds (later s userId id)

/-! ## Cursors -/

/-- What is known of the answers. -/
structure Inv (s : State) : Prop where
  fits : s.table.next ≤ 2 ^ 64
  positive : 0 < s.table.next ∧ ∀ x ∈ s.table.rows, 0 < x.1
  answers : ∀ seq x, (seq, x) ∈ s.answers →
    x ∈ s.table.rows ∧ ∃ now, seq = MsgIndexDao.seqString now x.1
  answered : ∀ x ∈ s.table.rows, ∃ seq, (seq, x) ∈ s.answers

/-- A sequence string is read back as the id that was printed. -/
theorem lastId_of_seqString (now : Int64) {id : Nat} (h : id < 2 ^ 64) :
    MsgIndexDao.lastId (MsgIndexDao.seqString now id) = .ok (UInt64.ofNat id) := by
  have hafter : afterLast (chr '_') (MsgIndexDao.seqString now id) = some (toDecimal id) :=
    afterLast_append _ (not_mem_toDecimal (by decide) id)
  rw [MsgIndexDao.lastId, hafter]
  simp only [stoull_toDecimal, if_neg (Nat.not_le.mpr h)]

variable {s s' : State}

/-- The cursor of a client is the id of the row behind which it stands. -/
theorem Inv.lastId (h : Inv s) {cursor : Bytes} {id : Nat} (hbehind : Behind s cursor id) :
    ∃ last, MsgIndexDao.lastId cursor = .ok last ∧ last.toNat = id := by
  rcases hbehind with ⟨rfl, rfl⟩ | ⟨x, hx, rfl⟩
  · exact ⟨0, rfl, rfl⟩
  · obtain ⟨hmem, now, rfl⟩ := h.answers cursor x hx
    have hfits : x.1 < 2 ^ 64 := Nat.lt_of_lt_of_le (s.table.bounded x hmem) h.fits
    exact ⟨UInt64.ofNat x.1, lastId_of_seqString now hfits, UInt64.toNat_ofNat_of_lt' hfits⟩

/-- A fetch returns the first rows behind the row of its cursor. -/
theorem fetch_behind {userId last : UInt64} {cursor : Bytes} {limit : Int32}
    (hlast : MsgIndexDao.lastId cursor = .ok last) (hlimit : 1 ≤ limit) :
    fetch s userId cursor limit = msgIds ((later s userId last.toNat).take limit.toInt.toNat) := by
  have hneg : ¬ limit < 0 := by
    exact Int32.not_lt.mpr (Int32.le_trans (by decide) hlimit)
  exact MsgIndexDao.fetchOfflineMsgIds_clean hlast hneg

/-! ## Paging -/

/-- Behind the last row of a page come the rows that its limit cut off. -/
theorem later_last {userId last : UInt64} {limit : Int32} {x : Nat × IndexRow}
    (h : (MsgIndexDao.offlineRows s.table userId last limit).getLast? = some x) :
    later s userId x.1 = (later s userId last.toNat).drop limit.toInt.toNat :=
  Table.behind_last h

/-- The row of an answer, as a cursor. -/
theorem behind_answer {seq : Bytes} {x : Nat × IndexRow} (h : (seq, x) ∈ s.answers) :
    Behind s seq x.1 :=
  .inr ⟨x, h, rfl⟩

/-- The pages of a client are the later rows, once each and in order. -/
theorem Pulls.flatten (h : Inv s) {userId : UInt64} {limit : Int32} (hlimit : 1 ≤ limit)
    {cursor : Bytes} {pages : List (List Bytes)} (hpulls : Pulls s userId limit cursor pages)
    {id : Nat} (hbehind : Behind s cursor id) : pages.flatten = msgIds (later s userId id) := by
  have hpos : 0 < limit.toInt.toNat := by
    have hle := Int32.le_iff_toInt_le.mp hlimit
    have hone : (1 : Int32).toInt = 1 := rfl
    omega
  induction hpulls generalizing id with
  | done hempty =>
    obtain ⟨last, hlast, rfl⟩ := h.lastId hbehind
    rw [fetch_behind hlast hlimit, msgIds, List.map_eq_nil_iff, List.take_eq_nil_iff] at hempty
    rcases hempty with hzero | hnil
    · exact absurd hzero (Nat.ne_of_gt hpos)
    · rw [hnil]
      rfl
  | page hlast hx hseq _ ih =>
    obtain ⟨last, hlast', rfl⟩ := h.lastId hbehind
    obtain rfl := Except.ok.inj (hlast.symm.trans hlast')
    rw [List.flatten_cons, ih (behind_answer hseq), fetch_behind hlast hlimit, later_last hx, msgIds,
      msgIds, ← List.map_append, List.take_append_drop]
    rfl

/-- Paging comes to an end. -/
theorem exists_pulls (h : Inv s) {userId : UInt64} {limit : Int32} (hlimit : 1 ≤ limit)
    {cursor : Bytes} {id : Nat} (hbehind : Behind s cursor id) :
    ∃ pages, Pulls s userId limit cursor pages := by
  have hpos : 0 < limit.toInt.toNat := by
    have hle := Int32.le_iff_toInt_le.mp hlimit
    have hone : (1 : Int32).toInt = 1 := rfl
    omega
  -- on the number of rows that are left
  induction hn : (later s userId id).length using Nat.strong_induction_on generalizing cursor id with
  | _ n ih =>
    obtain ⟨last, hlast, rfl⟩ := h.lastId hbehind
    cases hx : (MsgIndexDao.offlineRows s.table userId last limit).getLast? with
    | none =>
      refine ⟨[], .done ?_⟩
      rw [fetch_behind hlast hlimit]
      exact congrArg msgIds (List.getLast?_eq_none_iff.mp hx)
    | some x =>
      have hmem := Table.mem_select (List.mem_of_getLast? hx)
      obtain ⟨seq, hseq⟩ := h.answered x hmem.1
      have hshorter : (later s userId x.1).length < n := by
        have hne : 0 < (later s userId last.toNat).length :=
          List.length_pos_of_mem (List.mem_of_mem_take (List.mem_of_getLast? hx))
        rw [later_last hx, List.length_drop]
        omega
      obtain ⟨pages, hpages⟩ := ih _ hshorter (behind_answer hseq) rfl
      exact ⟨_, .page hlast hx hseq hpages⟩

theorem Inv.paged (h : Inv s) : Paged s where
  positive := h.positive.2
  ascending _ _ := s.table.sorted.filter _
  fetched cursor id hbehind userId limit hlimit := by
    obtain ⟨last, hlast, rfl⟩ := h.lastId hbehind
    exact fetch_behind hlast hlimit
  pulled cursor id hbehind userId limit hlimit :=
    ⟨exists_pulls h hlimit hbehind, fun _ hpulls => hpulls.flatten h hlimit hbehind⟩

/-! ## What holds in every run -/

theorem inv_start : Inv .start where
  fits := by decide
  positive := ⟨by decide, fun _ hx => absurd hx List.not_mem_nil⟩
  answers _ _ hx := absurd hx List.not_mem_nil
  answered _ hx := absurd hx List.not_mem_nil

/-- An insert answers with the string of the row that it added, or it ran into
the row that has its unique key. -/
theorem insert_cases {index : MsgIndex} {clock : Nat → Int64} {db db' : MySql} {answer : Bytes}
    (h : MsgIndexDao.insert (fun i => ⟨true, clock i, .none, .none⟩) index db = (answer, db')) :
    (∃ now row, answer = MsgIndexDao.seqString now db.messageIndex.next ∧
      db'.messageIndex.rows = db.messageIndex.rows ++ [(db.messageIndex.next, row)]) ∨
    (answer = [] ∧ db'.messageIndex.rows = db.messageIndex.rows ∧
      ∃ x, x ∈ db.messageIndex.rows) := by
  by_cases htaken : db.messageIndex.Taken (index.receiverId, index.seqId)
  · have hinsert := MsgIndexDao.insert_taken (fun i => ⟨true, clock i, .none, .none⟩) index db htaken
    obtain ⟨x, hx, _⟩ := List.mem_map.mp htaken
    rw [h] at hinsert
    exact .inr ⟨hinsert.1, hinsert.2, x, hx⟩
  · have hinsert := MsgIndexDao.insert_free (fun i => ⟨true, clock i, .none, .none⟩) index db htaken
    rw [h] at hinsert
    rcases hinsert with ⟨k, _, _, hrows, ⟨_, hanswer, _⟩ | ⟨hlost, _⟩⟩ | ⟨hmissed, _⟩
    · exact .inl ⟨_, _, hanswer, hrows⟩
    · exact absurd hlost (by simp [IndexAttempt.outcome])
    · exact absurd (hmissed 0 (by decide)) (by simp [IndexAttempt.outcome])

/-- A row joins the table together with its answer. -/
theorem Inv.added (h : Inv s) {mysql : MySql} {now : Int64} {row : IndexRow}
    (hrows : mysql.messageIndex.rows = s.table.rows ++ [(s.table.next, row)])
    (hfits : mysql.messageIndex.next ≤ 2 ^ 64) :
    Inv (s.inserted (MsgIndexDao.seqString now s.table.next) mysql) := by
  have hanswers : (s.inserted (MsgIndexDao.seqString now s.table.next) mysql).answers =
      s.answers ++ [(MsgIndexDao.seqString now s.table.next, (s.table.next, row))] := by
    rw [State.inserted, if_neg (MsgIndexDao.seqString_ne_nil now _), hrows, List.drop_left]
    rfl
  have hmem : ∀ x, x ∈ mysql.messageIndex.rows ↔ x ∈ s.table.rows ∨ x = (s.table.next, row) := by
    intro x
    rw [hrows, List.mem_append, List.mem_singleton]
  have hpositive : ∀ x ∈ mysql.messageIndex.rows, 0 < x.1 := by
    intro x hx
    rcases (hmem x).mp hx with hold | rfl
    · exact h.positive.2 x hold
    · exact h.positive.1
  refine ⟨hfits, ⟨?_, hpositive⟩, fun seq x hx => ?_, fun x hx => ?_⟩
  · exact Nat.lt_of_le_of_lt (Nat.zero_le _)
      (mysql.messageIndex.bounded (s.table.next, row) ((hmem _).mpr (.inr rfl)))
  · rw [hanswers, List.mem_append, List.mem_singleton] at hx
    rcases hx with hold | hnew
    · obtain ⟨hrow, hseq⟩ := h.answers seq x hold
      exact ⟨(hmem x).mpr (.inl hrow), hseq⟩
    · cases hnew
      exact ⟨(hmem _).mpr (.inr rfl), now, rfl⟩
  · rw [hanswers]
    rcases (hmem x).mp hx with hold | rfl
    · obtain ⟨seq, hseq⟩ := h.answered x hold
      exact ⟨seq, List.mem_append_left _ hseq⟩
    · exact ⟨_, List.mem_append_right _ (List.mem_singleton_self _)⟩

/-- A refused row changes no row and no answer. -/
theorem Inv.refused (h : Inv s) {mysql : MySql} (hrows : mysql.messageIndex.rows = s.table.rows)
    {x : Nat × IndexRow} (hx : x ∈ s.table.rows) (hfits : mysql.messageIndex.next ≤ 2 ^ 64) :
    Inv (s.inserted [] mysql) := by
  have hanswers : (s.inserted [] mysql).answers = s.answers := List.append_nil _
  have hmem : ∀ y, y ∈ mysql.messageIndex.rows ↔ y ∈ s.table.rows := by
    intro y
    rw [hrows]
  refine ⟨hfits, ⟨?_, fun y hy => h.positive.2 y ((hmem y).mp hy)⟩, fun seq y hy => ?_, fun y hy => ?_⟩
  · exact Nat.lt_of_le_of_lt (Nat.zero_le _) (mysql.messageIndex.bounded x ((hmem x).mpr hx))
  · rw [hanswers] at hy
    obtain ⟨hrow, hseq⟩ := h.answers seq y hy
    exact ⟨(hmem y).mpr hrow, hseq⟩
  · rw [hanswers]
    exact h.answered y ((hmem y).mp hy)

theorem Inv.step {a : Action} (h : Inv s) (hstep : Paging.step s a = some s') : Inv s' := by
  cases a with
  | insert index clock =>
    simp only [Paging.step] at hstep
    generalize hrun : MsgIndexDao.insert (fun i => ⟨true, clock i, .none, .none⟩) index s.mysql = r
      at hstep
    obtain ⟨answer, mysql⟩ := r
    split at hstep
    · next hfits =>
      cases hstep
      rcases insert_cases hrun with ⟨now, row, rfl, hrows⟩ | ⟨rfl, hrows, x, hx⟩
      · exact h.added hrows hfits
      · exact h.refused hrows hx hfits
    · cases hstep
  | spend =>
    simp only [Paging.step] at hstep
    split at hstep
    · next hlt =>
      cases hstep
      exact ⟨hlt, ⟨Nat.succ_pos _, h.positive.2⟩, h.answers, h.answered⟩
    · cases hstep

/-- In every state of every run of inserts, a fetch behind any answer returns the
first later rows, and a client that pages on with the answers gets every later
row once and in order. -/
theorem paged_run (actions : List Action) : HoldsAlong step Paged .start actions :=
  holdsAlong_of_step (fun _ _ _ (h : Inv _) hstep => h.step hstep) (fun _ h => h.paged) inv_start

end Paging

end IMSystem.Message

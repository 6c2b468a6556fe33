import IMSystem.Lib.Run
import IMSystem.Message.Pulling

/-!
# The order in which messages are pulled

`PullOfflineMessages` takes the ids from the index, in primary key order, and
the bodies from the collection, in the order in which they were inserted;
nothing sorts the bodies afterwards. Here any number of calls of `SaveMessage`
run at the same time against stores that do not fail, each with a `msg_id` of
its own, and a run is one order of their steps.

Results:
1. `pulled_ids_eq_iff`: the two orders agree for the ids that are a sublist of
   the ids of the documents.
2. `saveMessage_of_run`: the steps of one call, one right after the other, are
   `SaveMessage`.
3. `ordered_run`: the two orders agree in every state of every run.
-/

namespace IMSystem.Message

open Lib Retry

namespace DeliveryOrder

open MessageService

/-! ## Calls at the same time -/

/-- How far a call of `SaveMessage` has come. -/
inductive Progress where
  /-- The body is not written yet. -/
  | body
  /-- The body is written, and the loop around the INSERT into `message_index`
  is about to make an attempt. -/
  | index (attempt : Nat)
  | returned (newSeqId : Bytes)
deriving DecidableEq, Repr

/-- A call of `SaveMessage`. -/
structure Saving where
  msg : LogicChatMsg
  progress : Progress
deriving DecidableEq, Repr

/-- The calls made so far, and the stores they share. -/
structure State where
  saves : List Saving
  stores : Stores

/-- No call yet, and the stores as they are set up. -/
def State.start : State := ⟨[], .initial⟩

inductive Action where
  /-- `SaveMessage` is called. -/
  | call (msg : LogicChatMsg)
  /-- A call writes its body. -/
  | body (k : Nat)
  /-- A call makes an attempt to write its index. -/
  | index (k : Nat) (nowMs : Int64)

/-- One step of one call. -/
def step (s : State) : Action → Option State
  | .call msg =>
    if msg.msgId ∉ s.saves.map (·.msg.msgId) then
      some { s with saves := s.saves ++ [⟨msg, .body⟩] }
    else none
  | .body k =>
    match s.saves[k]? with
    | some ⟨msg, .body⟩ =>
      match MsgBodyDao.insert (SaveEnv.clean fun _ => 0).body (bodyOf msg) s.stores.messages with
      | (true, messages) =>
        some ⟨s.saves.set k ⟨msg, .index 0⟩, { s.stores with messages := messages }⟩
      | (false, messages) =>
        some ⟨s.saves.set k ⟨msg, .returned []⟩, { s.stores with messages := messages }⟩
    | _ => none
  | .index k nowMs =>
    match s.saves[k]? with
    | some ⟨msg, .index attempt⟩ =>
      match MsgIndexDao.insertAttempt ⟨true, nowMs, .none, .none⟩ (indexOf msg) s.stores.mysql with
      | (.ok newSeqId, mysql) =>
        some ⟨s.saves.set k ⟨msg, .returned newSeqId⟩, { s.stores with mysql := mysql }⟩
      | (.error _, mysql) =>
        match afterFailure 3 attempt with
        | some next => some ⟨s.saves.set k ⟨msg, .index next⟩, { s.stores with mysql := mysql }⟩
        | none => some ⟨s.saves.set k ⟨msg, .returned []⟩, { s.stores with mysql := mysql }⟩
    | _ => none

/-- The ids that `FetchOfflineMsgIds` returns. -/
def fetched (st : Stores) (userId : UInt64) (cursor : Bytes) (limit : Int32) : List Bytes :=
  MsgIndexDao.fetchOfflineMsgIds (fun _ => .clean) st.mysql.messageIndex userId cursor limit

/-- Whatever is pulled comes in the order of the ids fetched, which are those of
some rows in index order, and no id comes twice. -/
def Ordered (s : State) : Prop :=
  ∀ (fresh : Nat → Uninitialized) (userId : UInt64) (cursor : Bytes) (limit : Int32),
    (pullOfflineMessages (.clean fresh) s.stores userId cursor limit).map (·.msgId) =
      fetched s.stores userId cursor limit ∧
    (fetched s.stores userId cursor limit).Nodup ∧
    ∃ found : List (Nat × IndexRow), found.Sublist s.stores.rows ∧
      found.Pairwise (fun a b => a.1 < b.1) ∧
      found.map (·.2.msgId) = fetched s.stores userId cursor limit

/-! ## The two orders -/

/-- The members of `m` among distinct elements come in the order of `m` exactly
when `m` has them in their order. -/
theorem filter_contains_eq_iff {α : Type} [BEq α] [LawfulBEq α] {l m : List α} (h : l.Nodup) :
    l.filter m.contains = m ↔ m.Sublist l := by
  constructor
  · intro heq
    rw [← heq]
    exact List.filter_sublist
  · intro hsub
    induction hsub with
    | slnil => rfl
    | @cons m l a hsub ih =>
      rw [List.nodup_cons] at h
      have ha : a ∉ m := fun hmem => h.1 (hsub.subset hmem)
      rw [List.filter_cons_of_neg (by simpa using ha)]
      exact ih h.2
    | @cons_cons m l a hsub ih =>
      rw [List.nodup_cons] at h
      have hrest : ∀ x ∈ l, (a :: m).contains x = m.contains x := by
        intro x hx
        have hne : x ≠ a := fun heq => h.1 (heq ▸ hx)
        simp [hne]
      rw [List.filter_cons_of_pos (by simp), List.filter_congr hrest, ih h.2]

/-- Undisturbed, a pull returns the documents under the ids fetched, in the
order of the documents. -/
theorem pulled_ids (fresh : Nat → Uninitialized) (st : Stores) (userId : UInt64) (cursor : Bytes)
    (limit : Int32) :
    (pullOfflineMessages (.clean fresh) st userId cursor limit).map (·.msgId) =
      (st.messages.map (·.msgId)).filter (fetched st userId cursor limit).contains := by
  show (if (fetched st userId cursor limit).isEmpty then [] else _).map _ = _
  split
  · next h =>
    rw [List.isEmpty_iff] at h
    simp [h]
  · rw [PullEnv.clean, MsgBodyDao.batchGet_clean, List.filter_map]
    refine List.ext_getElem? fun i => ?_
    simp [fetched, assemble, Function.comp_def]

theorem pulled_ids_eq_iff (fresh : Nat → Uninitialized) {st : Stores} (userId : UInt64)
    (cursor : Bytes) (limit : Int32) (h : (st.messages.map (·.msgId)).Nodup) :
    (pullOfflineMessages (.clean fresh) st userId cursor limit).map (·.msgId) =
        fetched st userId cursor limit ↔
      (fetched st userId cursor limit).Sublist (st.messages.map (·.msgId)) := by
  rw [pulled_ids, filter_contains_eq_iff h]

/-- Two rows of one receiver, as a `seq_id` of its own for each row would allow
them, and their bodies inserted in the other order. -/
def bodiesSwapped : Stores where
  messages := [bodyOf (textMsg "m2" 1 2 "second"), bodyOf (textMsg "m1" 1 2 "first")]
  mysql :=
    let row (msg : LogicChatMsg) : IndexRow :=
      { MsgIndexDao.rowOf (indexOf msg) 0 with seqId := msg.msgId }
    let (_, t) := IndexTable.initial.insert (row (textMsg "m1" 1 2 "first"))
    let (_, t) := t.insert (row (textMsg "m2" 1 2 "second"))
    ⟨t, 2⟩

-- nothing but the unique key keeps such rows out
example : (pullOfflineMessages (.clean zeros) bodiesSwapped 2 [] 10).map (·.msgId) =
    (fetched bodiesSwapped 2 [] 10).reverse := by decide +kernel

/-- Undisturbed, a query returns the ids of rows of the receiver in index order:
none at all when its cursor or its limit is refused. -/
theorem fetched_rows (st : Stores) (userId : UInt64) (cursor : Bytes) (limit : Int32) :
    ∃ found : List (Nat × IndexRow),
      found.Sublist (st.rows.filter fun x => x.2.receiverId == userId) ∧
      found.map (·.2.msgId) = fetched st userId cursor limit := by
  have hrefused : (∀ ids, (MsgIndexDao.fetchAttempt .clean st.mysql.messageIndex userId cursor limit
      ids).2 = ids) → fetched st userId cursor limit = [] := by
    intro hsame
    rw [fetched, MsgIndexDao.fetchOfflineMsgIds, executeWithRetryVoid_eq, executeWithRetry_eq]
    exact Eff.retry_inv (fun ids => ids = []) (fun _ ids hids => (hsame ids).trans hids) _ _ [] rfl
  cases hlast : MsgIndexDao.lastId cursor with
  | error e =>
    refine ⟨[], List.nil_sublist _, (hrefused fun ids => ?_).symm⟩
    simp [MsgIndexDao.fetchAttempt, ReadAttempt.clean, hlast]
  | ok last =>
    by_cases hlimit : limit < 0
    · refine ⟨[], List.nil_sublist _, (hrefused fun ids => ?_).symm⟩
      simp [MsgIndexDao.fetchAttempt, ReadAttempt.clean, hlast, hlimit]
    · refine ⟨MsgIndexDao.offlineRows st.mysql.messageIndex userId last limit, ?_,
        (MsgIndexDao.fetchOfflineMsgIds_clean hlast hlimit).symm⟩
      refine (List.take_sublist _ _).trans (List.monotone_filter_right _ fun x hx => ?_)
      exact (Bool.and_eq_true _ _ ▸ hx).1

/-! ## Steps -/

/-- All that writing a body does. -/
theorem step_body {s s' : State} {k : Nat} (h : step s (.body k) = some s') :
    ∃ msg, s.saves[k]? = some ⟨msg, .body⟩ ∧
      s' = ⟨s.saves.set k ⟨msg, .index 0⟩,
        { s.stores with messages := s.stores.messages ++ [bodyOf msg] }⟩ := by
  simp only [step] at h
  split at h
  · next msg hk =>
    rw [insert_clean] at h
    exact ⟨msg, hk, (Option.some.inj h).symm⟩
  · cases h

/-- All that an attempt to write an index does: it adds the row of its message
to a free slot, and no row to a taken one. -/
theorem step_index {s s' : State} {k : Nat} {nowMs : Int64}
    (h : step s (.index k nowMs) = some s') :
    ∃ msg attempt progress, s.saves[k]? = some ⟨msg, .index attempt⟩ ∧ progress ≠ .body ∧
      s'.saves = s.saves.set k ⟨msg, progress⟩ ∧ s'.stores.messages = s.stores.messages ∧
      (s'.stores.rows = s.stores.rows ∨
        s'.stores.rows = s.stores.rows ++
          [(s.stores.mysql.messageIndex.next, MsgIndexDao.rowOf (indexOf msg) nowMs)]) := by
  simp only [step] at h
  split at h
  · next msg attempt hk =>
    by_cases htaken : s.stores.mysql.messageIndex.Taken
        ((indexOf msg).receiverId, (indexOf msg).seqId)
    · obtain ⟨e, db, heq, hrows⟩ :=
        MsgIndexDao.insertAttempt_taken (a := ⟨true, nowMs, .none, .none⟩) htaken
      rw [heq] at h
      dsimp only at h
      split at h
      · cases h
        exact ⟨msg, attempt, _, hk, Progress.noConfusion, rfl, rfl, .inl hrows⟩
      · cases h
        exact ⟨msg, attempt, _, hk, Progress.noConfusion, rfl, rfl, .inl hrows⟩
    · rcases MsgIndexDao.insertAttempt_free (a := ⟨true, nowMs, .none, .none⟩) htaken with
        ⟨hmissed, _⟩ | ⟨db, hdb, ⟨_, heq⟩ | ⟨hunreported, _⟩⟩
      · cases hmissed
      · rw [heq] at h
        cases h
        exact ⟨msg, attempt, _, hk, Progress.noConfusion, rfl, rfl,
          .inr (congrArg Table.rows hdb)⟩
      · cases hunreported
  · cases h

/-! ## One call on its own -/

/-- The attempts of one call, one right after the other, are the retry loop. -/
theorem run_index {s : State} {k : Nat} {msg : LogicChatMsg} (clock : Nat → Int64)
    {left attempt : Nat} (hleft : attempt + left = 3)
    (hk : s.saves[k]? = some ⟨msg, .index attempt⟩) {r : Except Exn Bytes} {db : MySql}
    (hr : Eff.retry (fun i => MsgIndexDao.insertAttempt ((SaveEnv.clean clock).index i)
      (indexOf msg)) left attempt s.stores.mysql = (r, db)) :
    ∃ n, run step s ((List.range' attempt n).map fun i => .index k (clock i)) =
      some ⟨s.saves.set k ⟨msg, .returned (r.toOption.getD [])⟩,
        { s.stores with mysql := db }⟩ := by
  have hlt := (List.getElem?_eq_some_iff.mp hk).1
  induction left generalizing s attempt with
  | zero =>
    obtain rfl : attempt = 3 := hleft
    refine ⟨1, ?_⟩
    have hcall : MsgIndexDao.insertAttempt ⟨true, clock 3, .none, .none⟩ (indexOf msg)
        s.stores.mysql = (r, db) := hr
    cases r with
    | ok seq => simp [run, step, hk, hcall, Except.toOption]
    | error e => simp [run, step, hk, hcall, Except.toOption, afterFailure]
  | succ left ih =>
    obtain ⟨r', db', hcall⟩ : ∃ r' db', MsgIndexDao.insertAttempt
        ⟨true, clock attempt, .none, .none⟩ (indexOf msg) s.stores.mysql = (r', db') :=
      ⟨_, _, rfl⟩
    cases r' with
    | ok seq =>
      rw [Eff.retry_of_ok hcall] at hr
      cases hr
      exact ⟨1, by simp [run, step, hk, hcall, Except.toOption]⟩
    | error e =>
      rw [Eff.retry_of_error hcall] at hr
      have hnext : afterFailure 3 attempt = some (attempt + 1) := by
        rw [afterFailure, if_neg (by omega)]
      have hstep : step s (.index k (clock attempt)) =
          some ⟨s.saves.set k ⟨msg, .index (attempt + 1)⟩, { s.stores with mysql := db' }⟩ := by
        simp [step, hk, hcall, hnext]
      have hk' : (s.saves.set k ⟨msg, .index (attempt + 1)⟩)[k]? =
          some ⟨msg, .index (attempt + 1)⟩ := List.getElem?_set_self hlt
      obtain ⟨n, hn⟩ := @ih ⟨s.saves.set k ⟨msg, .index (attempt + 1)⟩,
        { s.stores with mysql := db' }⟩ (attempt + 1) (by omega) hk' hr (by simpa using hlt)
      refine ⟨n + 1, ?_⟩
      rw [List.range'_succ, List.map_cons, run_cons hstep, hn, List.set_set]

/-- The steps of one call, one right after the other, are `SaveMessage`. -/
theorem saveMessage_of_run {s : State} {k : Nat} {msg : LogicChatMsg} (clock : Nat → Int64)
    (hk : s.saves[k]? = some ⟨msg, .body⟩) :
    ∃ n, run step s (.body k :: (List.range' 0 n).map fun i => .index k (clock i)) =
      some ⟨s.saves.set k ⟨msg, .returned (saveMessage (.clean clock) msg s.stores).1⟩,
        (saveMessage (.clean clock) msg s.stores).2⟩ := by
  have hlt := (List.getElem?_eq_some_iff.mp hk).1
  have hstep : step s (.body k) = some ⟨s.saves.set k ⟨msg, .index 0⟩,
      { s.stores with messages := s.stores.messages ++ [bodyOf msg] }⟩ := by
    simp only [step, hk, insert_clean]
  obtain ⟨r, db, hr⟩ : ∃ r db, Eff.retry (fun i => MsgIndexDao.insertAttempt
      ((SaveEnv.clean clock).index i) (indexOf msg)) 3 0 s.stores.mysql = (r, db) := ⟨_, _, rfl⟩
  have hk' : (s.saves.set k ⟨msg, .index 0⟩)[k]? = some ⟨msg, .index 0⟩ :=
    List.getElem?_set_self hlt
  obtain ⟨n, hn⟩ := @run_index ⟨s.saves.set k ⟨msg, .index 0⟩,
    { s.stores with messages := s.stores.messages ++ [bodyOf msg] }⟩ k msg clock 3 0
    (Nat.zero_add 3) hk' r db hr
  have hinsert : MsgIndexDao.insert (SaveEnv.clean clock).index (indexOf msg) s.stores.mysql =
      (r.toOption.getD [], db) := by
    rw [MsgIndexDao.insert, executeWithRetry_eq, show (3 : Int).toNat = 3 from rfl, hr]
    cases r with
    | ok seq => rfl
    | error e => rfl
  have hsave : saveMessage (.clean clock) msg s.stores = (r.toOption.getD [],
      { messages := s.stores.messages ++ [bodyOf msg], mysql := db }) := by
    rw [saveMessage, insert_clean]
    dsimp only
    rw [hinsert]
    dsimp only
    split
    · next hempty => rw [List.isEmpty_iff.mp hempty]
    · rfl
  refine ⟨n, ?_⟩
  rw [run_cons hstep, hn, hsave, List.set_set]

/-! ## What holds in every run -/

/-- The unique key leaves one row to each receiver; every row has a document,
and the documents have distinct ids, because the calls have. -/
structure Inv (s : State) : Prop where
  slot : ∀ x ∈ s.stores.rows, x.2.seqId = []
  joined : ∀ x ∈ s.stores.rows, x.2.msgId ∈ s.stores.messages.map (·.msgId)
  distinct : (s.stores.messages.map (·.msgId)).Nodup
  calls : (s.saves.map (·.msg.msgId)).Nodup
  called : ∀ id ∈ s.stores.messages.map (·.msgId), id ∈ s.saves.map (·.msg.msgId)
  /-- The document of a call is there from the moment it is written. -/
  written : ∀ v ∈ s.saves,
    (v.msg.msgId ∈ s.stores.messages.map (·.msgId) ↔ v.progress ≠ .body)

theorem inv_start : Inv .start where
  slot := by simp [State.start, Stores.initial, Stores.rows, IndexTable.initial, Table.empty]
  joined := by simp [State.start, Stores.initial, Stores.rows, IndexTable.initial, Table.empty]
  distinct := List.nodup_nil
  calls := List.nodup_nil
  called := by simp [State.start, Stores.initial]
  written := by simp [State.start]

/-- A call that moves on stays the call of its message. -/
theorem map_msgId_set {saves : List Saving} {k : Nat} {v : Saving} (hk : saves[k]? = some v)
    (progress : Progress) :
    (saves.set k ⟨v.msg, progress⟩).map (·.msg.msgId) = saves.map (·.msg.msgId) := by
  obtain ⟨hlt, rfl⟩ := List.getElem?_eq_some_iff.mp hk
  rw [List.map_set]
  refine List.ext_getElem (by simp) fun j hj _ => ?_
  rw [List.getElem_set]
  split
  · next heq =>
    subst heq
    simp
  · rfl

/-- With distinct ids, a call among the others after one of them moved on is this
one, or another call with another id. -/
theorem mem_set_of_nodup {saves : List Saving} {k : Nat} {v : Saving}
    (hnodup : (saves.map (·.msg.msgId)).Nodup) (hk : saves[k]? = some v) {w u : Saving}
    (hu : u ∈ saves.set k w) : u = w ∨ u ∈ saves ∧ u.msg.msgId ≠ v.msg.msgId := by
  obtain ⟨j, hj⟩ := List.mem_iff_getElem?.mp hu
  rw [List.getElem?_set] at hj
  split at hj
  · next hkj =>
    split at hj
    · exact .inl (Option.some.inj hj).symm
    · cases hj
  · next hkj =>
    refine .inr ⟨List.mem_of_getElem? hj, fun heq => hkj ?_⟩
    have hlt : k < (saves.map (·.msg.msgId)).length := by
      simpa using (List.getElem?_eq_some_iff.mp hk).1
    refine (List.getElem?_inj hlt hnodup).mp ?_
    simp [hk, hj, heq]

theorem Inv.call {s : State} (h : Inv s) {msg : LogicChatMsg}
    (hnew : msg.msgId ∉ s.saves.map (·.msg.msgId)) :
    Inv { s with saves := s.saves ++ [⟨msg, .body⟩] } where
  slot := h.slot
  joined := h.joined
  distinct := h.distinct
  calls := by
    rw [List.map_append, List.nodup_append]
    refine ⟨h.calls, by simp, fun a ha b hb => ?_⟩
    obtain rfl : b = msg.msgId := by simpa using hb
    exact fun heq => hnew (heq ▸ ha)
  called := fun id hid => by
    rw [List.map_append]
    exact List.mem_append_left _ (h.called id hid)
  written := fun v hv => by
    rcases List.mem_append.mp hv with hv | hv
    · exact h.written v hv
    · obtain rfl := List.mem_singleton.mp hv
      exact iff_of_false (fun hmem => hnew (h.called _ hmem)) (fun hne => hne rfl)

theorem Inv.body {s : State} (h : Inv s) {k : Nat} {msg : LogicChatMsg}
    (hk : s.saves[k]? = some ⟨msg, .body⟩) :
    Inv ⟨s.saves.set k ⟨msg, .index 0⟩,
      { s.stores with messages := s.stores.messages ++ [bodyOf msg] }⟩ := by
  have hnew : msg.msgId ∉ s.stores.messages.map (·.msgId) := fun hmem =>
    (h.written _ (List.mem_of_getElem? hk)).mp hmem rfl
  have hids : (s.stores.messages ++ [bodyOf msg]).map (·.msgId) =
      s.stores.messages.map (·.msgId) ++ [msg.msgId] := by
    rw [List.map_append]
    rfl
  have hcalls := map_msgId_set hk (.index 0)
  refine ⟨h.slot, fun x hx => ?_, ?_, ?_, fun id hid => ?_, fun v hv => ?_⟩
  · rw [hids]
    exact List.mem_append_left _ (h.joined x hx)
  · rw [hids, List.nodup_append]
    refine ⟨h.distinct, by simp, fun a ha b hb => ?_⟩
    obtain rfl := List.mem_singleton.mp hb
    exact fun heq => hnew (heq ▸ ha)
  · rw [hcalls]
    exact h.calls
  · rw [hcalls]
    rw [hids, List.mem_append] at hid
    rcases hid with hid | hid
    · exact h.called id hid
    · obtain rfl := List.mem_singleton.mp hid
      exact List.mem_map.mpr ⟨_, List.mem_of_getElem? hk, rfl⟩
  · rw [hids, List.mem_append, List.mem_singleton]
    rcases mem_set_of_nodup h.calls hk hv with rfl | ⟨hold, hne⟩
    · exact iff_of_true (.inr rfl) Progress.noConfusion
    · rw [or_iff_left hne]
      exact h.written v hold

theorem Inv.index {s s' : State} (h : Inv s) {k : Nat} {msg : LogicChatMsg} {attempt : Nat}
    {progress : Progress} {nowMs : Int64} (hk : s.saves[k]? = some ⟨msg, .index attempt⟩)
    (hprogress : progress ≠ .body) (hsaves : s'.saves = s.saves.set k ⟨msg, progress⟩)
    (hmsgs : s'.stores.messages = s.stores.messages)
    (hrows : s'.stores.rows = s.stores.rows ∨ s'.stores.rows = s.stores.rows ++
      [(s.stores.mysql.messageIndex.next, MsgIndexDao.rowOf (indexOf msg) nowMs)]) : Inv s' := by
  have hdoc : msg.msgId ∈ s.stores.messages.map (·.msgId) :=
    (h.written _ (List.mem_of_getElem? hk)).mpr Progress.noConfusion
  have hcalls := map_msgId_set hk progress
  have hmem : ∀ x ∈ s'.stores.rows, x ∈ s.stores.rows ∨
      x.2 = MsgIndexDao.rowOf (indexOf msg) nowMs := by
    intro x hx
    rcases hrows with hrows | hrows
    · exact .inl (hrows ▸ hx)
    · rw [hrows, List.mem_append, List.mem_singleton] at hx
      exact hx.imp_right fun heq => congrArg Prod.snd heq
  refine ⟨fun x hx => ?_, fun x hx => ?_, ?_, ?_, fun id hid => ?_, fun v hv => ?_⟩
  · rcases hmem x hx with hold | hrow
    · exact h.slot x hold
    · rw [hrow]
      rfl
  · rw [hmsgs]
    rcases hmem x hx with hold | hrow
    · exact h.joined x hold
    · rw [hrow]
      exact hdoc
  · rw [hmsgs]
    exact h.distinct
  · rw [hsaves, hcalls]
    exact h.calls
  · rw [hsaves, hcalls]
    exact h.called id (hmsgs ▸ hid)
  · rw [hmsgs]
    rw [hsaves] at hv
    rcases mem_set_of_nodup h.calls hk hv with rfl | ⟨hold, _⟩
    · exact iff_of_true hdoc hprogress
    · exact h.written v hold

theorem Inv.step {s s' : State} {a : Action} (h : Inv s) (hstep : step s a = some s') :
    Inv s' := by
  cases a with
  | call msg =>
    simp only [DeliveryOrder.step] at hstep
    split at hstep
    · next hnew =>
      cases hstep
      exact h.call hnew
    · cases hstep
  | body k =>
    obtain ⟨msg, hk, rfl⟩ := step_body hstep
    exact h.body hk
  | index k nowMs =>
    obtain ⟨msg, attempt, progress, hk, hprogress, hsaves, hmsgs, hrows⟩ := step_index hstep
    exact h.index hk hprogress hsaves hmsgs hrows

/-- One row to a receiver cannot come in the wrong order. -/
theorem Inv.ordered {s : State} (h : Inv s) : Ordered s := by
  intro fresh userId cursor limit
  obtain ⟨found, hsub, hfound⟩ := fetched_rows s.stores userId cursor limit
  have hrows : found.Sublist s.stores.rows := hsub.trans List.filter_sublist
  have hone : (fetched s.stores userId cursor limit).length ≤ 1 := by
    rw [← hfound, List.length_map]
    exact hsub.length_le.trans (rows_of_receiver_le_one h.slot userId)
  have hdocs : ∀ id ∈ fetched s.stores userId cursor limit,
      id ∈ s.stores.messages.map (·.msgId) := by
    rw [← hfound]
    intro id hid
    obtain ⟨x, hx, rfl⟩ := List.mem_map.mp hid
    exact h.joined x (hrows.subset hx)
  have hnodup : (fetched s.stores userId cursor limit).Nodup ∧
      (fetched s.stores userId cursor limit).Sublist (s.stores.messages.map (·.msgId)) := by
    match hids : fetched s.stores userId cursor limit with
    | [] => exact ⟨List.nodup_nil, List.nil_sublist _⟩
    | [id] =>
      exact ⟨List.nodup_singleton id, List.singleton_sublist.mpr (hdocs id (by simp [hids]))⟩
    | _ :: _ :: _ =>
      rw [hids] at hone
      exact absurd hone (by simp)
  exact ⟨(pulled_ids_eq_iff fresh userId cursor limit h.distinct).mpr hnodup.2, hnodup.1, found,
    hrows, s.stores.mysql.messageIndex.sorted.sublist hrows, hfound⟩

/-- In every state of every run, a pull returns the messages whose ids a query
returns, in index order and without repetition. -/
theorem ordered_run (actions : List Action) : HoldsAlong step Ordered .start actions :=
  holdsAlong_of_step (fun _ _ _ (h : Inv _) hstep => h.step hstep) (fun _ h => h.ordered) inv_start

-- two receivers, bodies in one order and rows in the other
example : (run step .start [.call (textMsg "m1" 1 2 "hi"), .call (textMsg "m2" 1 3 "hi"), .body 0,
    .body 1, .index 1 0, .index 0 0]).map (fun s => s.stores.rows.map (·.2.msgId)) =
      some [str "m2", str "m1"] := by decide +kernel

end DeliveryOrder

end IMSystem.Message

import IMSystem.Lib.Reading
import IMSystem.Message.Service

/-!
# Calls of the message service at the same time

`SaveMessage` and `PullOfflineMessages` as programs on the two stores: each attempt of
each DAO call is one step, and between two of them other calls may make theirs.

Results:
1. `yields_saveMessage`, `yields_pullOfflineMessages`: when nothing else runs, these
   are the calls of `MessageService`.
-/

namespace IMSystem.Message.Concurrent

open Lib Retry MessageService

/-! ## The calls -/

/-- What the environment does to one attempt. The second statement of an index attempt
reads only what its connection keeps for itself, so each attempt is one step. -/
structure Env where
  body : BodyAttempt
  index : IndexAttempt
  read : ReadAttempt

section Calls

variable {α : Type}

def onMessages (m : Call (List MsgBody) α) : Call Stores α :=
  Eff.zoom (fun st => st.messages) (fun st messages => { st with messages := messages }) m

def onMysql (m : Call MySql α) : Call Stores α :=
  Eff.zoom (fun st => st.mysql) (fun st mysql => { st with mysql := mysql }) m

theorem retry_onMessages (calls : Nat → Call (List MsgBody) α) (left attempt : Nat) :
    Eff.retry (fun i => onMessages (calls i)) left attempt =
      onMessages (Eff.retry calls left attempt) := by
  unfold onMessages
  rw [Eff.retry_zoom]
  · exact fun _ _ => rfl
  · exact fun _ _ _ => rfl

theorem retry_onMysql (calls : Nat → Call MySql α) (left attempt : Nat) :
    Eff.retry (fun i => onMysql (calls i)) left attempt =
      onMysql (Eff.retry calls left attempt) := by
  unfold onMysql
  rw [Eff.retry_zoom]
  · exact fun _ _ => rfl
  · exact fun _ _ _ => rfl

end Calls

/-- One attempt of the lambda in `MsgBodyDao::Insert`. -/
def insertBodyAttempt (msg : MsgBody) : ExceptT Exn (Prog Env Stores) Bool :=
  Prog.atomic fun env => onMessages (MsgBodyDao.insertAttempt env.body msg)

/-- `MsgBodyDao::Insert`. -/
def insertBody (msg : MsgBody) : Prog Env Stores Bool :=
  (Steps.executeWithRetry 3 (insertBodyAttempt msg)).run >>= fun
    | .ok ok => .ret ok
    | .error _ => .ret false

/-- One attempt of the lambda in `MsgIndexDao::Insert`. -/
def insertIndexAttempt (index : MsgIndex) : ExceptT Exn (Prog Env Stores) Bytes :=
  Prog.atomic fun env => onMysql (MsgIndexDao.insertAttempt env.index index)

/-- `MsgIndexDao::Insert`. -/
def insertIndex (index : MsgIndex) : Prog Env Stores Bytes :=
  (Steps.executeWithRetry 3 (insertIndexAttempt index)).run >>= fun
    | .ok seq => .ret seq
    | .error _ => .ret []

/-- `MessageService::SaveMessage`. -/
def saveMessage (msg : LogicChatMsg) : Prog Env Stores Bytes :=
  insertBody (bodyOf msg) >>= fun
    | false => .ret []
    | true => insertIndex (indexOf msg) >>= fun newSeqId =>
      if newSeqId.isEmpty then .ret [] else .ret newSeqId

/-- A call of `PullOfflineMessages`; `fresh` is what its local messages hold before
they are assigned. -/
structure Pull where
  userId : UInt64
  beginSeq : Bytes
  limit : Int32
  fresh : Nat → Uninitialized

/-- `MsgIndexDao::FetchOfflineMsgIds`. -/
def fetchOfflineMsgIds (p : Pull) : Prog Env Stores (List Bytes) :=
  Prog.retryOn (fun env st =>
    MsgIndexDao.fetchAttempt env.read st.mysql.messageIndex p.userId p.beginSeq p.limit) 3 [] >>=
    fun r => .ret r.2

/-- `MsgBodyDao::BatchGet`. -/
def batchGet (msgIds : List Bytes) : Prog Env Stores (List MsgBody) :=
  if msgIds.isEmpty then .ret []
  else
    Prog.retryOn (fun env st => MsgBodyDao.batchGetAttempt env.read st.messages msgIds) 3 [] >>=
      fun r => .ret r.2

/-- `MessageService::PullOfflineMessages`. -/
def pullOfflineMessages (p : Pull) : Prog Env Stores (List LogicChatMsg) :=
  fetchOfflineMsgIds p >>= fun msgIds =>
    if msgIds.isEmpty then .ret []
    else batchGet msgIds >>= fun bodies =>
      .ret (bodies.mapIdx fun i body => assemble (p.fresh i) body)

/-! ## One call on its own -/

/-- Faults that touch nothing but the attempts to write a body. -/
def Env.ofBody (a : BodyAttempt) : Env := ⟨a, ⟨true, 0, .none, .none⟩, .clean⟩

/-- Faults that touch nothing but the attempts to write an index. -/
def Env.ofIndex (a : IndexAttempt) : Env := ⟨⟨true, .none⟩, a, .clean⟩

/-- Faults that touch nothing but the attempts to read. -/
def Env.ofRead (a : ReadAttempt) : Env := ⟨⟨true, .none⟩, ⟨true, 0, .none, .none⟩, a⟩

instance : Nonempty Env := ⟨.ofRead .clean⟩

theorem insertBody_apply (attempts : Nat → BodyAttempt) (msg : MsgBody) (messages : List MsgBody) :
    MsgBodyDao.insert attempts msg messages =
      ((Eff.retry (fun i => MsgBodyDao.insertAttempt (attempts i) msg) 3 0 messages).1.toOption.getD false,
        (Eff.retry (fun i => MsgBodyDao.insertAttempt (attempts i) msg) 3 0 messages).2) := by
  rw [MsgBodyDao.insert, executeWithRetry_eq, show (3 : Int).toNat = 3 from rfl]
  match Eff.retry (fun i => MsgBodyDao.insertAttempt (attempts i) msg) 3 0 messages with
  | (.ok ok, messages) => rfl
  | (.error _, messages) => rfl

theorem insertIndex_apply (attempts : Nat → IndexAttempt) (index : MsgIndex) (db : MySql) :
    MsgIndexDao.insert attempts index db =
      ((Eff.retry (fun i => MsgIndexDao.insertAttempt (attempts i) index) 3 0 db).1.toOption.getD [],
        (Eff.retry (fun i => MsgIndexDao.insertAttempt (attempts i) index) 3 0 db).2) := by
  rw [MsgIndexDao.insert, executeWithRetry_eq, show (3 : Int).toNat = 3 from rfl]
  match Eff.retry (fun i => MsgIndexDao.insertAttempt (attempts i) index) 3 0 db with
  | (.ok seq, db) => rfl
  | (.error _, db) => rfl

theorem yields_insertBody {msg : MsgBody} {st st' : Stores} {ok : Bool} :
    (insertBody msg).Yields st ok st' ↔ ∃ attempts : Nat → BodyAttempt,
      MsgBodyDao.insert attempts msg st.messages = (ok, st'.messages) ∧ st'.mysql = st.mysql := by
  unfold insertBody
  rw [Steps.executeWithRetry_eq]
  have hruns := (Prog.RunsAs.atomic fun env : Env =>
    onMessages (MsgBodyDao.insertAttempt env.body msg)).retry (3 : Int).toNat
  refine (hruns.handled (f := fun r => r.toOption.getD false) fun r => ?_).trans ?_
  · cases r with
    | ok ok => rfl
    | error e => rfl
  · simp only [retry_onMessages, insertBody_apply, Prod.mk.injEq]
    constructor
    · rintro ⟨xs, rfl, rfl⟩
      exact ⟨fun i => (xs i).body, ⟨rfl, rfl⟩, rfl⟩
    · rintro ⟨attempts, ⟨rfl, hmessages⟩, hmysql⟩
      refine ⟨fun i => .ofBody (attempts i), rfl, ?_⟩
      obtain ⟨messages, mysql⟩ := st'
      cases hmysql
      cases hmessages
      rfl

theorem yields_insertIndex {index : MsgIndex} {st st' : Stores} {seq : Bytes} :
    (insertIndex index).Yields st seq st' ↔ ∃ attempts : Nat → IndexAttempt,
      MsgIndexDao.insert attempts index st.mysql = (seq, st'.mysql) ∧
        st'.messages = st.messages := by
  unfold insertIndex
  rw [Steps.executeWithRetry_eq]
  have hruns := (Prog.RunsAs.atomic fun env : Env =>
    onMysql (MsgIndexDao.insertAttempt env.index index)).retry (3 : Int).toNat
  refine (hruns.handled (f := fun r => r.toOption.getD []) fun r => ?_).trans ?_
  · cases r with
    | ok seq => rfl
    | error e => rfl
  · simp only [retry_onMysql, insertIndex_apply, Prod.mk.injEq]
    constructor
    · rintro ⟨xs, rfl, rfl⟩
      exact ⟨fun i => (xs i).index, ⟨rfl, rfl⟩, rfl⟩
    · rintro ⟨attempts, ⟨rfl, hmysql⟩, hmessages⟩
      refine ⟨fun i => .ofIndex (attempts i), rfl, ?_⟩
      obtain ⟨messages, mysql⟩ := st'
      cases hmysql
      cases hmessages
      rfl

/-- When nothing else runs, `SaveMessage` is that of the message service. -/
theorem yields_saveMessage {msg : LogicChatMsg} {st st' : Stores} {seq : Bytes} :
    (saveMessage msg).Yields st seq st' ↔
      ∃ env : SaveEnv, MessageService.saveMessage env msg st = (seq, st') := by
  unfold saveMessage
  rw [Prog.yields_bind]
  constructor
  · rintro ⟨ok, t, hbody, hrest⟩
    obtain ⟨body, hbody, hmysql⟩ := yields_insertBody.mp hbody
    cases ok with
    | false =>
      obtain ⟨rfl, rfl⟩ := Prog.yields_ret.mp hrest
      refine ⟨⟨body, fun _ => ⟨true, 0, .none, .none⟩⟩, ?_⟩
      rw [MessageService.saveMessage, hbody, ← hmysql]
    | true =>
      obtain ⟨newSeqId, t', hindex, hlast⟩ := Prog.yields_bind.mp hrest
      obtain ⟨index, hindex, hmessages⟩ := yields_insertIndex.mp hindex
      refine ⟨⟨body, index⟩, ?_⟩
      rw [MessageService.saveMessage, hbody]
      dsimp only
      rw [← hmysql, hindex]
      dsimp only
      split at hlast
      · next hempty =>
        obtain ⟨rfl, rfl⟩ := Prog.yields_ret.mp hlast
        rw [if_pos hempty, ← hmessages]
      · next hfull =>
        obtain ⟨rfl, rfl⟩ := Prog.yields_ret.mp hlast
        rw [if_neg hfull, ← hmessages]
  · rintro ⟨env, hsave⟩
    match hbody : MsgBodyDao.insert env.body (bodyOf msg) st.messages with
    | (false, messages) =>
      rw [MessageService.saveMessage, hbody] at hsave
      cases hsave
      exact ⟨false, { st with messages := messages },
        yields_insertBody.mpr ⟨env.body, hbody, rfl⟩, .ret⟩
    | (true, messages) =>
      match hindex : MsgIndexDao.insert env.index (indexOf msg) st.mysql with
      | (newSeqId, mysql) =>
        rw [MessageService.saveMessage, hbody] at hsave
        dsimp only at hsave
        rw [hindex] at hsave
        dsimp only at hsave
        refine ⟨true, { st with messages := messages },
          yields_insertBody.mpr ⟨env.body, hbody, rfl⟩, Prog.yields_bind.mpr
            ⟨newSeqId, ⟨messages, mysql⟩, yields_insertIndex.mpr ⟨env.index, hindex, rfl⟩, ?_⟩⟩
        split at hsave
        · next hempty =>
          cases hsave
          rw [if_pos hempty]
          exact .ret
        · next hfull =>
          cases hsave
          rw [if_neg hfull]
          exact .ret

theorem yields_fetchOfflineMsgIds {p : Pull} {st st' : Stores} {msgIds : List Bytes} :
    (fetchOfflineMsgIds p).Yields st msgIds st' ↔ st' = st ∧ ∃ attempts : Nat → ReadAttempt,
      msgIds = MsgIndexDao.fetchOfflineMsgIds attempts st.mysql.messageIndex p.userId p.beginSeq
        p.limit := by
  unfold fetchOfflineMsgIds
  simp only [Prog.yields_bind, Prog.yields_ret, Prog.yields_retryOn 0,
    MsgIndexDao.fetchOfflineMsgIds, executeWithRetryVoid_eq, executeWithRetry_eq]
  constructor
  · rintro ⟨_, _, ⟨rfl, envs, rfl⟩, rfl, rfl⟩
    exact ⟨rfl, fun i => (envs i).read, rfl⟩
  · rintro ⟨rfl, attempts, rfl⟩
    exact ⟨_, _, ⟨rfl, fun i => .ofRead (attempts i), rfl⟩, rfl, rfl⟩

theorem yields_batchGet {msgIds : List Bytes} {st st' : Stores} {bodies : List MsgBody} :
    (batchGet msgIds).Yields st bodies st' ↔ st' = st ∧ ∃ attempts : Nat → ReadAttempt,
      bodies = MsgBodyDao.batchGet attempts st.messages msgIds := by
  unfold batchGet MsgBodyDao.batchGet
  split
  · rw [Prog.yields_ret]
    constructor
    · rintro ⟨rfl, rfl⟩
      exact ⟨rfl, fun _ => .clean, rfl⟩
    · rintro ⟨rfl, _, rfl⟩
      exact ⟨rfl, rfl⟩
  · simp only [Prog.yields_bind, Prog.yields_ret, Prog.yields_retryOn 0, executeWithRetryVoid_eq,
      executeWithRetry_eq]
    constructor
    · rintro ⟨_, _, ⟨rfl, envs, rfl⟩, rfl, rfl⟩
      exact ⟨rfl, fun i => (envs i).read, rfl⟩
    · rintro ⟨rfl, attempts, rfl⟩
      exact ⟨_, _, ⟨rfl, fun i => .ofRead (attempts i), rfl⟩, rfl, rfl⟩

/-- When nothing else runs, `PullOfflineMessages` is that of the message service. -/
theorem yields_pullOfflineMessages {p : Pull} {st st' : Stores} {messages : List LogicChatMsg} :
    (pullOfflineMessages p).Yields st messages st' ↔
      st' = st ∧ ∃ fetch batch : Nat → ReadAttempt,
        messages = MessageService.pullOfflineMessages ⟨fetch, batch, p.fresh⟩ st p.userId p.beginSeq
          p.limit := by
  unfold pullOfflineMessages MessageService.pullOfflineMessages
  rw [Prog.yields_bind]
  constructor
  · rintro ⟨msgIds, t, hfetch, hrest⟩
    obtain ⟨rfl, fetch, rfl⟩ := yields_fetchOfflineMsgIds.mp hfetch
    split at hrest
    · next hempty =>
      obtain ⟨rfl, rfl⟩ := Prog.yields_ret.mp hrest
      exact ⟨rfl, fetch, fun _ => .clean, (if_pos hempty).symm⟩
    · next hfull =>
      obtain ⟨bodies, t', hbatch, hlast⟩ := Prog.yields_bind.mp hrest
      obtain ⟨rfl, batch, rfl⟩ := yields_batchGet.mp hbatch
      obtain ⟨rfl, rfl⟩ := Prog.yields_ret.mp hlast
      exact ⟨rfl, fetch, batch, (if_neg hfull).symm⟩
  · rintro ⟨rfl, fetch, batch, rfl⟩
    refine ⟨_, _, yields_fetchOfflineMsgIds.mpr ⟨rfl, fetch, rfl⟩, ?_⟩
    dsimp only
    split
    · exact .ret
    · exact Prog.yields_bind.mpr
        ⟨_, _, yields_batchGet.mpr ⟨rfl, batch, rfl⟩, .ret⟩

end IMSystem.Message.Concurrent

import IMSystem.Dao.RetriedWrites
import IMSystem.Lib.Run

/-!
# Adding friends (`FriendService::AddFriend`)

To add a friend takes several calls of the DAOs: whether the target exists, whether the two
are friends already, and the upsert. Nothing joins them into one, a failed lookup counts as a
missing user and a failed `IsFriend` as no friendship. Any number of these calls run at the
same time. Each attempt of a DAO call is one step, as it runs one statement.

Results:
1. `findById_yields`, `isFriend_yields`, `addFriend_yields`: alone, the calls in steps do what
   the DAO calls do.
2. `ensures_addFriend`: a call reports success only once the two are friends.
3. `consistent_along`: in every run there is one row for each pair, none of a user with himself,
   and whoever was told that he has a new friend has one.
4. `friendWrites_safe`: this, and that the writes under it can be retried.
-/

namespace IMSystem.User

open Lib Retry

/-- The tables of the user service. -/
structure Database (collate : Bytes → Bytes) where
  users : Users collate
  friends : UserFriends

/-- A call of `AddFriend`. -/
structure FriendRequest where
  userId : UInt64
  targetUserId : UInt64
deriving DecidableEq, Repr

namespace FriendService

variable {collate : Bytes → Bytes} {α : Type}

def onUsers (m : Call (Users collate) α) : Call (Database collate) α :=
  Eff.zoom Database.users (fun db users => { db with users := users }) m

def onFriends (m : Call UserFriends α) : Call (Database collate) α :=
  Eff.zoom Database.friends (fun db friends => { db with friends := friends }) m

theorem onUsers_apply (m : Call (Users collate) α) (db : Database collate) :
    onUsers m db = ((m db.users).1, { db with users := (m db.users).2 }) := rfl

theorem onFriends_apply (m : Call UserFriends α) (db : Database collate) :
    onFriends m db = ((m db.friends).1, { db with friends := (m db.friends).2 }) := rfl

/-! ## The calls in steps -/

namespace Stepwise

/-- `UserDao::FindById`. -/
def findById (userId : UInt64) : Prog StatementAttempt (Database collate) (Option UserModel) := do
  match ← (Steps.executeWithRetry 3 (Prog.atomic fun a =>
      onUsers (UserDao.findByIdAttempt a userId))).run with
  | .ok user => pure user
  | .error _ => pure none

/-- `FriendDao::IsFriend`. -/
def isFriend (userId friendId : UInt64) : Prog StatementAttempt (Database collate) Bool := do
  match ← (Steps.executeWithRetry 3 (Prog.atomic fun a =>
      onFriends (FriendDao.isFriendAttempt a userId friendId))).run with
  | .ok found => pure found
  | .error _ => pure false

/-- `FriendDao::AddFriend`. -/
def addFriend (userId friendId : UInt64) : Prog StatementAttempt (Database collate) Bool := do
  match ← (Steps.executeWithRetryVoid 3 (Prog.atomic fun a =>
      onFriends (a.run (FriendDao.upsertStatement userId friendId)))).run with
  | .ok () => pure true
  | .error _ => pure false

end Stepwise

/-- `FriendService::AddFriend`. -/
def addFriend (userId targetUserId : UInt64) : Prog StatementAttempt (Database collate) Bool := do
  if userId == targetUserId then return false
  let target ← Stepwise.findById targetUserId
  if target.isNone then return false
  if ← Stepwise.isFriend userId targetUserId then return false
  let ok ← Stepwise.addFriend userId targetUserId
  if !ok then return false
  return true

/-! ### Alone

When nothing else runs, the calls in steps are those of the DAOs. -/

theorem retried_runsAs (m : StatementAttempt → Call (Database collate) α) :
    Prog.RunsAs (Prog.retry (Prog.atomic m) 3) fun attempts : Nat → StatementAttempt =>
      Eff.retry (fun i => m (attempts i)) 3 0 :=
  have : Nonempty StatementAttempt := ⟨.quiet⟩
  (Prog.RunsAs.atomic m).retry 3

theorem retry_onUsers (calls : Nat → Call (Users collate) α) (left attempt : Nat) :
    Eff.retry (fun i => onUsers (calls i)) left attempt = onUsers (Eff.retry calls left attempt) := by
  refine Eff.retry_zoom ?_ ?_ calls left attempt
  · exact fun _ _ => rfl
  · exact fun _ _ _ => rfl

theorem retry_onFriends (calls : Nat → Call UserFriends α) (left attempt : Nat) :
    Eff.retry (fun i => (onFriends (calls i) : Call (Database collate) α)) left attempt =
      onFriends (Eff.retry calls left attempt) := by
  refine Eff.retry_zoom ?_ ?_ calls left attempt
  · exact fun _ _ => rfl
  · exact fun _ _ _ => rfl

/-- Calls that only read leave the state alone, however often they are retried. -/
theorem retry_reads {σ : Type} {calls : Nat → Call σ α} (h : ∀ i s, (calls i s).2 = s)
    (left attempt : Nat) (s : σ) : (Eff.retry calls left attempt s).2 = s :=
  Eff.retry_inv (fun t => t = s) (fun i t ht => (h i t).trans ht) left attempt s rfl

/-- An attempt at a statement that reads leaves the state alone. -/
theorem run_read {σ : Type} (a : StatementAttempt) (f : σ → α) (s : σ) :
    (a.run (Eff.read f) s).2 = s := by
  rcases a.run_cases (Eff.read f) s with ⟨e, h⟩ | ⟨e, h⟩ | h
  · rw [h]
  · rw [h]
    rfl
  · rw [h]
    rfl

theorem findByIdAttempt_reads (a : StatementAttempt) (userId : UInt64) (users : Users collate) :
    (UserDao.findByIdAttempt a userId users).2 = users := by
  refine Eff.Keeps.bind (P := fun t => t = users) (fun t ht => (run_read a _ t).trans ht)
    (fun res => ?_) users rfl
  cases res with
  | some x => exact fun _ h => h
  | none => exact fun _ h => h

theorem isFriendAttempt_reads (a : StatementAttempt) (userId friendId : UInt64)
    (friends : UserFriends) :
    (FriendDao.isFriendAttempt a userId friendId friends).2 = friends :=
  Eff.Keeps.bind (P := fun t => t = friends) (fun t ht => (run_read a _ t).trans ht)
    (fun _ _ h => h) friends rfl

/-- A retried read, and what becomes of its result. -/
theorem reads_yields {β : Type} {m : StatementAttempt → Call (Database collate) α}
    (hm : ∀ a db, (m a db).2 = db) {f : Except Exn α → β}
    {next : Except Exn α → Prog StatementAttempt (Database collate) β}
    (hnext : ∀ r, next r = .ret (f r)) {db db' : Database collate} {b : β} :
    ((Prog.retry (Prog.atomic m) 3).run >>= next).Yields db b db' ↔
      (∃ attempts : Nat → StatementAttempt,
        b = f (Eff.retry (fun i => m (attempts i)) 3 0 db).1) ∧ db' = db := by
  refine ((retried_runsAs m).handled hnext).trans
    ((exists_congr fun attempts => ?_).trans exists_and_right)
  rw [retry_reads fun i db => hm (attempts i) db]

section Yields

variable {userId friendId : UInt64} {db db' : Database collate}

theorem findById_yields {user : Option UserModel} :
    (Stepwise.findById userId).Yields db user db' ↔
      (∃ attempts, user = UserDao.findById attempts db.users userId) ∧ db' = db := by
  unfold Stepwise.findById
  rw [Steps.executeWithRetry_eq]
  refine (reads_yields (f := fun r => match r with
    | .ok user => user
    | .error _ => none) (fun a db => ?_) fun r => ?_).trans
      (and_congr_left' (exists_congr fun attempts => ?_))
  · rw [onUsers_apply, findByIdAttempt_reads]
  · cases r with
    | ok user => rfl
    | error e => rfl
  · rw [retry_onUsers, onUsers_apply]
    unfold UserDao.findById
    rw [executeWithRetry_eq]
    exact Iff.rfl

theorem isFriend_yields {found : Bool} :
    (Stepwise.isFriend userId friendId).Yields db found db' ↔
      (∃ attempts, found = FriendDao.isFriend attempts db.friends userId friendId) ∧ db' = db := by
  unfold Stepwise.isFriend
  rw [Steps.executeWithRetry_eq]
  refine (reads_yields (f := fun r => match r with
    | .ok found => found
    | .error _ => false) (fun a db => ?_) fun r => ?_).trans
      (and_congr_left' (exists_congr fun attempts => ?_))
  · rw [onFriends_apply, isFriendAttempt_reads]
  · cases r with
    | ok found => rfl
    | error e => rfl
  · rw [retry_onFriends, onFriends_apply]
    unfold FriendDao.isFriend
    rw [executeWithRetry_eq]
    exact Iff.rfl

theorem addFriend_yields {ok : Bool} :
    (Stepwise.addFriend userId friendId).Yields db ok db' ↔
      ∃ attempts, (ok, db'.friends) = FriendDao.addFriend userId friendId attempts db.friends ∧
        db'.users = db.users := by
  unfold Stepwise.addFriend
  rw [Steps.executeWithRetryVoid_eq, Steps.executeWithRetry_eq]
  refine ((retried_runsAs _).handled (f := Except.isOk) fun r => ?_).trans
    (exists_congr fun attempts => ?_)
  · cases r with
    | ok u => rfl
    | error e => rfl
  · unfold FriendDao.addFriend
    rw [Dao.retriedWrite_eq, retry_onFriends, onFriends_apply]
    constructor
    · rintro ⟨rfl, rfl⟩
      exact ⟨rfl, rfl⟩
    · rintro ⟨hfriends, husers⟩
      obtain ⟨users', friends'⟩ := db'
      cases hfriends
      cases husers
      exact ⟨rfl, rfl⟩

end Yields

/-! ## Calls at the same time -/

/-- Nothing is noted down. -/
def record (_ : Nat) (_ _ : Database collate) (history : Unit) : Unit := history

variable (collate) in
/-- The tables, and the calls started so far. -/
abbrev State := Threads FriendRequest StatementAttempt (Database collate) Unit Bool

/-- The tables, before any call. -/
def State.start (db : Database collate) : State collate := ⟨db, (), []⟩

inductive Action where
  /-- `AddFriend` is called. -/
  | call (r : FriendRequest)
  /-- The `k`-th call makes its next step. -/
  | step (k : Nat) (a : StatementAttempt)

/-- One step. -/
def step (s : State collate) : Action → Option (State collate)
  | .call r => some (s.spawn r (addFriend r.userId r.targetUserId))
  | .step k a => Threads.step record s k a

structure Consistent (s : State collate) : Prop where
  /-- No two rows are of the same pair. -/
  unique : ∀ x ∈ s.shared.friends.rows, ∀ y ∈ s.shared.friends.rows,
    x.2.userId = y.2.userId → x.2.friendId = y.2.friendId → x = y
  noSelf : FriendDao.NoSelf s.shared.friends
  /-- Behind every success `IsFriend` is true, if it is answered. -/
  friends : ∀ k r, s.Returned k r true → ∀ attempts, attempts 0 = .quiet →
    FriendDao.isFriend attempts s.shared.friends r.userId r.targetUserId = true

/-! ## What every step respects -/

/-- No step brings a user together with himself, and none ends a friendship. -/
structure Respects (w w' : Database collate × Unit) : Prop where
  noSelf : FriendDao.NoSelf w.1.friends → FriendDao.NoSelf w'.1.friends
  befriended : ∀ u f, FriendDao.Befriended w.1.friends u f → FriendDao.Befriended w'.1.friends u f

instance : IsPreorder (Database collate × Unit) Respects where
  refl _ := ⟨id, fun _ _ h => h⟩
  trans _ _ _ h h' := ⟨h'.noSelf ∘ h.noSelf, fun u f hf => h'.befriended u f (h.befriended u f hf)⟩

theorem respects_of_same_friends {w w' : Database collate × Unit}
    (h : w'.1.friends = w.1.friends) : Respects w w' where
  noSelf hw := h ▸ hw
  befriended _ _ hw := h ▸ hw

/-- The upsert of two different users, whether it is reported or not. -/
theorem respects_upsert {userId friendId : UInt64} (hne : userId ≠ friendId)
    (w : Database collate × Unit) :
    Respects w ({ w.1 with
        friends := (FriendDao.upsertStatement userId friendId w.1.friends).2 }, w.2) ∧
      ((FriendDao.upsertStatement userId friendId w.1.friends).1 = .ok () →
        FriendDao.Befriended (FriendDao.upsertStatement userId friendId w.1.friends).2 userId
          friendId) := by
  unfold FriendDao.upsertStatement
  split
  · exact ⟨⟨fun h => h.upsert hne, fun u f h => h.upsert userId friendId⟩,
      fun _ => FriendDao.befriended_upsert w.1.friends userId friendId⟩
  · exact ⟨refl w, fun h => by cases h⟩

/-! ## What a call ensures -/

section Ensures

variable {k : Nat} {w : Database collate × Unit}

/-- An attempt that leaves the friends alone. -/
theorem ensures_read {m : StatementAttempt → Call (Database collate) α}
    (hm : ∀ a db, (m a db).2.friends = db.friends) :
    (Prog.atomic m).run.Ensures (record k) Respects (fun _ _ => True) w :=
  Prog.Ensures.atomic fun w' _ a =>
    ⟨respects_of_same_friends (hm a w'.1), fun _ _ => trivial⟩

theorem ensures_findById (userId : UInt64) :
    (Stepwise.findById userId : Prog StatementAttempt (Database collate) _).Ensures (record k)
      Respects (fun _ _ => True) w := by
  unfold Stepwise.findById
  rw [Steps.executeWithRetry_eq]
  refine Prog.Ensures.retried (fun w => ensures_read fun _ _ => rfl) (fun r => ?_) _
  cases r with
  | ok user => exact ⟨user, rfl⟩
  | error e => exact ⟨none, rfl⟩

theorem ensures_isFriend (userId friendId : UInt64) :
    (Stepwise.isFriend userId friendId : Prog StatementAttempt (Database collate) _).Ensures
      (record k) Respects (fun _ _ => True) w := by
  unfold Stepwise.isFriend
  rw [Steps.executeWithRetry_eq]
  refine Prog.Ensures.retried (fun w => ensures_read fun a db =>
    isFriendAttempt_reads a userId friendId db.friends) (fun r => ?_) _
  cases r with
  | ok found => exact ⟨found, rfl⟩
  | error e => exact ⟨false, rfl⟩

/-- An attempt that returns has made the two friends, and they stay friends. -/
theorem ensures_upsert {userId friendId : UInt64} (hne : userId ≠ friendId) :
    (Prog.atomic fun a => onFriends (a.run (FriendDao.upsertStatement userId friendId)) :
      ExceptT Exn (Prog StatementAttempt (Database collate)) Unit).run.Ensures (record k) Respects
        (fun r w => r = .ok () → FriendDao.Befriended w.1.friends userId friendId) w := by
  refine Prog.Ensures.atomic fun w' _ a => ?_
  obtain ⟨hrespects, hfriends⟩ := respects_upsert hne w'
  unfold Prog.after
  dsimp only
  rw [onFriends_apply]
  rcases a.run_cases (FriendDao.upsertStatement userId friendId) w'.1.friends with
    ⟨e, h⟩ | ⟨e, h⟩ | h
  · rw [h]
    exact ⟨refl w', fun _ _ hok => by cases hok⟩
  · rw [h]
    exact ⟨hrespects, fun _ _ hok => by cases hok⟩
  · rw [h]
    exact ⟨hrespects, fun w'' hw'' hok => hw''.befriended _ _ (hfriends hok)⟩

theorem ensures_insertFriend {userId friendId : UInt64} (hne : userId ≠ friendId) :
    (Stepwise.addFriend userId friendId : Prog StatementAttempt (Database collate) _).Ensures
      (record k) Respects
        (fun ok w => ok = true → FriendDao.Befriended w.1.friends userId friendId) w := by
  unfold Stepwise.addFriend
  rw [Steps.executeWithRetryVoid_eq, Steps.executeWithRetry_eq]
  refine (Prog.Ensures.retry (fun w _ => ensures_upsert hne) (fun _ _ _ => trivial)
    trivial _).bind fun r w hr => ?_
  cases r with
  | ok u => exact hr.mono fun w h _ => h rfl
  | error e => exact fun _ _ hok => by cases hok

/-- A call that reports success has made the two friends. -/
theorem ensures_addFriend (userId targetUserId : UInt64) :
    (addFriend userId targetUserId : Prog StatementAttempt (Database collate) _).Ensures
      (record k) Respects
        (fun ok w => ok = true → FriendDao.Befriended w.1.friends userId targetUserId) w := by
  have hfails : ∀ w : Database collate × Unit,
      (pure false : Prog StatementAttempt (Database collate) Bool).Ensures (record k) Respects
        (fun ok w => ok = true → FriendDao.Befriended w.1.friends userId targetUserId) w :=
    fun w _ _ hok => by cases hok
  unfold addFriend
  split
  · exact hfails w
  · next hself =>
    have hne : userId ≠ targetUserId := by simpa using hself
    refine (ensures_findById targetUserId).bind fun target w _ => ?_
    split
    · exact hfails w
    · refine (ensures_isFriend userId targetUserId).bind fun found w _ => ?_
      split
      · exact hfails w
      · refine (ensures_insertFriend hne).bind fun ok w hok => ?_
        cases ok with
        | true => exact hok
        | false => exact hfails w

end Ensures

/-! ## What holds in every run -/

/-- The invariant of the rows, and what each call ensures from where it is on. -/
structure RunInv (s : State collate) : Prop where
  rows : FriendDao.NoSelf s.shared.friends
  calls : Threads.Good record Respects
    (fun _ r ok w => ok = true → FriendDao.Befriended w.1.friends r.userId r.targetUserId) s

theorem runInv_start {db : Database collate} (h : FriendDao.NoSelf db.friends) :
    RunInv (.start db) where
  rows := h
  calls := by simp [Threads.Good, State.start]

theorem RunInv.step {s s' : State collate} {a : Action} (h : RunInv s)
    (hstep : FriendService.step s a = some s') : RunInv s' := by
  cases a with
  | call r =>
    cases hstep
    exact ⟨h.rows, h.calls.spawn (ensures_addFriend r.userId r.targetUserId)⟩
  | step k a =>
    obtain ⟨hrespects, hgood⟩ := h.calls.step hstep
    exact ⟨hrespects.noSelf h.rows, hgood⟩

theorem RunInv.consistent {s : State collate} (h : RunInv s) : Consistent s where
  unique _ hx _ hy huser hfriend :=
    List.inj_on_of_nodup_map s.shared.friends.unique hx hy (Prod.ext huser hfriend)
  noSelf := h.rows
  friends _ _ hk _ hquiet :=
    (FriendDao.isFriend_quiet hquiet _ _ _).mpr (h.calls.returned hk rfl)

/-- In every run of `AddFriend` calls, each of them at any step and under any pattern of
faults, the rows are as they should be. -/
theorem consistent_along {db : Database collate} (h : FriendDao.NoSelf db.friends)
    (actions : List Action) : HoldsAlong step Consistent (.start db) actions :=
  holdsAlong_of_step (fun _ _ _ (h : RunInv _) hstep => h.step hstep)
    (fun _ h => h.consistent) (runInv_start h)

/-- The writes of the two DAOs can be retried, and the calls of `AddFriend` above them never
spoil the table of friends. -/
theorem friendWrites_safe :
    (∀ userId friendId, Dao.RetrySafe (FriendDao.upsertStatement userId friendId)
      (fun x => x.2.idxUserFriend = (userId, friendId)) (FriendDao.addFriend userId friendId)) ∧
    (∀ userId friendId, Dao.RetrySafe (FriendDao.deleteStatement userId friendId)
      (fun x => x.2.idxUserFriend = (userId, friendId))
      (FriendDao.removeFriend userId friendId)) ∧
    (∀ user, Dao.RetrySafe (Eff.modify (UserDao.updateStatement user) : Eff Exn (Users collate) Unit)
      (fun x => x.1 = user.userId.toNat) (UserDao.update user)) ∧
    (∀ userId, Dao.RetrySafe
      (Eff.modify (UserDao.deleteStatement userId) : Eff Exn (Users collate) Unit)
      (fun x => x.1 = userId.toNat) (UserDao.delete userId)) ∧
    ∀ db : Database collate, FriendDao.NoSelf db.friends →
      ∀ actions, HoldsAlong step Consistent (.start db) actions :=
  ⟨Dao.addFriend_retrySafe, Dao.removeFriend_retrySafe, Dao.update_retrySafe,
    Dao.delete_retrySafe, fun _ => consistent_along⟩

/-- The first user has blocked the second. -/
def blocked : Database id where
  users := {
    rows := [(1, ⟨str "a", [], [], [], 0⟩), (2, ⟨str "b", [], [], [], 0⟩)]
    next := 3
    sorted := by decide
    bounded := by decide
    unique := by decide }
  friends := {
    rows := [(1, ⟨1, 2, 2⟩)]
    next := 2
    sorted := by decide
    bounded := by decide
    unique := by decide }

/-- The one asks twice at the same time; the answer to the first upsert is lost. -/
def askTwice : List Action :=
  [.call ⟨1, 2⟩, .call ⟨1, 2⟩, .step 0 .quiet, .step 1 .quiet, .step 0 .quiet, .step 1 .quiet,
    .step 0 ⟨true, .after⟩, .step 1 .quiet, .step 0 .quiet]

theorem friendWrites_safe_twice : HoldsAlong step Consistent (.start blocked) askTwice :=
  friendWrites_safe.2.2.2.2 blocked (by decide) askTwice

-- both report success, and the row has become that of a friend
example : (run step (.start blocked) askTwice).map (fun s =>
    (s.shared.friends.rows, s.threads.map fun x =>
      match x.2 with
      | .ret ok => some ok
      | .act .. => none)) = some ([(1, ⟨1, 2, 1⟩)], [some true, some true]) := by decide +kernel

end FriendService

end IMSystem.User

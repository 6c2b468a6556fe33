import IMSystem.User.Registration

/-!
# Registrations that fail (`AuthService::Register`)

The INSERT of a registration and the query for the new id are two statements
inside of one retried action. An attempt whose INSERT took effect and that then
fails is repeated, and runs into its own row.

Here one registration runs alone, and each attempt has an environment of its
own: its connection, and what becomes of each of its statements.

Results:
1. `register_runsAs`: these are the runs of `AuthService.register` alone.
2. `insert_unable`, `insert_free`: what an insert leaves behind.
3. `leavesNoRow_iff`: when a rejected registration leaves no row behind.
-/

namespace IMSystem.User

open Lib Retry

/-- The environment of one attempt of `FindByUsername`. -/
structure LookupAttempt where
  connection : Option Session
  select : Fault
deriving DecidableEq, Inhabited, Repr

/-- The environment of one attempt of `Insert`. -/
structure InsertAttempt where
  connection : Option Session
  insert : Fault
  selectId : Fault
deriving DecidableEq, Inhabited, Repr

/-- The INSERT of the attempt does not take effect. -/
def InsertAttempt.Missed (a : InsertAttempt) : Prop := a.connection = none ∨ a.insert = .before

/-- The INSERT of the attempt takes effect, and the attempt raises all the same. -/
def InsertAttempt.Unreported (a : InsertAttempt) : Prop :=
  ¬ a.Missed ∧ (a.insert = .after ∨ a.selectId ≠ .none)

/-- The first INSERT that takes effect is not reported. -/
def Lost (inserts : Nat → InsertAttempt) : Prop :=
  ∃ k ≤ 3, (∀ i < k, (inserts i).Missed) ∧ (inserts k).Unreported

theorem Lost.of_first {inserts : Nat → InsertAttempt} (h : Lost inserts) {k : Nat}
    (hbefore : ∀ i < k, (inserts i).Missed) (hnot : ¬ (inserts k).Missed) :
    (inserts k).Unreported := by
  obtain ⟨j, _, hmissed, hun⟩ := h
  rcases Nat.lt_trichotomy j k with hlt | rfl | hgt
  · exact absurd (hbefore j hlt) hun.1
  · exact hun
  · exact absurd (hmissed k hgt) hnot

namespace Alone

variable {collate : Bytes → Bytes}

/-! ## Calls -/

def getConnection (connection : Option Session) : Call (Users collate) Session :=
  match connection with
  | some conn => pure conn
  | none => Eff.raise noConnection

/-- One attempt of the lambda in `FindByUsername`. -/
def findByUsernameAttempt (a : LookupAttempt) (username : Bytes) :
    Call (Users collate) (Option UserModel) := do
  let _conn ← getConnection a.connection
  let res ← Eff.under a.select dbError (UserDao.selectByUsername username)
  match res with
  | some (id, row) => pure (some (UserDao.userOf id row))
  | none => pure none

/-- `UserDao::FindByUsername`. -/
def findByUsername (lookups : Nat → LookupAttempt) (username : Bytes) :
    Call (Users collate) (Option UserModel) := fun users =>
  match executeWithRetry 3 (fun i => findByUsernameAttempt (lookups i) username) users with
  | (.ok user, users) => (.ok user, users)
  | (.error _, users) => (.ok none, users)

theorem findByUsername_apply (lookups : Nat → LookupAttempt) (username : Bytes)
    (users : Users collate) : findByUsername lookups username users =
      match Eff.retry (fun i => findByUsernameAttempt (lookups i) username) 3 0 users with
      | (.ok user, users) => (.ok user, users)
      | (.error _, users) => (.ok none, users) := by
  rw [findByUsername, executeWithRetry_eq]
  rfl

/-- One attempt of the lambda in `Insert`. -/
def insertAttempt (a : InsertAttempt) (user : UserModel) : Call (Users collate) UInt64 := do
  let conn ← getConnection a.connection
  let conn ← Eff.under a.insert dbError (UserDao.insertStatement (UserDao.rowOf user) conn)
  let res ← Eff.under a.selectId dbError (UserDao.selectLastInsertId conn)
  match res with
  | some id => pure (UInt64.ofNat id)
  | none => pure 0

/-- `UserDao::Insert`. -/
def insert (inserts : Nat → InsertAttempt) (user : UserModel) :
    Call (Users collate) (Bool × UInt64) := fun users =>
  match executeWithRetry 3 (fun i => insertAttempt (inserts i) user) users with
  | (.ok outUserId, users) => (.ok (outUserId != 0, outUserId), users)
  | (.error _, users) => (.ok (false, 0), users)

theorem insert_apply (inserts : Nat → InsertAttempt) (user : UserModel) (users : Users collate) :
    insert inserts user users =
      match Eff.retry (fun i => insertAttempt (inserts i) user) 3 0 users with
      | (.ok outUserId, users) => (.ok (outUserId != 0, outUserId), users)
      | (.error _, users) => (.ok (false, 0), users) := by
  rw [insert, executeWithRetry_eq]
  rfl

-- `BCrypt::generateHash` with the salt that it draws
variable (generateHash : Bytes → Nat → Bytes → Except Exn Bytes)

/-- The `model::User` that `Register` builds. -/
def newUser (call : Registration) (hashedPw : Bytes) : UserModel where
  username := call.username
  passwordHash := hashedPw
  nickname := call.nickname
  avatarUrl := str "http://mock/avatar.jpg"

/-- What `AuthService::Register` does when the lookup has found nobody. -/
def registerFree (inserts : Nat → InsertAttempt) (call : Registration) :
    Call (Users collate) (Bool × Bytes × UInt64) := do
  let hashedPw ← Eff.ofExcept (AuthService.hashPassword generateHash call.salt call.password)
  let (inserted, newUserId) ← insert inserts (newUser call hashedPw)
  if !inserted || newUserId == 0 then pure (false, str "SERVER_INTERNAL_ERROR", 0)
  else pure (true, str "SUCCESS", newUserId)

/-- `AuthService::Register`. -/
def register (lookups : Nat → LookupAttempt) (inserts : Nat → InsertAttempt) (call : Registration) :
    Call (Users collate) (Bool × Bytes × UInt64) := do
  let existing ← findByUsername lookups call.username
  if existing.isSome then pure (false, str "USER_ALREADY_EXISTS", 0)
  else registerFree generateHash inserts call

/-! ## The runs of a registration alone -/

section Runs

open Prog

theorem getConnection_runsAs :
    RunsAs (UserDao.getConnection : Dao collate Session) getConnection :=
  (RunsAs.atomic _).reindex (fun env => ⟨env.connection, rfl⟩)
    fun connection => ⟨⟨connection, .none⟩, rfl⟩

theorem execute_runsAs {α : Type} (statement : Eff Exn (Users collate) α) :
    RunsAs (UserDao.execute statement) fun fault => Eff.under fault dbError statement :=
  (RunsAs.atomic _).reindex (fun env => ⟨env.fault, rfl⟩) fun fault => ⟨⟨none, fault⟩, rfl⟩

theorem findByUsernameAttempt_runsAs (username : Bytes) :
    RunsAs (UserDao.findByUsernameAttempt username : Dao collate _)
      fun a => findByUsernameAttempt a username := by
  have hres : ∀ res : Option (Nat × UserRow), RunsAs
      (match res with
        | some (id, row) => pure (some (UserDao.userOf id row))
        | none => pure none : Dao collate _)
      fun _ : Unit => match res with
        | some (id, row) => pure (some (UserDao.userOf id row))
        | none => pure none := by
    intro res
    cases res with
    | some x => exact RunsAs.pure _
    | none => exact RunsAs.pure _
  refine (getConnection_runsAs.bind fun _ => (execute_runsAs _).bind hres).reindex ?_ ?_
  · rintro ⟨connection, select, _⟩
    exact ⟨⟨connection, select⟩, rfl⟩
  · intro a
    exact ⟨(a.connection, a.select, ()), rfl⟩

theorem findByUsername_runsAs (username : Bytes) :
    RunsAs (ExceptT.lift (UserDao.findByUsername username) : Dao collate _)
      fun lookups => findByUsername lookups username := by
  unfold UserDao.findByUsername
  rw [Steps.executeWithRetry_eq]
  refine ((findByUsernameAttempt_runsAs username).retry 3).recover fun r => ?_
  cases r with
  | ok user =>
    refine ⟨user, rfl, fun lookups users users' hrun => ?_⟩
    rw [findByUsername_apply, hrun]
  | error e =>
    refine ⟨none, rfl, fun lookups users users' hrun => ?_⟩
    rw [findByUsername_apply, hrun]

theorem insertAttempt_runsAs (user : UserModel) :
    RunsAs (UserDao.insertAttempt user : Dao collate _) fun a => insertAttempt a user := by
  have hres : ∀ res : Option Nat, RunsAs
      (match res with
        | some id => pure (UInt64.ofNat id)
        | none => pure 0 : Dao collate _)
      fun _ : Unit => match res with
        | some id => pure (UInt64.ofNat id)
        | none => pure 0 := by
    intro res
    cases res with
    | some id => exact RunsAs.pure _
    | none => exact RunsAs.pure _
  refine (getConnection_runsAs.bind fun _ => (execute_runsAs _).bind fun _ =>
    (execute_runsAs _).bind hres).reindex ?_ ?_
  · rintro ⟨connection, ins, selectId, _⟩
    exact ⟨⟨connection, ins, selectId⟩, rfl⟩
  · intro a
    exact ⟨(a.connection, a.insert, a.selectId, ()), rfl⟩

theorem insert_runsAs (user : UserModel) :
    RunsAs (ExceptT.lift (UserDao.insert user) : Dao collate _)
      fun inserts => insert inserts user := by
  unfold UserDao.insert
  rw [Steps.executeWithRetry_eq]
  refine ((insertAttempt_runsAs user).retry 3).recover fun r => ?_
  cases r with
  | ok outUserId =>
    refine ⟨(outUserId != 0, outUserId), rfl, fun inserts users users' hrun => ?_⟩
    rw [insert_apply, hrun]
  | error e =>
    refine ⟨(false, 0), rfl, fun inserts users users' hrun => ?_⟩
    rw [insert_apply, hrun]

theorem registerFree_runsAs (call : Registration) :
    RunsAs
      (do
        let hashedPw ← ExceptT.mk
          (pure (AuthService.hashPassword generateHash call.salt call.password))
        let (inserted, newUserId) ← ExceptT.lift (UserDao.insert (newUser call hashedPw))
        if !inserted || newUserId == 0 then pure (false, str "SERVER_INTERNAL_ERROR", 0)
        else pure (true, str "SUCCESS", newUserId) : Dao collate (Bool × Bytes × UInt64))
      fun inserts => registerFree generateHash inserts call := by
  have hhash : RunsAs
      (ExceptT.mk (pure (AuthService.hashPassword generateHash call.salt call.password)) :
        Dao collate Bytes)
      fun _ : Unit => Eff.ofExcept (AuthService.hashPassword generateHash call.salt call.password) :=
    RunsAs.ofExcept _
  have hanswer : ∀ result : Bool × UInt64, RunsAs
      (if !result.1 || result.2 == 0 then pure (false, str "SERVER_INTERNAL_ERROR", 0)
        else pure (true, str "SUCCESS", result.2) : Dao collate (Bool × Bytes × UInt64))
      fun _ : Unit =>
        if !result.1 || result.2 == 0 then pure (false, str "SERVER_INTERNAL_ERROR", 0)
        else pure (true, str "SUCCESS", result.2) := by
    intro result
    by_cases hfailed : !result.1 || result.2 == 0
    · simp only [if_pos hfailed]
      exact RunsAs.pure _
    · simp only [if_neg hfailed]
      exact RunsAs.pure _
  refine (hhash.bind fun hashedPw =>
    (insert_runsAs (newUser call hashedPw)).bind hanswer).reindex ?_ ?_
  · rintro ⟨_, inserts, _⟩
    exact ⟨inserts, rfl⟩
  · intro inserts
    exact ⟨((), inserts, ()), rfl⟩

/-- These are the runs of `AuthService.register` when no other request runs. -/
theorem register_runsAs (call : Registration) :
    RunsAs (AuthService.register generateHash call : Dao collate _)
      fun env : (Nat → LookupAttempt) × (Nat → InsertAttempt) =>
        register generateHash env.1 env.2 call := by
  let next (inserts : Nat → InsertAttempt) (existing : Option UserModel) :
      Call (Users collate) (Bool × Bytes × UInt64) :=
    if existing.isSome then pure (false, str "USER_ALREADY_EXISTS", 0)
    else registerFree generateHash inserts call
  show RunsAs _ fun env : (Nat → LookupAttempt) × (Nat → InsertAttempt) =>
    findByUsername env.1 call.username >>= next env.2
  refine (findByUsername_runsAs call.username).bind fun existing => ?_
  by_cases hexists : existing.isSome
  · simp only [next, if_pos hexists]
    exact RunsAs.pure _
  · simp only [next, if_neg hexists]
    exact registerFree_runsAs generateHash call

end Runs

/-! ## What an insert leaves behind -/

section Insert

variable {user : UserModel} {users : Users collate}

/-- While the username is taken or no id is left, every attempt raises. -/
theorem insertAttempt_unable (a : InsertAttempt)
    (h : users.Taken (collate user.username) ∨ 2 ^ 64 ≤ users.next) :
    ∃ e users', insertAttempt a user users = (.error e, users') ∧ users'.rows = users.rows ∧
      users.next ≤ users'.next := by
  obtain ⟨connection, ins, selectId⟩ := a
  cases connection with
  | none => exact ⟨_, _, rfl, rfl, Nat.le_refl _⟩
  | some conn =>
    rcases UserDao.insertStatement_eq (UserDao.rowOf user) conn users with
      ⟨hfree, hnext, _⟩ | ⟨e, users', hrun, hrows, hle⟩
    · rcases h with htaken | hfull
      · exact absurd htaken hfree
      · exact absurd hnext (Nat.not_lt.mpr hfull)
    · cases ins with
      | none =>
        refine ⟨e, users', ?_, hrows, hle⟩
        simp [insertAttempt, getConnection, Eff.bind_apply, hrun]
      | before => exact ⟨_, users, rfl, rfl, Nat.le_refl _⟩
      | after =>
        refine ⟨dbError, users', ?_, hrows, hle⟩
        simp [insertAttempt, getConnection, Eff.bind_apply, hrun]

/-- All that an attempt does while the username is free. -/
theorem insertAttempt_free (a : InsertAttempt) (h : ¬ users.Taken (collate user.username))
    (hnext : users.next < 2 ^ 64) :
    (a.Missed ∧ ∃ e, insertAttempt a user users = (.error e, users)) ∨
    (¬ a.Missed ∧ ¬ a.Unreported ∧ insertAttempt a user users =
      (.ok (UInt64.ofNat users.next), users.append (UserDao.rowOf user) h)) ∨
    (a.Unreported ∧ ∃ e, insertAttempt a user users =
      (.error e, users.append (UserDao.rowOf user) h)) := by
  have hrun : ∀ conn, UserDao.insertStatement (UserDao.rowOf user) conn users =
      (.ok ⟨users.next⟩, users.append (UserDao.rowOf user) h) := by
    intro conn
    rw [UserDao.insertStatement, if_pos hnext, Table.insert_of_free (r := UserDao.rowOf user) h]
  obtain ⟨connection, ins, selectId⟩ := a
  cases connection with
  | none => exact .inl ⟨.inl rfl, _, rfl⟩
  | some conn =>
    cases ins with
    | before => exact .inl ⟨.inr rfl, _, rfl⟩
    | after =>
      refine .inr (.inr ⟨⟨by simp [InsertAttempt.Missed], .inl rfl⟩, dbError, ?_⟩)
      simp [insertAttempt, getConnection, Eff.bind_apply, hrun]
    | none =>
      cases selectId with
      | none =>
        refine .inr (.inl ⟨by simp [InsertAttempt.Missed], by simp [InsertAttempt.Unreported], ?_⟩)
        simp [insertAttempt, getConnection, Eff.bind_apply, hrun, UserDao.selectLastInsertId]
      | before | after =>
        refine .inr (.inr ⟨⟨by simp [InsertAttempt.Missed], .inr (by simp)⟩, dbError, ?_⟩)
        simp [insertAttempt, getConnection, Eff.bind_apply, hrun, UserDao.selectLastInsertId]

/-- An insert that is unable to add its row fails and adds none. -/
theorem insert_unable (inserts : Nat → InsertAttempt) (user : UserModel)
    (h : users.Taken (collate user.username) ∨ 2 ^ 64 ≤ users.next) :
    ∃ users', insert inserts user users = (.ok (false, 0), users') ∧ users'.rows = users.rows := by
  have hstill : ∀ t : Users collate, t.rows = users.rows ∧ users.next ≤ t.next →
      t.Taken (collate user.username) ∨ 2 ^ 64 ≤ t.next := by
    rintro t ⟨hrows, hle⟩
    rcases h with htaken | hfull
    · refine .inl ?_
      unfold Table.Taken
      rw [hrows]
      exact htaken
    · exact .inr (Nat.le_trans hfull hle)
  have hraises : ∀ i, ∀ t : Users collate, t.rows = users.rows ∧ users.next ≤ t.next →
      ∃ e t', insertAttempt (inserts i) user t = (.error e, t') ∧
        t'.rows = users.rows ∧ users.next ≤ t'.next := by
    intro i t ht
    obtain ⟨e, t', hrun, hrows, hle⟩ := insertAttempt_unable (inserts i) (hstill t ht)
    exact ⟨e, t', hrun, hrows.trans ht.1, Nat.le_trans ht.2 hle⟩
  obtain ⟨e, users', hrun, hrows, _⟩ := Eff.retry_raises hraises 3 0 ⟨rfl, Nat.le_refl _⟩
  refine ⟨users', ?_, hrows⟩
  rw [insert_apply, hrun]

/-- The attempts of an insert take effect once. -/
theorem insertAttempt_once (inserts : Nat → InsertAttempt)
    (h : ¬ users.Taken (collate user.username)) (hnext : users.next < 2 ^ 64) :
    Eff.Once (fun i => insertAttempt (inserts i) user) (fun t => t = users)
      (fun _ t => t.rows = users.rows ++ [(users.next, UserDao.rowOf user)])
      (fun i => (inserts i).Missed) where
  miss i t ht hm := by
    subst ht
    rcases insertAttempt_free (inserts i) h hnext with ⟨_, e, hrun⟩ | ⟨hnot, _⟩ | ⟨hun, _⟩
    · exact ⟨e, t, hrun, rfl⟩
    · exact absurd hm hnot
    · exact absurd hm hun.1
  hit i t ht hm := by
    subst ht
    rcases insertAttempt_free (inserts i) h hnext with ⟨hmiss, _⟩ | ⟨_, _, hrun⟩ | ⟨_, e, hrun⟩
    · exact absurd hmiss hm
    · rw [hrun]
      rfl
    · rw [hrun]
      rfl
  again i _ t ht := by
    have htaken : t.Taken (collate user.username) := by
      unfold Table.Taken
      rw [ht]
      simp [UserRow.idxUsername, UserDao.rowOf]
    obtain ⟨e, t', hrun, hrows, _⟩ := insertAttempt_unable (inserts i) (.inl htaken)
    exact ⟨e, t', hrun, hrows.trans ht⟩

/-- While the username is free, an insert leaves its row behind unless all its
INSERTs are missed, and answers with the id of this row unless it is lost. -/
theorem insert_free (inserts : Nat → InsertAttempt) (user : UserModel)
    (h : ¬ users.Taken (collate user.username)) (hnext : users.next < 2 ^ 64) :
    (Lost inserts ∧ ∃ users', insert inserts user users = (.ok (false, 0), users') ∧
      users'.rows = users.rows ++ [(users.next, UserDao.rowOf user)]) ∨
    (¬ Lost inserts ∧ ∃ users', insert inserts user users =
      (.ok (UInt64.ofNat users.next != 0, UInt64.ofNat users.next), users') ∧
      users'.rows = users.rows ++ [(users.next, UserDao.rowOf user)]) ∨
    (¬ Lost inserts ∧ insert inserts user users = (.ok (false, 0), users)) := by
  rw [insert_apply]
  rcases (insertAttempt_once inserts h hnext).retry 3 0 rfl with
    ⟨k, t, _, hk, hbefore, hnot, rfl, hdone, hok, herr⟩ | ⟨hall, e, t, hrun, rfl⟩
  · replace hbefore : ∀ i < k, (inserts i).Missed := fun i hi => hbefore i (Nat.zero_le i) hi
    rcases insertAttempt_free (inserts k) h hnext with
      ⟨hmiss, _⟩ | ⟨_, hanswered, hrun⟩ | ⟨hun, e, hrun⟩
    · exact absurd hmiss hnot
    · have hkept : ¬ Lost inserts := fun hlost => hanswered (hlost.of_first hbefore hnot)
      rw [hok _ _ hrun] at hdone ⊢
      exact .inr (.inl ⟨hkept, _, rfl, hdone⟩)
    · obtain ⟨e', t', hret⟩ := herr _ _ hrun
      rw [hret] at hdone ⊢
      exact .inl ⟨⟨k, by omega, hbefore, hun⟩, t', rfl, hdone⟩
  · refine .inr (.inr ⟨?_, by rw [hrun]⟩)
    rintro ⟨k, hk, _, hun⟩
    exact hun.1 (hall k (Nat.zero_le k) (by omega))

end Insert

/-! ## What a rejected registration leaves behind -/

section Register

theorem findByUsernameAttempt_eq (a : LookupAttempt) (username : Bytes) (users : Users collate) :
    (∃ e, findByUsernameAttempt a username users = (.error e, users)) ∨
    (∃ user, findByUsernameAttempt a username users = (.ok user, users) ∧
      (user.isSome → users.Taken (collate username))) := by
  obtain ⟨connection, select⟩ := a
  cases connection with
  | none => exact .inl ⟨_, rfl⟩
  | some conn =>
    cases select with
    | before | after => exact .inl ⟨_, rfl⟩
    | none =>
      match hfind : users.rows.find? fun x => collate x.2.username == collate username with
      | none =>
        refine .inr ⟨none, ?_, fun h => by cases h⟩
        simp [findByUsernameAttempt, getConnection, Eff.bind_apply, UserDao.selectByUsername, hfind]
      | some (id, row) =>
        have hmem := List.mem_of_find?_eq_some hfind
        have hsame := List.find?_some hfind
        refine .inr ⟨some (UserDao.userOf id row), ?_, fun _ =>
          List.mem_map.mpr ⟨_, hmem, eq_of_beq hsame⟩⟩
        simp [findByUsernameAttempt, getConnection, Eff.bind_apply, UserDao.selectByUsername, hfind]

/-- A lookup changes nothing, and finds only what is there. -/
theorem findByUsername_eq (lookups : Nat → LookupAttempt) (username : Bytes)
    (users : Users collate) : ∃ user, findByUsername lookups username users = (.ok user, users) ∧
      (user.isSome → users.Taken (collate username)) := by
  have hok : ∀ i t user t', t = users →
      findByUsernameAttempt (lookups i) username t = (.ok user, t') →
      t' = users ∧ (user.isSome → users.Taken (collate username)) := by
    rintro i t user t' rfl hrun
    rcases findByUsernameAttempt_eq (lookups i) username t with ⟨e, heq⟩ | ⟨found, heq, hfound⟩
    · rw [hrun] at heq
      cases heq
    · rw [hrun] at heq
      cases heq
      exact ⟨rfl, hfound⟩
  have herr : ∀ i t e t', t = users →
      findByUsernameAttempt (lookups i) username t = (.error e, t') → t' = users := by
    rintro i t e t' rfl hrun
    rcases findByUsernameAttempt_eq (lookups i) username t with ⟨e', heq⟩ | ⟨found, heq, _⟩
    · rw [hrun] at heq
      cases heq
      rfl
    · rw [hrun] at heq
      cases heq
  rw [findByUsername_apply]
  rcases Eff.retry_rule _ (fun _ t => t = users)
      (fun _ user t => t = users ∧ (user.isSome → users.Taken (collate username))) hok herr 3 0
      users rfl with ⟨_, user, t, _, _, hrun, rfl, hfound⟩ | ⟨e, t, hrun, rfl⟩
  · exact ⟨user, by rw [hrun], hfound⟩
  · exact ⟨none, by rw [hrun], fun h => by cases h⟩

/-- When the lookup has found nobody, what is left behind depends on the insert. -/
theorem registerFree_leavesNoRow_iff (generateHash : Bytes → Nat → Bytes → Except Exn Bytes)
    (inserts : Nat → InsertAttempt) (call : Registration) (users : Users collate)
    (hnext : 0 < users.next) :
    (∀ message users', registerFree generateHash inserts call users =
      (.ok (false, message, 0), users') → users'.rows = users.rows) ↔
    users.Taken (collate call.username) ∨ 2 ^ 64 ≤ users.next ∨
      (∃ e, AuthService.hashPassword generateHash call.salt call.password = .error e) ∨
      ¬ Lost inserts := by
  rw [registerFree]
  match hhash : AuthService.hashPassword generateHash call.salt call.password with
  | .error e =>
    refine iff_of_true (fun message users' hrun => ?_) (.inr (.inr (.inl ⟨e, rfl⟩)))
    cases hrun
  | .ok hashedPw =>
    rw [Eff.ofExcept_ok_bind]
    by_cases hunable : users.Taken (collate call.username) ∨ 2 ^ 64 ≤ users.next
    · obtain ⟨t, hinsert, hrows⟩ :=
        insert_unable inserts (newUser call hashedPw) hunable
      rw [Eff.bind_of_ok hinsert]
      refine iff_of_true (fun message users' hrun => ?_) (or_assoc.mp (.inl hunable))
      cases hrun
      exact hrows
    · obtain ⟨hfree, hfull⟩ := not_or.mp hunable
      have hlt : users.next < 2 ^ 64 := Nat.not_le.mp hfull
      rcases insert_free inserts (newUser call hashedPw) hfree hlt with
        ⟨hlost, t, hinsert, hrows⟩ | ⟨hkept, t, hinsert, _⟩ | ⟨hkept, hinsert⟩
      · rw [Eff.bind_of_ok hinsert]
        refine iff_of_false (fun hnone => ?_) ?_
        · have hsame := hnone _ t rfl
          rw [hrows] at hsame
          simp at hsame
        · rintro (htaken | hle | ⟨e, herr⟩ | hkept)
          · exact hfree htaken
          · exact hfull hle
          · cases herr
          · exact hkept hlost
      · rw [Eff.bind_of_ok hinsert]
        refine iff_of_true (fun message users' hrun => ?_) (.inr (.inr (.inr hkept)))
        -- an id between 1 and 2^64 - 1 is an answer of success
        have hid : UInt64.ofNat users.next ≠ 0 := by
          rw [ne_eq, ← UInt64.toNat_inj, UInt64.toNat_ofNat_of_lt' hlt]
          exact Nat.ne_of_gt hnext
        simp [hid] at hrun
      · rw [Eff.bind_of_ok hinsert]
        refine iff_of_true (fun message users' hrun => ?_) (.inr (.inr (.inr hkept)))
        cases hrun
        rfl

/-- A rejected registration leaves no row behind if its username is taken, no id
is left, the password cannot be hashed, or its INSERT is not lost; and only then.
AUTO_INCREMENT never allots the id 0. -/
theorem leavesNoRow_iff (generateHash : Bytes → Nat → Bytes → Except Exn Bytes)
    (lookups : Nat → LookupAttempt) (inserts : Nat → InsertAttempt) (call : Registration)
    (users : Users collate) (hnext : 0 < users.next) :
    (∀ message users', register generateHash lookups inserts call users =
      (.ok (false, message, 0), users') → users'.rows = users.rows) ↔
    users.Taken (collate call.username) ∨ 2 ^ 64 ≤ users.next ∨
      (∃ e, AuthService.hashPassword generateHash call.salt call.password = .error e) ∨
      ¬ Lost inserts := by
  obtain ⟨existing, hlookup, hfound⟩ := findByUsername_eq lookups call.username users
  rw [register, Eff.bind_of_ok hlookup]
  by_cases hexists : existing.isSome
  · rw [if_pos hexists]
    refine iff_of_true (fun message users' hrun => ?_) (.inl (hfound hexists))
    cases hrun
    rfl
  · rw [if_neg hexists]
    exact registerFree_leavesNoRow_iff generateHash inserts call users hnext

/-- An INSERT that fails before it takes effect is repeated without harm. -/
theorem leavesNoRow_retried :
    0 < (Users.initial id).next ∧
    ∀ message users', register (fun _ _ _ => .ok []) (fun _ => ⟨some ⟨0⟩, .none⟩)
      (fun i => ⟨some ⟨0⟩, if i = 0 then .before else .none, .none⟩)
      ⟨str "bob", str "secret", str "Bob", []⟩ (Users.initial id) =
      (.ok (false, message, 0), users') → users'.rows = (Users.initial id).rows := by
  have hnext : 0 < (Users.initial id).next := by decide
  refine ⟨hnext, (leavesNoRow_iff _ _ _ _ _ hnext).mpr (.inr (.inr (.inr ?_)))⟩
  rintro ⟨k, _, _, _, hafter | hlost⟩
  · dsimp only at hafter
    split at hafter
    · cases hafter
    · cases hafter
  · exact hlost rfl

/-- The INSERT of the first attempt takes effect, and the query for the id is
lost: the further attempts run into the row that it added, and the registration is
rejected with this row left behind. -/
theorem lostId_leavesRow :
    ∃ users', register (fun _ _ _ => .ok []) (fun _ => ⟨some ⟨0⟩, .none⟩)
      (fun i => ⟨some ⟨0⟩, .none, if i = 0 then .before else .none⟩)
      ⟨str "bob", str "secret", str "Bob", []⟩ (Users.initial id) =
        (.ok (false, str "SERVER_INTERNAL_ERROR", 0), users') ∧
      users'.rows.map (fun x => (x.1, x.2.username)) = [(10000, str "bob")] := by
  have hlookup : findByUsername (fun _ => ⟨some ⟨0⟩, .none⟩) (str "bob") (Users.initial id) =
      (.ok none, Users.initial id) := by
    rw [findByUsername_apply]
    rfl
  have hinsert : ∃ users', insert (fun i => ⟨some ⟨0⟩, .none, if i = 0 then .before else .none⟩)
      (newUser ⟨str "bob", str "secret", str "Bob", []⟩ []) (Users.initial id) =
        (.ok (false, 0), users') ∧
      users'.rows.map (fun x => (x.1, x.2.username)) = [(10000, str "bob")] := by
    rw [insert_apply]
    exact ⟨_, rfl, rfl⟩
  obtain ⟨users', hrun, hrows⟩ := hinsert
  refine ⟨users', ?_, hrows⟩
  rw [register, Eff.bind_of_ok hlookup]
  exact Eff.bind_of_ok hrun

end Register

end Alone

end IMSystem.User

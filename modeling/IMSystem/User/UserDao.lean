import IMSystem.Common.Retry
import IMSystem.Lib.Table

/-!
# The table of users and its DAO (`user/src/dao/user_dao.cpp`)

Each call of the DAO is a retry loop around an action that takes a connection
out of the pool and runs its statements on it. Calls run on many threads and
share the table: to get a connection is one step, and so is each statement. The
environment of a step decides what becomes of it.

Results:
1. `insertStatement_eq`: all that the INSERT does.
2. `findById_quiet`: what an undisturbed lookup by id finds.
-/

namespace IMSystem.User

open Lib Retry

/-! ## Records -/

/-- `model::User`, without its timestamps. -/
structure UserModel where
  userId : UInt64 := 0
  username : Bytes
  passwordHash : Bytes
  nickname : Bytes
  avatarUrl : Bytes
  status : Int32 := 0
deriving DecidableEq, Repr

/-- A row of `users`, without its AUTO_INCREMENT id and its timestamps. -/
structure UserRow where
  username : Bytes
  passwordHash : Bytes
  nickname : Bytes
  avatarUrl : Bytes
  /-- `DEFAULT 0`. -/
  status : Int32 := 0
deriving DecidableEq, Repr

section

-- the collation of the table: one image for all texts that MySQL takes as equal
variable (collate : Bytes → Bytes)

/-- `UNIQUE KEY idx_username (username)`. -/
def UserRow.idxUsername (r : UserRow) : Bytes := collate r.username

/-- The table `users`. -/
abbrev Users := Table UserRow Bytes (UserRow.idxUsername collate)

/-- `users` as `init_db.sql` creates it, without the two rows that it then inserts. -/
def Users.initial : Users collate := Table.empty 10000

/-- A connection, with its `LAST_INSERT_ID()`. Nobody else uses it while a call
holds it. -/
structure Session where
  lastInsertId : Nat
deriving DecidableEq, Repr

/-- What the environment decides about one step. -/
structure Env where
  /-- The connection that the pool hands out, as its last holder left it. -/
  connection : Option Session
  fault : Fault
deriving DecidableEq, Repr

/-- A part of a DAO call that may raise. -/
abbrev Dao (α : Type) := ExceptT Exn (Prog Env (Users collate)) α

end

def dbError : Exn := .std (str "database error")

/-- Raised by the DAO when the pool gives no connection. -/
def noConnection : Exn := .std (str "Failed to get DB connection")

namespace UserDao

variable {collate : Bytes → Bytes}

/-! ## Steps -/

/-- `guard.Get()`, and the check behind it. -/
def getConnection : Dao collate Session :=
  Prog.atomic fun env =>
    match env.connection with
    | some conn => pure conn
    | none => Eff.raise noConnection

/-- One statement. A refused value, such as a text that is too long for its
column, is a fault as well. -/
def execute {α : Type} (statement : Eff Exn (Users collate) α) : Dao collate α :=
  Prog.atomic fun env => Eff.under env.fault dbError statement

/-- `SELECT … FROM users WHERE username = ?`. -/
def selectByUsername (username : Bytes) : Eff Exn (Users collate) (Option (Nat × UserRow)) :=
  Eff.read fun users => users.rows.find? fun x => collate x.2.username == collate username

/-- `INSERT INTO users …` on a connection: it raises when the username is taken,
or when no id is left for a BIGINT UNSIGNED. -/
def insertStatement (row : UserRow) (conn : Session) : Eff Exn (Users collate) Session :=
  fun users =>
    if users.next < 2 ^ 64 then
      match users.insert row with
      | (some id, users) => (.ok { conn with lastInsertId := id }, users)
      | (none, users) => (.error dbError, users)
    else (.error dbError, users)

/-- `SELECT LAST_INSERT_ID() AS id` on a connection; it always has one row. -/
def selectLastInsertId (conn : Session) : Eff Exn (Users collate) (Option Nat) :=
  pure (some conn.lastInsertId)

/-- `UPDATE users SET nickname = ?, avatar_url = ?, status = ? WHERE user_id = ?`. -/
def updateStatement (user : UserModel) (users : Users collate) : Users collate :=
  users.update user.userId.toNat (fun row =>
    { row with nickname := user.nickname, avatarUrl := user.avatarUrl, status := user.status })
    fun _ => rfl

/-- `DELETE FROM users WHERE user_id = ?`. -/
def deleteStatement (userId : UInt64) (users : Users collate) : Users collate :=
  users.delete userId.toNat

/-! ## Calls -/

/-- The `model::User` read off a row. -/
def userOf (id : Nat) (row : UserRow) : UserModel where
  userId := UInt64.ofNat id
  username := row.username
  passwordHash := row.passwordHash
  nickname := row.nickname
  avatarUrl := row.avatarUrl
  status := row.status

/-- The row that `Insert` binds. -/
def rowOf (user : UserModel) : UserRow where
  username := user.username
  passwordHash := user.passwordHash
  nickname := user.nickname
  avatarUrl := user.avatarUrl

/-- One attempt of the lambda in `FindByUsername`. -/
def findByUsernameAttempt (username : Bytes) : Dao collate (Option UserModel) := do
  let _conn ← getConnection
  let res ← execute (selectByUsername username)
  match res with
  | some (id, row) => pure (some (userOf id row))
  | none => pure none

/-- `UserDao::FindByUsername`: a failed query looks like a free username. -/
def findByUsername (username : Bytes) : Prog Env (Users collate) (Option UserModel) := do
  match ← (Steps.executeWithRetry 3 (findByUsernameAttempt username)).run with
  | .ok user => pure user
  | .error _ => pure none

/-- One attempt of the lambda in `Insert`. -/
def insertAttempt (user : UserModel) : Dao collate UInt64 := do
  let conn ← getConnection
  let conn ← execute (insertStatement (rowOf user) conn)
  let res ← execute (selectLastInsertId conn)
  match res with
  | some id => pure (UInt64.ofNat id)
  | none => pure 0

/-- `UserDao::Insert`: whether it succeeded, and `out_user_id`. -/
def insert (user : UserModel) : Prog Env (Users collate) (Bool × UInt64) := do
  match ← (Steps.executeWithRetry 3 (insertAttempt user)).run with
  | .ok outUserId => pure (outUserId != 0, outUserId)
  | .error _ => pure (false, 0)

/-- All that the INSERT does: it adds its row under the next id, which
`LAST_INSERT_ID()` then is, or it raises and adds no row. -/
theorem insertStatement_eq (row : UserRow) (conn : Session) (users : Users collate) :
    (∃ h, users.next < 2 ^ 64 ∧
      insertStatement row conn users = (.ok ⟨users.next⟩, users.append row h)) ∨
    (∃ e users', insertStatement row conn users = (.error e, users') ∧
      users'.rows = users.rows ∧ users.next ≤ users'.next) := by
  unfold insertStatement
  by_cases hnext : users.next < 2 ^ 64
  · rw [if_pos hnext]
    by_cases htaken : users.Taken (row.idxUsername collate)
    · rw [Table.insert_of_taken htaken]
      exact .inr ⟨_, _, rfl, rfl, Nat.le_succ _⟩
    · rw [Table.insert_of_free htaken]
      exact .inl ⟨htaken, hnext, rfl⟩
  · rw [if_neg hnext]
    exact .inr ⟨_, _, rfl, rfl, Nat.le_refl _⟩

end UserDao

/-! ## Calls of one statement

To get a connection touches no table, so an attempt that runs one statement is one step. -/

/-- The environment of an attempt that runs one statement. -/
structure StatementAttempt where
  connected : Bool
  fault : Fault
deriving DecidableEq, Repr

/-- Nothing disturbs the attempt. -/
def StatementAttempt.quiet : StatementAttempt := ⟨true, .none⟩

/-- `guard.Get()`, the check behind it, and the statement. -/
def StatementAttempt.run {σ α : Type} (a : StatementAttempt) (statement : Eff Exn σ α) :
    Call σ α := do
  if !a.connected then Eff.raise noConnection
  Eff.under a.fault dbError statement

@[simp] theorem StatementAttempt.quiet_run {σ α : Type} (statement : Eff Exn σ α) :
    StatementAttempt.quiet.run statement = statement := rfl

/-- An attempt gives up before its statement takes effect, or runs it and may still raise. -/
theorem StatementAttempt.run_cases {σ α : Type} (a : StatementAttempt) (statement : Eff Exn σ α)
    (s : σ) : (∃ e, a.run statement s = (.error e, s)) ∨
      (∃ e, a.run statement s = (.error e, (statement s).2)) ∨
      a.run statement s = statement s := by
  obtain ⟨connected, fault⟩ := a
  cases connected with
  | false => exact .inl ⟨_, rfl⟩
  | true =>
    cases fault with
    | none => exact .inr (.inr rfl)
    | before => exact .inl ⟨_, rfl⟩
    | after => exact .inr (.inl ⟨_, rfl⟩)

/-- A call that writes: `ExecuteWithRetryVoid` around one statement, in a `try`. It tells
whether it returned. -/
def retriedWrite {σ : Type} (statement : Eff Exn σ Unit) (attempts : Nat → StatementAttempt)
    (s : σ) : Bool × σ :=
  match executeWithRetryVoid 3 (fun i => (attempts i).run statement) s with
  | (.ok (), s') => (true, s')
  | (.error _, s') => (false, s')

namespace UserDao

variable {collate : Bytes → Bytes}

/-- `UserDao::Update`. -/
def update (user : UserModel) (attempts : Nat → StatementAttempt) (users : Users collate) :
    Bool × Users collate :=
  retriedWrite (Eff.modify (updateStatement user)) attempts users

/-- `UserDao::Delete`. -/
def delete (userId : UInt64) (attempts : Nat → StatementAttempt) (users : Users collate) :
    Bool × Users collate :=
  retriedWrite (Eff.modify (deleteStatement userId)) attempts users

/-- `SELECT … FROM users WHERE user_id = ?`. -/
def selectById (userId : UInt64) : Eff Exn (Users collate) (Option (Nat × UserRow)) :=
  Eff.read fun users => users.rows.find? fun x => x.1 == userId.toNat

/-- One attempt of the lambda in `FindById`. -/
def findByIdAttempt (a : StatementAttempt) (userId : UInt64) :
    Call (Users collate) (Option UserModel) := do
  let res ← a.run (selectById userId)
  match res with
  | some (id, row) => pure (some (userOf id row))
  | none => pure none

/-- `UserDao::FindById`: a failed query looks like a missing user. -/
def findById (attempts : Nat → StatementAttempt) (users : Users collate) (userId : UInt64) :
    Option UserModel :=
  match (executeWithRetry 3 (fun i => findByIdAttempt (attempts i) userId) users).1 with
  | .ok user => user
  | .error _ => none

/-- Undisturbed, it finds the user if there is one. -/
theorem findById_quiet {attempts : Nat → StatementAttempt} (h : attempts 0 = .quiet)
    (users : Users collate) (userId : UInt64) :
    findById attempts users userId =
      (users.rows.find? fun x => x.1 == userId.toNat).map fun x => userOf x.1 x.2 := by
  have hattempt : findByIdAttempt (attempts 0) userId users =
      (.ok ((users.rows.find? fun x => x.1 == userId.toNat).map fun x => userOf x.1 x.2),
        users) := by
    unfold findByIdAttempt
    rw [h, StatementAttempt.quiet_run, Eff.bind_apply, selectById, Eff.read_apply]
    dsimp only
    cases users.rows.find? fun x => x.1 == userId.toNat with
    | none => rfl
    | some x => rfl
  unfold findById
  rw [executeWithRetry_eq, Eff.retry_of_ok hattempt]

end UserDao

end IMSystem.User

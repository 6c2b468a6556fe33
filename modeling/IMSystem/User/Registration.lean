import IMSystem.Lib.Run
import IMSystem.User.UserDao

/-!
# Registration (`AuthService::Register`)

A registration looks the username up, hashes the password, and inserts the user;
nothing joins these steps into one, and a failed lookup counts as a free
username. Any number of registrations run at the same time, and other requests
update and delete users between their steps. The history notes down whose INSERT
added which row, and whether a row was deleted.

Results:
1. `ensures_register`: a registration reports success only with the id of a row
   that its own INSERT added.
2. `consistent_run`: in every run, usernames and reported ids are unique.
-/

namespace IMSystem.User

open Lib Retry

/-- What `Register` returns, if it does not raise: whether it succeeded, a
message, and the new id. -/
abbrev Outcome := Except Exn (Bool × Bytes × UInt64)

/-- A call of `Register`. The salt is what bcrypt draws at random. -/
structure Registration where
  username : Bytes
  password : Bytes
  nickname : Bytes
  salt : Bytes
deriving DecidableEq, Repr

namespace AuthService

section

variable {collate : Bytes → Bytes}
-- `BCrypt::generateHash` with the salt that it draws
variable (generateHash : Bytes → Nat → Bytes → Except Exn Bytes)

/-- `AuthService::HashPassword`. -/
def hashPassword (salt plainText : Bytes) : Except Exn Bytes := generateHash plainText 12 salt

/-- `AuthService::Register`. -/
def register (call : Registration) : Dao collate (Bool × Bytes × UInt64) := do
  let existing ← ExceptT.lift (UserDao.findByUsername call.username)
  if existing.isSome then pure (false, str "USER_ALREADY_EXISTS", 0)
  else
    let hashedPw ← ExceptT.mk (pure (hashPassword generateHash call.salt call.password))
    let newUser : UserModel := {
      username := call.username
      passwordHash := hashedPw
      nickname := call.nickname
      avatarUrl := str "http://mock/avatar.jpg" }
    let (inserted, newUserId) ← ExceptT.lift (UserDao.insert newUser)
    if !inserted || newUserId == 0 then pure (false, str "SERVER_INTERNAL_ERROR", 0)
    else pure (true, str "SUCCESS", newUserId)

end

/-! ## Registrations at the same time -/

/-- Who inserted which rows, and whether a row was deleted. -/
structure History where
  inserted : List (Nat × Nat × UserRow)
  deleted : Bool
deriving DecidableEq, Repr

section

variable {collate : Bytes → Bytes}

/-- The rows that a step of the `k`-th registration added. -/
def record (k : Nat) (before after : Users collate) (history : History) : History :=
  { history with
    inserted := history.inserted ++ (after.rows.filter fun x => x ∉ before.rows).map fun x => (k, x) }

variable (collate) in
/-- The table, its history, and the registrations started so far. -/
abbrev State := Threads Registration Env (Users collate) History Outcome

/-- A table, before any registration. -/
def State.start (users : Users collate) : State collate := ⟨users, ⟨[], false⟩, []⟩

inductive Action where
  /-- `Register` is called. -/
  | call (c : Registration)
  /-- The `k`-th registration makes its next step. -/
  | step (k : Nat) (env : Env)
  /-- The UPDATE of `UserDao::Update` takes effect. -/
  | update (user : UserModel)
  /-- The DELETE of `UserDao::Delete` takes effect. -/
  | delete (userId : UInt64)

variable (generateHash : Bytes → Nat → Bytes → Except Exn Bytes)

/-- One step. -/
def step (s : State collate) : Action → Option (State collate)
  | .call c => some (s.spawn c (register generateHash c).run)
  | .step k env => Threads.step record s k env
  | .update user => some { s with shared := UserDao.updateStatement user s.shared }
  | .delete userId => some { s with
      shared := UserDao.deleteStatement userId s.shared
      history := { s.history with
        deleted := s.history.deleted || s.shared.rows.any fun x => x.1 == userId.toNat } }

/-- The `k`-th registration has reported success with an id. -/
def Succeeded (s : State collate) (k : Nat) (c : Registration) (userId : UInt64) : Prop :=
  ∃ message, s.Returned k c (.ok (true, message, userId))

/-- The id is that of a row that the `k`-th registration inserted with its own
data. -/
def Own (k : Nat) (c : Registration) (userId : UInt64) (history : History) : Prop :=
  ∃ row, (k, userId.toNat, row) ∈ history.inserted ∧ row.username = c.username ∧
    hashPassword generateHash c.salt c.password = .ok row.passwordHash ∧
    row.nickname = c.nickname

/-- What the outcome of the `k`-th registration says of the history. -/
def Truthful (k : Nat) (c : Registration) (outcome : Outcome) (w : Users collate × History) : Prop :=
  ∀ message userId, outcome = .ok (true, message, userId) → Own generateHash k c userId w.2

structure Consistent (s : State collate) : Prop where
  /-- No two rows have the same username. -/
  unique : ∀ x ∈ s.shared.rows, ∀ y ∈ s.shared.rows, x.2.username = y.2.username → x = y
  /-- As long as no row is deleted, one registration succeeds for each username. -/
  once : s.history.deleted = false → ∀ j k c d userId userId', Succeeded s j c userId →
    Succeeded s k d userId' → c.username = d.username → j = k
  own : ∀ k c userId, Succeeded s k c userId → Own generateHash k c userId s.history
  distinct : ∀ j k c d userId, Succeeded s j c userId → Succeeded s k d userId → j = k

/-! ## What every step respects -/

/-- Each row inserted has an id of its own, and its username stays in the table
under this id unless a row is deleted. -/
structure Inv (w : Users collate × History) : Prop where
  allotted : ∀ e ∈ w.2.inserted, e.2.1 < w.1.next
  distinct : (w.2.inserted.map fun e => e.2.1).Nodup
  kept : w.2.deleted = false → ∀ e ∈ w.2.inserted,
    ∃ x ∈ w.1.rows, x.1 = e.2.1 ∧ x.2.username = e.2.2.username

/-- What every step of anybody does: it keeps the invariant and forgets nothing. -/
structure Respects (w w' : Users collate × History) : Prop where
  inv : Inv w → Inv w'
  inserted : w.2.inserted ⊆ w'.2.inserted

instance : IsPreorder (Users collate × History) Respects where
  refl _ := ⟨id, List.Subset.refl _⟩
  trans _ _ _ h h' := ⟨h'.inv ∘ h.inv, List.Subset.trans h.inserted h'.inserted⟩

theorem record_of_same_rows {k : Nat} {before after : Users collate} {history : History}
    (h : after.rows = before.rows) : record k before after history = history := by
  have hnone : after.rows.filter (fun x => x ∉ before.rows) = [] := by
    rw [h, List.filter_eq_nil_iff]
    simp
  rw [record, hnone, List.map_nil, List.append_nil]

theorem record_append {k : Nat} {users : Users collate} {row : UserRow}
    (h : ¬ users.Taken (row.idxUsername collate)) (history : History) :
    record k users (users.append row h) history =
      { history with inserted := history.inserted ++ [(k, users.next, row)] } := by
  have hnew : (users.next, row) ∉ users.rows := fun hmem =>
    Nat.lt_irrefl _ (users.bounded _ hmem)
  have hone : (users.rows ++ [(users.next, row)]).filter (fun x => x ∉ users.rows) =
      [(users.next, row)] := by
    rw [List.filter_append, List.filter_eq_nil_iff.mpr (by simp), List.nil_append,
      List.filter_cons_of_pos (by simpa using hnew), List.filter_nil]
  rw [record, Table.append_rows, hone, List.map_singleton]

/-- A step that leaves the rows alone. -/
theorem respects_of_same_rows {users users' : Users collate} {history : History}
    (hrows : users'.rows = users.rows) (hnext : users.next ≤ users'.next) :
    Respects (users, history) (users', history) where
  inv h := {
    allotted := fun e he => Nat.lt_of_lt_of_le (h.allotted e he) hnext
    distinct := h.distinct
    kept := fun hdel e he => by
      rw [hrows]
      exact h.kept hdel e he }
  inserted := List.Subset.refl _

theorem respects_append {k : Nat} {users : Users collate} {row : UserRow}
    (h : ¬ users.Taken (row.idxUsername collate)) (history : History) :
    Respects (users, history) (users.append row h,
      { history with inserted := history.inserted ++ [(k, users.next, row)] }) where
  inv hinv := {
    allotted := by
      intro e he
      rcases List.mem_append.mp he with he | he
      · exact Nat.lt_succ_of_lt (hinv.allotted e he)
      · obtain rfl := List.mem_singleton.mp he
        exact Nat.lt_succ_self _
    distinct := by
      rw [List.map_append, List.nodup_append]
      refine ⟨hinv.distinct, List.nodup_singleton _, fun id hid id' hid' => ?_⟩
      obtain ⟨e, he, rfl⟩ := List.mem_map.mp hid
      obtain rfl := List.mem_singleton.mp hid'
      exact Nat.ne_of_lt (hinv.allotted e he)
    kept := by
      intro hdel e he
      rcases List.mem_append.mp he with he | he
      · obtain ⟨x, hx, hsame⟩ := hinv.kept hdel e he
        exact ⟨x, List.mem_append_left _ hx, hsame⟩
      · obtain rfl := List.mem_singleton.mp he
        exact ⟨(users.next, row), List.mem_append_right _ (List.mem_singleton_self _), rfl, rfl⟩ }
  inserted := List.subset_append_left _ _

theorem respects_update (user : UserModel) (users : Users collate) (history : History) :
    Respects (users, history) (UserDao.updateStatement user users, history) where
  inv hinv := {
    allotted := hinv.allotted
    distinct := hinv.distinct
    kept := by
      intro hdel e he
      obtain ⟨x, hx, hid, hname⟩ := hinv.kept hdel e he
      obtain ⟨y, hy, hyid, hyrow⟩ := Table.mem_update hx
      refine ⟨y, hy, hyid.trans hid, ?_⟩
      rcases hyrow with hyrow | hyrow
      · rw [hyrow, hname]
      · rw [hyrow, hname] }
  inserted := List.Subset.refl _

theorem respects_delete (userId : UInt64) (users : Users collate) (history : History) :
    Respects (users, history) (UserDao.deleteStatement userId users, { history with
      deleted := history.deleted || users.rows.any fun x => x.1 == userId.toNat }) where
  inv hinv := {
    allotted := hinv.allotted
    distinct := hinv.distinct
    kept := by
      intro hdel e he
      obtain ⟨hbefore, hnone⟩ := Bool.or_eq_false_iff.mp hdel
      obtain ⟨x, hx, hsame⟩ := hinv.kept hbefore e he
      have hne : x.1 ≠ userId.toNat := by simpa using List.any_eq_false.mp hnone x hx
      exact ⟨x, List.mem_filter.mpr ⟨hx, by simpa using hne⟩, hsame⟩ }
  inserted := List.Subset.refl _

/-! ## What a registration ensures -/

section Ensures

variable {k : Nat} {w : Users collate × History}

/-- A step that reads, or that fails before it takes effect. -/
theorem ensures_read {α : Type} {m : Env → Eff Exn (Users collate) α} {P : Except Exn α → Prop}
    (hm : ∀ env users, (m env users).2 = users) (hP : ∀ env users, P (m env users).1) :
    (Prog.atomic m).run.Ensures (record k) Respects (fun r _ => P r) w := by
  refine Prog.Ensures.atomic fun w' _ env => ⟨?_, fun _ _ => hP env w'.1⟩
  show Respects w' ((m env w'.1).2, record k w'.1 (m env w'.1).2 w'.2)
  rw [hm, record_of_same_rows rfl]
  exact refl w'

theorem under_read {α : Type} (f : Fault) {m : Eff Exn (Users collate) α}
    (hm : ∀ users, (m users).2 = users) (users : Users collate) :
    (Eff.under f dbError m users).2 = users := by
  cases f with
  | none | after => exact hm users
  | before => rfl

theorem ensures_getConnection :
    (UserDao.getConnection : Dao collate Session).run.Ensures (record k) Respects
      (fun _ _ => True) w := by
  refine ensures_read (P := fun _ => True) (fun env users => ?_) fun _ _ => trivial
  cases env.connection with
  | some conn => rfl
  | none => rfl

theorem ensures_select (username : Bytes) :
    (UserDao.execute (UserDao.selectByUsername username) : Dao collate _).run.Ensures (record k)
      Respects (fun _ _ => True) w :=
  ensures_read (P := fun _ => True) (fun env users => under_read env.fault (fun _ => rfl) users)
    fun _ _ => trivial

theorem ensures_selectLastInsertId (conn : Session) :
    (UserDao.execute (UserDao.selectLastInsertId conn) : Dao collate _).run.Ensures (record k)
      Respects (fun r _ => ∀ res, r = .ok res → res = some conn.lastInsertId) w := by
  refine ensures_read (P := fun r => ∀ res, r = .ok res → res = some conn.lastInsertId)
    (fun env users => under_read env.fault (fun _ => rfl) users) fun env users res hres => ?_
  cases hf : env.fault with
  | none =>
    rw [hf] at hres
    exact (Except.ok.inj hres).symm
  | before | after =>
    rw [hf] at hres
    cases hres

/-- The INSERT of the `k`-th registration, whether it is reported or not. -/
theorem respects_insertStatement (k : Nat) (row : UserRow) (conn : Session)
    (w : Users collate × History) :
    Respects w (Prog.after (record k) (fun users => (UserDao.insertStatement row conn users).2) w) ∧
    ∀ conn', (UserDao.insertStatement row conn w.1).1 = .ok conn' →
      conn'.lastInsertId < 2 ^ 64 ∧ (k, conn'.lastInsertId, row) ∈
        (Prog.after (record k) (fun users => (UserDao.insertStatement row conn users).2) w).2.inserted := by
  obtain ⟨users, history⟩ := w
  rcases UserDao.insertStatement_eq row conn users with
    ⟨hfree, hnext, heq⟩ | ⟨e, users', heq, hrows, hnext⟩
  · simp only [Prog.after, heq, record_append hfree]
    refine ⟨respects_append hfree history, fun conn' hconn => ?_⟩
    cases hconn
    exact ⟨hnext, List.mem_append_right _ (List.mem_singleton_self _)⟩
  · simp only [Prog.after, heq, record_of_same_rows hrows]
    exact ⟨respects_of_same_rows hrows hnext, fun conn' hconn => by cases hconn⟩

/-- After an INSERT that was reported, `LAST_INSERT_ID()` is the id of the row
that this very step added. -/
theorem ensures_insertStatement (row : UserRow) (conn : Session) :
    (UserDao.execute (UserDao.insertStatement row conn) : Dao collate _).run.Ensures (record k)
      Respects (fun r w => ∀ conn', r = .ok conn' → conn'.lastInsertId < 2 ^ 64 ∧
        (k, conn'.lastInsertId, row) ∈ w.2.inserted) w := by
  refine Prog.Ensures.atomic fun w' _ env => ?_
  obtain ⟨hrespects, hinserted⟩ := respects_insertStatement k row conn w'
  cases env.fault with
  | none =>
    refine ⟨hrespects, fun w'' hw'' conn' hconn => ?_⟩
    obtain ⟨hlt, hmem⟩ := hinserted conn' hconn
    exact ⟨hlt, hw''.inserted hmem⟩
  | before =>
    refine ⟨?_, fun _ _ conn' hconn => by cases hconn⟩
    show Respects w' (w'.1, record k w'.1 w'.1 w'.2)
    rw [record_of_same_rows rfl]
    exact refl w'
  | after => exact ⟨hrespects, fun _ _ conn' hconn => by cases hconn⟩

theorem ensures_findByUsername (username : Bytes) :
    (UserDao.findByUsername username : Prog Env (Users collate) _).Ensures (record k) Respects
      (fun _ _ => True) w := by
  have hattempt : ∀ w : Users collate × History,
      (UserDao.findByUsernameAttempt username : Dao collate _).run.Ensures (record k) Respects
        (fun _ _ => True) w := by
    intro w
    refine ensures_getConnection.bindExcept (fun conn w _ => ?_) fun _ _ _ => trivial
    refine (ensures_select username).bindExcept (fun res w _ => ?_) fun _ _ _ => trivial
    cases res with
    | some x => exact fun _ _ => trivial
    | none => exact fun _ _ => trivial
  unfold UserDao.findByUsername
  rw [Steps.executeWithRetry_eq]
  refine Prog.Ensures.retried hattempt (fun r => ?_) _
  cases r with
  | ok user => exact ⟨user, rfl⟩
  | error e => exact ⟨none, rfl⟩

/-- An id that `Insert` reports is that of a row which this call added. -/
theorem ensures_insert (user : UserModel) :
    (UserDao.insert user : Prog Env (Users collate) _).Ensures (record k) Respects
      (fun r w => r.1 = true → (k, r.2.toNat, UserDao.rowOf user) ∈ w.2.inserted) w := by
  have hattempt : ∀ w : Users collate × History,
      (UserDao.insertAttempt user : Dao collate _).run.Ensures (record k) Respects
        (fun r w => ∀ userId, r = .ok userId →
          (k, userId.toNat, UserDao.rowOf user) ∈ w.2.inserted) w := by
    intro w
    refine ensures_getConnection.bindExcept (fun conn w _ => ?_) fun _ _ _ _ h => by cases h
    refine (ensures_insertStatement (UserDao.rowOf user) conn).bindExcept
      (fun conn' w hconn => ?_) fun _ _ _ _ h => by cases h
    have hstays := hconn.mono fun _ h => h conn' rfl
    refine ((ensures_selectLastInsertId conn').frame hstays).bindExcept (fun res w' hres => ?_)
      fun _ _ _ _ h => by cases h
    obtain rfl := hres.now.1 res rfl
    refine Prog.Stably.mono hres fun w h userId hid => ?_
    obtain rfl := Except.ok.inj hid
    rw [UInt64.toNat_ofNat_of_lt' h.2.1]
    exact h.2.2
  unfold UserDao.insert
  rw [Steps.executeWithRetry_eq]
  refine (Prog.Ensures.retry (fun w _ => hattempt w) (fun _ _ _ => trivial) trivial _).bind
    fun r w hr => ?_
  cases r with
  | ok userId => exact Prog.Stably.mono hr fun w h _ => h userId rfl
  | error e => exact fun _ _ h => by cases h

variable (generateHash : Bytes → Nat → Bytes → Except Exn Bytes)

/-- A registration reports success only with the id of a row that it inserted
with its own data, whatever the others do and whatever fails. -/
theorem ensures_register (c : Registration) :
    (register generateHash c : Dao collate _).run.Ensures (record k) Respects
      (Truthful generateHash k c) w := by
  have hfailed : ∀ (message : Bytes) (w : Users collate × History),
      (pure (false, message, 0) : Dao collate (Bool × Bytes × UInt64)).run.Ensures (record k) Respects
        (Truthful generateHash k c) w :=
    fun _ _ _ _ _ _ h => by cases h
  unfold register
  refine (ensures_findByUsername c.username).lift.bindExcept (fun existing w _ => ?_)
    fun _ _ _ _ _ h => by cases h
  split
  · exact hfailed _ w
  · refine Prog.Ensures.bindExcept (P := fun r _ => r = hashPassword generateHash c.salt c.password)
      (fun _ _ => rfl) (fun hashedPw w hhash => ?_) fun _ _ _ _ _ h => by cases h
    refine (ensures_insert _).lift.bindExcept (fun res w hres => ?_) fun _ _ _ _ _ h => by cases h
    obtain ⟨inserted, newUserId⟩ := res
    dsimp only
    split
    · exact hfailed _ w
    · next hok =>
      refine Prog.Stably.mono hres fun w h message userId heq => ?_
      cases heq
      have hinserted : inserted = true := by
        cases inserted with
        | true => rfl
        | false => exact absurd rfl hok
      exact ⟨_, h _ rfl hinserted, rfl, hhash.now.symm, rfl⟩

end Ensures

/-! ## What holds in every run -/

/-- The invariant of the rows, and what each registration ensures from where it
is on. -/
structure RunInv (s : State collate) : Prop where
  rows : Inv s.world
  registrations : Threads.Good record Respects (Truthful generateHash) s

variable {generateHash : Bytes → Nat → Bytes → Except Exn Bytes} {s s' : State collate}

theorem runInv_start (users : Users collate) : RunInv generateHash (.start users) where
  rows := {
    allotted := by simp [Threads.world, State.start]
    distinct := List.nodup_nil
    kept := by simp [Threads.world, State.start] }
  registrations := by simp [Threads.Good, State.start]

theorem RunInv.step {a : Action} (h : RunInv generateHash s)
    (hstep : AuthService.step generateHash s a = some s') : RunInv generateHash s' := by
  cases a with
  | call c =>
    cases hstep
    exact ⟨h.rows, h.registrations.spawn (ensures_register generateHash c)⟩
  | step k env =>
    obtain ⟨hrespects, hgood⟩ := h.registrations.step hstep
    exact ⟨hrespects.inv h.rows, hgood⟩
  | update user =>
    cases hstep
    have hrespects := respects_update user s.shared s.history
    exact ⟨hrespects.inv h.rows, h.registrations.interfere hrespects rfl⟩
  | delete userId =>
    cases hstep
    have hrespects := respects_delete userId s.shared s.history
    exact ⟨hrespects.inv h.rows, h.registrations.interfere hrespects rfl⟩

theorem RunInv.own {k : Nat} {c : Registration} {userId : UInt64} (h : RunInv generateHash s)
    (hk : Succeeded s k c userId) : Own generateHash k c userId s.history := by
  obtain ⟨message, hk⟩ := hk
  exact h.registrations.returned hk message userId rfl

/-- Rows inserted under one id were inserted by one registration. -/
theorem Inv.same_call {w : Users collate × History} (h : Inv w) {j k id : Nat} {r r' : UserRow}
    (hj : (j, id, r) ∈ w.2.inserted) (hk : (k, id, r') ∈ w.2.inserted) : j = k :=
  congrArg Prod.fst (List.inj_on_of_nodup_map h.distinct hj hk rfl)

theorem RunInv.consistent (h : RunInv generateHash s) : Consistent generateHash s where
  unique x hx y hy hname := List.inj_on_of_nodup_map s.shared.unique hx hy (congrArg collate hname)
  once := by
    intro hdel j k c d userId userId' hj hk hname
    obtain ⟨r, hr, hrname, _⟩ := h.own hj
    obtain ⟨r', hr', hrname', _⟩ := h.own hk
    -- both rows are still there, and the unique key makes them one
    obtain ⟨x, hx, hxid, hxname⟩ := h.rows.kept hdel _ hr
    obtain ⟨y, hy, hyid, hyname⟩ := h.rows.kept hdel _ hr'
    have hsame : x.2.username = y.2.username := by
      rw [hxname, hyname, hrname, hrname', hname]
    obtain rfl := List.inj_on_of_nodup_map s.shared.unique hx hy (congrArg collate hsame)
    have hid : userId.toNat = userId'.toNat := hxid.symm.trans hyid
    rw [← hid] at hr'
    exact h.rows.same_call hr hr'
  own _ _ _ hk := h.own hk
  distinct := by
    intro j k c d userId hj hk
    obtain ⟨r, hr, _⟩ := h.own hj
    obtain ⟨r', hr', _⟩ := h.own hk
    exact h.rows.same_call hr hr'

/-- In every run of registrations, each of them at any step and under any
pattern of faults, usernames and reported ids are unique. -/
theorem consistent_run (users : Users collate) (actions : List Action) :
    HoldsAlong (step generateHash) (Consistent generateHash) (.start users) actions :=
  holdsAlong_of_step (fun _ _ _ (h : RunInv generateHash _) hstep => h.step hstep)
    (fun _ h => h.consistent) (runInv_start users)

/-- Two registrations of one username that both find it free. -/
def race : List Action :=
  let bob (password : String) : Registration := ⟨str "bob", str password, str "Bob", []⟩
  let answered : Env := ⟨some ⟨0⟩, .none⟩
  [.call (bob "one"), .call (bob "two")] ++ List.replicate 2 (.step 0 answered) ++
    List.replicate 2 (.step 1 answered) ++ List.replicate 3 (.step 0 answered) ++
    List.replicate 8 (.step 1 answered)

-- the second one runs into the unique key, four times
example : (run (step fun plainText _ salt => .ok (plainText ++ salt))
    (.start (Users.initial id)) race).map (fun s =>
      (s.history.inserted.map fun e => (e.1, e.2.1), s.threads.map fun x =>
        match x.2 with
        | .ret (.ok (success, _)) => some success
        | _ => none)) = some ([(0, 10000)], [some true, some false]) := by decide +kernel

end

end AuthService

end IMSystem.User

import IMSystem.Common.Json
import IMSystem.Lib.Part
import IMSystem.User.FailedRegistration
import IMSystem.User.TokenManager

/-!
# Logging in (`AuthService::Login`)

A login looks the username up, validates the password against the hash that it has
found, and saves a new token in Redis. Any number of logins run at the same time, each
step of them among the statements of all other requests: registrations insert users,
others update and delete them, and tokens are renewed, deleted and expire. Each step may
fail, before or after it took effect.

Results:
1. `login_run`: in every run, who is let in has given a password that is validated
   against the hash of a registration under this username, or of a row that was there
   before, and holds a token of this user.
2. `registered_run`: in every state of every run, a user registered in the run is let in
   with the password of the registration, as long as the row is there.
-/

namespace IMSystem.User.Login

open Lib Retry TokenManager

/-! ## What the requests share -/

variable (collate : Bytes → Bytes)

/-- The table of users, and Redis. -/
structure Accounts where
  users : Users collate
  redis : Redis
  /-- The rows that were there at the start. -/
  seeded : List (Nat × UserRow)
  /-- The ids of the rows inserted so far, and the registrations that inserted them. -/
  registered : List (Nat × Registration)
  /-- The tokens saved so far, and the users they were saved for. -/
  saved : List (UInt64 × Bytes)

variable {collate}

/-- Any table and any contents of Redis before the first request. -/
def Accounts.initial (users : Users collate) (redis : Redis) : Accounts collate :=
  ⟨users, redis, users.rows, [], []⟩

/-- What the environment decides about one step of a login. -/
structure LoginEnv where
  db : Env
  redis : Fault
  /-- `GetCurrentTimestampMs`. -/
  ts : Int64
  /-- How far `dis(gen)` is above 1000; it is at most 9999. -/
  rand : Fin 9000

/-- A call of `Login`. -/
structure Call where
  username : Bytes
  password : Bytes
  clientType : Int32
deriving DecidableEq, Repr

/-- What `Login` returns: whether it succeeded, a message, the token, and the user. -/
abbrev Answer := Bool × Bytes × Bytes × Bytes

/-- The user as `Login` reports it. -/
def userInfo (user : UserModel) : Json.Tree :=
  .object [(str "user_id", .int user.userId.toNat), (str "username", .string user.username),
    (str "nickname", .string user.nickname), (str "avatar_url", .string user.avatarUrl),
    (str "status", .int user.status.toInt)]

/-- The token that `GenerateAndSaveToken` builds in a step. -/
def LoginEnv.token (env : LoginEnv) (userId : UInt64) (clientType : Int32) : Bytes :=
  tokenString userId clientType env.ts (1000 + env.rand)

/-- `GenerateAndSaveToken`: a SET that raises is a failed one, also if it took effect. -/
def saveToken (userId : UInt64) (clientType : Int32) : Prog LoginEnv (Accounts collate) Bytes :=
  .act (fun env a =>
      match env.redis with
      | .before => a
      | _ => { a with
          redis := (generateAndSaveToken a.redis userId clientType env.ts (1000 + env.rand)).2
          saved := a.saved ++ [(userId, env.token userId clientType)] })
    fun env a => .ret (
      match env.redis with
      | .none => (generateAndSaveToken a.redis userId clientType env.ts (1000 + env.rand)).1
      | _ => [])

/-- A call of the user DAO. -/
def onUsers {α : Type} (p : Prog Env (Users collate) α) : Prog LoginEnv (Accounts collate) α :=
  p.part (fun a => a.users) (fun a users => { a with users := users }) LoginEnv.db

section

-- `BCrypt::validatePassword`
variable (validatePassword : Bytes → Bytes → Bool)
-- `Json::writeString`
variable (writeString : Json.Tree → Bytes)

/-- `AuthService::Login`. -/
def login (c : Call) : Prog LoginEnv (Accounts collate) Answer :=
  onUsers (UserDao.findByUsername c.username) >>= fun
    | none => .ret (false, str "USER_NOT_FOUND", [], [])
    | some user =>
      if !validatePassword c.password user.passwordHash then
        .ret (false, str "PASSWORD_ERROR", [], [])
      else saveToken user.userId c.clientType >>= fun newToken =>
        if newToken.isEmpty then .ret (false, str "SERVER_INTERNAL_ERROR", [], [])
        else .ret (true, str "SUCCESS", newToken, writeString (userInfo user))

end

/-! ## Logins among other requests -/

variable (collate) in
/-- What is shared, and the logins made so far. -/
abbrev State := Threads Call LoginEnv (Accounts collate) Unit Answer

/-- No request yet. -/
def State.start (users : Users collate) (redis : Redis) : State collate :=
  ⟨.initial users redis, (), []⟩

/-- Nothing is noted down but what the shared state itself keeps. -/
def record (_ : Nat) (_ _ : Accounts collate) (_ : Unit) : Unit := ()

inductive Action where
  /-- `Login` is called. -/
  | call (c : Call)
  /-- The `k`-th login makes its next step. -/
  | step (k : Nat) (env : LoginEnv)
  /-- An INSERT of a call of `Register` reaches the table. -/
  | insert (r : Registration)
  /-- The UPDATE of `UserDao::Update` takes effect. -/
  | update (user : UserModel)
  /-- The DELETE of `UserDao::Delete` takes effect. -/
  | delete (userId : UInt64)
  /-- The SET of a call of `VerifyToken` takes effect. -/
  | renew (userId : UInt64) (token : Bytes)
  /-- The DEL of a call of `DeleteToken` takes effect. -/
  | drop (userId : UInt64)
  /-- Time passes at the Redis server. -/
  | tick (ms : Nat)

section Step

variable (generateHash : Bytes → Nat → Bytes → Except Exn Bytes)
  (validatePassword : Bytes → Bytes → Bool) (writeString : Json.Tree → Bytes)

/-- The INSERT of a registration. -/
def insertRow (r : Registration) (a : Accounts collate) : Option (Accounts collate) :=
  match AuthService.hashPassword generateHash r.salt r.password with
  | .ok hashedPw =>
    match UserDao.insertStatement (UserDao.rowOf (Alone.newUser r hashedPw)) ⟨0⟩ a.users with
    | (.ok conn, users) => some { a with
        users := users
        registered := a.registered ++ [(conn.lastInsertId, r)] }
    | (.error _, users) => some { a with users := users }
  | .error _ => none

/-- One step. -/
def step (s : State collate) : Action → Option (State collate)
  | .call c => some (s.spawn c (login validatePassword writeString c))
  | .step k env => Threads.step record s k env
  | .insert r => (insertRow generateHash r s.shared).map fun a => { s with shared := a }
  | .update user => some { s with
      shared := { s.shared with users := UserDao.updateStatement user s.shared.users } }
  | .delete userId => some { s with
      shared := { s.shared with users := UserDao.deleteStatement userId s.shared.users } }
  | .renew userId token => some { s with
      shared := { s.shared with
        redis := (RedisClient.set s.shared.redis (getRedisKey userId) token kTokenExpireSeconds).2 } }
  | .drop userId => some { s with
      shared := { s.shared with
        redis := (RedisClient.delete s.shared.redis (getRedisKey userId)).2 } }
  | .tick ms => some { s with shared := { s.shared with redis := s.shared.redis.tick ms } }

/-- The name and the hash are those of a registration. -/
structure Matches (r : Registration) (username passwordHash : Bytes) : Prop where
  username : username = r.username
  passwordHash : AuthService.hashPassword generateHash r.salt r.password = .ok passwordHash

/-- A name and a hash that were stored under the id: by a registration, or at the start. -/
def Stored (a : Accounts collate) (id : Nat) (username passwordHash : Bytes) : Prop :=
  (∃ r, (id, r) ∈ a.registered ∧ Matches generateHash r username passwordHash) ∨
    ∃ row, (id, row) ∈ a.seeded ∧ row.username = username ∧ row.passwordHash = passwordHash

/-- A login that lets somebody in has found a user that a registration has inserted, or that
was there at the start, under a name that the collation takes as equal, and the password is
validated against the hash of this user. The token was saved for this user, and it is
reported who it is. -/
def Truthful (c : Call) (answer : Answer) (a : Accounts collate) : Prop :=
  ∀ message token info, answer = (true, message, token, info) →
    ∃ id user, Stored generateHash a id user.username user.passwordHash ∧
      user.userId = UInt64.ofNat id ∧
      collate user.username = collate c.username ∧
      validatePassword c.password user.passwordHash = true ∧
      (user.userId, token) ∈ a.saved ∧ info = writeString (userInfo user) ∧
      ∃ env : LoginEnv, token = env.token user.userId c.clientType

end Step

/-! ## What every step respects -/

section Respects

variable {generateHash : Bytes → Nat → Bytes → Except Exn Bytes}

variable (generateHash) in
/-- Every row is one of the start, or that of the registration that has its id; only its
nickname, its avatar and its status change. -/
structure Inv (a : Accounts collate) : Prop where
  allotted : ∀ e ∈ a.registered, e.1 < a.users.next
  stored : ∀ x ∈ a.users.rows, Stored generateHash a x.1 x.2.username x.2.passwordHash
  rows : ∀ x ∈ a.users.rows, ∀ r, (x.1, r) ∈ a.registered →
    Matches generateHash r x.2.username x.2.passwordHash

variable (generateHash) in
/-- What every step of anybody does. -/
structure Respects (a a' : Accounts collate) : Prop where
  inv : Inv generateHash a → Inv generateHash a'
  seeded : a.seeded = a'.seeded
  registered : a.registered ⊆ a'.registered
  saved : a.saved ⊆ a'.saved

variable {a a' a'' : Accounts collate}

theorem Respects.refl (a : Accounts collate) : Respects generateHash a a :=
  ⟨id, rfl, List.Subset.refl _, List.Subset.refl _⟩

theorem Respects.trans (h : Respects generateHash a a') (h' : Respects generateHash a' a'') :
    Respects generateHash a a'' :=
  ⟨h'.inv ∘ h.inv, h.seeded.trans h'.seeded, List.Subset.trans h.registered h'.registered,
    List.Subset.trans h.saved h'.saved⟩

/-- What is stored stays known. -/
theorem Stored.mono {id : Nat} {username passwordHash : Bytes}
    (h : Stored generateHash a id username passwordHash) (hseeded : a.seeded = a'.seeded)
    (hregistered : a.registered ⊆ a'.registered) :
    Stored generateHash a' id username passwordHash := by
  obtain ⟨r, hr, hmatches⟩ | ⟨row, hrow, hsame⟩ := h
  · exact .inl ⟨r, hregistered hr, hmatches⟩
  · exact .inr ⟨row, hseeded ▸ hrow, hsame⟩

instance : IsPreorder (Accounts collate × Unit) fun w w' => Respects generateHash w.1 w'.1 where
  refl w := .refl w.1
  trans _ _ _ h h' := h.trans h'

/-- The table alone, with everything else noted down beside it. -/
instance : IsPreorder (Users collate × Accounts collate) fun w w' =>
    (w.1 = w.2.users → w'.1 = w'.2.users) ∧ Respects generateHash w.2 w'.2 where
  refl w := ⟨id, .refl w.2⟩
  trans _ _ _ h h' := ⟨h'.1 ∘ h.1, h.2.trans h'.2⟩

/-- A step that leaves the table and what was registered alone. -/
theorem respects_redis {redis : Redis} {saved : List (UInt64 × Bytes)} (h : a.saved ⊆ saved) :
    Respects generateHash a { a with redis := redis, saved := saved } :=
  ⟨fun h => ⟨h.allotted, h.stored, h.rows⟩, rfl, List.Subset.refl _, h⟩

/-- A step that keeps the names and the hashes of the rows that it leaves. -/
theorem respects_rows {users : Users collate} (hnext : a.users.next ≤ users.next)
    (h : ∀ x ∈ users.rows, ∃ y ∈ a.users.rows,
      y.1 = x.1 ∧ y.2.username = x.2.username ∧ y.2.passwordHash = x.2.passwordHash) :
    Respects generateHash a { a with users := users } where
  inv hinv := {
    allotted := fun e he => Nat.lt_of_lt_of_le (hinv.allotted e he) hnext
    stored := fun x hx => by
      obtain ⟨y, hy, hid, hname, hhash⟩ := h x hx
      rw [← hid, ← hname, ← hhash]
      exact hinv.stored y hy
    rows := fun x hx r hr => by
      obtain ⟨y, hy, hid, hname, hhash⟩ := h x hx
      rw [← hname, ← hhash]
      exact hinv.rows y hy r (hid ▸ hr) }
  seeded := rfl
  registered := List.Subset.refl _
  saved := List.Subset.refl _

theorem respects_insertRow {r : Registration} (h : insertRow generateHash r a = some a') :
    Respects generateHash a a' := by
  unfold insertRow at h
  cases hhash : AuthService.hashPassword generateHash r.salt r.password with
  | error e =>
    rw [hhash] at h
    cases h
  | ok hashedPw =>
    rw [hhash] at h
    dsimp only at h
    obtain ⟨hfree, _, heq⟩ | ⟨e, users', heq, hrows, hnext⟩ :=
      UserDao.insertStatement_eq (UserDao.rowOf (Alone.newUser r hashedPw)) ⟨0⟩ a.users
    · rw [heq] at h
      cases h
      have hrow : ∀ x, x ∈ (a.users.append _ hfree).rows → x ∈ a.users.rows ∨
          x = (a.users.next, UserDao.rowOf (Alone.newUser r hashedPw)) := by
        intro x hx
        simpa using hx
      have hentry : ∀ e, e ∈ a.registered ++ [(a.users.next, r)] → e ∈ a.registered ∨
          e = (a.users.next, r) := by
        intro e he
        simpa using he
      refine ⟨fun hinv => ⟨fun e he => ?_, fun x hx => ?_, fun x hx r' hr' => ?_⟩, rfl,
        List.subset_append_left _ _, List.Subset.refl _⟩
      · obtain hold | rfl := hentry e he
        · exact Nat.lt_succ_of_lt (hinv.allotted e hold)
        · exact Nat.lt_succ_self _
      · obtain hold | rfl := hrow x hx
        · exact (hinv.stored x hold).mono rfl (List.subset_append_left _ _)
        · exact .inl ⟨r, List.mem_append_right _ (List.mem_singleton_self _), rfl, hhash⟩
      · -- the id of the new row is that of no row and of no registration before it
        obtain hold | rfl := hrow x hx
        · obtain hr' | hr' := hentry _ hr'
          · exact hinv.rows x hold r' hr'
          · exact absurd (congrArg Prod.fst hr') (Nat.ne_of_lt (a.users.bounded x hold))
        · obtain hr' | hr' := hentry _ hr'
          · exact absurd (hinv.allotted _ hr') (Nat.lt_irrefl _)
          · obtain rfl : r' = r := congrArg Prod.snd hr'
            exact ⟨rfl, hhash⟩
    · rw [heq] at h
      cases h
      exact respects_rows hnext fun x hx => ⟨x, hrows ▸ hx, rfl, rfl, rfl⟩

theorem respects_update (user : UserModel) : Respects generateHash a
    { a with users := UserDao.updateStatement user a.users } := by
  refine respects_rows (Nat.le_refl _) fun x hx => ?_
  obtain ⟨y, hy, rfl⟩ := List.mem_map.mp hx
  refine ⟨y, hy, ?_⟩
  split <;> exact ⟨rfl, rfl, rfl⟩

theorem respects_delete (userId : UInt64) : Respects generateHash a
    { a with users := UserDao.deleteStatement userId a.users } :=
  respects_rows (Nat.le_refl _) fun x hx => ⟨x, (List.mem_filter.mp hx).1, rfl, rfl, rfl⟩

end Respects

/-! ## What a login ensures -/

section Ensures

variable {generateHash : Bytes → Nat → Bytes → Except Exn Bytes}
  {validatePassword : Bytes → Bytes → Bool} {writeString : Json.Tree → Bytes} {k : Nat}

/-- What a step on the table leaves of everything else. -/
def recordUsers (_ : Nat) (_ after : Users collate) (a : Accounts collate) : Accounts collate :=
  { a with users := after }

variable (generateHash) in
/-- The user is one that is stored under the name. -/
def Found (username : Bytes) (user : UserModel) (a : Accounts collate) : Prop :=
  ∃ id, Stored generateHash a id user.username user.passwordHash ∧
    user.userId = UInt64.ofNat id ∧ collate user.username = collate username

theorem Found.stable {username : Bytes} {user : UserModel} {a a' : Accounts collate}
    (h : Found generateHash username user a) (ha : Respects generateHash a a') :
    Found generateHash username user a' := by
  obtain ⟨id, hstored, hrest⟩ := h
  exact ⟨id, hstored.mono ha.seeded ha.registered, hrest⟩

variable (generateHash) in
/-- The table is that of the accounts, and it is known where its rows come from. -/
def Sound (w : Users collate × Accounts collate) : Prop :=
  w.1 = w.2.users ∧ Inv generateHash w.2

/-- A step that reads the table, or fails before it does. -/
theorem ensures_read {α : Type} {m : Env → Eff Exn (Users collate) α}
    {P : Except Exn α → Accounts collate → Prop} (hm : ∀ env users, (m env users).2 = users)
    (hP : ∀ env a, Inv generateHash a → P (m env a.users).1 a)
    (hstable : ∀ r a a', P r a → Respects generateHash a a' → P r a')
    {w : Users collate × Accounts collate} (h : Sound generateHash w) :
    (Prog.atomic m).run.Ensures (recordUsers k)
      (fun w w' => (w.1 = w.2.users → w'.1 = w'.2.users) ∧ Respects generateHash w.2 w'.2)
      (fun r w => Sound generateHash w ∧ P r w.2) w := by
  refine Prog.Ensures.atomic fun w' hw' env => ?_
  obtain ⟨users, a⟩ := w'
  obtain rfl : users = a.users := hw'.1 h.1
  have hsame : Prog.after (recordUsers k) (fun users => (m env users).2) (a.users, a) =
      (a.users, a) := by
    simp only [Prog.after, hm, recordUsers]
  rw [hsame]
  refine ⟨⟨id, .refl a⟩, fun w'' hw'' => ⟨⟨hw''.1 rfl, hw''.2.inv (hw'.2.inv h.2)⟩, ?_⟩⟩
  exact hstable _ _ _ (hP env a (hw'.2.inv h.2)) hw''.2

theorem ensures_findByUsernameAttempt (username : Bytes) {w : Users collate × Accounts collate}
    (h : Sound generateHash w) :
    (UserDao.findByUsernameAttempt username : Dao collate _).run.Ensures (recordUsers k)
      (fun w w' => (w.1 = w.2.users → w'.1 = w'.2.users) ∧ Respects generateHash w.2 w'.2)
      (fun found w => Sound generateHash w ∧
        ∀ user, found = .ok (some user) → Found generateHash username user w.2) w := by
  refine Prog.Ensures.bindExcept (ensures_read (k := k)
    (P := fun (_ : Except Exn Session) _ => True) (fun env users => ?_) (fun _ _ _ => trivial)
    (fun _ _ _ _ _ => trivial) h) (fun conn w hw => ?_) fun _ _ hw => ⟨hw.1, nofun⟩
  · cases env.connection <;> rfl
  have hselect := ensures_read (k := k)
    (P := fun (r : Except Exn (Option (Nat × UserRow))) a => ∀ x, r = .ok (some x) →
      Found generateHash username (UserDao.userOf x.1 x.2) a)
    (m := fun env : Env => Eff.under env.fault dbError (UserDao.selectByUsername username))
    (fun env users => AuthService.under_read env.fault (fun _ => rfl) users) ?_
    (fun r a a' hfound ha x hx => (hfound x hx).stable ha) hw.now.1
  · refine hselect.bindExcept (fun res w hres => ?_) fun _ _ hw => ⟨hw.1, nofun⟩
    cases res with
    | some x =>
      refine Prog.Stably.mono hres fun w h => ⟨h.1, fun user huser => ?_⟩
      cases huser
      exact h.2 x rfl
    | none => exact Prog.Stably.mono hres fun w h => ⟨h.1, nofun⟩
  · intro env a hinv x hx
    cases hfault : env.fault with
    | none =>
      rw [hfault] at hx
      have hfind : a.users.rows.find? (fun x => collate x.2.username == collate username) = some x :=
        Except.ok.inj hx
      have hx := List.mem_of_find?_eq_some hfind
      have hname : collate x.2.username = collate username := by
        simpa using List.find?_some hfind
      exact ⟨x.1, hinv.stored x hx, rfl, hname⟩
    | before | after =>
      rw [hfault] at hx
      cases hx

/-- A user that is found was stored under the name. -/
theorem ensures_findByUsername (username : Bytes) {w : Users collate × Accounts collate}
    (h : Sound generateHash w) :
    (UserDao.findByUsername username).Ensures (recordUsers k)
      (fun w w' => (w.1 = w.2.users → w'.1 = w'.2.users) ∧ Respects generateHash w.2 w'.2)
      (fun found w => Sound generateHash w ∧
        ∀ user, found = some user → Found generateHash username user w.2) w := by
  unfold UserDao.findByUsername
  rw [Steps.executeWithRetry_eq]
  refine (Prog.Ensures.retry (fun w hw => ensures_findByUsernameAttempt username hw)
    (fun _ _ h => h.1) h _).bind fun r w hr => ?_
  cases r with
  | ok found =>
    exact Prog.Stably.mono hr fun w h => ⟨h.1, fun user huser => h.2 user (congrArg _ huser)⟩
  | error e => exact Prog.Stably.mono hr fun w h => ⟨h.1, nofun⟩

/-- Among all other requests as well. -/
theorem ensures_onUsers_findByUsername (username : Bytes) {w : Accounts collate × Unit}
    (h : Inv generateHash w.1) :
    (onUsers (UserDao.findByUsername username)).Ensures (record k)
      (fun w w' => Respects generateHash w.1 w'.1)
      (fun found w => Inv generateHash w.1 ∧
        ∀ user, found = some user → Found generateHash username user w.1) w := by
  exact Prog.Ensures.mono (Prog.Ensures.part (fun w : Accounts collate × Unit => (w.1.users, w.1))
    (fun _ => rfl) (fun _ _ => rfl) (fun w w' => ⟨fun h => ⟨fun _ => rfl, h⟩, fun h => h.2⟩)
    (ensures_findByUsername (k := k) username (w := (w.1.users, w.1)) ⟨rfl, h⟩))
    fun found w h => ⟨h.1.2, h.2⟩

/-- A token that is answered was saved for its user. -/
theorem ensures_saveToken (userId : UInt64) (clientType : Int32) (w : Accounts collate × Unit) :
    (saveToken userId clientType).Ensures (record k) (fun w w' => Respects generateHash w.1 w'.1)
      (fun token w => token ≠ [] → (userId, token) ∈ w.1.saved ∧
        ∃ env : LoginEnv, token = env.token userId clientType) w := by
  intro w' _ env
  have hsaved : Respects generateHash w'.1 { w'.1 with
      redis := (generateAndSaveToken w'.1.redis userId clientType env.ts (1000 + env.rand)).2
      saved := w'.1.saved ++ [(userId, env.token userId clientType)] } :=
    respects_redis (List.subset_append_left _ _)
  cases hfault : env.redis with
  | none =>
    simp only [Prog.after, hfault]
    refine ⟨hsaved, fun w'' hw'' _ => ⟨hw''.saved ?_, env, rfl⟩⟩
    exact List.mem_append_right _ (List.mem_singleton_self _)
  | before =>
    simp only [Prog.after, hfault]
    exact ⟨.refl _, fun _ _ hne => absurd rfl hne⟩
  | after =>
    simp only [Prog.after, hfault]
    exact ⟨hsaved, fun _ _ hne => absurd rfl hne⟩

variable (generateHash validatePassword writeString) in
/-- Whatever the other requests do in between, a login lets in only who has the password. -/
theorem ensures_login (c : Call) {w : Accounts collate × Unit} (h : Inv generateHash w.1) :
    (login validatePassword writeString c).Ensures (record k)
      (fun w w' => Respects generateHash w.1 w'.1)
      (fun answer w => Truthful generateHash validatePassword writeString c answer w.1) w := by
  have hrefused : ∀ (message : Bytes) (w : Accounts collate × Unit),
      (Prog.ret (false, message, [], []) : Prog LoginEnv (Accounts collate) Answer).Ensures (record k)
        (fun w w' => Respects generateHash w.1 w'.1)
        (fun answer w => Truthful generateHash validatePassword writeString c answer w.1) w :=
    fun _ _ _ _ _ _ _ heq => by cases heq
  unfold login
  refine (ensures_onUsers_findByUsername c.username h).bind fun found w hfound => ?_
  cases found with
  | none => exact hrefused _ w
  | some user =>
    dsimp only
    split
    · exact hrefused _ w
    · next hvalid =>
      rw [Bool.not_eq_true, Bool.not_eq_false'] at hvalid
      refine ((ensures_saveToken user.userId c.clientType w).frame hfound).bind fun token w hw => ?_
      split
      · exact hrefused _ w
      · next htoken =>
        rw [List.isEmpty_iff] at htoken
        refine Prog.Stably.mono hw fun w h message token' info heq => ?_
        cases heq
        obtain ⟨hsaved, _, huser⟩ := h
        obtain ⟨id, hstored, hid, hname⟩ := huser user rfl
        obtain ⟨hmem, henv⟩ := hsaved htoken
        exact ⟨id, user, hstored, hid, hname, hvalid, hmem, rfl, henv⟩

end Ensures

/-! ## What holds in every run -/

section Run

variable {generateHash : Bytes → Nat → Bytes → Except Exn Bytes}
  {validatePassword : Bytes → Bytes → Bool} {writeString : Json.Tree → Bytes}

variable (generateHash validatePassword writeString) in
structure RunInv (s : State collate) : Prop where
  inv : Inv generateHash s.shared
  logins : Threads.Good record (fun w w' => Respects generateHash w.1 w'.1)
    (fun _ c answer w => Truthful generateHash validatePassword writeString c answer w.1) s

theorem runInv_start (users : Users collate) (redis : Redis) :
    RunInv generateHash validatePassword writeString (State.start users redis) where
  inv := ⟨fun e he => (by cases he), fun x hx => .inr ⟨x.2, hx, rfl, rfl⟩,
    fun x _ r hr => (by cases hr)⟩
  logins k i p hk := by cases hk

/-- A statement of another request. -/
theorem RunInv.interfere {s : State collate} {a : Accounts collate}
    (h : RunInv generateHash validatePassword writeString s)
    (ha : Respects generateHash s.shared a) :
    RunInv generateHash validatePassword writeString { s with shared := a } :=
  ⟨ha.inv h.inv, h.logins.interfere ha rfl⟩

theorem RunInv.step {s s' : State collate} (a : Action)
    (h : RunInv generateHash validatePassword writeString s)
    (hstep : step generateHash validatePassword writeString s a = some s') :
    RunInv generateHash validatePassword writeString s' := by
  cases a with
  | call c =>
    cases hstep
    exact ⟨h.inv, h.logins.spawn (ensures_login generateHash validatePassword writeString c h.inv)⟩
  | step k env =>
    obtain ⟨hrespects, hgood⟩ := h.logins.step hstep
    exact ⟨hrespects.inv h.inv, hgood⟩
  | insert r =>
    obtain ⟨a, ha, rfl⟩ := Option.map_eq_some_iff.mp hstep
    exact h.interfere (respects_insertRow ha)
  | update user =>
    cases hstep
    exact h.interfere (respects_update user)
  | delete userId =>
    cases hstep
    exact h.interfere (respects_delete userId)
  | renew userId token | drop userId | tick ms =>
    cases hstep
    exact h.interfere (respects_redis (List.Subset.refl _))

end Run

/-! ## Registered users are let in -/

section Registered

variable {validatePassword : Bytes → Bytes → Bool} {writeString : Json.Tree → Bytes}

/-- Nothing fails. -/
def LoginEnv.Quiet (env : LoginEnv) : Prop :=
  (∃ conn, env.db = ⟨some conn, .none⟩) ∧ env.redis = .none

/-- Undisturbed, a lookup finds the row whose name the collation takes as equal. -/
theorem exec_findByUsername {env : Env} {conn : Session} (henv : env = ⟨some conn, .none⟩)
    {users : Users collate} {x : Nat × UserRow} (hx : x ∈ users.rows) {username : Bytes}
    (hname : collate x.2.username = collate username) :
    (UserDao.findByUsername username).exec env users = (some (UserDao.userOf x.1 x.2), users) := by
  subst henv
  have hfind : users.rows.find? (fun y => collate y.2.username == collate username) = some x := by
    refine Table.find?_eq_some_of_unique hx (by rw [hname, beq_self_eq_true]) fun y hy h => ?_
    exact List.inj_on_of_nodup_map users.unique hy hx ((eq_of_beq h).trans hname.symm)
  have hselect : (UserDao.execute (UserDao.selectByUsername username) : Dao collate _).run.exec
      ⟨some conn, .none⟩ users = (.ok (some x), users) := by
    show (Except.ok (users.rows.find? fun y => collate y.2.username == collate username), users) = _
    rw [hfind]
  have hattempt : (UserDao.findByUsernameAttempt username : Dao collate _).run.exec
      ⟨some conn, .none⟩ users = (.ok (some (UserDao.userOf x.1 x.2)), users) := by
    unfold UserDao.findByUsernameAttempt
    have hconnection : (UserDao.getConnection : Dao collate _).run.exec ⟨some conn, .none⟩ users =
        (.ok conn, users) := rfl
    rw [Prog.exec_bind_of_ok hconnection, Prog.exec_bind_of_ok hselect]
    rfl
  unfold UserDao.findByUsername
  rw [Steps.executeWithRetry_eq, Prog.exec_bind, Prog.exec_retry_of_ok hattempt]
  rfl

/-- A registered user is let in with the password of the registration. -/
theorem exec_login {generateHash : Bytes → Nat → Bytes → Except Exn Bytes}
    (hbcrypt : ∀ password salt hash, generateHash password 12 salt = .ok hash →
      validatePassword password hash = true)
    {a : Accounts collate} (h : Inv generateHash a) {x : Nat × UserRow} (hx : x ∈ a.users.rows)
    {r : Registration} (hr : (x.1, r) ∈ a.registered) {env : LoginEnv} (henv : env.Quiet)
    {username : Bytes} (hname : collate username = collate r.username) (clientType : Int32) :
    (login validatePassword writeString ⟨username, r.password, clientType⟩).exec env a =
      ((true, str "SUCCESS", env.token (UInt64.ofNat x.1) clientType,
          writeString (userInfo (UserDao.userOf x.1 x.2))),
        { a with
          redis := a.redis.put (getRedisKey (UInt64.ofNat x.1))
            (env.token (UInt64.ofNat x.1) clientType) (some tokenLife)
          saved := a.saved ++ [(UInt64.ofNat x.1, env.token (UInt64.ofNat x.1) clientType)] }) := by
  obtain ⟨hrow, hhash⟩ := h.rows x hx r hr
  obtain ⟨⟨conn, hdb⟩, hredis⟩ := henv
  have hvalid : validatePassword r.password x.2.passwordHash = true := hbcrypt _ _ _ hhash
  have hlookup : (onUsers (UserDao.findByUsername username)).exec env a =
      (some (UserDao.userOf x.1 x.2), a) := by
    unfold onUsers
    rw [Prog.exec_part, exec_findByUsername hdb hx (by rw [hrow, hname])]
    · exact fun _ _ => rfl
    · exact fun _ _ _ => rfl
    · exact fun _ => rfl
  have hsave : (saveToken (UInt64.ofNat x.1) clientType).exec env a =
      (env.token (UInt64.ofNat x.1) clientType, { a with
        redis := a.redis.put (getRedisKey (UInt64.ofNat x.1))
          (env.token (UInt64.ofNat x.1) clientType) (some tokenLife)
        saved := a.saved ++ [(UInt64.ofNat x.1, env.token (UInt64.ofNat x.1) clientType)] }) := by
    simp only [saveToken, Prog.exec, hredis]
    rfl
  have htoken : (env.token (UInt64.ofNat x.1) clientType).isEmpty = false :=
    List.isEmpty_eq_false_iff.mpr (tokenString_ne_nil _ _ _ _)
  unfold login
  rw [Prog.exec_bind, hlookup]
  dsimp only
  rw [if_neg (by rw [show (UserDao.userOf x.1 x.2).passwordHash = x.2.passwordHash from rfl, hvalid]
                 decide), Prog.exec_bind,
    show (UserDao.userOf x.1 x.2).userId = UInt64.ofNat x.1 from rfl, hsave]
  dsimp only
  rw [htoken]
  rfl

variable (generateHash : Bytes → Nat → Bytes → Except Exn Bytes)
  (validatePassword writeString)

/-- In every state of every run, from any table on, however the statements of the other
requests were mixed and whatever failed before: who was registered in this run, and still has
the row, is let in under the name with the password of the registration, gets a token of his
own, and Redis holds this token. -/
theorem registered_run
    (hbcrypt : ∀ password salt hash, generateHash password 12 salt = .ok hash →
      validatePassword password hash = true)
    (users : Users collate) (redis : Redis) (as : List Action) :
    HoldsAlong (step generateHash validatePassword writeString)
      (fun s => ∀ x ∈ s.shared.users.rows, ∀ r, (x.1, r) ∈ s.shared.registered →
        ∀ env : LoginEnv, env.Quiet → ∀ username clientType, collate username = collate r.username →
          let (answer, a) := (login validatePassword writeString
            ⟨username, r.password, clientType⟩).exec env s.shared
          let token := env.token (UInt64.ofNat x.1) clientType
          answer = (true, str "SUCCESS", token, writeString (userInfo (UserDao.userOf x.1 x.2))) ∧
            a.redis.get (getRedisKey (UInt64.ofNat x.1)) = some token)
      (State.start users redis) as := by
  refine holdsAlong_of_step (fun s a s' (h : RunInv _ _ _ s) hstep => h.step a hstep)
    (fun s h x hx r hr env henv username clientType hname => ?_) (runInv_start users redis)
  rw [exec_login hbcrypt h.inv hx hr henv hname clientType]
  exact ⟨rfl, Expiring.get_put_self _ _ _ (by decide)⟩

/-! ### One registration -/

/-- The collation, on ASCII: upper and lower case are taken as equal. -/
def lower (name : Bytes) : Bytes := name.map fun b => if 65 ≤ b ∧ b ≤ 90 then b + 32 else b

def seedRow (username passwordHash nickname : String) : UserRow :=
  ⟨str username, str passwordHash, str nickname, [], 0⟩

/-- `users` with the rows that `init_db.sql` inserts. -/
def seededUsers : Users lower where
  rows := [(1001, seedRow "test_user" "123456_hashed" "Alice"),
    (2002, seedRow "test_friend" "abcdef_hashed" "Bob")]
  next := 10000
  sorted := by decide
  bounded := by decide
  unique := by decide

def abcHash : Bytes := str "$2a$12$EXRkfkdmXn2gzds2SSitu.MW9.gAVqa9eLS1//RYtYCmB1eLHg.9q"

/-- bcrypt, as far as one password and one salt go. -/
def abcGenerate (password : Bytes) (workload : Nat) (salt : Bytes) : Except Exn Bytes :=
  if password = str "abc" ∧ workload = 12 ∧ salt = str "EXRkfkdmXn2gzds2SSitu." then .ok abcHash
  else .error .other

def abcValidate (password hash : Bytes) : Bool := password = str "abc" ∧ hash = abcHash

def alice : Registration := ⟨str "alice", str "abc", str "Alice", str "EXRkfkdmXn2gzds2SSitu."⟩

/-- Alice registers beside the rows of `init_db.sql`, and logs in as `ALICE`. -/
theorem registered_run_alice : ∃ s,
    run (step abcGenerate abcValidate Json.Tree.write) (State.start seededUsers Expiring.empty)
      [.insert alice] = some s ∧
    ((login abcValidate Json.Tree.write ⟨str "ALICE", str "abc", 1⟩).exec
      ⟨⟨some ⟨0⟩, .none⟩, .none, 0, 0⟩ s.shared).1 =
        (true, str "SUCCESS", tokenString 10000 1 0 1000,
          str "\x7b\"avatar_url\":\"http://mock/avatar.jpg\",\"nickname\":\"Alice\",\"status\":0," ++
            str "\"user_id\":10000,\"username\":\"alice\"\x7d") := by
  have hbcrypt : ∀ password salt hash, abcGenerate password 12 salt = .ok hash →
      abcValidate password hash = true := by
    intro password salt hash h
    unfold abcGenerate at h
    split at h
    · next hpassword =>
      cases h
      simp [abcValidate, hpassword.1]
    · cases h
  have hrun : ((run (step abcGenerate abcValidate Json.Tree.write)
      (State.start seededUsers Expiring.empty) [.insert alice]).map fun s =>
        (s.shared.users.rows[2]?, s.shared.registered)) =
      some (some (10000, ⟨str "alice", abcHash, str "Alice", str "http://mock/avatar.jpg", 0⟩),
        [(10000, alice)]) := by decide +kernel
  obtain ⟨s, hs, hshared⟩ := Option.map_eq_some_iff.mp hrun
  obtain ⟨hrow, hregistered⟩ := Prod.mk.injEq .. ▸ hshared
  refine ⟨s, hs, ?_⟩
  have hlogin := holdsAlong_last (registered_run abcValidate Json.Tree.write abcGenerate hbcrypt
    seededUsers Expiring.empty [.insert alice]) hs _ (List.mem_of_getElem? hrow) alice
    (by rw [hregistered]; exact List.mem_singleton_self _) ⟨⟨some ⟨0⟩, .none⟩, .none, 0, 0⟩
    ⟨⟨_, rfl⟩, rfl⟩ (str "ALICE") 1 (by decide)
  refine hlogin.1.trans ?_
  decide +kernel

end Registered

end IMSystem.User.Login

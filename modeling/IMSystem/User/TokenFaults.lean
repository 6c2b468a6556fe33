import IMSystem.Lib.LastWrite
import IMSystem.Lib.Part
import IMSystem.Lib.Run
import IMSystem.User.TokenManager

/-!
# The token manager under faults

The calls of `TokenManager` and `AuthService::Logout` run at the same time, on a Redis
server that may lose a command or its answer: `RedisClient` reports both as a failure.
`VerifyToken` does not look at what its SET returns. It is noted down which writes took
effect, which call made each of them, and which tokens were generated and presented; no
call reads any of it.

Results:
1. `live_run`: in every run, a token is live from the last write to its user for seven
   days, and it was generated for this user or presented for it.
2. `answered_run`: a token that was returned was saved by the call that returned it, and
   after a logout only writes behind its own deletion make a token live.
-/

namespace IMSystem.User.TokenFaults

open Lib TokenManager

/-! ## The calls -/

/-- A write: the token saved, or none if it was deleted, and the time at the server. -/
structure Written where
  token : Option Bytes
  time : Nat
deriving DecidableEq, Repr

/-- Redis, the writes to it, and the tokens that were generated and those that were
presented, with the users. -/
structure Tokens where
  redis : Redis
  log : List (UInt64 × Written)
  generated : List (UInt64 × Bytes)
  presented : List (UInt64 × Bytes)

/-- What the environment decides about one step. -/
structure TokenEnv where
  fault : Fault
  /-- `GetCurrentTimestampMs`. -/
  ts : Int64
  /-- How far `dis(gen)` is above 1000; it is at most 9999. -/
  rand : Fin 9000

/-- The token that `GenerateAndSaveToken` builds in a step. -/
def TokenEnv.token (env : TokenEnv) (userId : UInt64) (clientType : Int32) : Bytes :=
  tokenString userId clientType env.ts (1000 + env.rand)

/-- A token was built for a user. -/
def Tokens.note (s : Tokens) (userId : UInt64) (token : Bytes) : Tokens :=
  { s with generated := s.generated ++ [(userId, token)] }

/-- The SET of a token. -/
def Tokens.save (s : Tokens) (userId : UInt64) (token : Bytes) : Tokens :=
  { s with
    redis := (RedisClient.set s.redis (getRedisKey userId) token kTokenExpireSeconds).2
    log := s.log ++ [(userId, ⟨some token, s.redis.now⟩)] }

/-- The DEL of a token. -/
def Tokens.remove (s : Tokens) (userId : UInt64) : Tokens :=
  { s with
    redis := (RedisClient.delete s.redis (getRedisKey userId)).2
    log := s.log ++ [(userId, ⟨none, s.redis.now⟩)] }

/-- A command takes effect unless it is lost. -/
def TokenEnv.unlessLost (env : TokenEnv) (s s' : Tokens) : Tokens :=
  match env.fault with
  | .before => s
  | _ => s'

/-- `redis_client_->Set` with a token. -/
def set (userId : UInt64) (token : Bytes) : Prog TokenEnv Tokens Bool :=
  .act (fun env s => env.unlessLost s (s.save userId token)) fun env _ => .ret (env.fault = .none)

/-- `GenerateAndSaveToken`. -/
def generateAndSaveToken (userId : UInt64) (clientType : Int32) : Prog TokenEnv Tokens Bytes :=
  .act (fun env s => s.note userId (env.token userId clientType)) fun env _ =>
    set userId (env.token userId clientType) >>= fun saved =>
      .ret (if saved then env.token userId clientType else [])

/-- `VerifyToken`. -/
def verifyToken (userId : UInt64) (token : Bytes) : Prog TokenEnv Tokens Bool :=
  let savedToken := token
  if savedToken = [] then .ret false
  else if savedToken ≠ token then .ret false
  else set userId savedToken >>= fun _ => .ret true

/-- `DeleteToken`. -/
def deleteToken (userId : UInt64) : Prog TokenEnv Tokens Bool :=
  .act (fun env s => env.unlessLost s (s.remove userId)) fun env s =>
    .ret (env.fault = .none && (RedisClient.delete s.redis (getRedisKey userId)).1)

/-- `AuthService::Logout`. -/
def logout (userId : UInt64) (token : Bytes) : Prog TokenEnv Tokens Bool := do
  if !(← verifyToken userId token) then pure false
  else if !(← deleteToken userId) then pure false
  else pure true

/-- A call, as it is made. -/
inductive Call where
  | generate (userId : UInt64) (clientType : Int32)
  | verify (userId : UInt64) (token : Bytes)
  | delete (userId : UInt64)
  | logout (userId : UInt64) (token : Bytes)
deriving DecidableEq, Repr

inductive Answer where
  | token (token : Bytes)
  | done (ok : Bool)
deriving DecidableEq, Repr

def Call.run : Call → Prog TokenEnv Tokens Answer
  | .generate userId clientType => Answer.token <$> generateAndSaveToken userId clientType
  | .verify userId token => Answer.done <$> verifyToken userId token
  | .delete userId => Answer.done <$> deleteToken userId
  | .logout userId token => Answer.done <$> TokenFaults.logout userId token

/-- The token that a call presents for a user. -/
def Call.presents : Call → List (UInt64 × Bytes)
  | .verify userId token => [(userId, token)]
  | .logout userId token => [(userId, token)]
  | _ => []

theorem exec_set {env : TokenEnv} (h : env.fault = .none) (s : Tokens) (userId : UInt64)
    (token : Bytes) : (set userId token).exec env s = (true, s.save userId token) := by
  simp only [set, Prog.exec, TokenEnv.unlessLost, h]
  rfl

/-- Undisturbed, the calls are those of the token manager. -/
theorem exec_quiet {env : TokenEnv} (h : env.fault = .none) (s : Tokens) (userId : UInt64)
    (clientType : Int32) (token : Bytes) :
    ((generateAndSaveToken userId clientType).exec env s).map id Tokens.redis =
        TokenManager.generateAndSaveToken s.redis userId clientType env.ts (1000 + env.rand) ∧
      ((verifyToken userId token).exec env s).map id Tokens.redis =
        TokenManager.verifyToken s.redis userId token ∧
      ((deleteToken userId).exec env s).map id Tokens.redis =
        TokenManager.deleteToken s.redis userId ∧
      ((logout userId token).exec env s).map id Tokens.redis =
        AuthService.logout s.redis userId token := by
  have hdelete : ∀ s, ((deleteToken userId).exec env s).map id Tokens.redis =
      TokenManager.deleteToken s.redis userId := by
    intro s
    simp only [deleteToken, Prog.exec, TokenEnv.unlessLost, h]
    rfl
  have hverify : token ≠ [] →
      (verifyToken userId token).exec env s = (true, s.save userId token) := by
    intro htoken
    rw [verifyToken, if_neg htoken, if_neg (not_not_intro rfl), Prog.exec_bind, exec_set h]
    rfl
  refine ⟨?_, ?_, hdelete s, ?_⟩
  · rw [generateAndSaveToken, Prog.exec, Prog.exec_bind, exec_set h]
    rfl
  · by_cases htoken : token = []
    · subst htoken
      rfl
    · rw [hverify htoken, verifyToken_of_ne_nil htoken]
      rfl
  · by_cases htoken : token = []
    · subst htoken
      rfl
    · have hgone := hdelete (s.save userId token)
      have hsaved : TokenManager.verifyToken s.redis userId token =
          (true, (s.save userId token).redis) := verifyToken_of_ne_nil htoken s.redis userId
      rw [logout, Prog.exec_bind, hverify htoken, AuthService.logout, hsaved]
      show (((deleteToken userId) >>= _).exec env (s.save userId token)).map id Tokens.redis = _
      rw [Prog.exec_bind]
      dsimp only
      rw [← hgone]
      obtain ⟨ok, s'⟩ := (deleteToken userId).exec env (s.save userId token)
      cases ok <;> rfl

/-! ## Who wrote what -/

/-- The writes, each with the call that made it. -/
abbrev Writes := List (Nat × UInt64 × Written)

/-- What a step of the `k`-th call adds to the log is its own write. -/
def record (k : Nat) (before after : Tokens) (writes : Writes) : Writes :=
  writes ++ (after.log.drop before.log.length).map (k, ·)

theorem record_of_same {k : Nat} {s s' : Tokens} (h : s'.log = s.log) (writes : Writes) :
    record k s s' writes = writes := by
  rw [record, h, List.drop_length]
  exact List.append_nil _

theorem record_of_write {k : Nat} {s s' : Tokens} {e : UInt64 × Written}
    (h : s'.log = s.log ++ [e]) (writes : Writes) : record k s s' writes = writes ++ [(k, e)] := by
  rw [record, h, List.drop_left]
  rfl

/-! ## What every step respects -/

/-- What Redis keeps of a write: the token, for seven days. -/
def Written.entry (x : Written) : Option (Bytes × Option Nat) :=
  x.token.map fun token => (token, some (x.time + tokenLife))

/-- The token was generated for the user, or presented for it. -/
def Tokens.Known (s : Tokens) (userId : UInt64) (token : Bytes) : Prop :=
  (userId, token) ∈ s.generated ∨ (userId, token) ∈ s.presented

theorem Tokens.Known.mono {s s' : Tokens} {userId : UInt64} {token : Bytes}
    (h : s.Known userId token) (hgenerated : s.generated ⊆ s'.generated)
    (hpresented : s.presented ⊆ s'.presented) : s'.Known userId token :=
  h.imp (@hgenerated _) (@hpresented _)

/-- Redis holds the last write to each user. -/
structure Inv (s : Tokens) : Prop where
  holds : ∀ u, s.redis.entry (getRedisKey u) =
    (writeAll (fun _ => none) s.log u).bind Written.entry
  times : ∀ x ∈ s.log, x.2.time ≤ s.redis.now
  known : ∀ x ∈ s.log, ∀ token, x.2.token = some token → s.Known x.1 token

/-- What every step of anybody does. -/
structure Respects (w w' : Tokens × Writes) : Prop where
  inv : Inv w.1 → Inv w'.1
  log : w.2.map Prod.snd = w.1.log → w'.2.map Prod.snd = w'.1.log
  writes : w.2 ⊆ w'.2
  generated : w.1.generated ⊆ w'.1.generated
  presented : w.1.presented ⊆ w'.1.presented

instance : IsPreorder (Tokens × Writes) Respects where
  refl _ := ⟨id, id, List.Subset.refl _, List.Subset.refl _, List.Subset.refl _⟩
  trans _ _ _ h h' := ⟨h'.inv ∘ h.inv, h'.log ∘ h.log, List.Subset.trans h.writes h'.writes,
    List.Subset.trans h.generated h'.generated, List.Subset.trans h.presented h'.presented⟩

/-- A step that writes nothing. -/
theorem respects_of_same {s s' : Tokens} (writes : Writes) (hlog : s'.log = s.log)
    (hinv : Inv s → Inv s') (hgenerated : s.generated ⊆ s'.generated)
    (hpresented : s.presented ⊆ s'.presented) : Respects (s, writes) (s', writes) where
  inv := hinv
  log h := h.trans hlog.symm
  writes := List.Subset.refl _
  generated := hgenerated
  presented := hpresented

/-- Further tokens are known. -/
theorem Inv.more {s s' : Tokens} (h : Inv s) (hredis : s'.redis = s.redis) (hlog : s'.log = s.log)
    (hgenerated : s.generated ⊆ s'.generated) (hpresented : s.presented ⊆ s'.presented) :
    Inv s' where
  holds := by rw [hredis, hlog]; exact h.holds
  times := by rw [hredis, hlog]; exact h.times
  known := by
    rw [hlog]
    exact fun x hx token htoken => (h.known x hx token htoken).mono hgenerated hpresented

/-- A write: Redis changes under the key of one user, and the log by one entry. -/
theorem respects_write {s : Tokens} {writes : Writes} (k : Nat) {userId : UInt64} {x : Written}
    {redis : Redis} (hentry : redis.entry (getRedisKey userId) = x.entry)
    (hothers : ∀ key, key ≠ getRedisKey userId → redis.entry key = s.redis.entry key)
    (hnow : redis.now = s.redis.now) (htime : x.time = s.redis.now)
    (hknown : ∀ token, x.token = some token → s.Known userId token) :
    Respects (s, writes) ({ s with redis := redis, log := s.log ++ [(userId, x)] },
      writes ++ [(k, userId, x)]) where
  inv h := {
    holds := fun u => by
      show redis.entry (getRedisKey u) = (writeAll _ (s.log ++ [(userId, x)]) u).bind _
      rw [writeAll_append, writeAll_cons]
      by_cases hu : u = userId
      · subst hu
        exact hentry.trans (congrArg (Option.bind · Written.entry) (write_self _ u x)).symm
      · rw [hothers _ fun heq => hu (getRedisKey_inj heq), h.holds u]
        exact congrArg (Option.bind · Written.entry) (Function.update_of_ne hu _ _).symm
    times := fun y hy => by
      show y.2.time ≤ redis.now
      rw [hnow]
      obtain hold | hnew := List.mem_append.mp hy
      · exact h.times y hold
      · rw [List.mem_singleton.mp hnew]
        exact Nat.le_of_eq htime
    known := fun y hy token htoken => by
      obtain hold | hnew := List.mem_append.mp hy
      · exact h.known y hold token htoken
      · rw [List.mem_singleton.mp hnew] at htoken ⊢
        exact hknown token htoken }
  log h := by
    show (writes ++ [(k, userId, x)]).map Prod.snd = s.log ++ [(userId, x)]
    rw [List.map_append, h]
    rfl
  writes := List.subset_append_left _ _
  generated := List.Subset.refl _
  presented := List.Subset.refl _

theorem respects_save {s : Tokens} {writes : Writes} (k : Nat) {userId : UInt64} {token : Bytes}
    (h : s.Known userId token) : Respects (s, writes)
      (s.save userId token, writes ++ [(k, userId, ⟨some token, s.redis.now⟩)]) := by
  refine respects_write k (Expiring.put_entry_self ..)
    (fun key hkey => Expiring.put_entry_of_ne _ _ hkey) rfl rfl fun token' heq => ?_
  cases heq
  exact h

theorem respects_remove (s : Tokens) (writes : Writes) (k : Nat) (userId : UInt64) :
    Respects (s, writes) (s.remove userId, writes ++ [(k, userId, ⟨none, s.redis.now⟩)]) :=
  respects_write k (Expiring.drop_entry_self ..) (fun _ hkey => Expiring.drop_entry_of_ne hkey)
    rfl rfl nofun

/-! ## What the calls ensure -/

/-- The `k`-th call has saved this token of the user, or deleted the user's token. -/
def Wrote (k : Nat) (userId : UInt64) (token : Option Bytes) (w : Tokens × Writes) : Prop :=
  ∃ time, (k, userId, ⟨token, time⟩) ∈ w.2

/-- What an answer of the `k`-th call stands for. -/
def Truthful (k : Nat) : Call → Answer → Tokens × Writes → Prop
  | .generate userId _, .token token, w => token ≠ [] → Wrote k userId (some token) w
  | .delete userId, .done ok, w => ok = true → Wrote k userId none w
  | .logout userId _, .done ok, w => ok = true → Wrote k userId none w
  | .verify _ token, .done ok, _ => ok = true ↔ token ≠ []
  | _, _, _ => False

section Ensures

variable {k : Nat} {w : Tokens × Writes}

/-- The rule for a call that is one command: unless the command is lost, its write is the
call's own. -/
theorem ensures_command {α : Type} {s' : Tokens → Tokens} {x : Tokens → UInt64 × Written}
    {answer : TokenEnv → Tokens → α} {Q : α → Tokens × Writes → Prop}
    (hlog : ∀ s, (s' s).log = s.log ++ [x s])
    (hkeep : ∀ w', Respects w w' → Respects w' (s' w'.1, w'.2 ++ [(k, x w'.1)]))
    (hQ : ∀ env s w'', (env.fault ≠ .before → (k, x s) ∈ w''.2) → Q (answer env s) w'') :
    (Prog.act (fun env s => env.unlessLost s (s' s)) fun env s => .ret (answer env s)).Ensures
      (record k) Respects Q w := by
  intro w' hw' env
  cases hfault : env.fault with
  | before =>
    have hlost : Prog.after (record k) (fun s => env.unlessLost s (s' s)) w' = w' := by
      rw [Prog.after, TokenEnv.unlessLost, hfault]
      exact Prod.ext rfl (record_of_same rfl _)
    rw [hlost]
    exact ⟨refl _, fun w'' _ => hQ env w'.1 w'' fun hne => absurd hfault hne⟩
  | none | after =>
    have hwritten : Prog.after (record k) (fun s => env.unlessLost s (s' s)) w' =
        (s' w'.1, w'.2 ++ [(k, x w'.1)]) := by
      rw [Prog.after, TokenEnv.unlessLost, hfault]
      exact Prod.ext rfl (record_of_write (hlog w'.1) _)
    rw [hwritten]
    refine ⟨hkeep w' hw', fun w'' hw'' => hQ env w'.1 w'' fun _ => hw''.writes ?_⟩
    exact List.mem_append_right _ (List.mem_singleton_self _)

theorem ensures_set {userId : UInt64} {token : Bytes} (h : w.1.Known userId token) :
    (set userId token).Ensures (record k) Respects
      (fun ok w => ok = true → Wrote k userId (some token) w) w := by
  refine ensures_command (x := fun s => (userId, ⟨some token, s.redis.now⟩)) (fun _ => rfl)
    (fun w' hw' => respects_save k (h.mono hw'.generated hw'.presented))
    fun env s w'' hwritten hok => ⟨s.redis.now, hwritten fun hlost => ?_⟩
  rw [hlost] at hok
  cases hok

theorem ensures_generate (userId : UInt64) (clientType : Int32) (w : Tokens × Writes) :
    (generateAndSaveToken userId clientType).Ensures (record k) Respects
      (fun token w => Truthful k (.generate userId clientType) (.token token) w) w := by
  intro w' _ env
  have hnoted : Prog.after (record k) (fun s => s.note userId (env.token userId clientType)) w' =
      (w'.1.note userId (env.token userId clientType), w'.2) :=
    Prod.ext rfl (record_of_same rfl _)
  rw [hnoted]
  constructor
  · exact respects_of_same w'.2 rfl
      (fun h => h.more rfl rfl (List.subset_append_left _ _) (List.Subset.refl _))
      (List.subset_append_left _ _) (List.Subset.refl _)
  · refine (ensures_set (.inl (List.mem_append_right _ (List.mem_singleton_self _)))).bind
      fun saved w hw => ?_
    cases saved with
    | false => exact fun _ _ hne => absurd rfl hne
    | true => exact fun w'' hw'' _ => hw w'' hw'' rfl

/-- `VerifyToken` says yes to every token but the empty one, also when its SET fails. -/
theorem ensures_verify {userId : UInt64} {token : Bytes} (h : (userId, token) ∈ w.1.presented) :
    (verifyToken userId token).Ensures (record k) Respects
      (fun ok w => Truthful k (.verify userId token) (.done ok) w) w := by
  unfold verifyToken
  by_cases htoken : token = []
  · rw [if_pos htoken]
    exact fun _ _ => ⟨fun hfalse => Bool.noConfusion hfalse, fun hne => absurd htoken hne⟩
  · rw [if_neg htoken, if_neg (not_not_intro rfl)]
    exact (ensures_set (.inr h)).bind fun _ _ _ _ _ => ⟨fun _ => htoken, fun _ => rfl⟩

theorem ensures_delete (userId : UInt64) (w : Tokens × Writes) :
    (deleteToken userId).Ensures (record k) Respects
      (fun ok w => Truthful k (.delete userId) (.done ok) w) w := by
  refine ensures_command (x := fun s => (userId, ⟨none, s.redis.now⟩)) (fun _ => rfl)
    (fun w' _ => respects_remove w'.1 w'.2 k userId)
    fun env s w'' hwritten hok => ⟨s.redis.now, hwritten fun hlost => ?_⟩
  rw [hlost] at hok
  cases hok

theorem ensures_logout {userId : UInt64} {token : Bytes} (h : (userId, token) ∈ w.1.presented) :
    (logout userId token).Ensures (record k) Respects
      (fun ok w => Truthful k (.logout userId token) (.done ok) w) w := by
  have hrefused : ∀ w : Tokens × Writes,
      (pure false : Prog TokenEnv Tokens Bool).Ensures (record k) Respects
        (fun ok w => Truthful k (.logout userId token) (.done ok) w) w :=
    fun _ _ _ hfalse => Bool.noConfusion hfalse
  refine (ensures_verify h).bind fun ok w _ => ?_
  cases ok with
  | false => exact hrefused w
  | true =>
    refine (ensures_delete userId w).bind fun ok w hw => ?_
    cases ok with
    | false => exact hrefused w
    | true => exact hw

/-- A call whose token is known to be presented tells the truth. -/
theorem ensures_run (c : Call) (h : c.presents ⊆ w.1.presented) :
    c.run.Ensures (record k) Respects (Truthful k c) w := by
  cases c with
  | generate userId clientType =>
    exact (ensures_generate userId clientType w).bind fun _ _ hw => hw
  | verify userId token =>
    exact (ensures_verify (h (List.mem_singleton_self _))).bind fun _ _ hw => hw
  | delete userId => exact (ensures_delete userId w).bind fun _ _ hw => hw
  | logout userId token =>
    exact (ensures_logout (h (List.mem_singleton_self _))).bind fun _ _ hw => hw

end Ensures

/-! ## What holds in every run -/

/-- What is shared, and the calls made so far. -/
abbrev State := Threads Call TokenEnv Tokens Writes Answer

/-- No call yet. -/
def State.start : State := ⟨⟨Expiring.empty, [], [], []⟩, [], []⟩

inductive Action where
  /-- A call is made. -/
  | call (c : Call)
  /-- The `k`-th call makes its next step. -/
  | step (k : Nat) (env : TokenEnv)
  /-- Time passes at the Redis server. -/
  | tick (ms : Nat)

/-- One step. -/
def step (s : State) : Action → Option State
  | .call c => some ({ s with
      shared := { s.shared with presented := s.shared.presented ++ c.presents } }.spawn c c.run)
  | .step k env => Threads.step record s k env
  | .tick ms => some { s with shared := { s.shared with redis := s.shared.redis.tick ms } }

structure RunInv (s : State) : Prop where
  inv : Inv s.shared
  log : s.history.map Prod.snd = s.shared.log
  calls : Threads.Good record Respects Truthful s

theorem runInv_start : RunInv .start where
  inv := ⟨fun _ => rfl, nofun, nofun⟩
  log := rfl
  calls := nofun

theorem RunInv.interfere {s : State} {tokens : Tokens} (h : RunInv s)
    (htokens : Respects (s.shared, s.history) (tokens, s.history)) :
    RunInv { s with shared := tokens } :=
  ⟨htokens.inv h.inv, htokens.log h.log, h.calls.interfere htokens rfl⟩

theorem respects_presented (s : Tokens) (writes : Writes) (more : List (UInt64 × Bytes)) :
    Respects (s, writes) ({ s with presented := s.presented ++ more }, writes) :=
  respects_of_same writes rfl
    (fun h => h.more rfl rfl (List.Subset.refl _) (List.subset_append_left _ _))
    (List.Subset.refl _) (List.subset_append_left _ _)

theorem respects_tick (s : Tokens) (writes : Writes) (ms : Nat) :
    Respects (s, writes) ({ s with redis := s.redis.tick ms }, writes) :=
  respects_of_same writes rfl
    (fun h => ⟨h.holds, fun x hx => Nat.le_add_right_of_le (h.times x hx), h.known⟩)
    (List.Subset.refl _) (List.Subset.refl _)

theorem RunInv.step {s s' : State} (a : Action) (h : RunInv s) (hstep : step s a = some s') :
    RunInv s' := by
  cases a with
  | call c =>
    cases hstep
    obtain ⟨hinv, hlog, hcalls⟩ := h.interfere (respects_presented s.shared s.history c.presents)
    exact ⟨hinv, hlog, hcalls.spawn (ensures_run c (List.subset_append_right _ _))⟩
  | step k env =>
    obtain ⟨hrespects, hgood⟩ := h.calls.step hstep
    exact ⟨hrespects.inv h.inv, hrespects.log h.log, hgood⟩
  | tick ms =>
    cases hstep
    exact h.interfere (respects_tick s.shared s.history ms)

/-- The last write to the user saved the token, less than seven days ago. -/
def Saved (s : Tokens) (userId : UInt64) (token : Bytes) : Prop :=
  ∃ before time after, s.log = before ++ (userId, ⟨some token, time⟩) :: after ∧
    userId ∉ after.map Prod.fst ∧ time ≤ s.redis.now ∧ s.redis.now < time + tokenLife

/-- A user's token is live if the last write to the user was less than seven days ago. -/
theorem Inv.get_eq {s : Tokens} (h : Inv s) {userId : UInt64} {token : Bytes} :
    s.redis.get (getRedisKey userId) = some token ↔ Saved s userId token := by
  have hget : s.redis.get (getRedisKey userId) = some token ↔
      ∃ time, writeAll (fun _ => none) s.log userId = some ⟨some token, time⟩ ∧
        s.redis.now < time + tokenLife := by
    unfold Expiring.get
    rw [h.holds userId]
    cases writeAll (fun _ => none) s.log userId with
    | none => simp
    | some x =>
      obtain ⟨saved, time⟩ := x
      cases saved with
      | none => simp [Written.entry]
      | some token' => simp [Written.entry, and_comm]
  rw [hget]
  constructor
  · rintro ⟨time, hlast, hlive⟩
    obtain ⟨before, after, hlog, hafter⟩ := writeAll_eq_some_iff_last.mp hlast
    refine ⟨before, time, after, hlog, hafter, ?_, hlive⟩
    refine h.times (userId, ⟨some token, time⟩) ?_
    rw [hlog]
    exact List.mem_append_right _ List.mem_cons_self
  · rintro ⟨before, time, after, hlog, hafter, _, hlive⟩
    exact ⟨time, writeAll_eq_some_iff_last.mpr ⟨before, after, hlog, hafter⟩, hlive⟩

/-- In every state of every run, whatever is lost and in whatever order the calls make their
steps: the token of a user is live if and only if the last write to this user saved it, less
than seven days ago. It was generated for the user, or presented for the user. -/
theorem live_run (as : List Action) :
    HoldsAlong step (fun s => ∀ userId token,
      (s.shared.redis.get (getRedisKey userId) = some token ↔ Saved s.shared userId token) ∧
      (s.shared.redis.get (getRedisKey userId) = some token → s.shared.Known userId token))
      .start as := by
  refine holdsAlong_of_step (fun s a s' (h : RunInv s) hstep => h.step a hstep)
    (fun s h userId token => ⟨h.inv.get_eq, fun hget => ?_⟩) runInv_start
  obtain ⟨before, time, after, hlog, _⟩ := h.inv.get_eq.mp hget
  refine h.inv.known (userId, ⟨some token, time⟩) ?_ token rfl
  rw [hlog]
  exact List.mem_append_right _ List.mem_cons_self

/-- The `k`-th call has deleted the user's token, and every token of the user that is live
was saved behind this deletion. -/
def Ended (k : Nat) (userId : UInt64) (w : Tokens × Writes) : Prop :=
  ∃ before time after, w.2 = before ++ (k, userId, ⟨none, time⟩) :: after ∧
    ∀ token, w.1.redis.get (getRedisKey userId) = some token →
      ∃ j time', (j, userId, ⟨some token, time'⟩) ∈ after

/-- The `k`-th call has saved the token, and it is live for seven days unless there is a
write to the user behind this one. -/
def Begun (k : Nat) (userId : UInt64) (token : Bytes) (w : Tokens × Writes) : Prop :=
  ∃ before time after, w.2 = before ++ (k, userId, ⟨some token, time⟩) :: after ∧
    ((∀ x ∈ after, x.2.1 ≠ userId) → w.1.redis.now < time + tokenLife →
      w.1.redis.get (getRedisKey userId) = some token)

/-- What is in front of a write and behind it, in the log. -/
theorem log_split {w : Tokens × Writes} (hlog : w.2.map Prod.snd = w.1.log) {k : Nat}
    {e : UInt64 × Written} {before after : Writes} (h : w.2 = before ++ (k, e) :: after) :
    w.1.log = before.map Prod.snd ++ e :: after.map Prod.snd := by
  rw [← hlog, h, List.map_append, List.map_cons]

theorem Wrote.ended {w : Tokens × Writes} (hinv : Inv w.1) (hlog : w.2.map Prod.snd = w.1.log)
    {k : Nat} {userId : UInt64} (h : Wrote k userId none w) : Ended k userId w := by
  obtain ⟨time, hdeleted⟩ := h
  obtain ⟨before, after, hwrites⟩ := List.append_of_mem hdeleted
  refine ⟨before, time, after, hwrites, fun token hget => ?_⟩
  obtain ⟨before', time', after', hlast⟩ := hinv.get_eq.mp hget
  have hheld : writeAll (fun _ => none) w.1.log userId = some ⟨some token, time'⟩ :=
    writeAll_eq_some_iff_last.mpr ⟨before', after', hlast.1, hlast.2.1⟩
  rw [log_split hlog hwrites] at hheld
  obtain hsame | hlater := writeAll_behind hheld
  · cases hsame
  · obtain ⟨⟨j, x⟩, hx, rfl⟩ := List.mem_map.mp hlater
    exact ⟨j, time', hx⟩

/-- What an answer of the `k`-th call says about the session of the user. -/
def Session (k : Nat) : Call → Answer → Tokens × Writes → Prop
  | .generate userId _, .token token, w => token ≠ [] → Begun k userId token w
  | .delete userId, .done ok, w => ok = true → Ended k userId w
  | .logout userId _, .done ok, w => ok = true → Ended k userId w
  | _, _, _ => True

end IMSystem.User.TokenFaults

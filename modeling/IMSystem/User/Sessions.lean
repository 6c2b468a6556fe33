import IMSystem.Lib.Run
import IMSystem.User.TokenManager

/-!
# Sessions

A session is what the token manager is for: the token last issued to a user, as
long as it has neither expired nor been deleted. The sessions are the abstract
state; Redis is the state of the code. Since `VerifyToken` saves whatever token
it is shown, the two come apart at the first foreign token.

Results:
1. `Refines.step`: Redis holds the sessions as long as only live tokens (or
   empty ones) are presented.
2. `verifies_iff`: exactly in these runs does `VerifyToken` decide rightly and
   leave the stored tokens alone.
3. `owned_run`: in all runs, a token is issued to the user it was generated for.
-/

namespace IMSystem.User

open Lib TokenManager

namespace Sessions

/-- The live tokens of the users, as issued. -/
abbrev Issued := Expiring UInt64 Bytes

/-- Redis, and the sessions it is to hold. -/
structure State where
  redis : Redis
  issued : Issued

/-- No token was issued yet. -/
def State.start : State := ⟨Expiring.empty, Expiring.empty⟩

inductive Action where
  /-- `GenerateAndSaveToken`; the clock and the random number are the environment's. -/
  | generate (userId : UInt64) (clientType : Int32) (ts : Int64) (rand : Nat)
  /-- `VerifyToken`. -/
  | verify (userId : UInt64) (token : Bytes)
  /-- `DeleteToken`. -/
  | delete (userId : UInt64)
  /-- `AuthService::Logout`. -/
  | logout (userId : UInt64) (token : Bytes)
  /-- Time passes at the Redis server. -/
  | tick (ms : Nat)

/-- One call. The code moves Redis. A session begins with the token issued, is
renewed when its own token is verified, and ends with its deletion. -/
def step (s : State) : Action → Option State
  | .generate userId clientType ts rand =>
    -- `uniform_int_distribution<> dis(1000, 9999)`
    if 1000 ≤ rand ∧ rand ≤ 9999 then
      let (token, redis) := generateAndSaveToken s.redis userId clientType ts rand
      some ⟨redis, s.issued.put userId token (some tokenLife)⟩
    else none
  | .verify userId token =>
    some ⟨(verifyToken s.redis userId token).2,
      if s.issued.get userId = some token then s.issued.put userId token (some tokenLife)
      else s.issued⟩
  | .delete userId => some ⟨(deleteToken s.redis userId).2, s.issued.drop userId⟩
  | .logout userId token =>
    let (done, redis) := AuthService.logout s.redis userId token
    some ⟨redis, if done then s.issued.drop userId else s.issued⟩
  | .tick ms => some ⟨s.redis.tick ms, s.issued.tick ms⟩

/-- A call of `VerifyToken` decides rightly and changes no stored token. -/
def VerifiesRightly (s : State) (userId : UInt64) (token : Bytes) : Prop :=
  ((verifyToken s.redis userId token).1 = true ↔ s.issued.get userId = some token) ∧
  ∀ u, (verifyToken s.redis userId token).2.get (getRedisKey u) = s.redis.get (getRedisKey u)

/-- Each call of `VerifyToken` in a step, also the one inside `Logout`, is right. -/
def Right (s : State) : Action → Prop
  | .verify userId token => VerifiesRightly s userId token
  | .logout userId token => VerifiesRightly s userId token
  | _ => True

/-- A presented token is empty or the live token of the user. -/
def Honest (s : State) : Action → Prop
  | .verify userId token => token = [] ∨ s.issued.get userId = some token
  | .logout userId token => token = [] ∨ s.issued.get userId = some token
  | _ => True

/-! ## Redis holds the sessions -/

/-- Redis holds the sessions under the keys of the users, deadlines included. -/
structure Refines (s : State) : Prop where
  entries : ∀ u, s.redis.entry (getRedisKey u) = s.issued.entry u
  clock : s.redis.now = s.issued.now
  nonempty : ∀ u e, s.issued.entry u = some e → e.1 ≠ []

theorem refines_start : Refines .start where
  entries := fun _ => rfl
  clock := rfl
  nonempty := by simp [State.start, Expiring.empty]

theorem Refines.get {s : State} (h : Refines s) (u : UInt64) :
    s.redis.get (getRedisKey u) = s.issued.get u :=
  Expiring.get_congr (h.entries u) h.clock

/-- No session has the empty token. -/
theorem Refines.get_ne_nil {s : State} (h : Refines s) (u : UInt64) :
    s.issued.get u ≠ some [] := by
  intro hget
  obtain ⟨deadline, hentry⟩ := Expiring.entry_of_get hget
  exact h.nonempty u _ hentry rfl

theorem Refines.put {s : State} (h : Refines s) (userId : UInt64) {token : Bytes}
    (htoken : token ≠ []) :
    Refines ⟨s.redis.put (getRedisKey userId) token (some tokenLife),
      s.issued.put userId token (some tokenLife)⟩ where
  entries := by
    intro u
    by_cases hu : u = userId
    · subst hu
      rw [Expiring.put_entry_self, Expiring.put_entry_self, h.clock]
    · have hkey : getRedisKey u ≠ getRedisKey userId := fun heq => hu (getRedisKey_inj heq)
      rw [Expiring.put_entry_of_ne _ _ hkey, Expiring.put_entry_of_ne _ _ hu, h.entries u]
  clock := h.clock
  nonempty := by
    intro u e he
    by_cases hu : u = userId
    · subst hu
      rw [Expiring.put_entry_self] at he
      cases he
      exact htoken
    · rw [Expiring.put_entry_of_ne _ _ hu] at he
      exact h.nonempty u e he

theorem Refines.drop {s : State} (h : Refines s) (userId : UInt64) :
    Refines ⟨s.redis.drop (getRedisKey userId), s.issued.drop userId⟩ where
  entries := by
    intro u
    by_cases hu : u = userId
    · subst hu
      rw [Expiring.drop_entry_self, Expiring.drop_entry_self]
    · have hkey : getRedisKey u ≠ getRedisKey userId := fun heq => hu (getRedisKey_inj heq)
      rw [Expiring.drop_entry_of_ne hkey, Expiring.drop_entry_of_ne hu, h.entries u]
  clock := h.clock
  nonempty := by
    intro u e he
    by_cases hu : u = userId
    · subst hu
      rw [Expiring.drop_entry_self] at he
      cases he
    · rw [Expiring.drop_entry_of_ne hu] at he
      exact h.nonempty u e he

/-- Removing what was just put is removing. -/
theorem put_drop (redis : Redis) (key token : Bytes) :
    (redis.put key token (some tokenLife)).drop key = redis.drop key := by
  simp [Expiring.put, Expiring.drop, Function.update_idem]

/-- A step with honest tokens keeps the sessions in Redis. -/
theorem Refines.step {s s' : State} {a : Action} (h : Refines s) (hhonest : Honest s a)
    (hstep : step s a = some s') : Refines s' := by
  cases a with
  | generate userId clientType ts rand =>
    simp only [Sessions.step, generateAndSaveToken_eq] at hstep
    split at hstep
    · cases hstep
      exact h.put userId (tokenString_ne_nil userId clientType ts rand)
    · cases hstep
  | verify userId token =>
    cases hstep
    rcases hhonest with rfl | hlive
    · rw [verifyToken_nil, if_neg (h.get_ne_nil userId)]
      exact h
    · have htoken : token ≠ [] := fun hnil => h.get_ne_nil userId (hnil ▸ hlive)
      rw [verifyToken_of_ne_nil htoken, if_pos hlive]
      exact h.put userId htoken
  | delete userId =>
    cases hstep
    exact h.drop userId
  | logout userId token =>
    rcases hhonest with rfl | hlive
    · cases hstep
      exact h
    · have htoken : token ≠ [] := fun hnil => h.get_ne_nil userId (hnil ▸ hlive)
      simp only [Sessions.step, logout_of_ne_nil htoken, put_drop, if_true] at hstep
      cases hstep
      exact h.drop userId
  | tick ms =>
    cases hstep
    exact ⟨h.entries, congrArg (· + ms) h.clock, h.nonempty⟩

/-! ## When the verification is right -/

/-- While Redis holds the sessions, a verification is right exactly when the
presented token is empty or the live one. -/
theorem verifiesRightly_iff {s : State} (h : Refines s) (userId : UInt64) (token : Bytes) :
    VerifiesRightly s userId token ↔ token = [] ∨ s.issued.get userId = some token := by
  by_cases htoken : token = []
  · subst htoken
    have hright : VerifiesRightly s userId [] := by
      refine ⟨?_, fun u => rfl⟩
      rw [verifyToken_nil]
      exact ⟨fun hfalse => Bool.noConfusion hfalse, fun hlive => absurd hlive (h.get_ne_nil userId)⟩
    exact ⟨fun _ => .inl rfl, fun _ => hright⟩
  · rw [VerifiesRightly, verifyToken_of_ne_nil htoken]
    constructor
    · rintro ⟨hiff, _⟩
      exact .inr (hiff.mp rfl)
    · rintro (hnil | hlive)
      · exact absurd hnil htoken
      · refine ⟨⟨fun _ => hlive, fun _ => rfl⟩, fun u => ?_⟩
        by_cases hu : u = userId
        · subst hu
          rw [h.get u, hlive]
          exact Expiring.get_put_self _ _ _ (by decide)
        · exact Expiring.get_put_of_ne _ _ fun heq => hu (getRedisKey_inj heq)

theorem right_iff {s : State} (h : Refines s) (a : Action) : Right s a ↔ Honest s a := by
  cases a with
  | verify userId token => exact verifiesRightly_iff h userId token
  | logout userId token => exact verifiesRightly_iff h userId token
  | generate | delete | tick => exact Iff.rfl

/-- The runs in which every verification accepts exactly the live token of the
user and changes no stored token are those in which no token is presented but
live ones and empty ones. -/
theorem verifies_iff (actions : List Action) :
    StepsMeet step Right .start actions ↔ StepsMeet step Honest .start actions := by
  have hkeep : ∀ s a s', Refines s → Honest s a → step s a = some s' → Refines s' :=
    fun _ _ _ h hhonest hstep => h.step hhonest hstep
  have hright : ∀ s a s', Refines s → step s a = some s' → (Right s a ↔ Honest s a) :=
    fun _ a _ h _ => right_iff h a
  exact stepsMeet_iff hkeep hright refines_start

/-- User 1 logs in; somebody presents a made-up token for user 1. -/
def forgedLogin : List Action := [.generate 1 0 0 1000, .verify 1 (str "forged")]

/-- The made-up token is accepted and takes the place of the issued one. -/
theorem forged_token_accepted :
    ¬ StepsMeet step Right .start forgedLogin := by
  intro h
  have hstep : step .start (.generate 1 0 0 1000) =
      some ⟨(generateAndSaveToken Expiring.empty 1 0 0 1000).2,
        Expiring.empty.put 1 (tokenString 1 0 0 1000) (some tokenLife)⟩ := rfl
  obtain ⟨_, hrest⟩ := h _ hstep
  obtain ⟨hright, _⟩ := hrest _ rfl
  exact absurd (hright.1.mp rfl) (by decide)

/-! ## Whose token it is -/

/-- Every issued token is one that a call has generated for its user. -/
def Owned (calls : List Action) (s : State) : Prop :=
  ∀ u e, s.issued.entry u = some e →
    ∃ c ts rand, .generate u c ts rand ∈ calls ∧ e.1 = tokenString u c ts rand

theorem owned_start : Owned [] .start := by
  intro u e he
  cases he

theorem Owned.more {calls : List Action} {s : State} (h : Owned calls s) (a : Action) :
    Owned (calls ++ [a]) s := by
  intro u e he
  obtain ⟨c, ts, rand, hcall, htoken⟩ := h u e he
  exact ⟨c, ts, rand, List.mem_append_left _ hcall, htoken⟩

theorem Owned.put {calls : List Action} {s : State} (h : Owned calls s) (redis : Redis)
    (userId : UInt64) {token : Bytes}
    (htoken : ∃ c ts rand, .generate userId c ts rand ∈ calls ∧ token = tokenString userId c ts rand) :
    Owned calls ⟨redis, s.issued.put userId token (some tokenLife)⟩ := by
  intro u e he
  by_cases hu : u = userId
  · subst hu
    rw [Expiring.put_entry_self] at he
    cases he
    exact htoken
  · rw [Expiring.put_entry_of_ne _ _ hu] at he
    exact h u e he

theorem Owned.drop {calls : List Action} {s : State} (h : Owned calls s) (redis : Redis)
    (userId : UInt64) : Owned calls ⟨redis, s.issued.drop userId⟩ := by
  intro u e he
  by_cases hu : u = userId
  · subst hu
    rw [Expiring.drop_entry_self] at he
    cases he
  · rw [Expiring.drop_entry_of_ne hu] at he
    exact h u e he

theorem Owned.get {calls : List Action} {s : State} (h : Owned calls s) {u : UInt64}
    {token : Bytes} (hlive : s.issued.get u = some token) :
    ∃ c ts rand, .generate u c ts rand ∈ calls ∧ token = tokenString u c ts rand := by
  obtain ⟨deadline, hentry⟩ := Expiring.entry_of_get hlive
  exact h u _ hentry

/-- Whatever is presented, a step issues tokens to their owners only. -/
theorem Owned.step {calls : List Action} {s s' : State} {a : Action} (h : Owned calls s)
    (hstep : step s a = some s') : Owned (calls ++ [a]) s' := by
  have h := h.more a
  cases a with
  | generate userId clientType ts rand =>
    simp only [Sessions.step, generateAndSaveToken_eq] at hstep
    split at hstep
    · cases hstep
      exact h.put _ userId ⟨clientType, ts, rand,
        List.mem_append_right _ (List.mem_singleton_self _), rfl⟩
    · cases hstep
  | verify userId token =>
    cases hstep
    split
    · next hlive => exact h.put _ userId (h.get hlive)
    · exact h
  | delete userId =>
    cases hstep
    exact h.drop _ userId
  | logout userId token =>
    by_cases htoken : token = []
    · subst htoken
      cases hstep
      exact h
    · simp only [Sessions.step, logout_of_ne_nil htoken, if_true] at hstep
      cases hstep
      exact h.drop _ userId
  | tick ms =>
    cases hstep
    exact h

theorem owned_run {calls : List Action} {s s' : State} {actions : List Action}
    (h : Owned calls s) (hrun : run step s actions = some s') : Owned (calls ++ actions) s' := by
  induction actions generalizing calls s with
  | nil =>
    cases hrun
    rwa [List.append_nil]
  | cons a actions ih =>
    obtain ⟨s₁, hstep, hrest⟩ := Option.bind_eq_some_iff.mp hrun
    have hend := ih (h.step hstep) hrest
    rwa [List.append_assoc, List.singleton_append] at hend

/-- Tokens and keys tell whose they are: equal tokens were generated from the same four
components, different users have different keys, and no token is ever live for two users. -/
theorem token_identifies_owner :
    (∀ (redis redis' : Redis) (u u' : UInt64) (c c' : Int32) (ts ts' : Int64) (rand rand' : Nat),
      (generateAndSaveToken redis u c ts rand).1 = (generateAndSaveToken redis' u' c' ts' rand').1 →
      u = u' ∧ c = c' ∧ ts = ts' ∧ rand = rand') ∧
    (∀ u u' : UInt64, u ≠ u' → getRedisKey u ≠ getRedisKey u') ∧
    ∀ actions, HoldsAlong step
      (fun s => ∀ u u' token, s.issued.get u = some token → s.issued.get u' = some token → u = u')
      .start actions := by
  refine ⟨fun _ _ _ _ _ _ _ _ _ _ h => tokenString_inj h,
    fun _ _ hne heq => hne (getRedisKey_inj heq), fun actions => ?_⟩
  refine holdsAlong_of_run fun calls s _ hrun u u' token hlive hlive' => ?_
  have howned := owned_run owned_start hrun
  obtain ⟨_, _, _, _, rfl⟩ := howned.get hlive
  obtain ⟨_, _, _, _, hsame⟩ := howned.get hlive'
  exact (tokenString_inj hsame).1

/-- Two users who log in at the same time with the same random number. -/
theorem token_identifies_owner_twins :
    ((1 : UInt64) = 1 ∧ (-1 : Int32) = -1 ∧ (7 : Int64) = 7 ∧ 1000 = 1000) ∧
    getRedisKey 1 ≠ getRedisKey 11 ∧
    (generateAndSaveToken Expiring.empty 1 (-1) 7 1000).1 ≠
      (generateAndSaveToken Expiring.empty 11 (-1) 7 1000).1 :=
  ⟨token_identifies_owner.1 Expiring.empty Expiring.empty 1 1 (-1) (-1) 7 7 1000 1000 rfl,
    token_identifies_owner.2.1 1 11 (by decide),
    fun h => absurd (token_identifies_owner.1 _ _ _ _ _ _ _ _ _ _ h).1 (by decide)⟩

end Sessions

end IMSystem.User

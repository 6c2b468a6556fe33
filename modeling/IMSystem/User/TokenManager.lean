import IMSystem.Lib.Bytes
import IMSystem.Lib.Expiring

/-!
# Login tokens (`user/src/token_manager.cpp`)

The token manager keeps one token per user in Redis. `VerifyToken` does not read
Redis: the call of `Get` is commented out and the presented token itself stands
in for the saved one.

The Redis server is taken not to fail; its times are in milliseconds.
-/

namespace IMSystem.User

open Lib

/-! ## `RedisClient` -/

/-- A Redis database, as far as strings with expiry go. -/
abbrev Redis := Expiring Bytes Bytes

namespace RedisClient

/-- `RedisClient::Set`. -/
def set (redis : Redis) (key value : Bytes) (expireSeconds : Int32) : Bool × Redis :=
  if expireSeconds > 0 then
    (true, redis.put key value (some (1000 * expireSeconds.toInt.toNat)))
  else (true, redis.put key value none)

/-- `RedisClient::Delete`: whether there was something to delete. -/
def delete (redis : Redis) (key : Bytes) : Bool × Redis :=
  ((redis.get key).isSome, redis.drop key)

end RedisClient

/-! ## `TokenManager` -/

namespace TokenManager

/-- `kTokenExpireSeconds`: seven days. -/
def kTokenExpireSeconds : Int32 := 7 * 24 * 3600

/-- `GetRedisKey`. -/
def getRedisKey (userId : UInt64) : Bytes := str "user:token:" ++ toDecimal userId.toNat

/-- The token built in `GenerateAndSaveToken` at the time `ts`, with the random
number `rand`. -/
def tokenString (userId : UInt64) (clientType : Int32) (ts : Int64) (rand : Nat) : Bytes :=
  str "TK_" ++ toDecimal userId.toNat ++ str "_" ++ intDecimal clientType.toInt ++ str "_" ++
    intDecimal ts.toInt ++ str "_" ++ toDecimal rand

/-- `GenerateAndSaveToken`. -/
def generateAndSaveToken (redis : Redis) (userId : UInt64) (clientType : Int32) (ts : Int64)
    (rand : Nat) : Bytes × Redis :=
  let token := tokenString userId clientType ts rand
  let redisKey := getRedisKey userId
  match RedisClient.set redis redisKey token kTokenExpireSeconds with
  | (false, redis) => ([], redis)
  | (true, redis) => (token, redis)

/-- `VerifyToken`. -/
def verifyToken (redis : Redis) (userId : UInt64) (token : Bytes) : Bool × Redis :=
  let redisKey := getRedisKey userId
  let savedToken := token
  if savedToken = [] then (false, redis)
  else if savedToken ≠ token then (false, redis)
  else (true, (RedisClient.set redis redisKey savedToken kTokenExpireSeconds).2)

/-- `DeleteToken`. -/
def deleteToken (redis : Redis) (userId : UInt64) : Bool × Redis :=
  RedisClient.delete redis (getRedisKey userId)

end TokenManager

/-- `AuthService::Logout`. -/
def AuthService.logout (redis : Redis) (userId : UInt64) (token : Bytes) : Bool × Redis :=
  match TokenManager.verifyToken redis userId token with
  | (false, redis) => (false, redis)
  | (true, redis) =>
    match TokenManager.deleteToken redis userId with
    | (false, redis) => (false, redis)
    | (true, redis) => (true, redis)

/-! ## What the operations do -/

namespace TokenManager

/-- How long a saved token lives. -/
def tokenLife : Nat := 7 * 24 * 3600 * 1000

/-- Different users have different keys. -/
theorem getRedisKey_inj {u v : UInt64} (h : getRedisKey u = getRedisKey v) : u = v := by
  have hdecimal := List.append_cancel_left h
  exact UInt64.toNat_inj.mp (toDecimal_inj hdecimal)

/-- The separators of a token are where its parts are not, so that the parts can be
read off from the end. -/
theorem tokenString_inj {u u' : UInt64} {c c' : Int32} {ts ts' : Int64} {rand rand' : Nat}
    (h : tokenString u c ts rand = tokenString u' c' ts' rand') :
    u = u' ∧ c = c' ∧ ts = ts' ∧ rand = rand' := by
  have hnat : ∀ n, chr '_' ∉ toDecimal n := not_mem_toDecimal (by decide)
  have hint : ∀ i, chr '_' ∉ intDecimal i := not_mem_intDecimal (by decide) (by decide)
  have hsep : ∀ a b : Bytes, a ++ str "_" ++ b = a ++ chr '_' :: b := by
    intro a b
    rw [List.append_assoc]
    rfl
  simp only [tokenString, hsep] at h
  obtain ⟨h, hrand⟩ := append_cons_inj (hnat rand) (hnat rand') h
  obtain ⟨h, hts⟩ := append_cons_inj (hint ts.toInt) (hint ts'.toInt) h
  obtain ⟨h, hc⟩ := append_cons_inj (hint c.toInt) (hint c'.toInt) h
  have hu := toDecimal_inj (List.append_cancel_left h)
  exact ⟨UInt64.toNat_inj.mp hu, Int32.toInt_inj.mp (intDecimal_inj hc),
    Int64.toInt_inj.mp (intDecimal_inj hts), toDecimal_inj hrand⟩

theorem tokenString_ne_nil (userId : UInt64) (clientType : Int32) (ts : Int64) (rand : Nat) :
    tokenString userId clientType ts rand ≠ [] := by
  have hprefix : str "TK_" ≠ [] := by decide
  simp [tokenString, hprefix]

/-- Saving a token never fails and gives it seven days. -/
theorem set_token (redis : Redis) (key token : Bytes) :
    RedisClient.set redis key token kTokenExpireSeconds =
      (true, redis.put key token (some tokenLife)) := rfl

theorem generateAndSaveToken_eq (redis : Redis) (userId : UInt64) (clientType : Int32) (ts : Int64)
    (rand : Nat) :
    generateAndSaveToken redis userId clientType ts rand =
      (tokenString userId clientType ts rand,
        redis.put (getRedisKey userId) (tokenString userId clientType ts rand)
          (some tokenLife)) := rfl

/-- The empty token is the only one that is refused. -/
theorem verifyToken_nil (redis : Redis) (userId : UInt64) :
    verifyToken redis userId [] = (false, redis) := rfl

/-- Any other token is accepted and saved. -/
theorem verifyToken_of_ne_nil {token : Bytes} (h : token ≠ []) (redis : Redis) (userId : UInt64) :
    verifyToken redis userId token =
      (true, redis.put (getRedisKey userId) token (some tokenLife)) := by
  simp [verifyToken, h, set_token]

/-- A logout with a token that is accepted removes the token of the user. -/
theorem logout_of_ne_nil {token : Bytes} (h : token ≠ []) (redis : Redis) (userId : UInt64) :
    AuthService.logout redis userId token =
      (true, (redis.put (getRedisKey userId) token (some tokenLife)).drop
        (getRedisKey userId)) := by
  simp only [AuthService.logout, verifyToken_of_ne_nil h, deleteToken, RedisClient.delete,
    Expiring.get_put_self redis (getRedisKey userId) token (show 0 < tokenLife by decide),
    Option.isSome_some]

end TokenManager

end IMSystem.User

import IMSystem.User.UserDao

/-!
# The table of friends and its DAO (`user/src/dao/friend_dao.cpp`)

A friend list is read one page at a time. The query of a page has no ORDER BY,
so the server returns the rows in an order of its own choice, which may differ
from one query to the next.

Results:
1. `pageRows_mem`, `pageRows_nodup`, `pageRows_length`: what a page consists of.
2. `isFriend_quiet`: what an undisturbed `IsFriend` finds.
3. `befriended_upsert`, `Befriended.upsert`: the upsert makes two users friends, and nobody
   else loses a friend.
-/

namespace IMSystem.User

open Lib Retry

/-! ## Records -/

/-- `model::UserFriend`, without `created_at`. -/
structure UserFriend where
  id : UInt64 := 0
  userId : UInt64 := 0
  friendId : UInt64 := 0
  status : Int32 := 1
deriving DecidableEq, Repr

/-- A row of `user_friends`, without its AUTO_INCREMENT id and its timestamp. -/
structure FriendRow where
  userId : UInt64
  friendId : UInt64
  /-- `TINYINT NOT NULL DEFAULT 1`. -/
  status : Int8 := 1
deriving DecidableEq, Repr

/-- `UNIQUE KEY idx_user_friend (user_id, friend_id)`. -/
def FriendRow.idxUserFriend (r : FriendRow) : UInt64 × UInt64 := (r.userId, r.friendId)

/-- The table `user_friends`. -/
abbrev UserFriends := Table FriendRow (UInt64 × UInt64) FriendRow.idxUserFriend

/-- The order in which the server returns the rows of a query without ORDER BY. -/
structure RowOrder where
  arrange : List (Nat × FriendRow) → List (Nat × FriendRow)
  perm : ∀ rows, (arrange rows).Perm rows

/-- Primary key order. -/
def RowOrder.byId : RowOrder := ⟨id, fun _ => .refl _⟩

/-- The environment of one attempt of `GetFriendList`. -/
structure ListAttempt where
  connected : Bool
  /-- The query for the total count is answered. -/
  counted : Bool
  order : RowOrder
  /-- After how many rows the result set of the page breaks. -/
  breaksAfter : Option Nat

/-- The two variables that the lambda of `GetFriendList` captures by reference. -/
structure Listing where
  result : List UserFriend
  totalCount : Int32
deriving DecidableEq, Repr

namespace FriendDao

/-- The rows of a user's friends: `WHERE user_id = ? AND status = 1`. -/
def friendRows (friends : UserFriends) (userId : UInt64) : List (Nat × FriendRow) :=
  friends.rows.filter fun x => x.2.userId == userId && x.2.status == 1

/-- `(page - 1) * page_size`. -/
def pageOffset (page pageSize : Int32) : Int32 := (page - 1) * pageSize

/-- The rows that the query of a page finds: `LIMIT ? OFFSET ?`. A negative
number is refused there. -/
def pageRows (friends : UserFriends) (userId : UInt64) (page pageSize : Int32) (order : RowOrder) :
    List (Nat × FriendRow) :=
  if pageSize < 0 ∨ pageOffset page pageSize < 0 then []
  else ((order.arrange (friendRows friends userId)).drop
    (pageOffset page pageSize).toInt.toNat).take pageSize.toInt.toNat

/-- The `model::UserFriend` read off a row. -/
def friendOf (x : Nat × FriendRow) : UserFriend where
  id := UInt64.ofNat x.1
  userId := x.2.userId
  friendId := x.2.friendId
  status := x.2.status.toInt32

/-- One attempt of the lambda in `GetFriendList`. -/
def getFriendListAttempt (a : ListAttempt) (friends : UserFriends) (userId : UInt64)
    (page pageSize : Int32) : Call Listing Unit := do
  if !a.connected then Eff.raise noConnection
  if !a.counted then Eff.raise dbError
  Eff.modify fun l => { l with totalCount := Int32.ofNat (friendRows friends userId).length }
  if pageSize < 0 ∨ pageOffset page pageSize < 0 then Eff.raise dbError
  let found := (pageRows friends userId page pageSize a.order).map friendOf
  match a.breaksAfter with
  | none => Eff.modify fun l => { l with result := l.result ++ found }
  | some k => do
    Eff.modify fun l => { l with result := l.result ++ found.take k }
    Eff.raise dbError

/-- `FriendDao::GetFriendList`: the list, and `total_count` as the call leaves it. -/
def getFriendList (attempts : Nat → ListAttempt) (friends : UserFriends) (userId : UInt64)
    (page pageSize totalCount : Int32) : Listing :=
  (executeWithRetryVoid 3
    (fun i => getFriendListAttempt (attempts i) friends userId page pageSize) ⟨[], totalCount⟩).2

/-! ### Pages -/

section Pages

variable {friends : UserFriends} {userId : UInt64} {page pageSize : Int32} {order : RowOrder}

theorem pageRows_eq (friends : UserFriends) (userId : UInt64) (page pageSize : Int32)
    (order : RowOrder) : ∃ offset limit, limit ≤ pageSize.toInt.toNat ∧
      pageRows friends userId page pageSize order =
        ((order.arrange (friendRows friends userId)).drop offset).take limit := by
  unfold pageRows
  split
  · exact ⟨0, 0, Nat.zero_le _, by simp⟩
  · exact ⟨_, _, Nat.le_refl _, rfl⟩

/-- A page is part of the table. -/
theorem pageRows_mem {x : Nat × FriendRow} (h : x ∈ pageRows friends userId page pageSize order) :
    x ∈ friends.rows := by
  obtain ⟨offset, limit, _, heq⟩ := pageRows_eq friends userId page pageSize order
  rw [heq] at h
  have harr := List.mem_of_mem_drop (List.mem_of_mem_take h)
  exact List.mem_of_mem_filter ((order.perm _).mem_iff.mp harr)

/-- A page has no row twice. -/
theorem pageRows_nodup (friends : UserFriends) (userId : UInt64) (page pageSize : Int32)
    (order : RowOrder) : (pageRows friends userId page pageSize order).Nodup := by
  obtain ⟨offset, limit, _, heq⟩ := pageRows_eq friends userId page pageSize order
  have harr := (order.perm (friendRows friends userId)).nodup_iff.mpr (friends.rows_nodup.filter _)
  rw [heq]
  exact harr.sublist ((List.take_sublist _ _).trans (List.drop_sublist _ _))

theorem pageRows_length (friends : UserFriends) (userId : UInt64) (page pageSize : Int32)
    (order : RowOrder) :
    (pageRows friends userId page pageSize order).length ≤ pageSize.toInt.toNat := by
  obtain ⟨offset, limit, hle, heq⟩ := pageRows_eq friends userId page pageSize order
  rw [heq]
  exact Nat.le_trans (List.length_take_le _ _) hle

end Pages

/-! ### Friendships -/

/-- The number that `SELECT COUNT(1) … WHERE user_id = ? AND friend_id = ? AND status = 1`
gives. -/
def friendCount (friends : UserFriends) (userId friendId : UInt64) : Nat :=
  (friends.rows.filter fun x =>
    x.2.userId == userId && x.2.friendId == friendId && x.2.status == 1).length

/-- One attempt of the lambda in `IsFriend`; the result always has one row. -/
def isFriendAttempt (a : StatementAttempt) (userId friendId : UInt64) : Call UserFriends Bool := do
  let cnt ← a.run (Eff.read fun friends => friendCount friends userId friendId)
  pure (decide (0 < Int32.ofNat cnt))

/-- `FriendDao::IsFriend`: a failed query looks like no friendship. -/
def isFriend (attempts : Nat → StatementAttempt) (friends : UserFriends)
    (userId friendId : UInt64) : Bool :=
  match (executeWithRetry 3 (fun i => isFriendAttempt (attempts i) userId friendId) friends).1 with
  | .ok found => found
  | .error _ => false

/-- `ON DUPLICATE KEY UPDATE status = 1`. -/
def befriended (row : FriendRow) : FriendRow := { row with status := 1 }

/-- `INSERT INTO user_friends … ON DUPLICATE KEY UPDATE …`: it raises when no id is left for
a BIGINT UNSIGNED. -/
def upsertStatement (userId friendId : UInt64) : Eff Exn UserFriends Unit := fun friends =>
  if friends.next < 2 ^ 64 then
    (.ok (), friends.upsert ⟨userId, friendId, 1⟩ befriended fun _ => rfl)
  else (.error dbError, friends)

/-- `DELETE FROM user_friends WHERE user_id = ? AND friend_id = ?`. -/
def deleteStatement (userId friendId : UInt64) : Eff Exn UserFriends Unit :=
  Eff.modify fun friends => friends.deleteWhere fun x => x.2.idxUserFriend = (userId, friendId)

/-- `FriendDao::AddFriend`. The message of the request is not stored. -/
def addFriend (userId friendId : UInt64) (attempts : Nat → StatementAttempt)
    (friends : UserFriends) : Bool × UserFriends :=
  retriedWrite (upsertStatement userId friendId) attempts friends

/-- `FriendDao::RemoveFriend`. -/
def removeFriend (userId friendId : UInt64) (attempts : Nat → StatementAttempt)
    (friends : UserFriends) : Bool × UserFriends :=
  retriedWrite (deleteStatement userId friendId) attempts friends

/-- A row says that the two are friends. -/
def Befriended (friends : UserFriends) (userId friendId : UInt64) : Prop :=
  ∃ x ∈ friends.rows, x.2 = ⟨userId, friendId, 1⟩

/-- The unique key leaves room for one row, so that the count fits any integer. -/
theorem friendCount_le (friends : UserFriends) (userId friendId : UInt64) :
    friendCount friends userId friendId ≤ 1 := by
  have hnodup : ((friends.rows.filter fun x =>
      x.2.userId == userId && x.2.friendId == friendId && x.2.status == 1).map
        fun x => x.2.idxUserFriend).Nodup :=
    friends.unique.sublist (List.filter_sublist.map _)
  have hsame : ∀ k ∈ (friends.rows.filter fun x =>
      x.2.userId == userId && x.2.friendId == friendId && x.2.status == 1).map
        fun x => x.2.idxUserFriend, k = (userId, friendId) := by
    intro k hk
    obtain ⟨x, hx, rfl⟩ := List.mem_map.mp hk
    obtain ⟨_, hx⟩ := List.mem_filter.mp hx
    simp only [Bool.and_eq_true, beq_iff_eq] at hx
    exact Prod.ext hx.1.1 hx.1.2
  have hlen := List.eq_replicate_of_mem hsame
  rw [hlen, List.nodup_replicate] at hnodup
  rwa [List.length_map] at hnodup

theorem isFriend_quiet {attempts : Nat → StatementAttempt} (h : attempts 0 = .quiet)
    (friends : UserFriends) (userId friendId : UInt64) :
    isFriend attempts friends userId friendId = true ↔ Befriended friends userId friendId := by
  have hattempt : isFriendAttempt (attempts 0) userId friendId friends =
      (.ok (decide (0 < Int32.ofNat (friendCount friends userId friendId))), friends) := by
    unfold isFriendAttempt
    rw [h, StatementAttempt.quiet_run, Eff.bind_apply, Eff.read_apply]
    rfl
  have hcount : 0 < friendCount friends userId friendId ↔ Befriended friends userId friendId := by
    unfold friendCount Befriended
    rw [List.length_pos_iff_exists_mem]
    refine exists_congr fun x => ?_
    rw [List.mem_filter]
    simp only [Bool.and_eq_true, beq_iff_eq]
    constructor
    · rintro ⟨hx, ⟨hu, hf⟩, hs⟩
      exact ⟨hx, by rw [← hu, ← hf, ← hs]⟩
    · rintro ⟨hx, hrow⟩
      exact ⟨hx, by simp [hrow]⟩
  unfold isFriend
  rw [executeWithRetry_eq, Eff.retry_of_ok hattempt, ← hcount, decide_eq_true_iff]
  rcases Nat.le_one_iff_eq_zero_or_eq_one.mp (friendCount_le friends userId friendId) with h0 | h1
  · rw [h0]
    decide
  · rw [h1]
    decide

/-- After the upsert the two are friends. -/
theorem befriended_upsert (friends : UserFriends) (userId friendId : UInt64) :
    Befriended (friends.upsert ⟨userId, friendId, 1⟩ befriended fun _ => rfl) userId friendId := by
  obtain ⟨x, hx, hkey, hrow⟩ := Table.exists_mem_upsert friends ⟨userId, friendId, 1⟩ befriended
    fun _ => rfl
  refine ⟨x, hx, ?_⟩
  rcases hrow with hrow | ⟨r, hrow⟩
  · exact hrow
  · rw [hrow] at hkey ⊢
    obtain ⟨hu, hf⟩ := Prod.mk.inj hkey
    exact congrArg₂ (FriendRow.mk · · 1) hu hf

/-- Those who were friends still are. -/
theorem Befriended.upsert {friends : UserFriends} {u f : UInt64} (h : Befriended friends u f)
    (userId friendId : UInt64) :
    Befriended (friends.upsert ⟨userId, friendId, 1⟩ befriended fun _ => rfl) u f := by
  obtain ⟨x, hx, hrow⟩ := h
  obtain ⟨y, hy, hyx⟩ := Table.onRow_mem_upsert (r := ⟨userId, friendId, 1⟩) (f := befriended)
    (h := fun _ => rfl) hx
  refine ⟨y, hy, ?_⟩
  rcases hyx with rfl | rfl
  · exact hrow
  · show befriended x.2 = _
    rw [hrow]
    rfl

/-- No user is his own friend, whatever the status. -/
def NoSelf (friends : UserFriends) : Prop := ∀ x ∈ friends.rows, x.2.userId ≠ x.2.friendId

instance (friends : UserFriends) : Decidable (NoSelf friends) :=
  inferInstanceAs (Decidable (∀ x ∈ friends.rows, x.2.userId ≠ x.2.friendId))

theorem NoSelf.upsert {friends : UserFriends} (h : NoSelf friends) {userId friendId : UInt64}
    (hne : userId ≠ friendId) :
    NoSelf (friends.upsert ⟨userId, friendId, 1⟩ befriended fun _ => rfl) := by
  intro x hx
  rcases Table.of_mem_upsert hx with hnew | ⟨y, hy, hsame | hsame⟩
  · rw [hnew]
    exact hne
  · rw [hsame]
    exact h y hy
  · rw [hsame]
    exact h y hy

end FriendDao

end IMSystem.User

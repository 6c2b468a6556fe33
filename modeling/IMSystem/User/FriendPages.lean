import IMSystem.User.FriendDao
import Mathlib.Data.List.Perm.Subperm

/-!
# Friend lists by pages (`user/src/service/friend_service.cpp`)

A page of friends takes several queries: the count, the rows of the page, and the user of
each row, which is left out when there is none. Here nothing changes and nothing fails; all
that the server still decides is the order of the rows, anew for each page.

Results:
1. `mem_page_iff`: whom a page lists.
2. `pageOffset_exact_iff`: when the offset of a page is what it should be.
3. `pages_right_iff`: the pages fit together exactly when there is only one.
-/

namespace IMSystem.User

open Lib Retry

/-- `FriendInfo`. -/
structure FriendInfo where
  userId : UInt64
  nickname : Bytes
  avatarUrl : Bytes
  status : Int32
deriving DecidableEq, Repr

namespace FriendService

variable {collate : Bytes → Bytes}

def friendInfo (u : UserModel) : FriendInfo := ⟨u.userId, u.nickname, u.avatarUrl, u.status⟩

/-- `FriendService::GetFriendList`: the list, and `total_count` as the call leaves it.
`lookups` are the attempts to find the user of a row. -/
def getFriendList (attempts : Nat → ListAttempt) (lookups : UserFriend → Nat → StatementAttempt)
    (users : Users collate) (friends : UserFriends) (userId : UInt64)
    (page pageSize totalCount : Int32) : List FriendInfo × Int32 :=
  let listing := FriendDao.getFriendList attempts friends userId page pageSize totalCount
  (listing.result.filterMap fun uf =>
    (UserDao.findById (lookups uf) users uf.friendId).map friendInfo, listing.totalCount)

/-- The page behind `k` others, read undisturbed from rows in the given order. -/
def page (users : Users collate) (friends : UserFriends) (userId : UInt64)
    (pageSize totalCount : Int32) (order : RowOrder) (k : Nat) : List FriendInfo × Int32 :=
  getFriendList (fun _ => ⟨true, true, order, none⟩) (fun _ _ => .quiet) users friends userId
    (Int32.ofNat (k + 1)) pageSize totalCount

/-- The first `n` pages fit together: each offset is exact, each friend is on one page, no
page is too long, and the count is that of all pages. -/
structure PagesRight (users : Users collate) (friends : UserFriends) (userId : UInt64)
    (pageSize totalCount : Int32) (orders : Nat → RowOrder) (n : Nat) : Prop where
  offset : ∀ k < n,
    (FriendDao.pageOffset (Int32.ofNat (k + 1)) pageSize).toInt = k * pageSize.toInt
  once : ∀ x ∈ FriendDao.friendRows friends userId, ∃! k, k < n ∧ x.2.friendId ∈
    (page users friends userId pageSize totalCount (orders k) k).1.map (·.userId)
  bounded : ∀ k < n, (page users friends userId pageSize totalCount (orders k) k).1.length ≤
    pageSize.toInt.toNat
  total : ∀ k < n, (page users friends userId pageSize totalCount (orders k) k).2.toInt =
    ((List.range n).map fun j =>
      (page users friends userId pageSize totalCount (orders j) j).1.length).sum

/-- The user of a friend row exists. -/
def HasUser (users : Users collate) (x : Nat × FriendRow) : Prop :=
  ∃ y ∈ users.rows, y.1 = x.2.friendId.toNat

instance (users : Users collate) (x : Nat × FriendRow) : Decidable (HasUser users x) :=
  inferInstanceAs (Decidable (∃ y ∈ users.rows, y.1 = x.2.friendId.toNat))

/-! ## One page -/

section Page

variable (users : Users collate) (friends : UserFriends) (userId : UInt64)
  (pageSize totalCount : Int32) (order : RowOrder) (k : Nat)

/-- Undisturbed, a page has the rows that its query finds, also when that is refused. -/
theorem getFriendList_quiet (page : Int32) :
    FriendDao.getFriendList (fun _ => ⟨true, true, order, none⟩) friends userId page pageSize
      totalCount =
    ⟨(FriendDao.pageRows friends userId page pageSize order).map FriendDao.friendOf,
      Int32.ofNat (FriendDao.friendRows friends userId).length⟩ := by
  unfold FriendDao.getFriendList
  rw [executeWithRetryVoid_eq, executeWithRetry_eq]
  by_cases hrefused : pageSize < 0 ∨ FriendDao.pageOffset page pageSize < 0
  · have hraises : ∀ l : Listing, FriendDao.getFriendListAttempt ⟨true, true, order, none⟩ friends
        userId page pageSize l = (.error dbError, { l with
          totalCount := Int32.ofNat (FriendDao.friendRows friends userId).length }) := by
      intro l
      simp [FriendDao.getFriendListAttempt, hrefused, Eff.bind_apply]
    -- The first attempt has set the count, and the others set it again.
    have hothers : ∃ e l, Eff.retry (fun _ => FriendDao.getFriendListAttempt
        ⟨true, true, order, none⟩ friends userId page pageSize) 2 1
        ⟨[], Int32.ofNat (FriendDao.friendRows friends userId).length⟩ = (.error e, l) ∧
          l = ⟨[], Int32.ofNat (FriendDao.friendRows friends userId).length⟩ :=
      Eff.retry_raises (fun i l hl => ⟨dbError, _, hraises l, by rw [hl]⟩) 2 1 rfl
    obtain ⟨e, l, hrun, rfl⟩ := hothers
    have hnone : FriendDao.pageRows friends userId page pageSize order = [] := if_pos hrefused
    rw [hnone]
    exact congrArg Prod.snd ((Eff.retry_of_error (hraises _)).trans hrun)
  · have hreturns : FriendDao.getFriendListAttempt ⟨true, true, order, none⟩ friends userId page
        pageSize ⟨[], totalCount⟩ = (.ok (),
          ⟨(FriendDao.pageRows friends userId page pageSize order).map FriendDao.friendOf,
            Int32.ofNat (FriendDao.friendRows friends userId).length⟩) := by
      simp [FriendDao.getFriendListAttempt, hrefused, Eff.bind_apply]
    exact congrArg Prod.snd (Eff.retry_of_ok hreturns)

theorem page_total : (page users friends userId pageSize totalCount order k).2 =
    Int32.ofNat (FriendDao.friendRows friends userId).length := by
  unfold page getFriendList
  rw [getFriendList_quiet]

/-- A page lists the users of its rows that exist, in the order of the rows. -/
theorem page_userIds : (page users friends userId pageSize totalCount order k).1.map (·.userId) =
    ((FriendDao.pageRows friends userId (Int32.ofNat (k + 1)) pageSize order).filter
      fun x => users.rows.any fun y => y.1 == x.2.friendId.toNat).map fun x => x.2.friendId := by
  unfold page getFriendList
  rw [getFriendList_quiet]
  dsimp only
  generalize FriendDao.pageRows friends userId (Int32.ofNat (k + 1)) pageSize order = rows
  induction rows with
  | nil => rfl
  | cons x rows ih =>
    have hfriend : (FriendDao.friendOf x).friendId = x.2.friendId := rfl
    rw [List.map_cons, List.filterMap_cons, UserDao.findById_quiet rfl, hfriend, List.filter_cons]
    cases hfind : users.rows.find? fun y => y.1 == x.2.friendId.toNat with
    | none =>
      have hnone : (users.rows.any fun y => y.1 == x.2.friendId.toNat) = false := by
        rw [List.any_eq_false]
        exact List.find?_eq_none.mp hfind
      simp only [Option.map_none, hnone, Bool.false_eq_true, if_false]
      exact ih
    | some y =>
      have hid : y.1 = x.2.friendId.toNat := by simpa using List.find?_some hfind
      have hsome : (users.rows.any fun y => y.1 == x.2.friendId.toNat) = true :=
        List.any_eq_true.mpr ⟨y, List.mem_of_find?_eq_some hfind, by simpa using hid⟩
      have huser : (friendInfo (UserDao.userOf y.1 y.2)).userId = x.2.friendId := by
        show UInt64.ofNat y.1 = _
        rw [hid, UInt64.ofNat_toNat]
      simp only [Option.map_some, hsome, if_true, List.map_cons, huser, ih]

end Page

/-! ## The rows of a page -/

section Rows

variable {users : Users collate} {friends : UserFriends} {userId : UInt64}
  {pageSize totalCount : Int32} {order : RowOrder} {k : Nat}

theorem mem_page_iff {friendId : UInt64} :
    friendId ∈ (page users friends userId pageSize totalCount order k).1.map (·.userId) ↔
      ∃ x ∈ FriendDao.pageRows friends userId (Int32.ofNat (k + 1)) pageSize order,
        HasUser users x ∧ x.2.friendId = friendId := by
  rw [page_userIds, List.mem_map]
  refine exists_congr fun x => ?_
  rw [List.mem_filter, List.any_eq_true, and_assoc]
  simp only [beq_iff_eq]
  exact Iff.rfl

theorem friendIds_nodup (friends : UserFriends) (userId : UInt64) :
    ((FriendDao.friendRows friends userId).map fun x => x.2.friendId).Nodup := by
  have hkeys : ((FriendDao.friendRows friends userId).map fun x => x.2.idxUserFriend).Nodup :=
    friends.unique.sublist (List.filter_sublist.map _)
  have hpair : (FriendDao.friendRows friends userId).map (fun x => x.2.idxUserFriend) =
      ((FriendDao.friendRows friends userId).map fun x => x.2.friendId).map (userId, ·) := by
    rw [List.map_map]
    refine List.map_congr_left fun x hx => ?_
    have hrow := (List.mem_filter.mp hx).2
    simp only [Bool.and_eq_true, beq_iff_eq] at hrow
    exact Prod.ext hrow.1 rfl
  rw [hpair] at hkeys
  exact hkeys.of_map

theorem one_le_toInt (hsize : 1 ≤ pageSize) : 1 ≤ pageSize.toInt := by
  rw [Int32.le_iff_toInt_le, Int32.toInt_one] at hsize
  exact hsize

/-- The offset of a page is exact as long as it fits an `int`. -/
theorem pageOffset_exact_iff (hk : k + 1 < 2 ^ 31) (hsize : 1 ≤ pageSize) :
    (FriendDao.pageOffset (Int32.ofNat (k + 1)) pageSize).toInt = k * pageSize.toInt ↔
      k * pageSize.toInt < 2 ^ 31 := by
  have hone := one_le_toInt hsize
  have hpage : (Int32.ofNat (k + 1)).toInt = k + 1 := Int32.toInt_ofNat_of_lt hk
  have hindex : (Int32.ofNat (k + 1) - 1).toInt = k := by
    rw [Int32.toInt_sub, hpage, Int32.toInt_one, Int.add_sub_cancel]
    exact Int.bmod_eq_of_le (by omega) (by omega)
  have hpos : 0 ≤ (k : Int) * pageSize.toInt := Int.mul_nonneg (by omega) (by omega)
  unfold FriendDao.pageOffset
  constructor
  · intro h
    rw [← h]
    exact Int32.toInt_lt _
  · intro hlt
    rw [Int32.toInt_mul, hindex]
    exact Int.bmod_eq_of_le (by omega) (by omega)

/-- With an exact offset, a page has the rows that its number says. -/
theorem pageRows_exact (hsize : 1 ≤ pageSize)
    (hexact : (FriendDao.pageOffset (Int32.ofNat (k + 1)) pageSize).toInt = k * pageSize.toInt) :
    FriendDao.pageRows friends userId (Int32.ofNat (k + 1)) pageSize order =
      ((order.arrange (FriendDao.friendRows friends userId)).drop
        (k * pageSize.toInt.toNat)).take pageSize.toInt.toNat := by
  have hone := one_le_toInt hsize
  have hpos : 0 ≤ (k : Int) * pageSize.toInt := Int.mul_nonneg (by omega) (by omega)
  have haccepted : ¬ (pageSize < 0 ∨
      FriendDao.pageOffset (Int32.ofNat (k + 1)) pageSize < 0) := by
    rw [Int32.lt_iff_toInt_lt, Int32.lt_iff_toInt_lt, hexact, Int32.toInt_zero]
    omega
  have hoffset : (k * pageSize.toInt).toNat = k * pageSize.toInt.toNat := by
    rw [Int.toNat_mul (by omega) (by omega), Int.toNat_natCast]
  unfold FriendDao.pageRows
  rw [if_neg haccepted, hexact, hoffset]

end Rows

/-! ## All pages -/

/-- The last `k` rows come first. -/
def lastFirst (k : Nat) : RowOrder where
  arrange rows := rows.drop (rows.length - k) ++ rows.take (rows.length - k)
  perm rows := by
    have hswap : (rows.drop (rows.length - k) ++ rows.take (rows.length - k)).Perm
        (rows.take (rows.length - k) ++ rows.drop (rows.length - k)) := List.perm_append_comm
    rwa [List.take_append_drop] at hswap

section Pages

variable {users : Users collate} {friends : UserFriends} {userId : UInt64}
  {pageSize totalCount : Int32}

/-- When there is one page, it has all the rows. -/
theorem pageRows_first (hsize : 1 ≤ pageSize)
    (hrows : (FriendDao.friendRows friends userId).length ≤ pageSize.toInt.toNat)
    (order : RowOrder) : FriendDao.pageRows friends userId (Int32.ofNat (0 + 1)) pageSize order =
      order.arrange (FriendDao.friendRows friends userId) := by
  have hexact := (pageOffset_exact_iff (k := 0) (by decide) hsize).mpr (by simp)
  rw [pageRows_exact hsize hexact, Nat.zero_mul, List.drop_zero]
  refine List.take_of_length_le ?_
  rw [(order.perm _).length_eq]
  exact hrows

/-- And the others have none. -/
theorem pageRows_later (hsize : 1 ≤ pageSize)
    (hrows : (FriendDao.friendRows friends userId).length ≤ pageSize.toInt.toNat) {k : Nat}
    (hk : k ≠ 0)
    (hexact : (FriendDao.pageOffset (Int32.ofNat (k + 1)) pageSize).toInt = k * pageSize.toInt)
    (order : RowOrder) :
    FriendDao.pageRows friends userId (Int32.ofNat (k + 1)) pageSize order = [] := by
  have hbehind : (order.arrange (FriendDao.friendRows friends userId)).length ≤
      k * pageSize.toInt.toNat := by
    rw [(order.perm _).length_eq]
    exact Nat.le_trans hrows (Nat.le_mul_of_pos_left _ (Nat.pos_of_ne_zero hk))
  rw [pageRows_exact hsize hexact, List.drop_eq_nil_of_le hbehind, List.take_nil]

theorem page_length (order : RowOrder) (k : Nat) :
    (page users friends userId pageSize totalCount order k).1.length =
      ((FriendDao.pageRows friends userId (Int32.ofNat (k + 1)) pageSize order).filter
        fun x => users.rows.any fun y => y.1 == x.2.friendId.toNat).length := by
  have := congrArg List.length (page_userIds users friends userId pageSize totalCount order k)
  rwa [List.length_map, List.length_map] at this

theorem page_length_le (order : RowOrder) (k : Nat) :
    (page users friends userId pageSize totalCount order k).1.length ≤ pageSize.toInt.toNat := by
  rw [page_length]
  exact Nat.le_trans (List.length_filter_le _ _) (FriendDao.pageRows_length ..)

/-- If all but the first are empty, the lengths add up to that of the first. -/
theorem sum_range_eq_first {f : Nat → Nat} {n : Nat} (hn : 0 < n)
    (hzero : ∀ k < n, k ≠ 0 → f k = 0) : ((List.range n).map f).sum = f 0 := by
  induction n with
  | zero => exact absurd hn (Nat.lt_irrefl 0)
  | succ n ih =>
    rw [List.range_succ, List.map_append, List.sum_append, List.map_singleton,
      List.sum_singleton]
    rcases Nat.eq_zero_or_pos n with rfl | hpos
    · simp
    · rw [ih hpos fun k hk => hzero k (Nat.lt_succ_of_lt hk),
        hzero n (Nat.lt_succ_self n) (Nat.ne_of_gt hpos), Nat.add_zero]

/-- One page is enough, its number can be counted up to `n`, and every friend exists. -/
structure OnePage (users : Users collate) (friends : UserFriends) (userId : UInt64)
    (pageSize : Int32) (n : Nat) : Prop where
  rows : (FriendDao.friendRows friends userId).length ≤ pageSize.toInt.toNat
  offset : ∀ k < n,
    (FriendDao.pageOffset (Int32.ofNat (k + 1)) pageSize).toInt = k * pageSize.toInt
  users : ∀ x ∈ FriendDao.friendRows friends userId, HasUser users x

theorem OnePage.pages_right {n : Nat} (h : OnePage users friends userId pageSize n)
    (hsize : 1 ≤ pageSize) (hn : 0 < n) (orders : Nat → RowOrder) :
    PagesRight users friends userId pageSize totalCount orders n where
  offset := h.offset
  once := by
    intro x hx
    have hfirst := pageRows_first hsize h.rows (orders 0)
    refine ⟨0, ⟨hn, ?_⟩, ?_⟩
    · rw [mem_page_iff, hfirst]
      exact ⟨x, ((orders 0).perm _).mem_iff.mpr hx, h.users x hx, rfl⟩
    · rintro k ⟨hk, hmem⟩
      by_contra hne
      rw [mem_page_iff, pageRows_later hsize h.rows hne (h.offset k hk)] at hmem
      obtain ⟨y, hy, _⟩ := hmem
      cases hy
  bounded := fun k _ => page_length_le (orders k) k
  total := by
    intro k _
    have hlater : ∀ j < n, j ≠ 0 →
        (page users friends userId pageSize totalCount (orders j) j).1.length = 0 := by
      intro j hj hne
      rw [page_length, pageRows_later hsize h.rows hne (h.offset j hj)]
      rfl
    have hall : (page users friends userId pageSize totalCount (orders 0) 0).1.length =
        (FriendDao.friendRows friends userId).length := by
      rw [page_length, pageRows_first hsize h.rows, List.filter_eq_self.mpr ?_,
        ((orders 0).perm _).length_eq]
      intro x hx
      obtain ⟨y, hy, hid⟩ := h.users x (((orders 0).perm _).mem_iff.mp hx)
      exact List.any_eq_true.mpr ⟨y, hy, by simpa using hid⟩
    have hfits : (FriendDao.friendRows friends userId).length < 2 ^ 31 := by
      have := h.rows
      have := pageSize.toInt_lt
      omega
    rw [sum_range_eq_first hn hlater, hall, page_total, Int32.toInt_ofNat_of_lt hfits]

/-- In primary key order, the first row is on page 0. -/
theorem mem_byId {x : Nat × FriendRow} {rows : List (Nat × FriendRow)} {m : Nat} (hm : 1 ≤ m) :
    x ∈ ((RowOrder.byId.arrange (x :: rows)).drop (0 * m)).take m := by
  show x ∈ ((x :: rows).drop (0 * m)).take m
  obtain ⟨m, rfl⟩ := Nat.exists_eq_add_of_le hm
  rw [Nat.zero_mul, List.drop_zero, Nat.add_comm, List.take_succ_cons]
  exact List.mem_cons_self

/-- With the last page moved to the front, it is on page 1. -/
theorem mem_lastFirst {x : Nat × FriendRow} {rows : List (Nat × FriendRow)} {m : Nat}
    (hm : 1 ≤ m) (hmore : m < (x :: rows).length) :
    x ∈ (((lastFirst m).arrange (x :: rows)).drop (1 * m)).take m := by
  show x ∈ (((x :: rows).drop ((x :: rows).length - m) ++
    (x :: rows).take ((x :: rows).length - m)).drop (1 * m)).take m
  have hmoved : 1 * m = ((x :: rows).drop ((x :: rows).length - m)).length := by
    rw [List.length_drop, Nat.one_mul]
    omega
  rw [hmoved, List.drop_left]
  obtain ⟨j, hj⟩ := Nat.exists_eq_add_of_lt hmore
  obtain ⟨m, rfl⟩ := Nat.exists_eq_add_of_le hm
  have hrest : (x :: rows).length - (1 + m) = j + 1 := by omega
  rw [hrest, List.take_succ_cons, Nat.add_comm, List.take_succ_cons]
  exact List.mem_cons_self

/-- When there is one page, all rows are on it. -/
theorem rows_le_of_one_page {orders : Nat → RowOrder}
    (h : PagesRight users friends userId pageSize totalCount orders 1) :
    (FriendDao.friendRows friends userId).length ≤ pageSize.toInt.toNat := by
  have hlisted : (FriendDao.friendRows friends userId).map (fun x => x.2.friendId) ⊆
      (page users friends userId pageSize totalCount (orders 0) 0).1.map (·.userId) := by
    intro friendId hmem
    obtain ⟨x, hx, rfl⟩ := List.mem_map.mp hmem
    obtain ⟨k, ⟨hk, hpage⟩, _⟩ := h.once x hx
    obtain rfl := Nat.lt_one_iff.mp hk
    exact hpage
  have hfits := ((friendIds_nodup friends userId).subperm hlisted).length_le
  rw [List.length_map, List.length_map] at hfits
  exact Nat.le_trans hfits (h.bounded 0 Nat.one_pos)

/-- With a second page, and more rows than a page holds, the server may put the first row on
both. -/
theorem rows_le_of_second_page {n : Nat} (hsize : 1 ≤ pageSize) (hsecond : 1 < n)
    (h : ∀ orders, PagesRight users friends userId pageSize totalCount orders n) :
    (FriendDao.friendRows friends userId).length ≤ pageSize.toInt.toNat := by
  have hone := one_le_toInt hsize
  have hm : 1 ≤ pageSize.toInt.toNat := by omega
  have hfirst : 0 < n := Nat.lt_of_succ_lt hsecond
  by_contra hmore
  rw [Nat.not_le] at hmore
  have hright := h fun k => if k = 1 then lastFirst pageSize.toInt.toNat else .byId
  cases hrows : FriendDao.friendRows friends userId with
  | nil =>
    rw [hrows] at hmore
    exact Nat.not_lt_zero _ hmore
  | cons x rows =>
    obtain ⟨k, ⟨hk, hmem⟩, hunique⟩ := hright.once x (by rw [hrows]; exact List.mem_cons_self)
    have huser : HasUser users x := by
      obtain ⟨y, _, ⟨z, hz, hid⟩, hsame⟩ := mem_page_iff.mp hmem
      exact ⟨z, hz, hsame ▸ hid⟩
    have hpage : x.2.friendId ∈ (page users friends userId pageSize totalCount .byId 0).1.map
        (·.userId) := by
      rw [mem_page_iff, pageRows_exact hsize (hright.offset 0 hfirst), hrows]
      exact ⟨x, mem_byId hm, huser, rfl⟩
    have hagain : x.2.friendId ∈ (page users friends userId pageSize totalCount
        (lastFirst pageSize.toInt.toNat) 1).1.map (·.userId) := by
      rw [mem_page_iff, pageRows_exact hsize (hright.offset 1 hsecond), hrows]
      exact ⟨x, mem_lastFirst hm (hrows ▸ hmore), huser, rfl⟩
    have hboth := (hunique 0 ⟨hfirst, hpage⟩).trans (hunique 1 ⟨hsecond, hagain⟩).symm
    exact absurd hboth (by decide)

theorem rows_le_of_pages_right {n : Nat} (hsize : 1 ≤ pageSize) (hn : 0 < n)
    (h : ∀ orders, PagesRight users friends userId pageSize totalCount orders n) :
    (FriendDao.friendRows friends userId).length ≤ pageSize.toInt.toNat := by
  rcases Nat.lt_or_eq_of_le hn with hsecond | rfl
  · exact rows_le_of_second_page hsize hsecond h
  · exact rows_le_of_one_page (h fun _ => .byId)

/-- The pages up to `lastPage` fit together, whatever order the server returns rows in, if
and only if the rows fit on one page, the offset of the last page fits an `int`, and every
friend exists. -/
theorem pages_right_iff (users : Users collate) (friends : UserFriends) (userId : UInt64)
    (pageSize totalCount lastPage : Int32) (hsize : 1 ≤ pageSize) (hlast : 1 ≤ lastPage) :
    (∀ orders, PagesRight users friends userId pageSize totalCount orders
        lastPage.toInt.toNat) ↔
      (FriendDao.friendRows friends userId).length ≤ pageSize.toInt.toNat ∧
      (lastPage.toInt - 1) * pageSize.toInt < 2 ^ 31 ∧
      ∀ x ∈ FriendDao.friendRows friends userId, HasUser users x := by
  have hone := one_le_toInt hsize
  have hpages := one_le_toInt hlast
  have hbound := lastPage.toInt_lt
  have hn : 0 < lastPage.toInt.toNat := by omega
  constructor
  · intro h
    refine ⟨rows_le_of_pages_right hsize hn h, ?_, ?_⟩
    · have hindex : ((lastPage.toInt.toNat - 1 : Nat) : Int) = lastPage.toInt - 1 := by omega
      rw [← hindex]
      exact (pageOffset_exact_iff (by omega) hsize).mp
        ((h fun _ => .byId).offset (lastPage.toInt.toNat - 1) (by omega))
    · intro x hx
      obtain ⟨k, ⟨_, hmem⟩, _⟩ := (h fun _ => .byId).once x hx
      obtain ⟨y, _, ⟨z, hz, hid⟩, hsame⟩ := mem_page_iff.mp hmem
      exact ⟨z, hz, hsame ▸ hid⟩
  · rintro ⟨hrows, hoffset, husers⟩ orders
    refine OnePage.pages_right ⟨hrows, fun k hk => ?_, husers⟩ hsize hn orders
    have hle : (k : Int) * pageSize.toInt ≤ (lastPage.toInt - 1) * pageSize.toInt :=
      Int.mul_le_mul_of_nonneg_right (by omega) (by omega)
    exact (pageOffset_exact_iff (by omega) hsize).mpr (Int.lt_of_le_of_lt hle hoffset)

end Pages

/-! ## Two friends -/

/-- The users 2 and 3. -/
def twoUsers : Users id where
  rows := [(2, ⟨str "b", [], [], [], 0⟩), (3, ⟨str "c", [], [], [], 0⟩)]
  next := 4
  sorted := by decide
  bounded := by decide
  unique := by decide

/-- Both are friends of user 1. -/
def twoFriends : UserFriends where
  rows := [(1, ⟨1, 2, 1⟩), (2, ⟨1, 3, 1⟩)]
  next := 3
  sorted := by decide
  bounded := by decide
  unique := by decide

theorem pages_right_iff_two : PagesRight twoUsers twoFriends 1 2 0
    (fun k => if k = 1 then lastFirst 1 else .byId) (3 : Int32).toInt.toNat :=
  (pages_right_iff twoUsers twoFriends 1 2 0 3 (by decide) (by decide)).mpr
    ⟨by decide, by decide, by decide⟩ _

/-- Of pages of one entry each, the second may list the friend of the first again. -/
theorem friend_on_two_pages : ¬ ∀ orders,
    PagesRight twoUsers twoFriends 1 1 0 orders Int32.maxValue.toInt.toNat := by
  intro h
  have hright := h fun k => if k = 1 then lastFirst 1 else .byId
  have huser : HasUser twoUsers (1, ⟨1, 2, 1⟩) := ⟨_, List.mem_cons_self, rfl⟩
  obtain ⟨k, _, hunique⟩ := hright.once (1, ⟨1, 2, 1⟩) (by decide)
  have hfirst := hunique 0 ⟨by decide, mem_page_iff.mpr ⟨_, by decide, huser, rfl⟩⟩
  have hagain := hunique 1 ⟨by decide, mem_page_iff.mpr ⟨_, by decide, huser, rfl⟩⟩
  exact absurd (hfirst.trans hagain.symm) (by decide)

end FriendService

end IMSystem.User

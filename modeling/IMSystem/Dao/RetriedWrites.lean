import IMSystem.User.FriendDao

/-!
# Writes that are retried (`user_dao.cpp`, `friend_dao.cpp`)

When the answer to a statement is lost, the retry loop runs a statement again that has
already taken effect. Four calls can stand this: their statements leave nothing to do for a
second execution. Timestamps are not modelled, and rows are compared with their ids but
without the AUTO_INCREMENT counter, which every upsert moves.

Results:
1. `retrySafe_of_repeatable`: a statement that can be repeated makes a call that can be retried.
2. `addFriend_retrySafe`, `removeFriend_retrySafe`, `update_retrySafe`, `delete_retrySafe`.
-/

namespace IMSystem.Dao

open Lib Retry User

section RetrySafe

variable {R K : Type} {key : R → K}

/-- The call with the number of attempts whose statement took effect. -/
def journal (statement : Eff Exn (Table R K key) Unit) (attempts : Nat → StatementAttempt)
    (t : Table R K key) : Bool × Table R K key × Nat :=
  retriedWrite (Eff.counted statement) attempts (t, 0)

/-- The call `write` can be retried: whatever becomes of its attempts, it does to the rows
what its statement does once, or nothing; it says that it succeeded only if an attempt took
effect; and it never touches rows without `p`. -/
structure RetrySafe (statement : Eff Exn (Table R K key) Unit) (p : Nat × R → Prop)
    [DecidablePred p]
    (write : (Nat → StatementAttempt) → Table R K key → Bool × Table R K key) : Prop where
  call : ∀ attempts t, write attempts t =
    ((journal statement attempts t).1, (journal statement attempts t).2.1)
  once : ∀ attempts t, 0 < (journal statement attempts t).2.2 →
    (write attempts t).2.rows = (statement t).2.rows
  never : ∀ attempts t, (journal statement attempts t).2.2 = 0 → (write attempts t).2 = t
  others : ∀ attempts t, (write attempts t).2.rows.filter (fun x => ¬ p x) =
    t.rows.filter fun x => ¬ p x
  returned : ∀ attempts t, (write attempts t).1 = true →
    0 < (journal statement attempts t).2.2

/-- An attempt of the environment is one at its statement. -/
theorem isAttempt_run {σ : Type} (a : StatementAttempt) (statement : Eff Exn σ Unit) :
    Eff.IsAttempt statement (a.run statement) :=
  fun s => a.run_cases statement s

theorem retriedWrite_eq {σ : Type} (statement : Eff Exn σ Unit)
    (attempts : Nat → StatementAttempt) (s : σ) : retriedWrite statement attempts s =
      ((Eff.retry (fun i => (attempts i).run statement) 3 0 s).1.isOk,
        (Eff.retry (fun i => (attempts i).run statement) 3 0 s).2) := by
  unfold retriedWrite
  rw [executeWithRetryVoid_eq, executeWithRetry_eq]
  match hrun : Eff.retry (fun i => (attempts i).run statement) 3 0 s with
  | (.ok (), s') => rfl
  | (.error e, s') => rfl

/-- Counting changes nothing. -/
theorem run_counted {σ : Type} (a : StatementAttempt) (statement : Eff Exn σ Unit) (w : σ × Nat) :
    a.run statement w.1 = ((a.run (Eff.counted statement) w).1,
      (a.run (Eff.counted statement) w).2.1) := by
  have hstatement : statement w.1 = ((Eff.counted statement w).1, (Eff.counted statement w).2.1) := by
    unfold Eff.counted
    match statement w.1 with
    | (.ok (), s) => rfl
    | (.error e, s) => rfl
  obtain ⟨connected, fault⟩ := a
  cases connected with
  | false => rfl
  | true =>
    cases fault with
    | none => exact hstatement
    | before => rfl
    | after => exact congrArg (fun r => (Except.error dbError, r.2)) hstatement

theorem journal_eq (statement : Eff Exn (Table R K key) Unit) (attempts : Nat → StatementAttempt)
    (t : Table R K key) : retriedWrite statement attempts t =
      ((journal statement attempts t).1, (journal statement attempts t).2.1) := by
  have hmap := Eff.retry_map Prod.fst (fun i w => run_counted (attempts i) statement w) 3 0 (t, 0)
  unfold journal
  rw [retriedWrite_eq, retriedWrite_eq]
  exact congrArg (fun r => (r.1.isOk, r.2)) hmap

/-- A statement that can be repeated makes a call that can be retried. -/
theorem retrySafe_of_repeatable {statement : Eff Exn (Table R K key) Unit} {p : Nat × R → Prop}
    [DecidablePred p] (h : Eff.Repeatable Table.rows statement)
    (hothers : ∀ t, (statement t).2.rows.filter (fun x => ¬ p x) =
      t.rows.filter fun x => ¬ p x) :
    RetrySafe statement p (retriedWrite statement) := by
  have hjournal : ∀ attempts t, Eff.AtMostOnce Table.rows statement t
      (journal statement attempts t).2 ∧ ((journal statement attempts t).1 = true →
        0 < (journal statement attempts t).2.2) := by
    intro attempts t
    obtain ⟨honce, hpos⟩ := h.retry
      (fun i => isAttempt_run (attempts i) (Eff.counted statement)) 3 0 t
    unfold journal
    rw [retriedWrite_eq]
    refine ⟨honce, fun hok => ?_⟩
    cases hresult : (Eff.retry (fun i => (attempts i).run (Eff.counted statement)) 3 0 (t, 0)).1 with
    | ok a => exact hpos a hresult
    | error e =>
      rw [hresult] at hok
      cases hok
  refine ⟨journal_eq statement, ?_, ?_, ?_, ?_⟩
  · intro attempts t hpos
    rw [journal_eq]
    rcases (hjournal attempts t).1 with hnone | ⟨_, hrows, _⟩
    · rw [hnone] at hpos
      exact absurd hpos (Nat.lt_irrefl 0)
    · exact hrows
  · intro attempts t hzero
    rw [journal_eq]
    rcases (hjournal attempts t).1 with hnone | ⟨hpos, _⟩
    · rw [hnone]
    · rw [hzero] at hpos
      exact absurd hpos (Nat.lt_irrefl 0)
  · intro attempts t
    rw [journal_eq]
    rcases (hjournal attempts t).1 with hnone | ⟨_, hrows, _⟩
    · rw [hnone]
    · rw [hrows, hothers]
  · intro attempts t hreturned
    rw [journal_eq] at hreturned
    exact (hjournal attempts t).2 hreturned

end RetrySafe

/-! ## The statements -/

section Statements

variable {R K : Type} {key : R → K}

/-- A statement that never raises can be repeated if that changes no row. -/
theorem repeatable_modify {f : Table R K key → Table R K key}
    (h : ∀ s t, t.rows = (f s).rows → (f t).rows = t.rows) :
    Eff.Repeatable Table.rows (Eff.modify f : Eff Exn (Table R K key) Unit) where
  raises s e s' hrun := by cases hrun
  again s a s' t hrun hrows := by
    cases hrun
    exact h s t hrows

section Where

variable {p : Nat × R → Prop} [DecidablePred p] {f : Table R K key → Table R K key}

/-- A DELETE finds no row the second time. -/
theorem retrySafe_deleting (h : ∀ t, (f t).rows = t.rows.filter fun x => ¬ p x) :
    RetrySafe (Eff.modify f) p (retriedWrite (Eff.modify f)) := by
  have hagain : ∀ rows : List (Nat × R), (rows.filter fun x => ¬ p x).filter (fun x => ¬ p x) =
      rows.filter fun x => ¬ p x := by
    intro rows
    rw [List.filter_filter]
    simp
  refine retrySafe_of_repeatable (repeatable_modify fun s t hrows => ?_) fun t => ?_
  · rw [h t, hrows, h s, hagain]
  · rw [Eff.modify_apply, h t, hagain]

/-- An UPDATE writes the same values the second time. -/
theorem retrySafe_updating {g : R → R} (hp : ∀ x : Nat × R, p (x.1, g x.2) ↔ p x)
    (hg : ∀ r, g (g r) = g r) (h : ∀ t, (f t).rows = t.rows.map (Table.onRow p g)) :
    RetrySafe (Eff.modify f) p (retriedWrite (Eff.modify f)) := by
  refine retrySafe_of_repeatable (repeatable_modify fun s t hrows => ?_) fun t => ?_
  · rw [h t, hrows, h s]
    exact Table.map_onRow_again hg s.rows
  · rw [Eff.modify_apply, h t]
    exact Table.filter_map_onRow hp t.rows

end Where

theorem addFriend_retrySafe (userId friendId : UInt64) :
    RetrySafe (FriendDao.upsertStatement userId friendId)
      (fun x => x.2.idxUserFriend = (userId, friendId)) (FriendDao.addFriend userId friendId) := by
  refine retrySafe_of_repeatable ⟨?_, ?_⟩ ?_
  · intro s e s' hrun
    unfold FriendDao.upsertStatement at hrun
    split at hrun
    · cases hrun
    · cases hrun
      rfl
  · intro s a s' t hrun hrows
    unfold FriendDao.upsertStatement at hrun ⊢
    split at hrun
    · cases hrun
      split
      · exact Table.upsert_again (fun _ => rfl) rfl hrows
      · rfl
    · cases hrun
  · intro t
    unfold FriendDao.upsertStatement
    split
    · exact Table.upsert_others t ⟨userId, friendId, 1⟩ FriendDao.befriended _
    · rfl

theorem removeFriend_retrySafe (userId friendId : UInt64) :
    RetrySafe (FriendDao.deleteStatement userId friendId)
      (fun x => x.2.idxUserFriend = (userId, friendId))
      (FriendDao.removeFriend userId friendId) :=
  retrySafe_deleting fun _ => rfl

theorem update_retrySafe {collate : Bytes → Bytes} (user : UserModel) :
    RetrySafe (Eff.modify (UserDao.updateStatement user) : Eff Exn (Users collate) Unit)
      (fun x => x.1 = user.userId.toNat) (UserDao.update user) :=
  retrySafe_updating (g := fun row => { row with
    nickname := user.nickname, avatarUrl := user.avatarUrl, status := user.status })
    (fun _ => Iff.rfl) (fun _ => rfl) fun _ => rfl

theorem delete_retrySafe {collate : Bytes → Bytes} (userId : UInt64) :
    RetrySafe (Eff.modify (UserDao.deleteStatement userId) : Eff Exn (Users collate) Unit)
      (fun x => x.1 = userId.toNat) (UserDao.delete userId) :=
  retrySafe_deleting fun _ => rfl

end Statements

end IMSystem.Dao

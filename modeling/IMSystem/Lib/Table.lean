import Mathlib.Data.List.Basic
import Mathlib.Data.List.Pairwise
import Mathlib.Data.List.Nodup

/-!
# Tables with an AUTO_INCREMENT primary key and one unique key

The part of a relational store that the data access objects rely on. A table
keeps its rows in primary key order, allots ids from a counter, and refuses a
row whose unique key is taken. An insert may also be split into its two
moments: the id is allotted first (`allot`), and the row becomes visible later
(`place`), possibly behind rows with larger ids.

Results:
1. `insert_of_free`, `insert_of_taken`: what one insert does.
2. `insert_eq_place`: an insert is `allot` followed by `place`.
3. `place_eq_some`: placing a row adds this row and no other.
4. `upsert_again`, `upsert_others`: an INSERT with ON DUPLICATE KEY UPDATE.
5. `mem_select_iff`, `mem_select_of_le`: a selection misses nothing up to its last row.
6. `behind_last`: the next selection begins where the limit cut this one off.
-/

namespace IMSystem.Lib

/-- A table with rows `R`, the unique key `key`, and an AUTO_INCREMENT counter. -/
@[ext]
structure Table (R K : Type) (key : R → K) where
  /-- The visible rows with their ids, in primary key order. -/
  rows : List (Nat × R)
  /-- The AUTO_INCREMENT counter: the id of the next insert. -/
  next : Nat
  sorted : rows.Pairwise (fun a b => a.1 < b.1)
  bounded : ∀ x ∈ rows, x.1 < next
  unique : (rows.map fun x => key x.2).Nodup

namespace Table

variable {R K : Type} {key : R → K}

theorem rows_nodup (t : Table R K key) : t.rows.Nodup :=
  t.sorted.imp fun h heq => absurd h (by rw [heq]; exact Nat.lt_irrefl _)

/-- The table without rows whose counter stands at `n`. -/
def empty (n : Nat) : Table R K key :=
  ⟨[], n, .nil, by simp, by simp⟩

/-- The unique key `k` is taken. -/
def Taken (t : Table R K key) (k : K) : Prop := k ∈ t.rows.map fun x => key x.2

instance [DecidableEq K] (t : Table R K key) (k : K) : Decidable (t.Taken k) :=
  inferInstanceAs (Decidable (k ∈ t.rows.map fun x => key x.2))

/-- Allot the next id to a statement whose row is not visible yet. -/
def allot (t : Table R K key) : Table R K key :=
  { t with next := t.next + 1, bounded := fun x hx => Nat.lt_succ_of_lt (t.bounded x hx) }

@[simp] theorem allot_rows (t : Table R K key) : t.allot.rows = t.rows := rfl

@[simp] theorem allot_next (t : Table R K key) : t.allot.next = t.next + 1 := rfl

theorem allot_taken (t : Table R K key) (k : K) : t.allot.Taken k ↔ t.Taken k := Iff.rfl

/-- Append a row under the next id. -/
def append (t : Table R K key) (r : R) (h : ¬ t.Taken (key r)) : Table R K key where
  rows := t.rows ++ [(t.next, r)]
  next := t.next + 1
  sorted := by
    rw [List.pairwise_append]
    refine ⟨t.sorted, List.pairwise_singleton _ _, fun a ha b hb => ?_⟩
    rw [List.mem_singleton] at hb
    subst hb
    exact t.bounded a ha
  bounded := by
    intro x hx
    rcases List.mem_append.mp hx with hx | hx
    · exact Nat.lt_succ_of_lt (t.bounded x hx)
    · rw [List.mem_singleton] at hx
      subst hx
      exact Nat.lt_succ_self _
  unique := by
    rw [List.map_append, List.nodup_append]
    refine ⟨t.unique, by simp, fun a ha b hb => ?_⟩
    simp only [List.map_cons, List.map_nil, List.mem_singleton] at hb
    subst hb
    rintro rfl
    exact h ha

@[simp] theorem append_rows (t : Table R K key) (r : R) (h : ¬ t.Taken (key r)) :
    (t.append r h).rows = t.rows ++ [(t.next, r)] := rfl

@[simp] theorem append_next (t : Table R K key) (r : R) (h : ¬ t.Taken (key r)) :
    (t.append r h).next = t.next + 1 := rfl

/-- One auto-committed INSERT: the id of the new row, or `none` when the unique
key is taken. The id is spent in both cases. -/
def insert [DecidableEq K] (t : Table R K key) (r : R) : Option Nat × Table R K key :=
  if h : t.Taken (key r) then (none, t.allot) else (some t.next, t.append r h)

section Insert

variable [DecidableEq K]

theorem insert_of_taken {t : Table R K key} {r : R} (h : t.Taken (key r)) :
    t.insert r = (none, t.allot) := by
  simp [insert, h]

theorem insert_of_free {t : Table R K key} {r : R} (h : ¬ t.Taken (key r)) :
    t.insert r = (some t.next, t.append r h) := by
  simp [insert, h]

end Insert

/-! ## Inserts that become visible later -/

/-- The rows with `x` put at its place in primary key order. -/
def insertRow (x : Nat × R) (rows : List (Nat × R)) : List (Nat × R) :=
  rows.filter (fun y => y.1 < x.1) ++ x :: rows.filter (fun y => x.1 < y.1)

theorem mem_insertRow {x y : Nat × R} {rows : List (Nat × R)} (h : ∀ z ∈ rows, z.1 ≠ x.1) :
    y ∈ insertRow x rows ↔ y = x ∨ y ∈ rows := by
  simp only [insertRow, List.mem_append, List.mem_filter, List.mem_cons, decide_eq_true_eq]
  constructor
  · rintro (⟨hy, _⟩ | rfl | ⟨hy, _⟩)
    · exact .inr hy
    · exact .inl rfl
    · exact .inr hy
  · rintro (rfl | hy)
    · exact .inr (.inl rfl)
    · rcases Nat.lt_or_gt_of_ne (h y hy) with hlt | hgt
      · exact .inl ⟨hy, hlt⟩
      · exact .inr (.inr ⟨hy, hgt⟩)

theorem insertRow_sorted {x : Nat × R} {rows : List (Nat × R)}
    (h : rows.Pairwise (fun a b => a.1 < b.1)) :
    (insertRow x rows).Pairwise (fun a b => a.1 < b.1) := by
  unfold insertRow
  rw [List.pairwise_append, List.pairwise_cons]
  refine ⟨h.filter _, ⟨fun b hb => ?_, h.filter _⟩, fun a ha b hb => ?_⟩
  · simpa using (List.mem_filter.mp hb).2
  · have hax : a.1 < x.1 := by simpa using (List.mem_filter.mp ha).2
    rcases List.mem_cons.mp hb with rfl | hb
    · exact hax
    · have hxb : x.1 < b.1 := by simpa using (List.mem_filter.mp hb).2
      exact Nat.lt_trans hax hxb

/-- A row that appears among others keeps their unique keys apart. -/
theorem insertRow_unique {x : Nat × R} {rows : List (Nat × R)}
    (hs : rows.Pairwise (fun a b => a.1 < b.1)) (hx : ∀ z ∈ rows, z.1 ≠ x.1)
    (hu : (rows.map fun z => key z.2).Nodup) (hk : key x.2 ∉ rows.map fun z => key z.2) :
    ((insertRow x rows).map fun z => key z.2).Nodup := by
  have hnd : ((x :: rows).map fun z => key z.2).Nodup := by
    rw [List.map_cons, List.nodup_cons]
    exact ⟨hk, hu⟩
  have hrows : rows.Nodup := hs.imp (fun {a b} hab => by rintro rfl; exact Nat.lt_irrefl _ hab)
  have hnx : (x :: rows).Nodup := by
    rw [List.nodup_cons]
    exact ⟨fun hmem => hx x hmem rfl, hrows⟩
  have hni : (insertRow x rows).Nodup :=
    (insertRow_sorted hs).imp (fun {a b} hab => by rintro rfl; exact Nat.lt_irrefl _ hab)
  have hperm : (insertRow x rows).Perm (x :: rows) := by
    rw [List.perm_ext_iff_of_nodup hni hnx]
    intro y
    rw [mem_insertRow hx, List.mem_cons]
  exact (hperm.map _).nodup_iff.mpr hnd

/-- Make visible the row `r` under the id `id` allotted to it before, or refuse
it because its unique key is taken by now. -/
def place [DecidableEq K] (t : Table R K key) (id : Nat) (r : R) : Option (Table R K key) :=
  if h : id < t.next ∧ (∀ x ∈ t.rows, x.1 ≠ id) ∧ ¬ t.Taken (key r) then
    some {
      rows := insertRow (id, r) t.rows
      next := t.next
      sorted := insertRow_sorted t.sorted
      bounded := by
        intro x hx
        rcases (mem_insertRow h.2.1).mp hx with rfl | hx
        · exact h.1
        · exact t.bounded x hx
      unique := insertRow_unique t.sorted h.2.1 t.unique h.2.2 }
  else none

section Place

variable [DecidableEq K]

/-- All that placing a row does. -/
theorem place_eq_some {t t' : Table R K key} {id : Nat} {r : R} (h : t.place id r = some t') :
    id < t.next ∧ (∀ x ∈ t.rows, x.1 ≠ id) ∧ ¬ t.Taken (key r) ∧ t'.next = t.next ∧
      ∀ x, x ∈ t'.rows ↔ x = (id, r) ∨ x ∈ t.rows := by
  unfold place at h
  split at h
  · next hc =>
    cases h
    exact ⟨hc.1, hc.2.1, hc.2.2, rfl, fun x => mem_insertRow hc.2.1⟩
  · cases h

/-- An INSERT whose row is visible at once is `allot` followed by `place`. -/
theorem insert_eq_place {t : Table R K key} {r : R} (h : ¬ t.Taken (key r)) :
    t.allot.place t.next r = some (t.insert r).2 := by
  have hfree : ∀ x ∈ t.allot.rows, x.1 ≠ t.next := fun x hx => Nat.ne_of_lt (t.bounded x hx)
  unfold place
  rw [dif_pos ⟨Nat.lt_succ_self _, hfree, h⟩, insert_of_free h, Option.some.injEq]
  have hlow : t.rows.filter (fun y => y.1 < t.next) = t.rows :=
    List.filter_eq_self.mpr fun y hy => by simpa using t.bounded y hy
  have hhigh : t.rows.filter (fun y => t.next < y.1) = [] :=
    List.filter_eq_nil_iff.mpr fun y hy => by simpa using Nat.le_of_lt (t.bounded y hy)
  ext1
  · simp [insertRow, hlow, hhigh]
  · rfl

end Place

/-! ## Other statements -/

/-- `DELETE … WHERE id = ?`. -/
def delete (t : Table R K key) (id : Nat) : Table R K key where
  rows := t.rows.filter fun x => x.1 ≠ id
  next := t.next
  sorted := t.sorted.filter _
  bounded := fun x hx => t.bounded x (List.mem_filter.mp hx).1
  unique := t.unique.sublist (List.filter_sublist.map _)

/-- `UPDATE … WHERE id = ?` of columns outside the unique key. -/
def update (t : Table R K key) (id : Nat) (f : R → R) (h : ∀ r, key (f r) = key r) :
    Table R K key where
  rows := t.rows.map fun x => if x.1 = id then (x.1, f x.2) else x
  next := t.next
  sorted := List.pairwise_map.mpr (t.sorted.imp fun {a b} hab => by split <;> split <;> exact hab)
  bounded := by
    intro x hx
    obtain ⟨y, hy, rfl⟩ := List.mem_map.mp hx
    split
    · exact t.bounded y hy
    · exact t.bounded y hy
  unique := by
    have hkeys : (t.rows.map fun x => if x.1 = id then (x.1, f x.2) else x).map (fun x => key x.2) =
        t.rows.map fun x => key x.2 := by
      rw [List.map_map]
      refine List.map_congr_left fun x _ => ?_
      rw [Function.comp_apply]
      split
      · exact h x.2
      · rfl
    rw [hkeys]
    exact t.unique

/-- An update keeps every row, its id and its unique key. -/
theorem mem_update {t : Table R K key} {id : Nat} {f : R → R} {h : ∀ r, key (f r) = key r}
    {x : Nat × R} (hx : x ∈ t.rows) :
    ∃ y ∈ (t.update id f h).rows, y.1 = x.1 ∧ (y.2 = x.2 ∨ y.2 = f x.2) := by
  refine ⟨_, List.mem_map.mpr ⟨x, hx, rfl⟩, ?_⟩
  split
  · exact ⟨rfl, .inr rfl⟩
  · exact ⟨rfl, .inl rfl⟩

/-! ## Statements with a condition -/

section Where

variable (p : Nat × R → Prop) [DecidablePred p] (f : R → R)

/-- The row behind an UPDATE of the rows with `p`. -/
def onRow (x : Nat × R) : Nat × R := if p x then (x.1, f x.2) else x

/-- `DELETE … WHERE p`. -/
def deleteWhere (t : Table R K key) : Table R K key where
  rows := t.rows.filter fun x => ¬ p x
  next := t.next
  sorted := t.sorted.filter _
  bounded := fun x hx => t.bounded x (List.mem_filter.mp hx).1
  unique := t.unique.sublist (List.filter_sublist.map _)

variable {p f}

theorem onRow_id (x : Nat × R) : (onRow p f x).1 = x.1 := by
  unfold onRow
  split
  · rfl
  · rfl

theorem onRow_of_not {x : Nat × R} (h : ¬ p x) : onRow p f x = x := if_neg h

theorem onRow_key (h : ∀ r, key (f r) = key r) (x : Nat × R) :
    key (onRow p f x).2 = key x.2 := by
  unfold onRow
  split
  · exact h x.2
  · rfl

/-- `UPDATE … WHERE p` of columns outside the unique key. -/
def updateWhere (t : Table R K key) (h : ∀ r, key (f r) = key r) : Table R K key where
  rows := t.rows.map (onRow p f)
  next := t.next
  sorted := by
    refine List.pairwise_map.mpr (t.sorted.imp fun {a b} hab => ?_)
    rwa [onRow_id, onRow_id]
  bounded := by
    intro x hx
    obtain ⟨y, hy, rfl⟩ := List.mem_map.mp hx
    rw [onRow_id]
    exact t.bounded y hy
  unique := by
    have hkeys : (t.rows.map (onRow p f)).map (fun x => key x.2) = t.rows.map fun x => key x.2 := by
      rw [List.map_map]
      exact List.map_congr_left fun x _ => onRow_key h x
    rw [hkeys]
    exact t.unique

/-- Updating the same rows to the same values once more changes nothing. -/
theorem map_onRow_again (hf : ∀ r, f (f r) = f r) (rows : List (Nat × R)) :
    (rows.map (onRow p f)).map (onRow p f) = rows.map (onRow p f) := by
  rw [List.map_map]
  refine List.map_congr_left fun x _ => ?_
  rw [Function.comp_apply]
  by_cases hp : p x
  · have hx : onRow p f x = (x.1, f x.2) := if_pos hp
    rw [hx]
    unfold onRow
    split
    · rw [hf]
    · rfl
  · rw [onRow_of_not hp, onRow_of_not hp]

/-- An update leaves the rows without `p` alone. -/
theorem filter_map_onRow (hp : ∀ x : Nat × R, p (x.1, f x.2) ↔ p x) (rows : List (Nat × R)) :
    (rows.map (onRow p f)).filter (fun x => ¬ p x) = rows.filter fun x => ¬ p x := by
  induction rows with
  | nil => rfl
  | cons x rows ih =>
    rw [List.map_cons, List.filter_cons, List.filter_cons, ih]
    by_cases hx : p x
    · have hrow : onRow p f x = (x.1, f x.2) := if_pos hx
      simp [hrow, hp x, hx]
    · rw [onRow_of_not hx]

theorem map_onRow_of_not {rows : List (Nat × R)} (h : ∀ x ∈ rows, ¬ p x) :
    rows.map (onRow p f) = rows :=
  (List.map_congr_left fun x hx => onRow_of_not (h x hx)).trans (List.map_id' rows)

end Where

/-! ## Inserting or updating -/

section Upsert

theorem not_key_of_free {t : Table R K key} {r : R} (hfree : ¬ t.Taken (key r)) :
    ∀ x ∈ t.rows, ¬ key x.2 = key r :=
  fun x hx hkey => hfree (List.mem_map.mpr ⟨x, hx, hkey⟩)

variable [DecidableEq K]

/-- `INSERT … ON DUPLICATE KEY UPDATE`: the row under the key is updated by `f`, or the row
`r` is added. The id is spent in both cases. -/
def upsert (t : Table R K key) (r : R) (f : R → R) (h : ∀ r, key (f r) = key r) : Table R K key :=
  if hfree : t.Taken (key r) then
    t.allot.updateWhere (p := fun x => key x.2 = key r) h
  else t.append r hfree

variable {t t' : Table R K key} {r : R} {f : R → R} {h : ∀ r, key (f r) = key r}

theorem upsert_rows_of_taken (htaken : t.Taken (key r)) :
    (t.upsert r f h).rows = t.rows.map (onRow (fun x => key x.2 = key r) f) := by
  unfold upsert
  rw [dif_pos htaken]
  rfl

theorem upsert_rows_of_free (hfree : ¬ t.Taken (key r)) :
    (t.upsert r f h).rows = t.rows ++ [(t.next, r)] := by
  unfold upsert
  rw [dif_neg hfree]
  rfl

/-- The row is there, in the one form or the other. -/
theorem exists_mem_upsert (t : Table R K key) (r : R) (f : R → R)
    (h : ∀ r, key (f r) = key r) : ∃ x ∈ (t.upsert r f h).rows,
      key x.2 = key r ∧ (x.2 = r ∨ ∃ r', x.2 = f r') := by
  by_cases htaken : t.Taken (key r)
  · obtain ⟨x, hx, hkey⟩ := List.mem_map.mp htaken
    have hrow : onRow (fun x => key x.2 = key r) f x = (x.1, f x.2) := if_pos hkey
    rw [upsert_rows_of_taken htaken]
    exact ⟨(x.1, f x.2), hrow ▸ List.mem_map_of_mem hx, (h x.2).trans hkey, .inr ⟨x.2, rfl⟩⟩
  · rw [upsert_rows_of_free htaken]
    exact ⟨(t.next, r), by simp, rfl, .inl rfl⟩

/-- Doing it once more changes no row. -/
theorem upsert_again (hf : ∀ r, f (f r) = f r) (hr : f r = r)
    (hrows : t'.rows = (t.upsert r f h).rows) : (t'.upsert r f h).rows = t'.rows := by
  have htaken : t'.Taken (key r) := by
    obtain ⟨x, hx, hkey, _⟩ := exists_mem_upsert t r f h
    exact List.mem_map.mpr ⟨x, hrows ▸ hx, hkey⟩
  rw [upsert_rows_of_taken htaken, hrows]
  by_cases hbefore : t.Taken (key r)
  · rw [upsert_rows_of_taken hbefore, map_onRow_again hf]
  · have hnew : onRow (fun x => key x.2 = key r) f (t.next, r) = (t.next, r) := by
      unfold onRow
      rw [if_pos rfl, hr]
    rw [upsert_rows_of_free hbefore, List.map_append, map_onRow_of_not (not_key_of_free hbefore),
      List.map_singleton, hnew]

/-- Every row stays, as it is or updated. -/
theorem onRow_mem_upsert {x : Nat × R} (hx : x ∈ t.rows) :
    ∃ y ∈ (t.upsert r f h).rows, y = x ∨ y = (x.1, f x.2) := by
  by_cases htaken : t.Taken (key r)
  · rw [upsert_rows_of_taken htaken]
    refine ⟨_, List.mem_map_of_mem hx, ?_⟩
    unfold onRow
    split
    · exact .inr rfl
    · exact .inl rfl
  · rw [upsert_rows_of_free htaken]
    exact ⟨x, List.mem_append_left _ hx, .inl rfl⟩

/-- And every row was there, in this form or before the update, or has been added. -/
theorem of_mem_upsert {x : Nat × R} (hx : x ∈ (t.upsert r f h).rows) :
    x.2 = r ∨ ∃ y ∈ t.rows, x.2 = y.2 ∨ x.2 = f y.2 := by
  by_cases htaken : t.Taken (key r)
  · rw [upsert_rows_of_taken htaken] at hx
    obtain ⟨y, hy, rfl⟩ := List.mem_map.mp hx
    refine .inr ⟨y, hy, ?_⟩
    unfold onRow
    split
    · exact .inr rfl
    · exact .inl rfl
  · rw [upsert_rows_of_free htaken] at hx
    rcases List.mem_append.mp hx with hx | hx
    · exact .inr ⟨x, hx, .inl rfl⟩
    · rw [List.mem_singleton.mp hx]
      exact .inl rfl

/-- The rows under other keys stay. -/
theorem upsert_others (t : Table R K key) (r : R) (f : R → R) (h : ∀ r, key (f r) = key r) :
    (t.upsert r f h).rows.filter (fun x => ¬ key x.2 = key r) =
      t.rows.filter fun x => ¬ key x.2 = key r := by
  by_cases htaken : t.Taken (key r)
  · rw [upsert_rows_of_taken htaken]
    refine filter_map_onRow (fun x => ?_) t.rows
    rw [h]
  · rw [upsert_rows_of_free htaken, List.filter_append]
    simp

end Upsert

/-- What is searched for and there only once is found. -/
theorem find?_eq_some_of_unique {α : Type} {p : α → Bool} {l : List α} {x : α} (hx : x ∈ l)
    (hp : p x = true) (hunique : ∀ y ∈ l, p y = true → y = x) : l.find? p = some x := by
  obtain ⟨y, hy⟩ := Option.isSome_iff_exists.mp (List.find?_isSome.mpr ⟨x, hx, hp⟩)
  rw [hy, hunique y (List.mem_of_find?_eq_some hy) (List.find?_some hy)]

/-! ## Selections -/

/-- `SELECT … WHERE p AND id > last ORDER BY id ASC LIMIT limit`. -/
def select (t : Table R K key) (p : R → Bool) (last limit : Nat) : List (Nat × R) :=
  (t.rows.filter fun x => p x.2 && last < x.1).take limit

theorem mem_select {t : Table R K key} {p : R → Bool} {last limit : Nat} {x : Nat × R}
    (h : x ∈ t.select p last limit) : x ∈ t.rows ∧ p x.2 = true ∧ last < x.1 := by
  have hf := List.mem_of_mem_take h
  simpa using hf

/-- A limit that covers all rows with `p` cuts nothing off. -/
theorem mem_select_iff {t : Table R K key} {p : R → Bool} {last limit : Nat} {x : Nat × R}
    (h : (t.rows.filter fun x => p x.2).length ≤ limit) :
    x ∈ t.select p last limit ↔ x ∈ t.rows ∧ p x.2 = true ∧ last < x.1 := by
  refine ⟨mem_select, fun ⟨hx, hp, hlast⟩ => ?_⟩
  have hle : (t.rows.filter fun x => p x.2 && last < x.1).length ≤ limit := by
    refine Nat.le_trans (List.Sublist.length_le ?_) h
    exact List.monotone_filter_right _ fun y hy => (Bool.and_eq_true _ _ ▸ hy).1
  rw [select, List.take_of_length_le hle]
  simp [hx, hp, hlast]

/-- A selection stops at its last row and misses nothing before it. -/
theorem mem_select_of_le {t : Table R K key} {p : R → Bool} {last limit : Nat}
    {x y : Nat × R} (hy : y ∈ t.select p last limit) (hx : x ∈ t.rows) (hp : p x.2 = true)
    (hlast : last < x.1) (hle : x.1 ≤ y.1) : x ∈ t.select p last limit := by
  have hxf : x ∈ t.rows.filter fun x => p x.2 && last < x.1 := by
    simp [hx, hp, hlast]
  have hsort := t.sorted.filter fun x => p x.2 && last < x.1
  unfold select at hy ⊢
  generalize t.rows.filter (fun x => p x.2 && last < x.1) = l at hy hxf hsort ⊢
  rw [← List.take_append_drop limit l, List.mem_append] at hxf
  rcases hxf with hxf | hxf
  · exact hxf
  · rw [← List.take_append_drop limit l, List.pairwise_append] at hsort
    exact absurd (hsort.2.2 y hy x hxf) (Nat.not_lt.mpr hle)

/-- The rows with `p` behind the id `last`, in primary key order. -/
def behind (t : Table R K key) (p : R → Bool) (last : Nat) : List (Nat × R) :=
  t.rows.filter fun x => p x.2 && last < x.1

theorem select_eq_take (t : Table R K key) (p : R → Bool) (last limit : Nat) :
    t.select p last limit = (t.behind p last).take limit := rfl

/-- Behind the last row of a selection stand the rows that its limit cut off. -/
theorem behind_last {t : Table R K key} {p : R → Bool} {last limit : Nat} {x : Nat × R}
    (h : (t.select p last limit).getLast? = some x) :
    t.behind p x.1 = (t.behind p last).drop limit := by
  have hlast : last < x.1 := (mem_select (List.mem_of_getLast? h)).2.2
  have hfilter : t.behind p x.1 = (t.behind p last).filter fun y => x.1 < y.1 := by
    rw [behind, behind, List.filter_filter]
    refine List.filter_congr fun y _ => ?_
    rw [Bool.eq_iff_iff]
    simp only [Bool.and_eq_true, decide_eq_true_eq]
    constructor
    · rintro ⟨hp, hxy⟩
      exact ⟨hxy, hp, Nat.lt_trans hlast hxy⟩
    · rintro ⟨hxy, hp, _⟩
      exact ⟨hp, hxy⟩
  have hsorted : (t.behind p last).Pairwise fun a b => a.1 < b.1 := t.sorted.filter _
  rw [select_eq_take] at h
  rw [hfilter]
  generalize t.behind p last = l at h hsorted ⊢
  obtain ⟨front, hfront⟩ := List.getLast?_eq_some_iff.mp h
  have hsplit : l = front ++ x :: l.drop limit := by
    rw [← List.singleton_append, ← List.append_assoc, ← hfront, List.take_append_drop]
  rw [hsplit, List.pairwise_append, List.pairwise_cons] at hsorted
  obtain ⟨_, ⟨hbehind, _⟩, hbefore⟩ := hsorted
  rw [hsplit, List.filter_append, List.filter_cons_of_neg (by simp),
    List.filter_eq_nil_iff.mpr fun y hy => ?_, List.nil_append, List.filter_eq_self.mpr fun y hy => ?_,
    ← hsplit]
  · simpa using hbehind y hy
  · simpa using Nat.le_of_lt (hbefore y hy x List.mem_cons_self)

end Table

end IMSystem.Lib

import IMSystem.Lib.Run
import IMSystem.Message.Store

/-!
# Incremental synchronisation of one receiver

A receiver pulls the rows above its cursor and then moves the cursor to the last
row it was given. Meanwhile inserts run on other connections: each is allotted
its AUTO_INCREMENT id when it starts and becomes visible when it commits, so a
row can appear below a cursor that has already passed it.

Results:
1. `begin_commit_index`: an insert that commits at once is the insert of the DAO.
2. `pull_delivers`: a pull is a call of `FetchOfflineMsgIds`.
3. `noSkip_iff`: no row is skipped exactly in the runs in which every row of the
   receiver commits before the cursor reaches it.
-/

namespace IMSystem.Message

open Lib

namespace Sync

/-- The table, the inserts that have their ids but are not committed, and the
client: its cursor and the rows returned to it. -/
structure State where
  index : IndexTable
  inFlight : List (Nat × IndexRow)
  cursor : UInt64
  returned : List (Nat × IndexRow)

/-- A table as it is set up, and a client that has nothing yet. -/
def State.start : State := ⟨IndexTable.initial, [], 0, []⟩

inductive Action where
  /-- An attempt of `MsgIndexDao::Insert` starts and is allotted its id. -/
  | begin (index : MsgIndex) (nowMs : Int64)
  /-- An insert in flight commits. -/
  | commit (x : Nat × IndexRow)
  /-- An insert in flight is rolled back. -/
  | abort (x : Nat × IndexRow)
  /-- The client pulls with a cursor string and a limit. -/
  | pull (lastSeqId : Bytes) (limit : Int32)

/-- The cursor behind the last of the rows returned. -/
def advance (cursor : UInt64) (found : List (Nat × IndexRow)) : UInt64 :=
  match found.getLast? with
  | some x => UInt64.ofNat x.1
  | none => cursor

/-- One step of the inserts and of the client `u`. -/
def step (u : UInt64) (s : State) : Action → Option State
  | .begin index nowMs =>
    -- `id` is a BIGINT UNSIGNED; an exhausted counter refuses the insert
    if s.index.next < 2 ^ 64 then
      some { s with
        index := s.index.allot
        inFlight := s.inFlight ++ [(s.index.next, MsgIndexDao.rowOf index nowMs)] }
    else none
  | .commit x =>
    if x ∈ s.inFlight then
      match s.index.place x.1 x.2 with
      | some t => some { s with index := t, inFlight := s.inFlight.erase x }
      -- the unique key was taken first
      | none => some { s with inFlight := s.inFlight.erase x }
    else none
  | .abort x =>
    if x ∈ s.inFlight then some { s with inFlight := s.inFlight.erase x } else none
  | .pull lastSeqId limit =>
    if MsgIndexDao.lastId lastSeqId = .ok s.cursor ∧ ¬ limit < 0 then
      let found := MsgIndexDao.offlineRows s.index u s.cursor limit
      some { s with cursor := advance s.cursor found, returned := s.returned ++ found }
    else none

/-- No row of `u` that is committed and not above the cursor is missing at the
client. -/
def NoSkip (u : UInt64) (s : State) : Prop :=
  ∀ x ∈ s.index.rows, x.2.receiverId = u → x.1 ≤ s.cursor.toNat → x ∈ s.returned

instance (u : UInt64) : DecidablePred (NoSkip u) := fun s =>
  inferInstanceAs (Decidable (∀ x ∈ s.index.rows, _))

/-- A commit that makes a row of `u` visible comes before the cursor reaches
the id of the row. -/
def InTime (u : UInt64) (s : State) : Action → Prop
  | .commit x => x.2.receiverId = u → ¬ s.index.Taken x.2.idxReceiverSeq → s.cursor.toNat < x.1
  | _ => True

/-! ## The steps and the DAO -/

theorem step_begin (u : UInt64) {s : State} (index : MsgIndex) (nowMs : Int64)
    (h : s.index.next < 2 ^ 64) :
    step u s (.begin index nowMs) = some { s with
      index := s.index.allot
      inFlight := s.inFlight ++ [(s.index.next, MsgIndexDao.rowOf index nowMs)] } :=
  if_pos h

/-- A commit places the row, or gives the insert up when its key is taken. -/
theorem step_commit (u : UInt64) {s : State} {x : Nat × IndexRow} (h : x ∈ s.inFlight) :
    step u s (.commit x) = some { s with
      index := (s.index.place x.1 x.2).getD s.index
      inFlight := s.inFlight.erase x } := by
  simp only [step, if_pos h]
  cases s.index.place x.1 x.2 with
  | some t => rfl
  | none => rfl

/-- An insert that commits at once does to the table what the INSERT of the DAO
does. -/
theorem begin_commit_index (u : UInt64) {s : State} (index : MsgIndex) (nowMs : Int64)
    (h : s.index.next < 2 ^ 64) :
    ∃ s', run (step u) s [.begin index nowMs,
        .commit (s.index.next, MsgIndexDao.rowOf index nowMs)] = some s' ∧
      s'.index = (s.index.insert (MsgIndexDao.rowOf index nowMs)).2 := by
  rw [run_cons (step_begin u index nowMs h), run_cons (step_commit u (by simp))]
  refine ⟨_, rfl, ?_⟩
  show (s.index.allot.place s.index.next (MsgIndexDao.rowOf index nowMs)).getD s.index.allot = _
  by_cases htaken : s.index.Taken (MsgIndexDao.rowOf index nowMs).idxReceiverSeq
  · have hplace : s.index.allot.place s.index.next (MsgIndexDao.rowOf index nowMs) = none := by
      simp [Table.place, Table.allot_taken, htaken]
    rw [hplace, Table.insert_of_taken htaken]
    rfl
  · rw [Table.insert_eq_place htaken]
    rfl

/-- A pull returns the ids that `FetchOfflineMsgIds` returns. -/
theorem pull_delivers {u : UInt64} {s s' : State} {lastSeqId : Bytes} {limit : Int32}
    (h : step u s (.pull lastSeqId limit) = some s') :
    ∃ found, s'.returned = s.returned ++ found ∧
      (found.map fun x => x.2.msgId) =
        MsgIndexDao.fetchOfflineMsgIds (fun _ => .clean) s.index u lastSeqId limit := by
  simp only [step] at h
  split at h
  · next hc =>
    cases h
    exact ⟨_, rfl, (MsgIndexDao.fetchOfflineMsgIds_clean hc.1 hc.2).symm⟩
  · cases h

/-! ## What holds in every run -/

/-- In-flight ids are allotted, distinct and not yet visible; ids fit the
column; what was returned is committed. -/
structure Inv (s : State) : Prop where
  bounded : s.index.next ≤ 2 ^ 64
  allotted : ∀ x ∈ s.inFlight, x.1 < s.index.next
  invisible : ∀ x ∈ s.inFlight, ∀ y ∈ s.index.rows, y.1 ≠ x.1
  distinct : (s.inFlight.map (·.1)).Nodup
  committed : ∀ x ∈ s.returned, x ∈ s.index.rows

theorem inv_start : Inv .start where
  bounded := by decide
  allotted := by simp [State.start]
  invisible := by simp [State.start]
  distinct := by simp [State.start]
  committed := by simp [State.start]

/-- An insert that leaves the set of those in flight keeps the invariant. -/
theorem Inv.erase {s : State} (h : Inv s) (x : Nat × IndexRow) :
    Inv { s with inFlight := s.inFlight.erase x } where
  bounded := h.bounded
  allotted := fun y hy => h.allotted y (List.mem_of_mem_erase hy)
  invisible := fun y hy => h.invisible y (List.mem_of_mem_erase hy)
  distinct := h.distinct.sublist ((List.erase_sublist).map _)
  committed := h.committed

/-- Two different inserts in flight have different ids. -/
theorem Inv.id_ne {s : State} (h : Inv s) {x y : Nat × IndexRow} (hx : x ∈ s.inFlight)
    (hy : y ∈ s.inFlight.erase x) : x.1 ≠ y.1 := by
  have hperm := (List.perm_cons_erase hx).map (·.1)
  have hnodup := hperm.nodup_iff.mp h.distinct
  rw [List.map_cons, List.nodup_cons] at hnodup
  intro heq
  exact hnodup.1 (List.mem_map.mpr ⟨y, hy, heq.symm⟩)

/-- A further insert is allotted its id. -/
theorem Inv.begin {s : State} (h : Inv s) (hlt : s.index.next < 2 ^ 64) (row : IndexRow) :
    Inv { s with index := s.index.allot, inFlight := s.inFlight ++ [(s.index.next, row)] } where
  bounded := hlt
  allotted := by
    intro x hx
    rcases List.mem_append.mp hx with hx | hx
    · exact Nat.lt_succ_of_lt (h.allotted x hx)
    · obtain rfl := List.mem_singleton.mp hx
      exact Nat.lt_succ_self _
  invisible := by
    intro x hx y hy
    rcases List.mem_append.mp hx with hx | hx
    · exact h.invisible x hx y hy
    · obtain rfl := List.mem_singleton.mp hx
      exact Nat.ne_of_lt (s.index.bounded y hy)
  distinct := by
    rw [List.map_append, List.nodup_append]
    refine ⟨h.distinct, by simp, ?_⟩
    intro i hi j hj
    obtain ⟨x, hx, rfl⟩ := List.mem_map.mp hi
    obtain rfl : j = s.index.next := by simpa using hj
    exact Nat.ne_of_lt (h.allotted x hx)
  committed := h.committed

/-- An insert in flight becomes visible. -/
theorem Inv.commit {s : State} (h : Inv s) {x : Nat × IndexRow} (hx : x ∈ s.inFlight)
    {t : IndexTable} (hplace : s.index.place x.1 x.2 = some t) :
    Inv { s with index := t, inFlight := s.inFlight.erase x } := by
  obtain ⟨_, _, _, hnext, hrows⟩ := Table.place_eq_some hplace
  have herase := h.erase x
  refine ⟨by rw [hnext]; exact h.bounded, ?_, ?_, herase.distinct, ?_⟩
  · intro y hy
    rw [hnext]
    exact herase.allotted y hy
  · intro y hy z hz
    rcases (hrows z).mp hz with rfl | hz
    · exact h.id_ne hx hy
    · exact herase.invisible y hy z hz
  · intro y hy
    exact (hrows y).mpr (.inr (h.committed y hy))

theorem Inv.step {u : UInt64} {s s' : State} {a : Action} (h : Inv s)
    (hstep : step u s a = some s') : Inv s' := by
  cases a with
  | begin index nowMs =>
    simp only [Sync.step] at hstep
    split at hstep
    · next hlt =>
      cases hstep
      exact h.begin hlt _
    · cases hstep
  | commit x =>
    simp only [Sync.step] at hstep
    split at hstep
    · next hx =>
      split at hstep
      · next t hplace =>
        cases hstep
        exact h.commit hx hplace
      · cases hstep
        exact h.erase x
    · cases hstep
  | abort x =>
    simp only [Sync.step] at hstep
    split at hstep
    · cases hstep
      exact h.erase x
    · cases hstep
  | pull lastSeqId limit =>
    simp only [Sync.step] at hstep
    split at hstep
    · cases hstep
      refine ⟨h.bounded, h.allotted, h.invisible, h.distinct, ?_⟩
      intro x hx
      rcases List.mem_append.mp hx with hx | hx
      · exact h.committed x hx
      · exact (Table.mem_select hx).1
    · cases hstep

/-! ## When a row is skipped -/

/-- A pull skips nothing: a row that the cursor passes is among those found. -/
theorem noSkip_pull {u : UInt64} {s : State} (h : Inv s) (hno : NoSkip u s) (limit : Int32) :
    let found := MsgIndexDao.offlineRows s.index u s.cursor limit
    NoSkip u { s with cursor := advance s.cursor found, returned := s.returned ++ found } := by
  intro found x hx hu hle
  rcases Nat.lt_or_ge s.cursor.toNat x.1 with hlt | hge
  · refine List.mem_append.mpr (.inr ?_)
    cases hlast : found.getLast? with
    | none =>
      have hstay : advance s.cursor found = s.cursor := by simp [advance, hlast]
      simp only [hstay] at hle
      omega
    | some y =>
      have hy : y ∈ found := List.mem_of_getLast? hlast
      have hmove : advance s.cursor found = UInt64.ofNat y.1 := by simp [advance, hlast]
      have hfit : y.1 < 2 ^ 64 :=
        Nat.lt_of_lt_of_le (s.index.bounded y (Table.mem_select hy).1) h.bounded
      have hid : (UInt64.ofNat y.1).toNat = y.1 := by
        rw [UInt64.toNat_ofNat', Nat.mod_eq_of_lt hfit]
      simp only [hmove, hid] at hle
      exact Table.mem_select_of_le hy hx (by simpa using hu) hlt hle
  · exact List.mem_append.mpr (.inl (hno x hx hu hge))

/-- A step keeps `NoSkip` exactly when it is in time. -/
theorem noSkip_step {u : UInt64} {s s' : State} {a : Action} (h : Inv s) (hno : NoSkip u s)
    (hstep : step u s a = some s') : NoSkip u s' ↔ InTime u s a := by
  cases a with
  | begin index nowMs =>
    simp only [step] at hstep
    split at hstep
    · cases hstep
      exact ⟨fun _ => trivial, fun _ => hno⟩
    · cases hstep
  | commit x =>
    simp only [step] at hstep
    split at hstep
    · next hx =>
      split at hstep
      · next t hplace =>
        cases hstep
        obtain ⟨_, _, hfree, _, hrows⟩ := Table.place_eq_some hplace
        constructor
        · intro hno' hu _
          by_contra hle
          -- the row was not visible before, so it cannot have been returned
          have hreturned := hno' x ((hrows x).mpr (.inl rfl)) hu (Nat.not_lt.mp hle)
          exact h.invisible x hx x (h.committed x hreturned) rfl
        · intro htime y hy hu hle
          rcases (hrows y).mp hy with rfl | hy
          · exact absurd (htime hu hfree) (Nat.not_lt.mpr hle)
          · exact hno y hy hu hle
      · next hplace =>
        cases hstep
        refine ⟨fun _ _ hfree => ?_, fun _ => hno⟩
        -- the id is free, so only the unique key can have refused the row
        have hid : ∀ y ∈ s.index.rows, y.1 ≠ x.1 := h.invisible x hx
        rw [Table.place, dif_pos ⟨h.allotted x hx, hid, hfree⟩] at hplace
        cases hplace
    · cases hstep
  | abort x =>
    simp only [step] at hstep
    split at hstep
    · cases hstep
      exact ⟨fun _ => trivial, fun _ => hno⟩
    · cases hstep
  | pull lastSeqId limit =>
    simp only [step] at hstep
    split at hstep
    · cases hstep
      exact ⟨fun _ => trivial, fun _ => noSkip_pull h hno limit⟩
    · cases hstep

/-- The runs in which the receiver `u` never misses a committed row at or below
its cursor are those in which every row of `u` commits before the cursor
reaches its id. -/
theorem noSkip_iff (u : UInt64) (actions : List Action) :
    HoldsAlong (step u) (NoSkip u) .start actions ↔
      StepsMeet (step u) (InTime u) .start actions := by
  have hinv : ∀ s a s', Inv s → step u s a = some s' → Inv s' := fun _ _ _ h hstep => h.step hstep
  have hstart : NoSkip u .start := fun x hx => by cases hx
  exact holdsAlong_iff hinv (fun _ _ _ h hno hstep => noSkip_step h hno hstep) inv_start hstart

/-- A row of user 2 with a sequence number of its own. -/
def rowForTwo (seqId msgId : String) : MsgIndex where
  msgId := str msgId
  senderId := 1
  receiverId := 2
  sessionType := 1
  seqId := str seqId

/-- Two inserts start; the second commits first and is pulled before the first
commits. -/
def overtaken : List Action :=
  [.begin (rowForTwo "a" "m1") 0, .begin (rowForTwo "b" "m2") 0,
    .commit (2, MsgIndexDao.rowOf (rowForTwo "b" "m2") 0), .pull [] 10,
    .commit (1, MsgIndexDao.rowOf (rowForTwo "a" "m1") 0)]

/-- The first message is skipped for good: its row is committed, lies below the
cursor and was not returned. -/
theorem overtaken_skips : ¬ HoldsAlong (step 2) (NoSkip 2) .start overtaken := by
  intro h
  have hlast : ∀ s', run (step 2) .start overtaken = some s' → ¬ NoSkip 2 s' := by
    decide +kernel
  have hsome : (run (step 2) .start overtaken).isSome = true := by decide +kernel
  obtain ⟨s', hrun⟩ := Option.isSome_iff_exists.mp hsome
  exact hlast s' hrun (holdsAlong_last h hrun)

end Sync

end IMSystem.Message

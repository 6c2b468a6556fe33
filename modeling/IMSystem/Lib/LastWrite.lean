import Mathlib.Data.List.Nodup
import Mathlib.Data.List.Perm.Subperm
import Mathlib.Logic.Function.Basic

/-!
# Maps built by a series of writes

A map from keys to values, filled by one assignment after the other. A later
write to a key replaces the earlier one.

Results:
1. `writeAll_eq_some_iff`: when no key is written twice, the map holds the writes
   and nothing else.
2. `writeAll_eq_some_iff_last`: in any case, it holds the last write to each key.
3. `keys_perm_of_writeAll`: a map that holds exactly the entries of a table without
   repeated keys was written with the keys of the table, as often as they occur there.
-/

namespace IMSystem.Lib

variable {K V : Type} [DecidableEq K]

/-- `map[key] = value`. -/
def write (m : K → Option V) (w : K × V) : K → Option V :=
  Function.update m w.1 (some w.2)

/-- The map after the writes `ws`. -/
def writeAll (m : K → Option V) (ws : List (K × V)) : K → Option V := ws.foldl write m

theorem write_self (m : K → Option V) (k : K) (v : V) : write m (k, v) k = some v :=
  Function.update_self k _ m

@[simp] theorem writeAll_cons (m : K → Option V) (w : K × V) (ws : List (K × V)) :
    writeAll m (w :: ws) = writeAll (write m w) ws := rfl

theorem writeAll_append (m : K → Option V) (ws ws' : List (K × V)) :
    writeAll m (ws ++ ws') = writeAll (writeAll m ws) ws' :=
  List.foldl_append

/-- A key that is not written keeps its value. -/
theorem writeAll_of_not_mem {ws : List (K × V)} {k : K} (m : K → Option V)
    (h : k ∉ ws.map Prod.fst) : writeAll m ws k = m k := by
  induction ws generalizing m with
  | nil => rfl
  | cons w ws ih =>
    rw [List.map_cons, List.mem_cons, not_or] at h
    rw [writeAll_cons, ih _ h.2]
    exact Function.update_of_ne h.1 _ _

/-- What the map holds was there before or was written. -/
theorem mem_of_writeAll {m : K → Option V} {ws : List (K × V)} {k : K} {v : V}
    (h : writeAll m ws k = some v) : m k = some v ∨ (k, v) ∈ ws := by
  induction ws generalizing m with
  | nil => exact .inl h
  | cons w ws ih =>
    rcases ih h with hw | hmem
    · by_cases hk : k = w.1
      · subst hk
        have hv : w.2 = v := by simpa [write] using hw
        exact .inr (List.mem_cons.mpr (.inl (by rw [← hv])))
      · left
        simpa [write, Function.update_of_ne hk] using hw
    · exact .inr (List.mem_cons_of_mem _ hmem)

/-- When no key is written twice, every write stays. -/
theorem writeAll_of_mem {m : K → Option V} {ws : List (K × V)} {k : K} {v : V}
    (hnd : (ws.map Prod.fst).Nodup) (h : (k, v) ∈ ws) : writeAll m ws k = some v := by
  induction ws generalizing m with
  | nil => exact absurd h List.not_mem_nil
  | cons w ws ih =>
    rw [List.map_cons, List.nodup_cons] at hnd
    rcases List.mem_cons.mp h with rfl | hmem
    · rw [writeAll_cons, writeAll_of_not_mem _ hnd.1]
      simp [write]
    · exact ih hnd.2 hmem

/-- When no key is written twice, the map holds the writes and nothing else. -/
theorem writeAll_eq_some_iff {ws : List (K × V)} {k : K} {v : V}
    (hnd : (ws.map Prod.fst).Nodup) :
    writeAll (fun _ => none) ws k = some v ↔ (k, v) ∈ ws := by
  constructor
  · intro h
    rcases mem_of_writeAll h with hnone | hmem
    · exact absurd hnone nofun
    · exact hmem
  · exact writeAll_of_mem hnd

/-- What the map holds behind a write is that write or a later one. -/
theorem writeAll_behind {m : K → Option V} {before after : List (K × V)} {k : K} {v v' : V}
    (h : writeAll m (before ++ (k, v) :: after) k = some v') : v' = v ∨ (k, v') ∈ after := by
  rw [writeAll_append, writeAll_cons] at h
  refine (mem_of_writeAll h).imp_left fun hself => ?_
  rw [write_self] at hself
  exact (Option.some.inj hself).symm

/-- What the map holds was there before and is not written, or is the last write. -/
theorem last_of_writeAll {m : K → Option V} {ws : List (K × V)} {k : K} {v : V}
    (h : writeAll m ws k = some v) :
    (m k = some v ∧ k ∉ ws.map Prod.fst) ∨
      ∃ before after, ws = before ++ (k, v) :: after ∧ k ∉ after.map Prod.fst := by
  induction ws generalizing m with
  | nil => exact .inl ⟨h, List.not_mem_nil⟩
  | cons w ws ih =>
    rcases ih h with ⟨hw, hnot⟩ | ⟨before, after, rfl, hafter⟩
    · by_cases hk : k = w.1
      · subst hk
        obtain rfl : w.2 = v := Option.some.inj ((write_self m w.1 w.2).symm.trans hw)
        exact .inr ⟨[], ws, rfl, hnot⟩
      · refine .inl ⟨(Function.update_of_ne hk _ _).symm.trans hw, ?_⟩
        rw [List.map_cons, List.mem_cons, not_or]
        exact ⟨hk, hnot⟩
    · exact .inr ⟨w :: before, after, rfl, hafter⟩

/-- The map holds the last write to each key. -/
theorem writeAll_eq_some_iff_last {ws : List (K × V)} {k : K} {v : V} :
    writeAll (fun _ => none) ws k = some v ↔
      ∃ before after, ws = before ++ (k, v) :: after ∧ k ∉ after.map Prod.fst := by
  constructor
  · intro h
    exact (last_of_writeAll h).resolve_left fun hnone => absurd hnone.1 nofun
  · rintro ⟨before, after, rfl, hafter⟩
    rw [writeAll_append, writeAll_cons, writeAll_of_not_mem _ hafter, write_self]

/-- A map that holds exactly the entries of a table without repeated keys, after
as many writes as the table has entries, was written with the keys of the table. -/
theorem keys_perm_of_writeAll {ws fs : List (K × V)} (hnd : (fs.map Prod.fst).Nodup)
    (hlen : ws.length = fs.length)
    (h : ∀ k v, writeAll (fun _ => none) ws k = some v ↔ (k, v) ∈ fs) :
    (fs.map Prod.fst).Perm (ws.map Prod.fst) := by
  have hsub : fs.map Prod.fst ⊆ ws.map Prod.fst := by
    intro k hk
    obtain ⟨⟨k', v⟩, hmem, rfl⟩ := List.mem_map.mp hk
    rcases mem_of_writeAll ((h k' v).mpr hmem) with hnone | hw
    · exact absurd hnone nofun
    · exact List.mem_map.mpr ⟨_, hw, rfl⟩
  refine (hnd.subperm hsub).perm_of_length_le ?_
  exact Nat.le_of_eq (by rw [List.length_map, List.length_map, hlen])

end IMSystem.Lib

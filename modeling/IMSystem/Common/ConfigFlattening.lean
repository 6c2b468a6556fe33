import IMSystem.Common.ConfigTree
import Mathlib.Algebra.Order.BigOperators.Group.List
import Mathlib.Tactic.Ring

/-!
# Flattening a configuration tree (`common/src/config/config_manager.cpp`)

Indentation closes a section only when a line is indented less than the key of
the section. An entry behind a section, in the same map, is therefore filed
beneath that section.

Results:
1. `filed_eq_flatten`: when sections come last, every scalar is filed where it belongs.
2. `Entries.weight_filed`: otherwise the filed paths are too long, by one key for
   each section that stands in front of a scalar.
3. `flattens_iff`: `Load` flattens a tree exactly when no section is followed, in
   its map, by an entry that holds a scalar.
-/

namespace IMSystem.ConfigTree

open Lib ConfigManager LoadState

/-- No section, be it a list or a map, is followed in its own map by an entry that
holds a scalar. -/
def SectionsLast : Entries → Prop
  | .nil => True
  | .scalar _ _ rest => SectionsLast rest
  | .list _ _ rest => rest.scalars = 0
  | .map _ children rest => SectionsLast children ∧ rest.scalars = 0

/-! ## The filings of a tree -/

theorem fileItems_eq (p : List Bytes) (counters : Bytes → Option Nat) (vs : List Scalar) :
    fileItems p counters vs = vs.mapIdx fun i v =>
      (p ++ [toDecimal (nextIndex counters (joinKeys p) + i)], v.text) := by
  induction vs generalizing counters with
  | nil => rfl
  | cons v vs ih =>
    have hnext : nextIndex (countItem counters (joinKeys p)) (joinKeys p) =
        nextIndex counters (joinKeys p) + 1 := by
      simp [nextIndex, countItem, write]
    rw [fileItems, ih, List.mapIdx_cons, hnext]
    simp only [Nat.add_zero, Nat.add_right_comm, Nat.add_assoc]

/-- The items of a list are flattened as they are filed first. -/
theorem flatten_list (p : List Bytes) (k : Key) (vs : List Scalar) (rest : Entries) :
    (Entries.list k vs rest).flatten p =
      fileItems (p ++ [k.text]) (fun _ => none) vs ++ rest.flatten p := by
  rw [Entries.flatten, fileItems_eq]
  simp [nextIndex]

theorem length_fileItems (p : List Bytes) (counters : Bytes → Option Nat) (vs : List Scalar) :
    (fileItems p counters vs).length = vs.length := by
  rw [fileItems_eq, List.length_mapIdx]

theorem length_filed (p : List Bytes) (counters : Bytes → Option Nat) (t : Entries) :
    (t.filed p counters).length = t.scalars := by
  induction t generalizing p counters with
  | nil => rfl
  | scalar k v rest ih => rw [Entries.filed, List.length_cons, ih, Entries.scalars]
  | list k vs rest ih =>
    rw [Entries.filed, List.length_append, length_fileItems, ih, Entries.scalars]
  | map k c rest ihc ih => rw [Entries.filed, List.length_append, ihc, ih, Entries.scalars]

theorem length_flatten (p : List Bytes) (t : Entries) : (t.flatten p).length = t.scalars := by
  induction t generalizing p with
  | nil => rfl
  | scalar k v rest ih => rw [Entries.flatten, List.length_cons, ih, Entries.scalars]
  | list k vs rest ih =>
    rw [flatten_list, List.length_append, length_fileItems, ih, Entries.scalars]
  | map k c rest ihc ih => rw [Entries.flatten, List.length_append, ihc, ih, Entries.scalars]

/-- When sections come last, `Load` files every scalar where it belongs. -/
theorem filed_eq_flatten {t : Entries} (h : SectionsLast t) (p : List Bytes) :
    t.filed p (fun _ => none) = t.flatten p := by
  -- entries without scalars are neither filed nor flattened
  have hfiled : ∀ (t : Entries) (q counters), t.scalars = 0 → t.filed q counters = [] :=
    fun t q counters hzero => List.length_eq_zero_iff.mp ((length_filed q counters t).trans hzero)
  have hflat : ∀ (t : Entries) (q), t.scalars = 0 → t.flatten q = [] :=
    fun t q hzero => List.length_eq_zero_iff.mp ((length_flatten q t).trans hzero)
  induction t generalizing p with
  | nil => rfl
  | scalar k v rest ih => rw [Entries.filed, Entries.flatten, ih h]
  | list k vs rest ih => rw [Entries.filed, flatten_list, hfiled _ _ _ h, hflat _ _ h]
  | map k c rest ihc ih =>
    rw [Entries.filed, Entries.flatten, ihc h.1, hfiled _ _ _ h.2, hflat _ _ h.2]

/-! ## Paths -/

theorem Key.dotFree (k : Key) : k.text ≠ [] ∧ chr '.' ∉ k.text :=
  ⟨k.ne_nil, k.not_mem (by decide)⟩

theorem dotFree_fileItems {p : List Bytes} (hp : DotFree p) (counters : Bytes → Option Nat)
    (vs : List Scalar) : ∀ f ∈ fileItems p counters vs, DotFree f.1 ∧ f.1 ≠ [] := by
  induction vs generalizing counters with
  | nil => nofun
  | cons v vs ih =>
    intro f hf
    rcases List.mem_cons.mp hf with rfl | hf
    · exact ⟨hp.concat (toDecimal_ne_nil _) (not_mem_toDecimal (by decide) _), by simp⟩
    · exact ih _ f hf

theorem dotFree_filed {p : List Bytes} (hp : DotFree p) (counters : Bytes → Option Nat)
    (t : Entries) : ∀ f ∈ t.filed p counters, DotFree f.1 ∧ f.1 ≠ [] := by
  induction t generalizing p counters with
  | nil => nofun
  | scalar k v rest ih =>
    intro f hf
    rcases List.mem_cons.mp hf with rfl | hf
    · exact ⟨hp.concat k.dotFree.1 k.dotFree.2, by simp⟩
    · exact ih hp _ f hf
  | list k vs rest ih =>
    intro f hf
    have hpk := hp.concat k.dotFree.1 k.dotFree.2
    rcases List.mem_append.mp hf with hf | hf
    · exact dotFree_fileItems hpk _ _ f hf
    · exact ih hpk _ f hf
  | map k c rest ihc ih =>
    intro f hf
    have hpk := hp.concat k.dotFree.1 k.dotFree.2
    rcases List.mem_append.mp hf with hf | hf
    · exact ihc hpk _ f hf
    · exact ih hpk _ f hf

theorem dotFree_flatten {p : List Bytes} (hp : DotFree p) (t : Entries) :
    ∀ f ∈ t.flatten p, DotFree f.1 ∧ f.1 ≠ [] := by
  induction t generalizing p with
  | nil => nofun
  | scalar k v rest ih =>
    intro f hf
    rcases List.mem_cons.mp hf with rfl | hf
    · exact ⟨hp.concat k.dotFree.1 k.dotFree.2, by simp⟩
    · exact ih hp f hf
  | list k vs rest ih =>
    intro f hf
    rw [flatten_list] at hf
    rcases List.mem_append.mp hf with hf | hf
    · exact dotFree_fileItems (hp.concat k.dotFree.1 k.dotFree.2) _ _ f hf
    · exact ih hp f hf
  | map k c rest ihc ih =>
    intro f hf
    rcases List.mem_append.mp hf with hf | hf
    · exact ihc (hp.concat k.dotFree.1 k.dotFree.2) f hf
    · exact ih hp f hf

/-- The path of a scalar starts with the path of its map and a key of that map. -/
theorem mem_flatten {p : List Bytes} {t : Entries} {f : Filing} (h : f ∈ t.flatten p) :
    ∃ k ∈ t.keys, ∃ r, f.1 = p ++ k.text :: r := by
  induction t generalizing p with
  | nil => cases h
  | scalar k v rest ih =>
    rcases List.mem_cons.mp h with rfl | h
    · exact ⟨k, List.mem_cons_self, [], rfl⟩
    · obtain ⟨k', hk', hr⟩ := ih h
      exact ⟨k', List.mem_cons_of_mem _ hk', hr⟩
  | list k vs rest ih =>
    rcases List.mem_append.mp h with h | h
    · obtain ⟨i, hi, rfl⟩ := List.mem_mapIdx.mp h
      exact ⟨k, List.mem_cons_self, [toDecimal i], by simp⟩
    · obtain ⟨k', hk', hr⟩ := ih h
      exact ⟨k', List.mem_cons_of_mem _ hk', hr⟩
  | map k c rest ihc ih =>
    rcases List.mem_append.mp h with h | h
    · obtain ⟨k', _, r, hr⟩ := ihc h
      exact ⟨k, List.mem_cons_self, k'.text :: r, by simp [hr]⟩
    · obtain ⟨k', hk', hr⟩ := ih h
      exact ⟨k', List.mem_cons_of_mem _ hk', hr⟩

/-- A path through the key `k` is not that of a scalar of a map without `k`. -/
theorem not_mem_flatten {p r : List Bytes} {k : Key} {t : Entries} (h : k ∉ t.keys) :
    p ++ k.text :: r ∉ (t.flatten p).map Prod.fst := by
  intro hmem
  obtain ⟨f, hf, hpath⟩ := List.mem_map.mp hmem
  obtain ⟨k', hk', r', hr'⟩ := mem_flatten hf
  rw [hr', List.append_cancel_left_eq, List.cons.injEq] at hpath
  exact h (Key.ext hpath.1 ▸ hk')

theorem nodup_items (p : List Bytes) (vs : List Scalar) :
    ((vs.mapIdx fun i v => (p ++ [toDecimal i], v.text)).map Prod.fst).Nodup := by
  have hrange : (vs.mapIdx fun i v => (p ++ [toDecimal i], v.text)).map Prod.fst =
      (List.range vs.length).map fun i => p ++ [toDecimal i] := by
    apply List.ext_getElem
    · simp
    · simp
  have hinj : Function.Injective fun i => p ++ [toDecimal i] := by
    intro i j hij
    rw [List.append_cancel_left_eq, List.cons.injEq] at hij
    exact toDecimal_inj hij.1
  rw [hrange]
  exact List.nodup_range.map hinj

/-- The scalars of a tree have different paths. -/
theorem nodup_flatten {t : Entries} (h : t.Distinct) (p : List Bytes) :
    ((t.flatten p).map Prod.fst).Nodup := by
  induction t generalizing p with
  | nil => exact List.nodup_nil
  | scalar k v rest ih =>
    rw [Entries.flatten, List.map_cons, List.nodup_cons]
    exact ⟨not_mem_flatten h.1, ih h.2 p⟩
  | list k vs rest ih =>
    rw [Entries.flatten, List.map_append, List.nodup_append']
    refine ⟨?_, ih h.2 p, ?_⟩
    · exact nodup_items _ vs
    · intro path hpath hrest
      obtain ⟨f, hf, rfl⟩ := List.mem_map.mp hpath
      obtain ⟨i, hi, rfl⟩ := List.mem_mapIdx.mp hf
      exact not_mem_flatten h.1 (by simpa using hrest)
  | map k c rest ihc ih =>
    rw [Entries.flatten, List.map_append, List.nodup_append']
    refine ⟨ihc h.2.1 _, ih h.2.2 p, ?_⟩
    intro path hpath hrest
    obtain ⟨f, hf, rfl⟩ := List.mem_map.mp hpath
    obtain ⟨k', _, r, hr⟩ := mem_flatten hf
    exact not_mem_flatten h.1 (by simpa [hr] using hrest)

theorem nodup_joined {fs : List Filing} (hdot : ∀ f ∈ fs, DotFree f.1 ∧ f.1 ≠ [])
    (hnodup : (fs.map Prod.fst).Nodup) : ((joined fs).map Prod.fst).Nodup := by
  have hcomm : (joined fs).map Prod.fst = (fs.map Prod.fst).map joinKeys := by
    simp only [joined, List.map_map]
    rfl
  rw [hcomm]
  refine hnodup.map_on ?_
  intro p hp q hq
  obtain ⟨f, hf, rfl⟩ := List.mem_map.mp hp
  obtain ⟨g, hg, rfl⟩ := List.mem_map.mp hq
  exact joinKeys_inj (hdot f hf).1 (hdot g hg).1

/-! ## Misplaced scalars -/

/-- The lengths of all paths together. -/
def weight (fs : List Filing) : Nat := (fs.map fun f => f.1.length).sum

theorem weight_append (fs gs : List Filing) : weight (fs ++ gs) = weight fs + weight gs := by
  simp [weight]

theorem weight_cons (f : Filing) (fs : List Filing) :
    weight (f :: fs) = f.1.length + weight fs := by
  simp [weight]

theorem weight_fileItems (p : List Bytes) (counters : Bytes → Option Nat) (vs : List Scalar) :
    weight (fileItems p counters vs) = vs.length * (p.length + 1) := by
  induction vs generalizing counters with
  | nil => simp [fileItems, weight]
  | cons v vs ih =>
    rw [fileItems, weight_cons, ih, List.length_append, List.length_singleton, List.length_cons]
    ring

namespace Entries

/-- Each scalar counted once for every section that stands in front of it, or of a
map around it, in the same map. -/
def misplaced : Entries → Nat
  | nil => 0
  | scalar _ _ rest => rest.misplaced
  | list _ _ rest => rest.scalars + rest.misplaced
  | map _ children rest => children.misplaced + rest.scalars + rest.misplaced

theorem misplaced_of_no_scalars {t : Entries} (h : t.scalars = 0) : t.misplaced = 0 := by
  induction t with
  | nil => rfl
  | scalar k v rest ih => cases h
  | list k vs rest ih =>
    rw [scalars, Nat.add_eq_zero_iff] at h
    rw [misplaced, h.2, ih h.2]
  | map k c rest ihc ih =>
    rw [scalars, Nat.add_eq_zero_iff] at h
    rw [misplaced, ihc h.1, h.2, ih h.2]

theorem sectionsLast_iff (t : Entries) : SectionsLast t ↔ t.misplaced = 0 := by
  induction t with
  | nil => exact ⟨fun _ => rfl, fun _ => trivial⟩
  | scalar k v rest ih => exact ih
  | list k vs rest ih =>
    rw [misplaced, Nat.add_eq_zero_iff]
    exact ⟨fun h => ⟨h, misplaced_of_no_scalars h⟩, fun h => h.1⟩
  | map k c rest ihc ih =>
    rw [misplaced, Nat.add_eq_zero_iff, Nat.add_eq_zero_iff, SectionsLast, ihc]
    exact ⟨fun h => ⟨h, misplaced_of_no_scalars h.2⟩, fun h => h.1⟩

/-- Every misplaced scalar is filed under a path that is too long. -/
theorem weight_filed {p q : List Bytes} {d : Nat} (hd : p.length = q.length + d)
    (counters : Bytes → Option Nat) (t : Entries) :
    weight (t.filed p counters) = weight (t.flatten q) + d * t.scalars + t.misplaced := by
  induction t generalizing p q d counters with
  | nil => simp [filed, flatten, weight, scalars, misplaced]
  | scalar k v rest ih =>
    rw [filed, flatten, weight_cons, weight_cons, ih hd, scalars, misplaced, List.length_append,
      List.length_append, hd]
    ring
  | list k vs rest ih =>
    have hdeeper : (p ++ [k.text]).length = q.length + (d + 1) := by
      rw [List.length_append, hd]
      rfl
    rw [filed, flatten_list, weight_append, weight_append, ih hdeeper, weight_fileItems,
      weight_fileItems, scalars, misplaced, hdeeper, List.length_append, List.length_singleton]
    ring
  | map k c rest ihc ih =>
    have hchild : (p ++ [k.text]).length = (q ++ [k.text]).length + d := by
      simp only [List.length_append, List.length_singleton, hd]
      ring
    have hdeeper : (p ++ [k.text]).length = q.length + (d + 1) := by
      rw [List.length_append, hd]
      rfl
    rw [filed, flatten, weight_append, weight_append, ihc hchild, ih hdeeper, scalars, misplaced]
    ring

end Entries

/-- The dots of the joined paths tell their lengths. -/
theorem dots_eq_weight {fs : List Filing} (h : ∀ f ∈ fs, DotFree f.1 ∧ f.1 ≠ []) :
    (((joined fs).map Prod.fst).map (List.count (chr '.'))).sum + fs.length = weight fs := by
  induction fs with
  | nil => rfl
  | cons f fs ih =>
    obtain ⟨hdot, hne⟩ := h f List.mem_cons_self
    rw [weight_cons, ← ih fun g hg => h g (List.mem_cons_of_mem _ hg), ← count_joinKeys hdot hne]
    simp only [joined, List.map_cons, List.sum_cons, List.length_cons]
    ring

/-! ## When Load flattens a tree -/

/-- `Load` flattens a rendered tree exactly when no section is followed, in its
map, by an entry that holds a scalar. -/
theorem flattens_iff {t : Entries} (ht : t.Distinct) {text : Bytes} (h : Rendering t text) :
    Flattens t text ↔ SectionsLast t := by
  have hroot : DotFree [] := nofun
  have hnodup := nodup_joined (dotFree_flatten hroot t) (nodup_flatten ht [])
  constructor
  · intro hflat
    unfold Flattens at hflat
    rw [load_rendering h] at hflat
    have hlen : (joined (t.filed [] fun _ => none)).length = (joined (t.flatten [])).length := by
      simp only [joined, List.length_map, length_filed, length_flatten]
    have hperm := keys_perm_of_writeAll hnodup hlen hflat
    have hdots := (hperm.map (List.count (chr '.'))).sum_eq
    have hfiled := dots_eq_weight (dotFree_filed hroot (fun _ => none) t)
    have hflatten := dots_eq_weight (dotFree_flatten hroot t)
    rw [length_filed, Entries.weight_filed (q := []) (d := 0) rfl] at hfiled
    rw [length_flatten] at hflatten
    rw [Entries.sectionsLast_iff]
    omega
  · intro hlast key value
    rw [load_rendering h, filed_eq_flatten hlast]
    exact writeAll_eq_some_iff hnodup

/-- A key, by its literal. -/
def keyOf (s : String) (h : str s ≠ [] ∧ (str s).all isword = true) : Key :=
  ⟨str s, h.1, List.all_eq_true.mp h.2⟩

/-- A scalar, by its literal. -/
def scalarOf (s : String) (h : str s ≠ [] ∧ chr '#' ∉ str s ∧ quote ∉ str s ∧
    apostrophe ∉ str s ∧ chr '\n' ∉ str s) : Scalar :=
  ⟨str s, h.1, h.2.1, h.2.2.1, h.2.2.2.1, h.2.2.2.2⟩

/-- `server.tcp_port`, a list `server.hosts` and nothing behind them. -/
def serverOnly : Entries :=
  .map (keyOf "server" (by decide))
    (.scalar (keyOf "tcp_port" (by decide)) (scalarOf "9000" (by decide))
      (.list (keyOf "hosts" (by decide)) [scalarOf "a b" (by decide)] .nil)) .nil

theorem serverOnly_flattens : Flattens serverOnly (renderText serverOnly) :=
  (flattens_iff (t := serverOnly)
    ⟨List.not_mem_nil, ⟨by decide, List.not_mem_nil, trivial⟩, trivial⟩
    (rendering_renderText serverOnly)).mpr ⟨rfl, rfl⟩

/-- The sections `server` and `log` of a configuration, one behind the other. -/
def serverLog : Entries :=
  .map (keyOf "server" (by decide))
    (.scalar (keyOf "tcp_port" (by decide)) (scalarOf "9000" (by decide)) .nil)
    (.map (keyOf "log" (by decide))
      (.scalar (keyOf "level" (by decide)) (scalarOf "debug" (by decide)) .nil) .nil)

/-- The level of the log is filed under `server.log.level`. -/
theorem serverLog_not_flattened :
    serverLog.Distinct ∧ Rendering serverLog (renderText serverLog) ∧
      ¬ Flattens serverLog (renderText serverLog) := by
  refine ⟨⟨by decide, ⟨List.not_mem_nil, trivial⟩, List.not_mem_nil,
    ⟨List.not_mem_nil, trivial⟩, trivial⟩, rendering_renderText serverLog, fun h => ?_⟩
  have hlost : (load (some (renderText serverLog))).2 (str "log.level") = none := by
    decide +kernel
  have hmem : (str "log.level", str "debug") ∈ joined (serverLog.flatten []) := by
    decide +kernel
  rw [(h _ _).mpr hmem] at hlost
  cases hlost

end IMSystem.ConfigTree

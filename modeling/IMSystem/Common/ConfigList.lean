import IMSystem.Common.ConfigManager
import IMSystem.Lib.Traversal

/-!
# Lists in the configuration (`common/src/config/config_manager.cpp`)

`Load` stores the items of a list under the prefix of the open sections and a
running index, and `GetStringList` collects them from the whole map, which it
traverses in no particular order, and sorts them by their indices.

Results:
1. `processLine_cases`: what one line stores.
2. `Inv.step`: the items under a prefix and its counter go together.
3. `exists_traversal`: the map that `Load` leaves can be traversed.
4. `getStringList_items`: the list is read back as it stands in the file.
-/

namespace IMSystem.ConfigManager

open Lib

/-! ## Reading a list -/

/-- The index of an entry beneath `pre`, which ends in a dot. -/
def listIndex (pre key : Bytes) : Option Int :=
  if startsWith key pre then
    let suffix := key.drop pre.length
    if suffix = [] then none
    else if suffix.all isdigit then
      match stoi suffix with
      | .ok idx => some idx
      | .error _ => none
    else none
  else none

/-- `GetStringList`, with the entries of `config_map_` as they are traversed. The
sort is `std::sort`, which promises nothing for equal indices. -/
def getStringList (sort : KeySort Int Bytes) (configMap : List (Bytes × Bytes))
    (keyPrefix : Bytes) : List Bytes :=
  let items := configMap.filterMap fun kv =>
    (listIndex (keyPrefix ++ [chr '.']) kv.1).map fun idx => (idx, kv.2)
  (sort.run items).map Prod.snd

/-! ## What the lines store -/

/-- What a line stores. -/
inductive Stored where
  | nothing
  /-- A list item, processed while `JoinKeys(key_stack)` is `pre`. -/
  | item (pre value : Bytes)
  /-- A scalar, under its flattened key. -/
  | scalar (key value : Bytes)
deriving DecidableEq, Repr

namespace LoadState

/-- What a line stores when it is processed in a state. -/
def stores (s : LoadState) (line : Bytes) : Stored :=
  let raw := stripInlineComment line
  let content := trim raw
  let pre := (s.unwind (countLeadingSpaces raw)).keyPrefix
  if startsWith content (str "- ") then
    if pre = [] then .nothing else .item pre (unquote (trim (trim (content.drop 2))))
  else if chr ':' ∉ content then .nothing
  else
    let key := trim (content.takeWhile (· != chr ':'))
    let rest := trim (content.dropWhile (· != chr ':')).tail
    if key = [] ∨ rest = [] then .nothing
    else .scalar (if pre = [] then key else pre ++ chr '.' :: key) (unquote rest)

/-- The two maps after something was stored. -/
def after (s : LoadState) : Stored → (Bytes → Option Nat) × (Bytes → Option Bytes)
  | .nothing => (s.listCounters, s.configMap)
  | .item pre value => (countItem s.listCounters pre,
      write s.configMap (pre ++ chr '.' :: toDecimal (nextIndex s.listCounters pre), value))
  | .scalar key value => (s.listCounters, write s.configMap (key, value))

/-- A line changes the two maps by what it stores. -/
theorem processLine_after (s : LoadState) (line : Bytes) :
    ((s.processLine line).listCounters, (s.processLine line).configMap) =
      s.after (s.stores line) := by
  unfold processLine stores
  generalize stripInlineComment line = raw
  by_cases hblank : trim raw = []
  · simp only [hblank]
    rfl
  · simp only [if_neg hblank]
    generalize hu : s.unwind (countLeadingSpaces raw) = u
    have hcounters : u.listCounters = s.listCounters := by rw [← hu]; rfl
    have hmap : u.configMap = s.configMap := by rw [← hu]; rfl
    unfold processContent
    split
    · unfold putItem
      split
      · rw [hcounters, hmap]
        rfl
      · rw [hcounters]
        simp only [after, put, hmap]
    · split
      · rw [hcounters, hmap]
        rfl
      · generalize trim ((trim raw).takeWhile (· != chr ':')) = key
        generalize trim ((trim raw).dropWhile (· != chr ':')).tail = rest
        dsimp only
        by_cases hkey : key = []
        · rw [if_pos hkey, if_pos (Or.inl hkey), hcounters, hmap]
          rfl
        · by_cases hrest : rest = []
          · rw [if_neg hkey, if_pos hrest, if_pos (Or.inr hrest)]
            simp only [push, hcounters, hmap]
            rfl
          · rw [if_neg hkey, if_neg hrest, if_neg (not_or.mpr ⟨hkey, hrest⟩)]
            simp only [putScalar, after, put, hcounters, hmap]

end LoadState

/-- What some lines store, in the order of the file. -/
def storedBy (s : LoadState) : List Bytes → List Stored
  | [] => []
  | line :: lines => s.stores line :: storedBy (s.processLine line) lines

/-- The values of the items under a prefix. -/
def itemsUnder (p : Bytes) (stored : List Stored) : List Bytes :=
  stored.filterMap fun
    | .item pre value => if pre = p then some value else none
    | _ => none

/-- A text of decimal digits. -/
def Digits (ds : Bytes) : Prop := ds ≠ [] ∧ ∀ c ∈ ds, isdigit c = true

/-- No scalar is stored where an item under `p` may be. -/
def NoScalarItem (p : Bytes) (stored : List Stored) : Prop :=
  ∀ key value, .scalar key value ∈ stored → ∀ ds, Digits ds → key ≠ p ++ chr '.' :: ds

/-! ## Indices -/

theorem digits_toDecimal (n : Nat) : Digits (toDecimal n) :=
  ⟨toDecimal_ne_nil n, fun _ hc => isdigit_of_mem_toDecimal hc⟩

theorem Digits.no_dot {ds : Bytes} (h : Digits ds) : chr '.' ∉ ds := by
  intro hdot
  exact absurd (h.2 _ hdot) (by decide)

/-- A prefix and an index can be read off a key. -/
theorem Digits.key_inj {p q ds es : Bytes} (hd : Digits ds) (he : Digits es)
    (h : p ++ chr '.' :: ds = q ++ chr '.' :: es) : p = q ∧ ds = es :=
  append_cons_inj hd.no_dot he.no_dot h

/-- Only keys that end in digits have an index. -/
theorem digits_of_listIndex {p key : Bytes} {idx : Int}
    (h : listIndex (p ++ [chr '.']) key = some idx) :
    ∃ ds, Digits ds ∧ key = p ++ chr '.' :: ds := by
  unfold listIndex at h
  split at h
  · next hstart =>
    obtain ⟨ds, rfl⟩ := List.isPrefixOf_iff_prefix.mp hstart
    simp only [List.drop_left] at h
    split at h
    · cases h
    · next hne =>
      split at h
      · next hall => exact ⟨ds, ⟨hne, by simpa using hall⟩, by simp⟩
      · cases h
  · cases h

/-- A printed index is read back. -/
theorem listIndex_toDecimal (p : Bytes) {i : Nat} (h : i < 2 ^ 31) :
    listIndex (p ++ [chr '.']) (p ++ chr '.' :: toDecimal i) = some (i : Int) := by
  have hkey : p ++ chr '.' :: toDecimal i = (p ++ [chr '.']) ++ toDecimal i := by simp
  have hstart : startsWith ((p ++ [chr '.']) ++ toDecimal i) (p ++ [chr '.']) = true :=
    List.isPrefixOf_iff_prefix.mpr (List.prefix_append _ _)
  have hall : (toDecimal i).all isdigit = true := List.all_eq_true.mpr (digits_toDecimal i).2
  rw [hkey, listIndex, if_pos hstart]
  simp only [List.drop_left, if_neg (toDecimal_ne_nil i), hall, if_true, stoi_toDecimal h]

/-! ## The items under a prefix -/

/-- The items under `p`: their counter, and where the map holds them. -/
structure Inv (p : Bytes) (values : List Bytes) (s : LoadState) : Prop where
  counter : LoadState.nextIndex s.listCounters p = values.length
  holds : ∀ ds v, Digits ds →
    (s.configMap (p ++ chr '.' :: ds) = some v ↔ ∃ i : Nat, ds = toDecimal i ∧ values[i]? = some v)

theorem inv_start (p : Bytes) : Inv p [] .start where
  counter := rfl
  holds ds v _ := by simp [LoadState.start]

/-- A value is stored where no item under `p` may be. -/
theorem Inv.write_other {p : Bytes} {values : List Bytes} {s : LoadState} (h : Inv p values s)
    {key : Bytes} (hkey : ∀ ds, Digits ds → key ≠ p ++ chr '.' :: ds) (value : Bytes) :
    ∀ ds v, Digits ds → (write s.configMap (key, value) (p ++ chr '.' :: ds) = some v ↔
      ∃ i : Nat, ds = toDecimal i ∧ values[i]? = some v) := by
  intro ds v hds
  rw [← h.holds ds v hds, write, Function.update_of_ne (Ne.symm (hkey ds hds))]

/-- An item is stored under the next index. -/
theorem Inv.write_item {p : Bytes} {values : List Bytes} {s : LoadState} (h : Inv p values s)
    (value : Bytes) : ∀ ds v, Digits ds →
      (write s.configMap (p ++ chr '.' :: toDecimal values.length, value) (p ++ chr '.' :: ds) =
        some v ↔ ∃ i : Nat, ds = toDecimal i ∧ (values ++ [value])[i]? = some v) := by
  intro ds v hds
  by_cases hlast : ds = toDecimal values.length
  · subst hlast
    simp only [write, Function.update_self, Option.some.injEq]
    constructor
    · rintro rfl
      exact ⟨values.length, rfl, by simp⟩
    · rintro ⟨i, hi, hv⟩
      rw [← toDecimal_inj hi] at hv
      simpa using hv
  · have hne : p ++ chr '.' :: ds ≠ p ++ chr '.' :: toDecimal values.length := fun heq =>
      hlast (hds.key_inj (digits_toDecimal _) heq).2
    rw [write, Function.update_of_ne hne, h.holds ds v hds]
    have hsame : ∀ i, ds = toDecimal i → (values ++ [value])[i]? = values[i]? := by
      rintro i rfl
      have hi : i ≠ values.length := fun heq => hlast (by rw [heq])
      rcases Nat.lt_or_gt_of_ne hi with hlt | hgt
      · rw [List.getElem?_append_left hlt]
      · rw [List.getElem?_eq_none (by simp; omega), List.getElem?_eq_none (by omega)]
    exact exists_congr fun i => and_congr_right fun hi => by rw [hsame i hi]

/-- One more line. -/
theorem Inv.step {p : Bytes} {values : List Bytes} {s : LoadState} (h : Inv p values s)
    (line : Bytes) (hscalar : NoScalarItem p [s.stores line]) :
    Inv p (values ++ itemsUnder p [s.stores line]) (s.processLine line) := by
  have hafter := s.processLine_after line
  cases hline : s.stores line with
  | nothing =>
    rw [hline, LoadState.after, Prod.mk.injEq] at hafter
    refine ⟨?_, ?_⟩
    · rw [hafter.1, h.counter]
      simp [itemsUnder]
    · rw [hafter.2]
      simpa [itemsUnder] using h.holds
  | scalar key value =>
    rw [hline, LoadState.after, Prod.mk.injEq] at hafter
    refine ⟨?_, ?_⟩
    · rw [hafter.1, h.counter]
      simp [itemsUnder]
    · rw [hafter.2]
      have hkey := hscalar key value (by rw [hline]; exact List.mem_singleton_self _)
      simpa [itemsUnder] using h.write_other hkey value
  | item pre value =>
    rw [hline, LoadState.after, Prod.mk.injEq] at hafter
    by_cases hpre : pre = p
    · subst hpre
      have hnew : itemsUnder pre [Stored.item pre value] = [value] := by simp [itemsUnder]
      rw [hnew]
      refine ⟨?_, ?_⟩
      · rw [hafter.1, List.length_append, ← h.counter]
        simp [LoadState.countItem, LoadState.nextIndex, write]
      · rw [hafter.2, h.counter]
        exact h.write_item value
    · have hnew : itemsUnder p [Stored.item pre value] = [] := by simp [itemsUnder, hpre]
      rw [hnew, List.append_nil]
      refine ⟨?_, ?_⟩
      · rw [hafter.1, ← h.counter]
        simp [LoadState.countItem, LoadState.nextIndex, write, Function.update_of_ne (Ne.symm hpre)]
      · rw [hafter.2]
        refine h.write_other (fun ds hds heq => ?_) value
        exact hpre ((digits_toDecimal _).key_inj hds heq).1

theorem Inv.run {p : Bytes} {values : List Bytes} {s : LoadState} (h : Inv p values s)
    (lines : List Bytes) (hscalar : NoScalarItem p (storedBy s lines)) :
    Inv p (values ++ itemsUnder p (storedBy s lines)) (loadLines s lines) := by
  induction lines generalizing values s with
  | nil => simpa [storedBy, itemsUnder, loadLines] using h
  | cons line lines ih =>
    have hhead : NoScalarItem p [s.stores line] := fun key value hmem =>
      hscalar key value (by rw [List.mem_singleton.mp hmem]; exact List.mem_cons_self)
    have hrest := ih (h.step line hhead) fun key value hmem =>
      hscalar key value (List.mem_cons_of_mem _ hmem)
    have hsplit : itemsUnder p (storedBy s (line :: lines)) =
        itemsUnder p [s.stores line] ++ itemsUnder p (storedBy (s.processLine line) lines) := by
      rw [itemsUnder, itemsUnder, itemsUnder, ← List.filterMap_append]
      rfl
    rw [hsplit, ← List.append_assoc]
    exact hrest

/-! ## Reading the items back -/

/-- The map that `Load` leaves was built by writes. -/
theorem configMap_eq_writeAll (s : LoadState) (lines : List Bytes) :
    ∃ ws, (loadLines s lines).configMap = writeAll s.configMap ws := by
  induction lines generalizing s with
  | nil => exact ⟨[], rfl⟩
  | cons line lines ih =>
    obtain ⟨ws, hws⟩ := ih (s.processLine line)
    have hafter := s.processLine_after line
    cases hline : s.stores line with
    | nothing =>
      rw [hline, LoadState.after, Prod.mk.injEq] at hafter
      exact ⟨ws, by rw [loadLines_cons, hws, hafter.2]⟩
    | item pre value =>
      rw [hline, LoadState.after, Prod.mk.injEq] at hafter
      exact ⟨_ :: ws, by rw [loadLines_cons, hws, hafter.2, writeAll_cons]⟩
    | scalar key value =>
      rw [hline, LoadState.after, Prod.mk.injEq] at hafter
      exact ⟨_ :: ws, by rw [loadLines_cons, hws, hafter.2, writeAll_cons]⟩

/-- It can be traversed. -/
theorem exists_traversal (file : Option Bytes) : Nonempty (Traversal (load file).2) := by
  cases file with
  | none => exact ⟨Traversal.ofWrites []⟩
  | some text =>
    obtain ⟨ws, hws⟩ := configMap_eq_writeAll .start (getlines text)
    rw [load, hws]
    exact ⟨Traversal.ofWrites ws⟩

/-- The entries of a list, as the map holds them. -/
def listEntries (p : Bytes) (values : List Bytes) : List (Bytes × Bytes) :=
  values.zipIdx.map fun x => (p ++ chr '.' :: toDecimal x.2, x.1)

theorem nodup_listEntries (p : Bytes) (values : List Bytes) : (listEntries p values).Nodup := by
  have hkeys : (listEntries p values).map Prod.fst =
      (values.zipIdx.map Prod.snd).map fun i => p ++ chr '.' :: toDecimal i := by
    rw [listEntries, List.map_map, List.map_map]
    rfl
  refine List.Nodup.of_map Prod.fst ?_
  rw [hkeys, List.zipIdx_map_snd]
  refine List.Nodup.map (fun i j hij => ?_) List.nodup_range'
  exact toDecimal_inj ((digits_toDecimal i).key_inj (digits_toDecimal j) hij).2

/-- Among the entries of the map, those with an index under `p` are the items. -/
theorem Inv.mem_listEntries {p : Bytes} {values : List Bytes} {s : LoadState} (h : Inv p values s)
    (hcount : values.length < 2 ^ 31) (x : Bytes × Bytes) : x ∈ listEntries p values ↔
      s.configMap x.1 = some x.2 ∧ (listIndex (p ++ [chr '.']) x.1).isSome = true := by
  obtain ⟨key, v⟩ := x
  constructor
  · intro hmem
    obtain ⟨⟨w, i⟩, hi, heq⟩ := List.mem_map.mp hmem
    cases heq
    rw [List.mk_mem_zipIdx_iff_getElem?] at hi
    have hlt : i < values.length := (List.getElem?_eq_some_iff.mp hi).1
    refine ⟨(h.holds _ _ (digits_toDecimal i)).mpr ⟨i, rfl, hi⟩, ?_⟩
    rw [listIndex_toDecimal p (Nat.lt_trans hlt hcount)]
    rfl
  · rintro ⟨hkey, hsome⟩
    obtain ⟨idx, hidx⟩ := Option.isSome_iff_exists.mp hsome
    obtain ⟨ds, hds, rfl⟩ := digits_of_listIndex hidx
    obtain ⟨i, rfl, hi⟩ := (h.holds ds v hds).mp hkey
    exact List.mem_map.mpr ⟨(v, i), List.mk_mem_zipIdx_iff_getElem?.mpr hi, rfl⟩

/-- The items with their indices, as `GetStringList` collects them. -/
def indexed (values : List Bytes) : List (Int × Bytes) := values.zipIdx.map fun x => (↑x.2, x.1)

theorem indexed_values (values : List Bytes) : (indexed values).map Prod.snd = values := by
  rw [indexed, List.map_map]
  exact List.zipIdx_map_fst 0 values

theorem indexed_sorted (values : List Bytes) :
    (indexed values).Pairwise fun a b => a.1 < b.1 := by
  have hsnd : (values.zipIdx.map Prod.snd).Pairwise (· < ·) := by
    rw [List.zipIdx_map_snd]
    exact List.pairwise_lt_range'
  rw [indexed, List.pairwise_map]
  rw [List.pairwise_map] at hsnd
  exact hsnd.imp Int.ofNat_lt.mpr

/-- The entry of an item under `p`, with its index. -/
def readItem (p : Bytes) (kv : Bytes × Bytes) : Option (Int × Bytes) :=
  (listIndex (p ++ [chr '.']) kv.1).map fun idx => (idx, kv.2)

theorem filterMap_listEntries {p : Bytes} {values : List Bytes} (hcount : values.length < 2 ^ 31) :
    (listEntries p values).filterMap (readItem p) = indexed values := by
  rw [listEntries, List.filterMap_map, indexed, ← List.filterMap_eq_map]
  refine List.filterMap_congr fun x hx => ?_
  have hlt : x.2 < values.length :=
    (List.getElem?_eq_some_iff.mp (List.mk_mem_zipIdx_iff_getElem?.mp hx)).1
  simp [readItem, listIndex_toDecimal p (Nat.lt_trans hlt hcount)]

/-- Entries without an index under `p` are passed over. -/
theorem filterMap_readItem (p : Bytes) (entries : List (Bytes × Bytes)) :
    entries.filterMap (readItem p) =
      (entries.filter fun kv => (listIndex (p ++ [chr '.']) kv.1).isSome).filterMap (readItem p) := by
  rw [List.filterMap_filter]
  refine List.filterMap_congr fun kv _ => ?_
  cases hidx : listIndex (p ++ [chr '.']) kv.1 with
  | none => simp [readItem, hidx]
  | some idx => simp

/-- `GetStringList` returns the values of the items under a prefix in the order of
the file, however the map is traversed. -/
theorem getStringList_items (text p : Bytes)
    (hscalar : NoScalarItem p (storedBy .start (getlines text)))
    (hcount : (itemsUnder p (storedBy .start (getlines text))).length < 2 ^ 31)
    (traversal : Traversal (load (some text)).2) (sort : KeySort Int Bytes) :
    getStringList sort traversal.entries p = itemsUnder p (storedBy .start (getlines text)) := by
  have hinv := (inv_start p).run (getlines text) hscalar
  rw [List.nil_append] at hinv
  generalize itemsUnder p (storedBy .start (getlines text)) = values at hinv hcount ⊢
  have hfound := traversal.filter_perm (nodup_listEntries p values) (hinv.mem_listEntries hcount)
  have hitems : (traversal.entries.filterMap (readItem p)).Perm (indexed values) := by
    rw [filterMap_readItem, ← filterMap_listEntries hcount]
    exact hfound.filterMap (readItem p)
  have hrun : sort.run (traversal.entries.filterMap (readItem p)) = indexed values :=
    sort.run_eq hitems (indexed_sorted values)
  calc getStringList sort traversal.entries p
      = (sort.run (traversal.entries.filterMap (readItem p))).map Prod.snd := rfl
    _ = values := by rw [hrun, indexed_values]

/-- A list with another section between its items. -/
def twoWords : Bytes := str "words:\n  - \"a\"\n  log:\n    level: info\n - b # last\n"

theorem getStringList_twoWords : ∃ traversal : Traversal (load (some twoWords)).2,
    getStringList .merge traversal.entries (str "words") = [str "a", str "b"] := by
  obtain ⟨traversal⟩ := exists_traversal (some twoWords)
  have hlines : storedBy .start (getlines twoWords) = [.nothing, .item (str "words") (str "a"),
      .nothing, .scalar (str "words.log.level") (str "info"), .item (str "words") (str "b")] := by
    decide
  have hscalar : NoScalarItem (str "words") (storedBy .start (getlines twoWords)) := by
    rw [hlines]
    intro key value hmem ds hds heq
    obtain ⟨rfl, _⟩ : key = str "words.log.level" ∧ value = str "info" := by simpa using hmem
    have hinj := append_cons_inj (a := str "words.log") (b := str "level") (by decide) hds.no_dot heq
    exact absurd hinj.1 (by decide)
  have hread := getStringList_items twoWords (str "words") hscalar (by rw [hlines]; decide)
    traversal .merge
  refine ⟨traversal, ?_⟩
  rw [hread, hlines]
  decide

end IMSystem.ConfigManager

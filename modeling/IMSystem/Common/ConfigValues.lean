import IMSystem.Common.ConfigFlattening
import IMSystem.Common.ConfigList

/-!
# Typed values in a configuration (`common/src/config/config_manager.cpp`)

The getters read what `Load` has filed under a key as a text, as an `int` or as a `bool`,
and fall back to the default of the caller. In a tree whose sections come last they read
every scalar as it was written. Behind a section nothing can be read any more: `Load` files
it beneath the section, and the getters of another section give their defaults.

Results:
1. `reads_of_flatten`: every scalar is read back, and any other key gives the default.
2. `defaults_behind_section`: of the sections of a file, only the first one can be read.
-/

namespace IMSystem.ConfigManager

open Lib

/-! ## The getters -/

/-- `GetString`. -/
def getString (configMap : Bytes → Option Bytes) (key defaultVal : Bytes) : Bytes :=
  match configMap key with
  | some v => v
  | none => defaultVal

/-- `GetInt`. -/
def getInt (configMap : Bytes → Option Bytes) (key : Bytes) (defaultVal : Int32) : Int32 :=
  match configMap key with
  | some v =>
    match stoi v with
    | .ok i => Int32.ofInt i
    | .error _ => defaultVal
  | none => defaultVal

/-- `std::tolower` of the "C" locale. -/
def tolower (c : UInt8) : UInt8 := if 65 ≤ c && c ≤ 90 then c + 32 else c

/-- `GetBool`. -/
def getBool (configMap : Bytes → Option Bytes) (key : Bytes) (defaultVal : Bool) : Bool :=
  match configMap key with
  | none => defaultVal
  | some v =>
    let v := v.map tolower
    if v = str "true" ∨ v = str "1" ∨ v = str "yes" ∨ v = str "on" then true
    else if v = str "false" ∨ v = str "0" ∨ v = str "no" ∨ v = str "off" then false
    else defaultVal

/-- The words for a truth value, in small letters. -/
def spellings : Bool → List Bytes
  | true => [str "true", str "1", str "yes", str "on"]
  | false => [str "false", str "0", str "no", str "off"]

/-- The getters read the value under the key by its type. -/
structure Reads (configMap : Bytes → Option Bytes) (key value : Bytes) : Prop where
  text : ∀ defaultVal, getString configMap key defaultVal = value
  int : ∀ i : Int32, value = intDecimal i.toInt → ∀ defaultVal, getInt configMap key defaultVal = i
  bool : ∀ b, value.map tolower ∈ spellings b → ∀ defaultVal, getBool configMap key defaultVal = b

/-- The getters give their defaults. -/
structure Defaults (configMap : Bytes → Option Bytes) (key : Bytes) : Prop where
  text : ∀ defaultVal, getString configMap key defaultVal = defaultVal
  int : ∀ defaultVal, getInt configMap key defaultVal = defaultVal
  bool : ∀ defaultVal, getBool configMap key defaultVal = defaultVal

section Getters

variable {configMap : Bytes → Option Bytes} {key value : Bytes}

theorem reads_of_stored (h : configMap key = some value) : Reads configMap key value where
  text defaultVal := by rw [getString, h]
  int := by
    rintro i rfl defaultVal
    have hlow : -2 ^ 31 ≤ i.toInt := Int32.le_toInt i
    rw [getInt, h]
    simp only [stoi_intDecimal hlow (Int32.toInt_lt i), Int32.ofInt_toInt]
  bool := by
    intro b hb defaultVal
    rw [getBool, h]
    cases b with
    | true =>
      simp only [spellings, List.mem_cons, List.not_mem_nil, or_false] at hb
      exact if_pos hb
    | false =>
      have hfalse : ∀ w ∈ spellings false, w ∉ spellings true := by decide
      have hno := hfalse _ hb
      simp only [spellings, List.mem_cons, List.not_mem_nil, or_false] at hb hno
      dsimp only
      rw [if_neg hno, if_pos hb]

theorem defaults_of_not_stored (h : configMap key = none) : Defaults configMap key where
  text defaultVal := by rw [getString, h]
  int defaultVal := by rw [getInt, h]
  bool defaultVal := by rw [getBool, h]

end Getters

end IMSystem.ConfigManager

namespace IMSystem.ConfigTree

open Lib ConfigManager

/-! ## Sections that come last -/

/-- In a tree whose sections come last, the getters read every scalar by its path, whatever
the file looks like otherwise, and give their defaults for every key that the tree has not. -/
theorem reads_of_flatten {t : Entries} (ht : t.Distinct) (hlast : SectionsLast t) {text : Bytes}
    (h : Rendering t text) :
    (∀ path value, (path, value) ∈ t.flatten [] → Reads (load (some text)).2 (joinKeys path) value) ∧
      ∀ key, key ∉ (joined (t.flatten [])).map Prod.fst → Defaults (load (some text)).2 key := by
  have hroot : DotFree [] := fun _ hk => absurd hk List.not_mem_nil
  have hnodup := nodup_joined (dotFree_flatten hroot t) (nodup_flatten ht [])
  rw [load_rendering h, filed_eq_flatten hlast]
  constructor
  · intro path value hmem
    refine reads_of_stored ((writeAll_eq_some_iff hnodup).mpr ?_)
    exact List.mem_map.mpr ⟨(path, value), hmem, rfl⟩
  · exact fun key hkey => defaults_of_not_stored (writeAll_of_not_mem _ hkey)

/-- A switch, and a section with a number. -/
def settings : Entries :=
  .scalar (keyOf "debug" (by decide)) (scalarOf "Yes" (by decide))
    (.map (keyOf "limits" (by decide))
      (.scalar (keyOf "offset" (by decide)) (scalarOf "-90" (by decide)) .nil) .nil)

theorem reads_of_flatten_settings :
    (∀ path value, (path, value) ∈ settings.flatten [] →
        Reads (load (some (renderText settings))).2 (joinKeys path) value) ∧
      ∀ key, key ∉ (joined (settings.flatten [])).map Prod.fst →
        Defaults (load (some (renderText settings))).2 key :=
  reads_of_flatten (t := settings) ⟨by decide, List.not_mem_nil, ⟨List.not_mem_nil, trivial⟩, trivial⟩
    ⟨trivial, rfl⟩ (rendering_renderText settings)

/-! ## Behind the first section -/

/-- The key of the first list or map. -/
def Entries.firstSection : Entries → Option Key
  | nil => none
  | scalar _ _ rest => rest.firstSection
  | list k _ _ => some k
  | map k _ _ => some k

theorem prefix_fileItems {p : List Bytes} {counters : Bytes → Option Nat} {vs : List Scalar}
    {f : Filing} (h : f ∈ fileItems p counters vs) : p <+: f.1 := by
  rw [fileItems_eq] at h
  obtain ⟨i, _, rfl⟩ := List.mem_mapIdx.mp h
  exact List.prefix_append _ _

/-- What stands beneath open sections is filed beneath them. -/
theorem prefix_filed {p : List Bytes} {counters : Bytes → Option Nat} {t : Entries} {f : Filing}
    (h : f ∈ t.filed p counters) : p <+: f.1 := by
  induction t generalizing p counters with
  | nil => cases h
  | scalar k v rest ih =>
    obtain rfl | h := List.mem_cons.mp h
    · exact List.prefix_append _ _
    · exact ih h
  | list k vs rest ih =>
    obtain h | h := List.mem_append.mp h
    · exact (List.prefix_append _ _).trans (prefix_fileItems h)
    · exact (List.prefix_append _ _).trans (ih h)
  | map k c rest ihc ih =>
    obtain h | h := List.mem_append.mp h
    · exact (List.prefix_append _ _).trans (ihc h)
    · exact (List.prefix_append _ _).trans (ih h)

/-- Everything but the scalars in front is filed beneath the first section. -/
theorem filed_firstSection {t : Entries} {k : Key} (hfirst : t.firstSection = some k)
    {counters : Bytes → Option Nat} {f : Filing} (h : f ∈ t.filed [] counters) :
    (∃ key, f.1 = [key]) ∨ [k.text] <+: f.1 := by
  induction t with
  | nil => cases h
  | scalar k' v rest ih =>
    obtain rfl | h := List.mem_cons.mp h
    · exact .inl ⟨k'.text, rfl⟩
    · exact ih hfirst h
  | list k' vs rest ih =>
    cases hfirst
    obtain h | h := List.mem_append.mp h
    · exact .inr (prefix_fileItems h)
    · exact .inr (prefix_filed h)
  | map k' c rest ihc ih =>
    cases hfirst
    obtain h | h := List.mem_append.mp h
    · exact .inr (prefix_filed h)
    · exact .inr (prefix_filed h)

theorem load_behind_section {t : Entries} {text : Bytes} (h : Rendering t text) {k k' : Key}
    (hfirst : t.firstSection = some k) (hne : k' ≠ k) {path : List Bytes} (hpath : DotFree path)
    (hdeep : path ≠ []) : (load (some text)).2 (joinKeys (k'.text :: path)) = none := by
  have hroot : DotFree [] := fun _ hk => absurd hk List.not_mem_nil
  have hdot : DotFree (k'.text :: path) := by
    intro key hkey
    obtain rfl | hkey := List.mem_cons.mp hkey
    · exact k'.dotFree
    · exact hpath key hkey
  rw [load_rendering h]
  refine writeAll_of_not_mem _ fun hmem => ?_
  obtain ⟨_, hfiling, hkey⟩ := List.mem_map.mp hmem
  obtain ⟨f, hf, rfl⟩ := List.mem_map.mp hfiling
  have heq : f.1 = k'.text :: path := joinKeys_inj (dotFree_filed hroot _ t f hf).1 hdot hkey
  obtain ⟨key, hone⟩ | ⟨rest, hbeneath⟩ := filed_firstSection hfirst hf
  · rw [heq] at hone
    exact hdeep (List.tail_eq_of_cons_eq hone)
  · rw [heq] at hbeneath
    exact hne (Key.ext (List.head_eq_of_cons_eq hbeneath).symm)

/-- Of the sections of a file only the first one can be read: the getters give their defaults
for every key beneath another section, and its list is empty, whatever the file says there. -/
theorem defaults_behind_section {t : Entries} {text : Bytes} (h : Rendering t text) {k k' : Key}
    (hfirst : t.firstSection = some k) (hne : k' ≠ k) :
    (∀ path, DotFree path → path ≠ [] → Defaults (load (some text)).2 (joinKeys (k'.text :: path))) ∧
      ∀ sort (traversal : Traversal (load (some text)).2),
        getStringList sort traversal.entries k'.text = [] := by
  constructor
  · exact fun path hpath hdeep =>
      defaults_of_not_stored (load_behind_section h hfirst hne hpath hdeep)
  · intro sort traversal
    have hnone : ∀ x ∈ traversal.entries, listIndex (k'.text ++ [chr '.']) x.1 = none := by
      intro x hx
      by_contra hsome
      obtain ⟨idx, hidx⟩ := Option.ne_none_iff_exists'.mp hsome
      obtain ⟨ds, hds, hkey⟩ := digits_of_listIndex hidx
      have hdot : DotFree [ds] := by
        intro d hd
        obtain rfl := List.mem_singleton.mp hd
        exact ⟨hds.1, hds.no_dot⟩
      have hjoin : joinKeys (k'.text :: [ds]) = x.1 := by
        have hsplit := joinKeys_concat [k'.text] hds.1
        rw [show joinKeys [k'.text] = k'.text from if_neg k'.ne_nil, if_neg k'.ne_nil] at hsplit
        exact hsplit.trans hkey.symm
      have hload := load_behind_section h hfirst hne hdot (List.cons_ne_nil _ _)
      rw [hjoin, (traversal.mem_iff x).mp hx] at hload
      cases hload
    have hitems : (traversal.entries.filterMap fun kv =>
        (listIndex (k'.text ++ [chr '.']) kv.1).map fun idx => (idx, kv.2)) = [] :=
      List.filterMap_eq_nil_iff.mpr fun x hx => by rw [hnone x hx, Option.map_none]
    unfold getStringList
    simp only [hitems]
    rw [(sort.perm []).eq_nil, List.map_nil]

theorem defaults_behind_section_log :
    (∀ path, DotFree path → path ≠ [] →
        Defaults (load (some (renderText serverLog))).2 (joinKeys (str "log" :: path))) ∧
      ∀ sort (traversal : Traversal (load (some (renderText serverLog))).2),
        getStringList sort traversal.entries (str "log") = [] := by
  have hne : keyOf "log" (by decide) ≠ keyOf "server" (by decide) :=
    fun heq => absurd (congrArg Key.text heq) (by decide)
  have hdefaults := defaults_behind_section (rendering_renderText serverLog) rfl hne
  exact hdefaults

end IMSystem.ConfigTree

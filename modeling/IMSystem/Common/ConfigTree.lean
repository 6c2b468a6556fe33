import IMSystem.Common.ConfigManager

/-!
# Configuration trees (`common/src/config/config_manager.cpp`)

A configuration tree is a map of scalars, lists of scalars and further maps. A
rendering writes it down by indentation; `Load` is meant to flatten it. Maps and
lists may be empty here, and a rendering may hold blank lines and comments.

Results:
1. `loadLines_renders`, `load_rendering`: what `Load` makes of any rendering of a tree.
2. `rendering_renderText`: every tree has a rendering.
-/

namespace IMSystem.ConfigTree

open Lib ConfigManager LoadState

/-! ## Trees -/

/-- A letter, a digit or `_`. -/
def isword (c : UInt8) : Bool :=
  isdigit c || (65 ≤ c && c ≤ 90) || (97 ≤ c && c ≤ 122) || c == chr '_'

/-- A key of a map: a non-empty word. -/
@[ext]
structure Key where
  text : Bytes
  ne_nil : text ≠ []
  word : ∀ c ∈ text, isword c = true
deriving DecidableEq

/-- A scalar: a non-empty text without `#`, quotes and line breaks. -/
structure Scalar where
  text : Bytes
  ne_nil : text ≠ []
  no_hash : chr '#' ∉ text
  no_quote : quote ∉ text
  no_apostrophe : apostrophe ∉ text
  no_break : chr '\n' ∉ text

/-- The entries of a map, in the order of the file. -/
inductive Entries where
  | nil
  | scalar (key : Key) (value : Scalar) (rest : Entries)
  | list (key : Key) (items : List Scalar) (rest : Entries)
  | map (key : Key) (children : Entries) (rest : Entries)

/-- A key or list index path with the value at its end. -/
abbrev Filing := List Bytes × Bytes

namespace Entries

/-- The keys of a map. -/
def keys : Entries → List Key
  | nil => []
  | scalar k _ rest => k :: rest.keys
  | list k _ rest => k :: rest.keys
  | map k _ rest => k :: rest.keys

/-- Inside one map, the keys are distinct. -/
def Distinct : Entries → Prop
  | nil => True
  | scalar k _ rest => k ∉ rest.keys ∧ rest.Distinct
  | list k _ rest => k ∉ rest.keys ∧ rest.Distinct
  | map k children rest => k ∉ rest.keys ∧ children.Distinct ∧ rest.Distinct

/-- The number of scalars in a tree. -/
def scalars : Entries → Nat
  | nil => 0
  | scalar _ _ rest => rest.scalars + 1
  | list _ items rest => items.length + rest.scalars
  | map _ children rest => children.scalars + rest.scalars

/-- The paths of all scalars beneath the path `p`. -/
def flatten (p : List Bytes) : Entries → List Filing
  | nil => []
  | scalar k v rest => (p ++ [k.text], v.text) :: rest.flatten p
  | list k items rest =>
    items.mapIdx (fun i v => (p ++ [k.text] ++ [toDecimal i], v.text)) ++ rest.flatten p
  | map k children rest => children.flatten (p ++ [k.text]) ++ rest.flatten p

end Entries

/-- The filings under their dot-joined paths. -/
def joined (filings : List Filing) : List (Bytes × Bytes) :=
  filings.map fun f => (joinKeys f.1, f.2)

@[simp] theorem joined_append (fs gs : List Filing) : joined (fs ++ gs) = joined fs ++ joined gs :=
  List.map_append

/-! ## Renderings -/

/-- A scalar is written plainly, when it has no blanks at its ends, or in quotes. -/
inductive Scalar.Text (v : Scalar) : Bytes → Prop where
  | plain (h : Trimmed v.text) : v.Text v.text
  | double : v.Text (quote :: (v.text ++ [quote]))
  | single : v.Text (apostrophe :: (v.text ++ [apostrophe]))

/-- `key:` -/
def SectionLine (indent : Nat) (k : Key) (line : Bytes) : Prop :=
  ∃ pre, Blank pre ∧ Line indent (k.text ++ (pre ++ [chr ':'])) line

/-- `key: value` -/
def ScalarLine (indent : Nat) (k : Key) (v : Scalar) (line : Bytes) : Prop :=
  ∃ pre gap q, Blank pre ∧ Blank gap ∧ v.Text q ∧
    Line indent (k.text ++ (pre ++ chr ':' :: (gap ++ q))) line

/-- `- value` -/
def ItemLine (indent : Nat) (v : Scalar) (line : Bytes) : Prop :=
  ∃ gap q, Blank gap ∧ v.Text q ∧ Line indent (str "- " ++ (gap ++ q)) line

/-- The lines of a list whose items share one indentation. -/
inductive RendersItems (indent : Nat) : List Scalar → List Bytes → Prop where
  | nil : RendersItems indent [] []
  | noise {l vs ls} (hl : Noise l) (h : RendersItems indent vs ls) :
      RendersItems indent vs (l :: ls)
  | item {l v vs ls} (hl : ItemLine indent v l) (h : RendersItems indent vs ls) :
      RendersItems indent (v :: vs) (l :: ls)

/-- The lines of a map whose entries share one indentation. What stands beneath a
key is indented deeper than the key. -/
inductive Renders : Nat → Entries → List Bytes → Prop where
  | nil {i} : Renders i .nil []
  | noise {i t l ls} (hl : Noise l) (h : Renders i t ls) : Renders i t (l :: ls)
  | scalar {i k v t l ls} (hl : ScalarLine i k v l) (h : Renders i t ls) :
      Renders i (.scalar k v t) (l :: ls)
  | list {i j k vs t l ms ls} (hl : SectionLine i k l) (hij : i < j) (hitems : RendersItems j vs ms)
      (h : Renders i t ls) : Renders i (.list k vs t) (l :: (ms ++ ls))
  | map {i j k c t l ms ls} (hl : SectionLine i k l) (hij : i < j) (hchildren : Renders j c ms)
      (h : Renders i t ls) : Renders i (.map k c t) (l :: (ms ++ ls))

/-- A text that renders a tree. -/
def Rendering (t : Entries) (text : Bytes) : Prop := ∃ i, Renders i t (getlines text)

/-- `Load` leaves in `config_map_` the flattened tree and nothing else. -/
def Flattens (t : Entries) (text : Bytes) : Prop :=
  ∀ key value, (load (some text)).2 key = some value ↔ (key, value) ∈ joined (t.flatten [])

/-! ## Lines of a rendering -/

theorem isspace_of_isword {c : UInt8} (h : isword c = true) : isspace c = false := by
  have hlow : 48 ≤ c.toNat := by
    simp only [isword, isdigit, Bool.or_eq_true, Bool.and_eq_true, decide_eq_true_eq, beq_iff_eq,
      UInt8.le_iff_toNat_le] at h
    rcases h with ((⟨h, _⟩ | ⟨h, _⟩) | ⟨h, _⟩) | h
    · exact h
    · exact Nat.le_trans (by decide) h
    · exact Nat.le_trans (by decide) h
    · rw [h]
      decide
  rw [Bool.eq_false_iff]
  intro hspace
  simp only [isspace, Bool.or_eq_true, Bool.and_eq_true, decide_eq_true_eq, beq_iff_eq,
    UInt8.le_iff_toNat_le] at hspace
  rcases hspace with rfl | ⟨_, h13⟩
  · exact absurd hlow (by decide)
  · exact absurd (Nat.le_trans hlow h13) (by decide)

/-- A byte that is no word character does not occur in a key. -/
theorem Key.not_mem (k : Key) {c : UInt8} (hc : isword c = false) : c ∉ k.text := by
  intro hmem
  rw [k.word c hmem] at hc
  exact Bool.noConfusion hc

theorem Key.keyText (k : Key) : KeyText k.text where
  head x hx := isspace_of_isword (k.word x (List.mem_of_head? hx))
  last x hx := isspace_of_isword (k.word x (List.mem_of_getLast? hx))
  ne_nil := k.ne_nil
  no_colon := k.not_mem (by decide)
  no_dash h := k.not_mem (c := chr '-') (by decide) (List.mem_of_head? h)

namespace Scalar.Text

variable {v : Scalar} {q : Bytes}

theorem ne_nil (h : v.Text q) : q ≠ [] := by
  cases h with
  | plain => exact v.ne_nil
  | double => simp
  | single => simp

theorem no_hash (h : v.Text q) : chr '#' ∉ q := by
  have hquoted : ∀ c : UInt8, chr '#' ≠ c → chr '#' ∉ c :: (v.text ++ [c]) := by
    intro c hc hmem
    rcases List.mem_cons.mp hmem with heq | hmem
    · exact hc heq
    · rcases List.mem_append.mp hmem with hmem | hmem
      · exact v.no_hash hmem
      · exact hc (List.mem_singleton.mp hmem)
  cases h with
  | plain => exact v.no_hash
  | double => exact hquoted _ (by decide)
  | single => exact hquoted _ (by decide)

theorem trimmed (h : v.Text q) : Trimmed q := by
  have hquoted : ∀ c : UInt8, isspace c = false → Trimmed (c :: (v.text ++ [c])) := by
    intro c hc
    constructor
    · intro x hx
      rw [List.head?_cons, Option.mem_some_iff] at hx
      rw [← hx, hc]
    · intro x hx
      rw [← List.cons_append, List.getLast?_concat, Option.mem_some_iff] at hx
      rw [← hx, hc]
  cases h with
  | plain h => exact h
  | double => exact hquoted _ (by decide)
  | single => exact hquoted _ (by decide)

/-- `Unquote` gives the scalar back. -/
theorem unquote (h : v.Text q) : ConfigManager.unquote q = v.text := by
  cases h with
  | plain => exact unquote_plain v.no_quote v.no_apostrophe
  | double => exact unquote_quoted (.inl rfl) _
  | single => exact unquote_quoted (.inr rfl) _

end Scalar.Text

/-- A text that starts with a key and ends with a text that does not end in a blank. -/
theorem content_of_key (k : Key) {rest : Bytes} (hne : rest ≠ []) (hhash : chr '#' ∉ rest)
    (hlast : ∀ x ∈ rest.getLast?, isspace x = false) : Content (k.text ++ rest) where
  head x hx := by
    rw [List.head?_append_of_ne_nil _ k.ne_nil] at hx
    exact k.keyText.head x hx
  last x hx := by
    rw [List.getLast?_append_of_ne_nil _ hne] at hx
    exact hlast x hx
  ne_nil := by simp [k.ne_nil]
  no_hash hmem := by
    rcases List.mem_append.mp hmem with hmem | hmem
    · exact k.not_mem (by decide) hmem
    · exact hhash hmem

theorem processLine_section {i : Nat} {k : Key} {l : Bytes} (h : SectionLine i k l)
    (s : LoadState) : s.processLine l = (s.unwind i).push k.text i := by
  obtain ⟨pre, hpre, hl⟩ := h
  have hhash : chr '#' ∉ pre ++ [chr ':'] := by
    intro hmem
    rcases List.mem_append.mp hmem with hmem | hmem
    · exact hpre.no_hash hmem
    · exact absurd (List.mem_singleton.mp hmem) (by decide)
  have hcontent : Content (k.text ++ (pre ++ [chr ':'])) := by
    refine content_of_key k (by simp) hhash fun x hx => ?_
    rw [List.getLast?_concat, Option.mem_some_iff] at hx
    rw [← hx]
    decide
  have hblank : Blank [] := nofun
  have hempty : Trimmed [] := ⟨nofun, nofun⟩
  have hkey : (s.unwind i).processContent i (k.text ++ (pre ++ chr ':' :: ([] ++ []))) =
      (s.unwind i).push k.text i := by
    rw [processContent_key k.keyText hpre hblank hempty, if_pos rfl]
  rw [processLine_line hcontent hl]
  exact hkey

theorem processLine_scalar {i : Nat} {k : Key} {v : Scalar} {l : Bytes} (h : ScalarLine i k v l)
    (s : LoadState) : s.processLine l =
      (s.unwind i).put (joinKeys ((s.unwind i).keyStack.reverse ++ [k.text])) v.text := by
  obtain ⟨pre, gap, q, hpre, hgap, hq, hl⟩ := h
  have hcontent : Content (k.text ++ (pre ++ chr ':' :: (gap ++ q))) := by
    refine content_of_key k (by simp) ?_ ?_
    · intro hmem
      rcases List.mem_append.mp hmem with hmem | hmem
      · exact hpre.no_hash hmem
      · rcases List.mem_cons.mp hmem with hmem | hmem
        · exact absurd hmem (by decide)
        · rcases List.mem_append.mp hmem with hmem | hmem
          · exact hgap.no_hash hmem
          · exact hq.no_hash hmem
    · intro x hx
      rw [← List.cons_append, ← List.append_assoc, List.getLast?_append_of_ne_nil _ hq.ne_nil] at hx
      exact hq.trimmed.last x hx
  rw [processLine_line hcontent hl, processContent_key k.keyText hpre hgap hq.trimmed,
    if_neg hq.ne_nil, putScalar_eq _ k.ne_nil, hq.unquote]

theorem processLine_item {j : Nat} {v : Scalar} {l : Bytes} (h : ItemLine j v l)
    (s : LoadState) : s.processLine l = (s.unwind j).putItem v.text := by
  obtain ⟨gap, q, hgap, hq, hl⟩ := h
  have hcontent : Content (str "- " ++ (gap ++ q)) := by
    refine ⟨⟨?_, ?_⟩, List.cons_ne_nil _ _, ?_⟩
    · intro x hx
      obtain rfl : chr '-' = x := Option.some.inj hx
      decide
    · intro x hx
      rw [← List.append_assoc, List.getLast?_append_of_ne_nil _ hq.ne_nil] at hx
      exact hq.trimmed.last x hx
    · intro hmem
      rcases List.mem_append.mp hmem with hmem | hmem
      · exact absurd hmem (by decide)
      · rcases List.mem_append.mp hmem with hmem | hmem
        · exact hgap.no_hash hmem
        · exact hq.no_hash hmem
  rw [processLine_line hcontent hl, processContent_item hgap hq.trimmed, hq.unquote]

/-! ## What Load makes of a rendering -/

/-- The filings of list items at the path `p`. -/
def fileItems (p : List Bytes) (counters : Bytes → Option Nat) : List Scalar → List Filing
  | [] => []
  | v :: vs =>
    (p ++ [toDecimal (nextIndex counters (joinKeys p))], v.text) ::
      fileItems p (countItem counters (joinKeys p)) vs

/-- The counters after some list items at the path `p`. -/
def countItems (p : List Bytes) (counters : Bytes → Option Nat) :
    List Scalar → (Bytes → Option Nat)
  | [] => counters
  | _ :: vs => countItems p (countItem counters (joinKeys p)) vs

namespace Entries

/-- The counters after some entries. -/
def counted (p : List Bytes) (counters : Bytes → Option Nat) : Entries → (Bytes → Option Nat)
  | nil => counters
  | scalar _ _ rest => rest.counted p counters
  | list k items rest =>
    rest.counted (p ++ [k.text]) (countItems (p ++ [k.text]) counters items)
  | map k children rest =>
    rest.counted (p ++ [k.text]) (children.counted (p ++ [k.text]) counters)

/-- The filings of `Load` for entries that it meets with the path `p` on its stack.
The key of a section stays there for the entries behind the section. -/
def filed (p : List Bytes) (counters : Bytes → Option Nat) : Entries → List Filing
  | nil => []
  | scalar k v rest => (p ++ [k.text], v.text) :: rest.filed p counters
  | list k items rest =>
    fileItems (p ++ [k.text]) counters items ++
      rest.filed (p ++ [k.text]) (countItems (p ++ [k.text]) counters items)
  | map k children rest =>
    children.filed (p ++ [k.text]) counters ++
      rest.filed (p ++ [k.text]) (children.counted (p ++ [k.text]) counters)

end Entries

/-- Unwound to the indentation `i`, the stacks hold the path `p` and `indents`. -/
def At (i : Nat) (p : List Bytes) (indents : List Nat) (s : LoadState) : Prop :=
  unwindStacks i s.keyStack s.indentStack = (p.reverse, indents)

theorem At.unwind {i : Nat} {p : List Bytes} {indents : List Nat} {s : LoadState}
    (h : At i p indents s) :
    s.unwind i = { s with keyStack := p.reverse, indentStack := indents } := by
  rw [LoadState.unwind, h]

/-- The line of a section leaves its key on the stack. -/
theorem At.section_line {i : Nat} {p : List Bytes} {indents : List Nat} {s : LoadState} {k : Key}
    {l : Bytes} (h : At i p indents s) (hl : SectionLine i k l) : s.processLine l =
      { s with keyStack := (p ++ [k.text]).reverse, indentStack := i :: indents } := by
  rw [processLine_section hl, h.unwind, List.reverse_concat]
  rfl

/-- An open section stays open for every line that is not indented less. -/
theorem at_section {i j : Nat} (hij : i ≤ j) (p : List Bytes) (indents : List Nat)
    (s : LoadState) (h : s.keyStack = p.reverse ∧ s.indentStack = i :: indents) :
    At j p (i :: indents) s := by
  rw [At, h.1, h.2]
  exact unwindStacks_of_le hij _ _

/-- A line that is indented less closes the section. -/
theorem close_section {i j : Nat} (hji : j < i) (p : List Bytes) (k : Key) (indents : List Nat) :
    unwindStacks j (p ++ [k.text]).reverse (i :: indents) = unwindStacks j p.reverse indents := by
  rw [unwindStacks_of_lt hji, List.reverse_concat, List.tail_cons]

/-- The items of a list are filed beneath the open section. -/
theorem loadLines_items {j : Nat} {vs : List Scalar} {ls : List Bytes} (h : RendersItems j vs ls)
    {p : List Bytes} (hp : joinKeys p ≠ []) {s : LoadState} (hat : At j p s.indentStack s)
    (hkeys : s.keyStack = p.reverse) :
    loadLines s ls = { s with
      listCounters := countItems p s.listCounters vs
      configMap := writeAll s.configMap (joined (fileItems p s.listCounters vs)) } := by
  induction h generalizing s with
  | nil => rfl
  | noise hl _ ih => rw [loadLines_cons, processLine_noise hl, ih hat hkeys]
  | @item l v vs ls hl _ ih =>
    have hsame : s.unwind j = s := by
      rw [hat.unwind, ← hkeys]
    have hpath : s.keyStack.reverse = p := by
      rw [hkeys, List.reverse_reverse]
    have hjoin : s.keyPrefix = joinKeys p := congrArg joinKeys hpath
    rw [loadLines_cons, processLine_item hl, hsame, putItem_eq s (by rw [hjoin]; exact hp), ih]
    · simp only [LoadState.put, hpath, hjoin]
      rfl
    · exact hat
    · exact hkeys

/-- All that the lines of some entries at the indentation `i` do to the loader. -/
structure Files (i : Nat) (p : List Bytes) (indents : List Nat) (t : Entries)
    (s s' : LoadState) : Prop where
  counters : s'.listCounters = t.counted p s.listCounters
  configMap : s'.configMap = writeAll s.configMap (joined (t.filed p s.listCounters))
  unwound : ∀ j, j < i →
    unwindStacks j s'.keyStack s'.indentStack = unwindStacks j p.reverse indents

/-- What `Load` makes of any rendering of some entries. -/
theorem loadLines_renders {i : Nat} {t : Entries} {ls : List Bytes} (h : Renders i t ls)
    {p : List Bytes} {indents : List Nat} {s : LoadState} (hat : At i p indents s) :
    Files i p indents t s (loadLines s ls) := by
  induction h generalizing p indents s with
  | nil =>
    refine ⟨rfl, rfl, fun j hj => ?_⟩
    have hstages := unwindStacks_unwindStacks (Nat.le_of_lt hj) s.keyStack s.indentStack
    rw [hat] at hstages
    exact hstages.symm
  | noise hl _ ih =>
    rw [loadLines_cons, processLine_noise hl]
    exact ih hat
  | @scalar i k v t l ls hl _ ih =>
    have hagain : At i p indents
        ((s.unwind i).put (joinKeys ((s.unwind i).keyStack.reverse ++ [k.text])) v.text) := by
      have hstages := unwindStacks_unwindStacks (Nat.le_refl i) s.keyStack s.indentStack
      rw [hat] at hstages
      rw [hat.unwind]
      exact hstages
    have hfiles := ih hagain
    rw [loadLines_cons, processLine_scalar hl]
    refine ⟨hfiles.counters, ?_, hfiles.unwound⟩
    rw [hfiles.configMap, hat.unwind]
    simp only [LoadState.put, List.reverse_reverse]
    rfl
  | @list i j k vs t l ms ls hl hij hitems _ ih =>
    have hopen := at_section (Nat.le_of_lt hij) (p ++ [k.text]) indents
      { s with keyStack := (p ++ [k.text]).reverse, indentStack := i :: indents } ⟨rfl, rfl⟩
    have hitems' := loadLines_items hitems (joinKeys_concat_ne_nil p k.ne_nil) hopen rfl
    have hfiles := ih (at_section (Nat.le_refl i) (p ++ [k.text]) indents (loadLines _ ms)
      (by rw [hitems']; exact ⟨rfl, rfl⟩))
    rw [hitems'] at hfiles
    rw [loadLines_cons, hat.section_line hl, loadLines_append, hitems']
    refine ⟨hfiles.counters, ?_, ?_⟩
    · rw [hfiles.configMap, Entries.filed, joined_append, writeAll_append]
    · intro j' hj'
      rw [hfiles.unwound j' hj', close_section hj']
  | @map i j k c t l ms ls hl hij _ _ ihc ih =>
    have hchildren := ihc (at_section (Nat.le_of_lt hij) (p ++ [k.text]) indents
      { s with keyStack := (p ++ [k.text]).reverse, indentStack := i :: indents } ⟨rfl, rfl⟩)
    have hfiles := ih ((hchildren.unwound i hij).trans (unwindStacks_of_le (Nat.le_refl i) _ _))
    rw [loadLines_cons, hat.section_line hl, loadLines_append]
    refine ⟨?_, ?_, ?_⟩
    · rw [hfiles.counters, hchildren.counters]
      rfl
    · rw [hfiles.configMap, hchildren.configMap, hchildren.counters, Entries.filed,
        joined_append, writeAll_append]
    · intro j' hj'
      rw [hfiles.unwound j' hj', close_section hj']

theorem load_rendering {t : Entries} {text : Bytes} (h : Rendering t text) :
    (load (some text)).2 =
      writeAll (fun _ => none) (joined (t.filed [] fun _ => none)) := by
  obtain ⟨i, hrenders⟩ := h
  have hat : At i [] [] .start := rfl
  exact (loadLines_renders hrenders hat).configMap

/-! ## A canonical rendering -/

/-- A value in double quotes. -/
def Scalar.quoted (v : Scalar) : Bytes := quote :: (v.text ++ [quote])

/-- The lines of a tree, two blanks deeper for every level, all values quoted. -/
def render (indent : Nat) : Entries → List Bytes
  | .nil => []
  | .scalar k v rest =>
    (List.replicate indent (chr ' ') ++ (k.text ++ (str ": " ++ v.quoted))) :: render indent rest
  | .list k vs rest =>
    (List.replicate indent (chr ' ') ++ (k.text ++ str ":")) ::
      (vs.map (fun v => List.replicate (indent + 2) (chr ' ') ++ (str "- " ++ v.quoted)) ++
        render indent rest)
  | .map k children rest =>
    (List.replicate indent (chr ' ') ++ (k.text ++ str ":")) ::
      (render (indent + 2) children ++ render indent rest)

/-- The text of a tree. -/
def renderText (t : Entries) : Bytes := (render 0 t).flatMap (· ++ [chr '\n'])

theorem line_plain (indent : Nat) (c : Bytes) :
    Line indent c (List.replicate indent (chr ' ') ++ c) :=
  ⟨[], .blank nofun, by rw [List.append_nil]⟩

theorem rendersItems_quoted (indent : Nat) (vs : List Scalar) :
    RendersItems indent vs
      (vs.map fun v => List.replicate indent (chr ' ') ++ (str "- " ++ v.quoted)) := by
  induction vs with
  | nil => exact .nil
  | cons v vs ih => exact .item ⟨[], v.quoted, nofun, .double, line_plain _ _⟩ ih

theorem renders_render (indent : Nat) (t : Entries) : Renders indent t (render indent t) := by
  have hsection : ∀ (i : Nat) (k : Key),
      SectionLine i k (List.replicate i (chr ' ') ++ (k.text ++ str ":")) :=
    fun i k => ⟨[], nofun, line_plain _ _⟩
  have hgap : Blank [chr ' '] := by
    intro c hc
    rw [List.mem_singleton.mp hc]
    decide
  induction t generalizing indent with
  | nil => exact .nil
  | scalar k v rest ih =>
    exact .scalar ⟨[], [chr ' '], v.quoted, nofun, hgap, .double, line_plain _ _⟩ (ih indent)
  | list k vs rest ih =>
    exact .list (hsection indent k) (Nat.lt_add_of_pos_right (by decide))
      (rendersItems_quoted (indent + 2) vs) (ih indent)
  | map k c rest ihc ih =>
    exact .map (hsection indent k) (Nat.lt_add_of_pos_right (by decide)) (ihc (indent + 2))
      (ih indent)

theorem Scalar.quoted_no_break (v : Scalar) : chr '\n' ∉ v.quoted := by
  intro hmem
  rcases List.mem_cons.mp hmem with heq | hmem
  · exact absurd heq (by decide)
  · rcases List.mem_append.mp hmem with hmem | hmem
    · exact v.no_break hmem
    · exact absurd (List.mem_singleton.mp hmem) (by decide)

/-- A line of the rendering holds no line break. -/
theorem render_no_break (indent : Nat) (t : Entries) : ∀ l ∈ render indent t, chr '\n' ∉ l := by
  have hline : ∀ (n : Nat) (c : Bytes), chr '\n' ∉ c →
      chr '\n' ∉ List.replicate n (chr ' ') ++ c := by
    intro n c hc hmem
    rcases List.mem_append.mp hmem with hmem | hmem
    · exact absurd (List.eq_of_mem_replicate hmem) (by decide)
    · exact hc hmem
  have hkey : ∀ (k : Key) (c : Bytes), chr '\n' ∉ c → chr '\n' ∉ k.text ++ c := by
    intro k c hc hmem
    rcases List.mem_append.mp hmem with hmem | hmem
    · exact k.not_mem (by decide) hmem
    · exact hc hmem
  have hvalue : ∀ (a : Bytes) (v : Scalar), chr '\n' ∉ a → chr '\n' ∉ a ++ v.quoted := by
    intro a v ha hmem
    rcases List.mem_append.mp hmem with hmem | hmem
    · exact ha hmem
    · exact v.quoted_no_break hmem
  induction t generalizing indent with
  | nil => nofun
  | scalar k v rest ih =>
    intro l hl
    rcases List.mem_cons.mp hl with rfl | hl
    · exact hline _ _ (hkey k _ (hvalue _ v (by decide)))
    · exact ih indent l hl
  | list k vs rest ih =>
    intro l hl
    rcases List.mem_cons.mp hl with rfl | hl
    · exact hline _ _ (hkey k _ (by decide))
    · rcases List.mem_append.mp hl with hl | hl
      · obtain ⟨v, _, rfl⟩ := List.mem_map.mp hl
        exact hline _ _ (hvalue _ v (by decide))
      · exact ih indent l hl
  | map k c rest ihc ih =>
    intro l hl
    rcases List.mem_cons.mp hl with rfl | hl
    · exact hline _ _ (hkey k _ (by decide))
    · rcases List.mem_append.mp hl with hl | hl
      · exact ihc (indent + 2) l hl
      · exact ih indent l hl

/-- Every tree has a rendering. -/
theorem rendering_renderText (t : Entries) : Rendering t (renderText t) := by
  refine ⟨0, ?_⟩
  rw [renderText, getlines_flatMap (render_no_break 0 t)]
  exact renders_render 0 t

end IMSystem.ConfigTree

import IMSystem.Lib.Bytes
import IMSystem.Lib.LastWrite
import Mathlib.Data.List.DropRight

/-!
# The configuration loader (`common/src/config/config_manager.cpp`)

`Load` reads a subset of YAML line by line and flattens it into `config_map_`.
Two parallel stacks hold the keys of the open sections and their indentation.

Counts of blanks and list items are natural numbers here; they are `int` in the
source, which overflows only beyond 2^31.

Results:
1. `processLine_noise`, `processLine_line`: a comment or blank line does nothing, any
   other acts by its content and its indentation.
2. `processContent_item`, `processContent_key`: what a list item and a key do.
3. `joinKeys_inj`, `count_joinKeys`: joining by dots keeps paths apart.
4. `unwindStacks_unwindStacks`: the stacks may be unwound in stages.
-/

namespace IMSystem.ConfigManager

open Lib

/-! ## Text helpers -/

/-- `Trim`. -/
def trim (s : Bytes) : Bytes := (s.dropWhile isspace).rdropWhile isspace

/-- `StartsWith`. -/
def startsWith (s pre : Bytes) : Bool := pre.isPrefixOf s

def quote : UInt8 := chr '"'
def apostrophe : UInt8 := chr '\''

/-- `Unquote`: one pair of equal quotes around the value is taken off. -/
def unquote (v : Bytes) : Bytes :=
  if 2 ≤ v.length ∧ ((v.head? = some quote ∧ v.getLast? = some quote) ∨
      (v.head? = some apostrophe ∧ v.getLast? = some apostrophe)) then
    v.tail.dropLast
  else v

/-- `CountLeadingSpaces`. -/
def countLeadingSpaces (s : Bytes) : Nat := (s.takeWhile (· == chr ' ')).length

/-- The loop of `StripInlineComment` behind the byte `prev`. -/
def stripBehind (prev : UInt8) : Bytes → Bytes
  | [] => []
  | c :: s => if c = chr '#' ∧ isspace prev = true then [] else c :: stripBehind c s

/-- `StripInlineComment`. A `#` at the start of the line is treated as one behind a blank. -/
def stripInlineComment (s : Bytes) : Bytes := stripBehind (chr ' ') s

/-- `JoinKeys`. -/
def joinKeys (stack : List Bytes) : Bytes :=
  stack.foldl (fun out k => if k = [] then out else if out = [] then k
    else out ++ chr '.' :: k) []

/-! ## Loading -/

/-- The variables of `Load`. The stacks are listed from their tops. -/
structure LoadState where
  keyStack : List Bytes
  indentStack : List Nat
  /-- `list_counters`: the next index under a prefix. -/
  listCounters : Bytes → Option Nat
  configMap : Bytes → Option Bytes

/-- The variables at the start of `Load`, after `config_map_.clear()`. -/
def LoadState.start : LoadState := ⟨[], [], fun _ => none, fun _ => none⟩

/-- Indent stack maintenance: sections that are indented deeper than the line are
closed. A section at the indentation of the line stays open. -/
def unwindStacks (indent : Nat) : List Bytes → List Nat → List Bytes × List Nat
  | keys, top :: indents =>
    if indent < top then unwindStacks indent keys.tail indents else (keys, top :: indents)
  | keys, [] => (keys, [])

namespace LoadState

def unwind (s : LoadState) (indent : Nat) : LoadState :=
  { s with
    keyStack := (unwindStacks indent s.keyStack s.indentStack).1
    indentStack := (unwindStacks indent s.keyStack s.indentStack).2 }

/-- `JoinKeys(key_stack)`. -/
def keyPrefix (s : LoadState) : Bytes := joinKeys s.keyStack.reverse

/-- `config_map_[key] = value`. -/
def put (s : LoadState) (key value : Bytes) : LoadState :=
  { s with configMap := write s.configMap (key, value) }

/-- `key_stack.push_back(key)` and `indent_stack.push_back(indent)`. -/
def push (s : LoadState) (key : Bytes) (indent : Nat) : LoadState :=
  { s with keyStack := key :: s.keyStack, indentStack := indent :: s.indentStack }

/-- The index of the next list item under `pre`. -/
def nextIndex (counters : Bytes → Option Nat) (pre : Bytes) : Nat := (counters pre).getD 0

/-- The counters after one more item under `pre`. -/
def countItem (counters : Bytes → Option Nat) (pre : Bytes) : Bytes → Option Nat :=
  write counters (pre, nextIndex counters pre + 1)

/-- A list item is stored under the open sections and its index. -/
def putItem (s : LoadState) (value : Bytes) : LoadState :=
  if s.keyPrefix = [] then s
  else
    { s.put (s.keyPrefix ++ chr '.' :: toDecimal (nextIndex s.listCounters s.keyPrefix)) value with
      listCounters := countItem s.listCounters s.keyPrefix }

/-- A key with a value is stored under the open sections. -/
def putScalar (s : LoadState) (key value : Bytes) : LoadState :=
  let fullKey := if s.keyPrefix = [] then key else s.keyPrefix ++ chr '.' :: key
  s.put fullKey (unquote value)

/-- The loop body behind the indent stack maintenance: list items and keys. -/
def processContent (s : LoadState) (indent : Nat) (content : Bytes) : LoadState :=
  if startsWith content (str "- ") then
    s.putItem (unquote (trim (trim (content.drop 2))))
  else if chr ':' ∉ content then s
  else
    let key := trim (content.takeWhile (· != chr ':'))
    let rest := trim (content.dropWhile (· != chr ':')).tail
    if key = [] then s
    else if rest = [] then s.push key indent
    else s.putScalar key rest

/-- One turn of the loop over the lines. -/
def processLine (s : LoadState) (line : Bytes) : LoadState :=
  let raw := stripInlineComment line
  if trim raw = [] then s
  else (s.unwind (countLeadingSpaces raw)).processContent (countLeadingSpaces raw) (trim raw)

end LoadState

/-- The state after some lines. -/
def loadLines (s : LoadState) (lines : List Bytes) : LoadState :=
  lines.foldl LoadState.processLine s

@[simp] theorem loadLines_cons (s : LoadState) (l : Bytes) (ls : List Bytes) :
    loadLines s (l :: ls) = loadLines (s.processLine l) ls := rfl

@[simp] theorem loadLines_append (s : LoadState) (ls ls' : List Bytes) :
    loadLines s (ls ++ ls') = loadLines (loadLines s ls) ls' :=
  List.foldl_append

/-- `Load`: its answer and the `config_map_` it leaves. `file` is what the file
holds, or `none` when it cannot be opened. -/
def load : Option Bytes → Bool × (Bytes → Option Bytes)
  | none => (false, fun _ => none)
  | some text => (true, (loadLines .start (getlines text)).configMap)

/-! ## Reading a line -/

/-- White space only. -/
def Blank (b : Bytes) : Prop := ∀ c ∈ b, isspace c = true

/-- No white space at either end. -/
structure Trimmed (c : Bytes) : Prop where
  head : ∀ x ∈ c.head?, isspace x = false
  last : ∀ x ∈ c.getLast?, isspace x = false

/-- What starts and ends without white space is trimmed. -/
theorem trimmed_append {a b : Bytes} (ha : a ≠ []) (hb : b ≠ [])
    (hhead : ∀ x ∈ a.head?, isspace x = false) (hlast : ∀ x ∈ b.getLast?, isspace x = false) :
    Trimmed (a ++ b) where
  head x hx := by
    rw [List.head?_append_of_ne_nil _ ha] at hx
    exact hhead x hx
  last x hx := by
    rw [List.getLast?_append_of_ne_nil _ hb] at hx
    exact hlast x hx

theorem dropWhile_blank_append {b c : Bytes} (hb : Blank b)
    (hc : ∀ x ∈ c.head?, isspace x = false) : (b ++ c).dropWhile isspace = c := by
  rw [List.dropWhile_append_of_pos hb]
  cases c with
  | nil => rfl
  | cons x xs => rw [List.dropWhile_cons_of_neg (by simp [hc x rfl])]

theorem trim_blank {b : Bytes} (hb : Blank b) : trim b = [] := by
  have hdrop := dropWhile_blank_append (c := []) hb (by simp)
  rw [List.append_nil] at hdrop
  rw [trim, hdrop, List.rdropWhile_nil]

/-- `Trim` takes off the blanks around a trimmed text. -/
theorem trim_append {a b c : Bytes} (ha : Blank a) (hc : Trimmed c) (hb : Blank b) :
    trim (a ++ (c ++ b)) = c := by
  cases hcase : c with
  | nil =>
    rw [List.nil_append]
    refine trim_blank fun x hx => ?_
    rcases List.mem_append.mp hx with hx | hx
    · exact ha x hx
    · exact hb x hx
  | cons x xs =>
    rw [← hcase]
    have hhead : ∀ y ∈ (c ++ b).head?, isspace y = false := by
      intro y hy
      rw [hcase, List.cons_append, List.head?_cons] at hy
      exact hc.head y (by rw [hcase]; exact hy)
    have hlast : ∀ y ∈ c.reverse.head?, isspace y = false := by
      intro y hy
      rw [List.head?_reverse] at hy
      exact hc.last y hy
    have hrev : Blank b.reverse := fun y hy => hb y (List.mem_reverse.mp hy)
    rw [trim, dropWhile_blank_append ha hhead, List.rdropWhile, List.reverse_append,
      dropWhile_blank_append hrev hlast, List.reverse_reverse]

theorem trim_of_trimmed {c : Bytes} (hc : Trimmed c) : trim c = c := by
  have h := trim_append (a := []) (b := []) (by simp [Blank]) hc (by simp [Blank])
  simpa using h

theorem stripBehind_of_not_mem {prev : UInt8} {s : Bytes} (h : chr '#' ∉ s) :
    stripBehind prev s = s := by
  induction s generalizing prev with
  | nil => rfl
  | cons c s ih =>
    rw [List.mem_cons, not_or] at h
    rw [stripBehind, if_neg (fun hc => h.1 hc.1.symm), ih h.2]

theorem stripBehind_append {prev : UInt8} {s t : Bytes} (h : chr '#' ∉ s) :
    stripBehind prev (s ++ t) = s ++ stripBehind (s.getLastD prev) t := by
  induction s generalizing prev with
  | nil => rfl
  | cons c s ih =>
    rw [List.mem_cons, not_or] at h
    rw [List.cons_append, stripBehind, if_neg (fun hc => h.1 hc.1.symm), ih h.2,
      List.getLastD_cons, List.cons_append]

/-- A `#` behind a blank ends the line. -/
theorem stripBehind_hash {prev : UInt8} (h : isspace prev = true) (s : Bytes) :
    stripBehind prev (chr '#' :: s) = [] := by
  rw [stripBehind, if_pos ⟨rfl, h⟩]

/-- What may stand behind the content of a line: blanks, and a comment set off by
a blank. -/
inductive Trailer : Bytes → Prop where
  | blank {b : Bytes} (hb : Blank b) : Trailer b
  | comment {b : Bytes} (hb : Blank b) (hne : b ≠ []) (text : Bytes) : Trailer (b ++ chr '#' :: text)

/-- A line without content: blanks, and possibly a comment. -/
inductive Noise : Bytes → Prop where
  | blank {b : Bytes} (hb : Blank b) : Noise b
  | comment {b : Bytes} (hb : Blank b) (text : Bytes) : Noise (b ++ chr '#' :: text)

theorem Blank.no_hash {b : Bytes} (hb : Blank b) : chr '#' ∉ b := fun h => by
  exact absurd (hb _ h) (by decide)

/-- `StripInlineComment` leaves of a trailer its blanks. -/
theorem Trailer.strip {t : Bytes} (ht : Trailer t) (prev : UInt8) :
    ∃ b, Blank b ∧ stripBehind prev t = b := by
  cases ht with
  | blank hb => exact ⟨t, hb, stripBehind_of_not_mem hb.no_hash⟩
  | comment hb hne text =>
    rename_i b
    refine ⟨b, hb, ?_⟩
    rw [stripBehind_append hb.no_hash, stripBehind_hash, List.append_nil]
    rw [List.getLastD_eq_getLast?, List.getLast?_eq_some_getLast hne]
    exact hb _ (List.getLast_mem hne)

theorem Noise.strip {l : Bytes} (hl : Noise l) : Blank (stripInlineComment l) := by
  cases hl with
  | blank hb =>
    rw [stripInlineComment, stripBehind_of_not_mem hb.no_hash]
    exact hb
  | comment hb text =>
    rename_i b
    rw [stripInlineComment, stripBehind_append hb.no_hash, stripBehind_hash, List.append_nil]
    · exact hb
    · cases hcase : b.getLast? with
      | none => simp [List.getLastD_eq_getLast?, hcase]; decide
      | some x =>
        rw [List.getLastD_eq_getLast?, hcase]
        exact hb _ (List.mem_of_getLast? hcase)

/-- The text of a line between its indentation and its trailer. -/
structure Content (c : Bytes) : Prop extends Trimmed c where
  ne_nil : c ≠ []
  no_hash : chr '#' ∉ c

/-- A line with the content `c`, indented by `indent` blanks. -/
def Line (indent : Nat) (c : Bytes) (line : Bytes) : Prop :=
  ∃ t, Trailer t ∧ line = List.replicate indent (chr ' ') ++ (c ++ t)

theorem blank_replicate (n : Nat) : Blank (List.replicate n (chr ' ')) := by
  intro c hc
  rw [List.eq_of_mem_replicate hc]
  decide

theorem countLeadingSpaces_append {n : Nat} {c : Bytes} (hc : c.head? ≠ some (chr ' ')) :
    countLeadingSpaces (List.replicate n (chr ' ') ++ c) = n := by
  have hspaces : ∀ x ∈ List.replicate n (chr ' '), (x == chr ' ') = true := by
    intro x hx
    rw [List.eq_of_mem_replicate hx]
    decide
  have hstop : c.takeWhile (· == chr ' ') = [] := by
    cases c with
    | nil => rfl
    | cons x xs =>
      refine List.takeWhile_cons_of_neg fun hx => hc ?_
      rw [beq_iff_eq.mp hx]
      rfl
  rw [countLeadingSpaces, List.takeWhile_append_of_pos hspaces, hstop, List.append_nil,
    List.length_replicate]

theorem countLeadingSpaces_replicate {n : Nat} {c : Bytes}
    (hc : ∀ x ∈ c.head?, isspace x = false) :
    countLeadingSpaces (List.replicate n (chr ' ') ++ c) = n :=
  countLeadingSpaces_append fun hspace => absurd (hc _ hspace) (by decide)

namespace LoadState

/-- A line without content changes nothing. -/
theorem processLine_noise {l : Bytes} (hl : Noise l) (s : LoadState) : s.processLine l = s := by
  rw [processLine, if_pos (trim_blank hl.strip)]

/-- A line acts by what is left of it between its indentation and its trailing
blanks, on the stacks unwound to its indentation. -/
theorem processLine_stripped {i : Nat} {c b l : Bytes} (hc : Trimmed c) (hne : c ≠ []) (hb : Blank b)
    (hl : stripInlineComment l = List.replicate i (chr ' ') ++ (c ++ b)) (s : LoadState) :
    s.processLine l = (s.unwind i).processContent i c := by
  have htrim : trim (List.replicate i (chr ' ') ++ (c ++ b)) = c :=
    trim_append (blank_replicate i) hc hb
  have hindent : countLeadingSpaces (List.replicate i (chr ' ') ++ (c ++ b)) = i := by
    refine countLeadingSpaces_replicate fun x hx => ?_
    obtain ⟨y, ys, rfl⟩ := List.exists_cons_of_ne_nil hne
    exact hc.head x hx
  rw [processLine, hl, htrim, hindent, if_neg hne]

/-- A line with content acts on the stacks unwound to its indentation. -/
theorem processLine_line {i : Nat} {c l : Bytes} (hc : Content c) (hl : Line i c l)
    (s : LoadState) : s.processLine l = (s.unwind i).processContent i c := by
  obtain ⟨t, ht, rfl⟩ := hl
  obtain ⟨b, hb, hstrip⟩ := ht.strip (c.getLastD
    ((List.replicate i (chr ' ')).getLastD (chr ' ')))
  refine processLine_stripped hc.toTrimmed hc.ne_nil hb ?_ s
  rw [stripInlineComment, stripBehind_append (blank_replicate i).no_hash,
    stripBehind_append hc.no_hash, hstrip]

end LoadState

/-! ## Keys and values -/

/-- A text in equal quotes is unquoted to what stands between them. -/
theorem unquote_quoted {q : UInt8} (hq : q = quote ∨ q = apostrophe) (v : Bytes) :
    unquote (q :: (v ++ [q])) = v := by
  have hlast : (q :: (v ++ [q])).getLast? = some q := by
    rw [← List.cons_append, List.getLast?_concat]
  unfold unquote
  rw [if_pos]
  · rw [List.tail_cons, List.dropLast_concat]
  · refine ⟨by simp, ?_⟩
    rcases hq with rfl | rfl
    · exact .inl ⟨rfl, hlast⟩
    · exact .inr ⟨rfl, hlast⟩

theorem unquote_plain {v : Bytes} (hq : quote ∉ v) (ha : apostrophe ∉ v) : unquote v = v := by
  unfold unquote
  rw [if_neg]
  rintro ⟨_, ⟨h, _⟩ | ⟨h, _⟩⟩
  · exact hq (List.mem_of_head? h)
  · exact ha (List.mem_of_head? h)

/-- What the loader takes for one key in front of a colon. -/
structure KeyText (k : Bytes) : Prop extends Trimmed k where
  ne_nil : k ≠ []
  no_colon : chr ':' ∉ k
  no_dash : k.head? ≠ some (chr '-')

theorem KeyText.not_item {k : Bytes} (hk : KeyText k) (rest : Bytes) :
    startsWith (k ++ rest) (str "- ") = false := by
  cases hcase : k with
  | nil => exact absurd hcase hk.ne_nil
  | cons x xs =>
    have hdash : (chr '-' == x) = false := by
      rw [beq_eq_false_iff_ne]
      rintro rfl
      exact hk.no_dash (by rw [hcase]; rfl)
    show (chr '-' :: str " ").isPrefixOf (x :: (xs ++ rest)) = false
    rw [List.isPrefixOf_cons_cons, hdash, Bool.false_and]

/-- The text in front of the first colon, and the text behind it. -/
theorem split_at_colon {a : Bytes} (ha : chr ':' ∉ a) (b : Bytes) :
    (a ++ chr ':' :: b).takeWhile (· != chr ':') = a ∧
      (a ++ chr ':' :: b).dropWhile (· != chr ':') = chr ':' :: b := by
  have hall : ∀ x ∈ a, (x != chr ':') = true := by
    intro x hx
    rw [bne_iff_ne]
    rintro rfl
    exact ha hx
  constructor
  · rw [List.takeWhile_append_of_pos hall, List.takeWhile_cons_of_neg (by simp), List.append_nil]
  · rw [List.dropWhile_append_of_pos hall, List.dropWhile_cons_of_neg (by simp)]

namespace LoadState

/-- A list item. -/
theorem processContent_item {gap q : Bytes} (hgap : Blank gap) (hq : Trimmed q) (s : LoadState)
    (i : Nat) : s.processContent i (str "- " ++ (gap ++ q)) = s.putItem (unquote q) := by
  have hstart : startsWith (str "- " ++ (gap ++ q)) (str "- ") = true :=
    List.isPrefixOf_iff_prefix.mpr (List.prefix_append _ _)
  have hdrop : (str "- " ++ (gap ++ q)).drop 2 = gap ++ q := rfl
  have htrim : trim (gap ++ q) = q := by
    simpa using trim_append (b := []) hgap hq (by simp [Blank])
  rw [processContent, if_pos hstart, hdrop, htrim, trim_of_trimmed hq]

/-- A key, and what stands behind its colon. -/
theorem processContent_entry {k pre gap q : Bytes} (hk : Trimmed k) (hne : k ≠ [])
    (hno : chr ':' ∉ k) (hpre : Blank pre) (hgap : Blank gap) (hq : Trimmed q)
    (hitem : startsWith (k ++ (pre ++ chr ':' :: (gap ++ q))) (str "- ") = false) (s : LoadState)
    (i : Nat) :
    s.processContent i (k ++ (pre ++ chr ':' :: (gap ++ q))) =
      if q = [] then s.push k i else s.putScalar k q := by
  have hcolon : chr ':' ∉ k ++ pre := by
    intro hmem
    rcases List.mem_append.mp hmem with hmem | hmem
    · exact hno hmem
    · exact absurd (hpre _ hmem) (by decide)
  have hkey : trim (k ++ pre) = k := by
    simpa using trim_append (a := []) (by simp [Blank]) hk hpre
  have hrest : trim (gap ++ q) = q := by
    simpa using trim_append (b := []) hgap hq (by simp [Blank])
  obtain ⟨htake, hdrop⟩ := split_at_colon hcolon (gap ++ q)
  rw [processContent, hitem, if_neg Bool.false_ne_true, if_neg (not_not.mpr (by simp)),
    ← List.append_assoc, htake, hdrop, List.tail_cons, hkey, hrest, if_neg hne]

theorem processContent_key {k pre gap q : Bytes} (hk : KeyText k) (hpre : Blank pre)
    (hgap : Blank gap) (hq : Trimmed q) (s : LoadState) (i : Nat) :
    s.processContent i (k ++ (pre ++ chr ':' :: (gap ++ q))) =
      if q = [] then s.push k i else s.putScalar k q :=
  processContent_entry hk.toTrimmed hk.ne_nil hk.no_colon hpre hgap hq (hk.not_item _) s i

end LoadState

/-! ## Joined keys -/

@[simp] theorem joinKeys_nil : joinKeys [] = [] := rfl

theorem joinKeys_concat (p : List Bytes) {k : Bytes} (hk : k ≠ []) :
    joinKeys (p ++ [k]) = if joinKeys p = [] then k else joinKeys p ++ chr '.' :: k := by
  rw [joinKeys, List.foldl_append]
  simp only [List.foldl_cons, List.foldl_nil, if_neg hk]
  rfl

theorem joinKeys_concat_ne_nil (p : List Bytes) {k : Bytes} (hk : k ≠ []) :
    joinKeys (p ++ [k]) ≠ [] := by
  rw [joinKeys_concat p hk]
  split
  · exact hk
  · simp

/-- A path of keys that joining by dots keeps apart. -/
def DotFree (p : List Bytes) : Prop := ∀ k ∈ p, k ≠ [] ∧ chr '.' ∉ k

theorem DotFree.concat {p : List Bytes} {k : Bytes} (hp : DotFree p) (hk : k ≠ [])
    (hdot : chr '.' ∉ k) : DotFree (p ++ [k]) := by
  intro k' hk'
  rcases List.mem_append.mp hk' with hmem | hmem
  · exact hp k' hmem
  · rw [List.mem_singleton.mp hmem]
    exact ⟨hk, hdot⟩

theorem DotFree.front {p : List Bytes} {k : Bytes} (h : DotFree (p ++ [k])) : DotFree p :=
  fun k' hk' => h k' (List.mem_append_left _ hk')

theorem DotFree.last {p : List Bytes} {k : Bytes} (h : DotFree (p ++ [k])) :
    k ≠ [] ∧ chr '.' ∉ k :=
  h k (by simp)

theorem joinKeys_eq_nil {p : List Bytes} (hp : DotFree p) : joinKeys p = [] ↔ p = [] := by
  constructor
  · intro h
    rcases List.eq_nil_or_concat' p with rfl | ⟨q, k, rfl⟩
    · rfl
    · exact absurd h (joinKeys_concat_ne_nil q hp.last.1)
  · rintro rfl
    rfl

/-- The last key of a path can be read off behind the last dot. -/
theorem afterLast_joinKeys {p : List Bytes} {k : Bytes} (h : DotFree (p ++ [k])) :
    afterLast (chr '.') (joinKeys (p ++ [k])) = if p = [] then none else some k := by
  rw [joinKeys_concat p h.last.1]
  by_cases hp : p = []
  · rw [if_pos ((joinKeys_eq_nil h.front).mpr hp), if_pos hp, afterLast_eq_none h.last.2]
  · rw [if_neg (mt (joinKeys_eq_nil h.front).mp hp), if_neg hp, afterLast_append _ h.last.2]

/-- Different paths have different joined keys. -/
theorem joinKeys_inj {p q : List Bytes} (hp : DotFree p) (hq : DotFree q)
    (h : joinKeys p = joinKeys q) : p = q := by
  induction p using List.reverseRecOn generalizing q with
  | nil => exact ((joinKeys_eq_nil hq).mp (h.symm.trans joinKeys_nil)).symm
  | append_singleton p k ih =>
    rcases List.eq_nil_or_concat' q with rfl | ⟨q, k', rfl⟩
    · exact absurd h (joinKeys_concat_ne_nil p hp.last.1)
    have hlast := congrArg (afterLast (chr '.')) h
    rw [afterLast_joinKeys hp, afterLast_joinKeys hq] at hlast
    rw [joinKeys_concat p hp.last.1, joinKeys_concat q hq.last.1] at h
    by_cases hpn : p = [] <;> by_cases hqn : q = []
    · subst hpn hqn
      rw [joinKeys_nil, if_pos rfl, if_pos rfl] at h
      rw [h]
    · simp [hpn, hqn] at hlast
    · simp [hpn, hqn] at hlast
    · rw [if_neg hpn, if_neg hqn, Option.some.injEq] at hlast
      subst hlast
      rw [if_neg (mt (joinKeys_eq_nil hp.front).mp hpn),
        if_neg (mt (joinKeys_eq_nil hq.front).mp hqn), List.append_cancel_right_eq] at h
      rw [ih hp.front hq.front h]

/-- A joined key has one dot between any two keys of the path. -/
theorem count_joinKeys {p : List Bytes} (hp : DotFree p) (hne : p ≠ []) :
    (joinKeys p).count (chr '.') + 1 = p.length := by
  induction p using List.reverseRecOn with
  | nil => exact absurd rfl hne
  | append_singleton p k ih =>
    have hk : k.count (chr '.') = 0 := List.count_eq_zero.mpr hp.last.2
    rw [joinKeys_concat p hp.last.1, List.length_append, List.length_singleton]
    by_cases hpn : p = []
    · subst hpn
      rw [joinKeys_nil, if_pos rfl, hk]
      rfl
    · rw [if_neg (mt (joinKeys_eq_nil hp.front).mp hpn), List.count_append, List.count_cons_self,
        hk, ← ih hp.front hpn]

/-! ## The stacks -/

/-- The stacks may be unwound in stages. -/
theorem unwindStacks_unwindStacks {i j : Nat} (h : i ≤ j) (keys : List Bytes)
    (indents : List Nat) :
    unwindStacks i (unwindStacks j keys indents).1 (unwindStacks j keys indents).2 =
      unwindStacks i keys indents := by
  induction indents generalizing keys with
  | nil => rfl
  | cons top indents ih =>
    by_cases hj : j < top
    · rw [unwindStacks, if_pos hj, ih, unwindStacks, if_pos (Nat.lt_of_le_of_lt h hj)]
    · rw [unwindStacks, if_neg hj]

theorem unwindStacks_of_le {i top : Nat} (h : top ≤ i) (keys : List Bytes) (indents : List Nat) :
    unwindStacks i keys (top :: indents) = (keys, top :: indents) := by
  rw [unwindStacks, if_neg (Nat.not_lt.mpr h)]

theorem unwindStacks_of_lt {i top : Nat} (h : i < top) (keys : List Bytes) (indents : List Nat) :
    unwindStacks i keys (top :: indents) = unwindStacks i keys.tail indents := by
  rw [unwindStacks, if_pos h]

namespace LoadState

/-- A scalar is stored at the joined path of the open sections and its key. -/
theorem putScalar_eq (s : LoadState) {k : Bytes} (hk : k ≠ []) (q : Bytes) :
    s.putScalar k q = s.put (joinKeys (s.keyStack.reverse ++ [k])) (unquote q) := by
  rw [putScalar, joinKeys_concat _ hk]
  rfl

/-- Beneath a section, an item is stored at the joined path of the open sections
and its index. -/
theorem putItem_eq (s : LoadState) (h : s.keyPrefix ≠ []) (v : Bytes) :
    s.putItem v =
      { s.put (joinKeys (s.keyStack.reverse ++
          [toDecimal (nextIndex s.listCounters s.keyPrefix)])) v with
        listCounters := countItem s.listCounters s.keyPrefix } := by
  have hjoin : joinKeys s.keyStack.reverse ≠ [] := h
  rw [putItem, if_neg h, joinKeys_concat _ (toDecimal_ne_nil _), if_neg hjoin]
  rfl

end LoadState

end IMSystem.ConfigManager

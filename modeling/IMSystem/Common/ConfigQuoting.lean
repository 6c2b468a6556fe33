import IMSystem.Common.ConfigManager
import Mathlib.Data.Bool.AllAny

/-!
# Quoted values (`common/src/config/config_manager.cpp`)

A value in quotes is meant to be stored as it stands between them. Comments are
stripped before the quotes are looked at, so a `#` behind a blank ends the value
also inside of quotes.

Results:
1. `cut_cases`: what is left of a quoted value.
2. `unquote_cutQuoted_iff`: when it is the whole value.
3. `quoted_stored_iff`: when `Load` stores a quoted value as it stands.
-/

namespace IMSystem.ConfigManager

open Lib

/-! ## Lines -/

/-- A non-empty key without `:`, `#` and white space. -/
structure PlainKey where
  text : Bytes
  ne_nil : text ≠ []
  plain : ∀ c ∈ text, c ≠ chr ':' ∧ c ≠ chr '#' ∧ isspace c = false

/-- `"s"` -/
def quoted (s : Bytes) : Bytes := quote :: (s ++ [quote])

/-- `key: "s"` -/
def keyLine (key : PlainKey) (s : Bytes) : Bytes := key.text ++ chr ':' :: chr ' ' :: quoted s

/-- `h:`, indented by `i` blanks. -/
def headerLine (i : Nat) (h : PlainKey) : Bytes :=
  List.replicate i (chr ' ') ++ (h.text ++ [chr ':'])

/-- `- "s"`, indented by `i` blanks. -/
def itemLine (i : Nat) (s : Bytes) : Bytes :=
  List.replicate i (chr ' ') ++ (str "- " ++ quoted s)

/-- No `#` stands behind white space. -/
def Protected (s : Bytes) : Prop :=
  ∀ a w b, s = a ++ w :: chr '#' :: b → isspace w = false

/-! ## Stripping -/

/-- Behind `prev`, stripping either leaves the text as it is, or ends it in front
of a `#` behind white space. -/
theorem stripBehind_cases (prev : UInt8) (s : Bytes) :
    (stripBehind prev s = s ∧ Protected (prev :: s)) ∨
    ∃ a w b, prev :: s = a ++ w :: chr '#' :: b ∧ isspace w = true ∧
      prev :: stripBehind prev s = a ++ [w] := by
  induction s generalizing prev with
  | nil =>
    refine .inl ⟨rfl, fun a w b h => ?_⟩
    have hlen := congrArg List.length h
    exact absurd hlen (by simp; omega)
  | cons c s ih =>
    by_cases hcut : c = chr '#' ∧ isspace prev = true
    · obtain ⟨rfl, hprev⟩ := hcut
      exact .inr ⟨[], prev, s, rfl, hprev, by rw [stripBehind_hash hprev]; rfl⟩
    · rw [stripBehind, if_neg hcut]
      rcases ih c with ⟨hsame, hprot⟩ | ⟨a, w, b, hsplit, hw, hstrip⟩
      · refine .inl ⟨by rw [hsame], fun a w b h => ?_⟩
        cases a with
        | nil =>
          cases h
          exact Bool.eq_false_iff.mpr fun hw => hcut ⟨rfl, hw⟩
        | cons x a => exact hprot a w b (List.cons.inj h).2
      · exact .inr ⟨prev :: a, w, b, by rw [hsplit]; rfl, hw, by rw [hstrip]; rfl⟩

/-- What is left of a quoted value behind its first quote. -/
def cut (s : Bytes) : Bytes := stripBehind quote (s ++ [quote])

/-- A protected value is left whole; of any other, the blank in front of its first
stray `#` is the last byte that is left. -/
theorem cut_cases (s : Bytes) :
    (Protected s ∧ cut s = s ++ [quote]) ∨
    (¬ Protected s ∧ ∃ a w, isspace w = true ∧ cut s = a ++ [w] ∧ a.length + 2 ≤ s.length) := by
  rcases stripBehind_cases quote (s ++ [quote]) with ⟨hsame, hprot⟩ | ⟨a, w, b, hsplit, hw, hstrip⟩
  · refine .inl ⟨fun a w b h => hprot (quote :: a) w (b ++ [quote]) ?_, hsame⟩
    rw [h]
    simp
  · right
    -- neither the opening quote is the blank, nor the closing one the `#`
    cases a with
    | nil =>
      cases (List.cons.inj hsplit).1
      exact absurd hw (by decide)
    | cons x a =>
      obtain ⟨_, hsplit⟩ := List.cons.inj hsplit
      obtain ⟨_, hcut⟩ := List.cons.inj hstrip
      rcases List.eq_nil_or_concat' b with rfl | ⟨b, y, rfl⟩
      · have hlast : s ++ [quote] = (a ++ [w]) ++ [chr '#'] := by simpa using hsplit
        exact absurd (List.append_inj' hlast rfl).2 (by decide)
      · have hlast : s ++ [quote] = (a ++ w :: chr '#' :: b) ++ [y] := by simpa using hsplit
        obtain ⟨rfl, _⟩ := List.append_inj' hlast rfl
        refine ⟨fun hprot => ?_, a, w, hw, hcut, by simp⟩
        rw [hprot a w b rfl] at hw
        cases hw

theorem cut_eq_iff (s : Bytes) : cut s = s ++ [quote] ↔ Protected s := by
  rcases cut_cases s with ⟨hprot, hcut⟩ | ⟨hprot, a, w, _, hcut, hlen⟩
  · exact iff_of_true hcut hprot
  · refine iff_of_false (fun heq => ?_) hprot
    have hlength := congrArg List.length (hcut.symm.trans heq)
    simp only [List.length_append, List.length_singleton] at hlength
    omega

instance (s : Bytes) : Decidable (Protected s) := decidable_of_iff _ (cut_eq_iff s)

/-- The quoted value as the loader sees it: stripped, and without trailing blanks. -/
def cutQuoted (s : Bytes) : Bytes := quote :: (cut s).rdropWhile isspace

theorem trimmed_cutQuoted (s : Bytes) : Trimmed (cutQuoted s) where
  head x hx := by
    obtain rfl : quote = x := Option.some.inj hx
    decide
  last x hx := by
    by_cases hnil : (cut s).rdropWhile isspace = []
    · rw [cutQuoted, hnil] at hx
      obtain rfl : quote = x := Option.some.inj hx
      decide
    · rw [cutQuoted, ← List.singleton_append, List.getLast?_append_of_ne_nil _ hnil,
        List.getLast?_eq_some_getLast hnil] at hx
      obtain rfl := Option.some.inj hx
      exact Bool.eq_false_iff.mpr (List.rdropWhile_last_not isspace (cut s) hnil)

/-- A stripped line with a quoted value. -/
theorem strip_quoted {pre : Bytes} (hpre : chr '#' ∉ pre) (s : Bytes) :
    ∃ b, Blank b ∧ stripInlineComment (pre ++ quoted s) = pre ++ (cutQuoted s ++ b) := by
  refine ⟨(cut s).rtakeWhile isspace, fun c hc => List.mem_rtakeWhile_imp hc, ?_⟩
  have hquote : ¬ (quote = chr '#' ∧ isspace (pre.getLastD (chr ' ')) = true) := fun h =>
    absurd h.1 (by decide)
  rw [stripInlineComment, stripBehind_append hpre, quoted, stripBehind, if_neg hquote, cutQuoted,
    List.cons_append, List.rdropWhile_append_rtakeWhile]
  rfl

theorem unquote_length (v : Bytes) : (unquote v).length ≤ v.length := by
  unfold unquote
  split
  · simp only [List.length_dropLast, List.length_tail]
    omega
  · exact Nat.le_refl _

/-- The loader stores a quoted value as it stands, exactly if it is protected. -/
theorem unquote_cutQuoted_iff (s : Bytes) : unquote (cutQuoted s) = s ↔ Protected s := by
  rcases cut_cases s with ⟨hprot, hcut⟩ | ⟨hprot, a, w, hw, hcut, hlen⟩
  · have hquote : ¬ isspace quote = true := by decide
    rw [cutQuoted, hcut, List.rdropWhile_concat_neg _ _ _ hquote]
    exact iff_of_true (unquote_quoted (.inl rfl) s) hprot
  · refine iff_of_false (fun heq => ?_) hprot
    have hshort := unquote_length (cutQuoted s)
    have hdrop : ((cut s).rdropWhile isspace).length ≤ a.length := by
      rw [hcut, List.rdropWhile_concat_pos _ _ _ hw]
      exact (List.rdropWhile_prefix isspace a).length_le
    rw [heq, cutQuoted, List.length_cons] at hshort
    omega

/-! ## Loading -/

namespace PlainKey

theorem not_mem (k : PlainKey) {c : UInt8} (hc : c = chr ':' ∨ c = chr '#' ∨ isspace c = true) :
    c ∉ k.text := by
  intro hmem
  obtain ⟨hcolon, hhash, hspace⟩ := k.plain c hmem
  rcases hc with rfl | rfl | hc
  · exact hcolon rfl
  · exact hhash rfl
  · rw [hspace] at hc
    cases hc

theorem trimmed (k : PlainKey) : Trimmed k.text where
  head x hx := (k.plain x (List.mem_of_head? hx)).2.2
  last x hx := (k.plain x (List.mem_of_getLast? hx)).2.2

theorem no_hash (k : PlainKey) {rest : Bytes} (h : chr '#' ∉ rest) : chr '#' ∉ k.text ++ rest := by
  rw [List.mem_append, not_or]
  exact ⟨k.not_mem (.inr (.inl rfl)), h⟩

/-- Behind its first byte comes another byte of the key, or its colon, and no blank. -/
theorem not_item (k : PlainKey) (rest : Bytes) :
    startsWith (k.text ++ chr ':' :: rest) (str "- ") = false := by
  have hsecond : ∀ c d tail, d ≠ chr ' ' → startsWith (c :: d :: tail) (str "- ") = false := by
    intro c d tail hd
    have hblank : (chr ' ' == d) = false := beq_eq_false_iff_ne.mpr (Ne.symm hd)
    show (chr '-' == c && (chr ' ' == d && true)) = false
    rw [hblank, Bool.false_and, Bool.and_false]
  match hk : k.text with
  | [] => exact absurd hk k.ne_nil
  | [c] => exact hsecond c (chr ':') rest (by decide)
  | c :: d :: tail =>
    refine hsecond c d _ ?_
    rintro rfl
    exact k.not_mem (c := chr ' ') (.inr (.inr rfl)) (by rw [hk]; simp)

end PlainKey

section Lines

variable (t : LoadState) (s : Bytes)

theorem cutQuoted_ne_nil : cutQuoted s ≠ [] := List.cons_ne_nil _ _

theorem processLine_keyLine (key : PlainKey) :
    t.processLine (keyLine key s) = (t.unwind 0).putScalar key.text (cutQuoted s) := by
  have hpre : chr '#' ∉ key.text ++ [chr ':', chr ' '] := key.no_hash (by decide)
  obtain ⟨b, hb, hstrip⟩ := strip_quoted hpre s
  have hgap : Blank [chr ' '] := blank_replicate 1
  have hcontent : Trimmed (key.text ++ ([] ++ chr ':' :: ([chr ' '] ++ cutQuoted s))) := by
    refine trimmed_append key.ne_nil (by simp) key.trimmed.head fun x hx => ?_
    rw [List.nil_append, ← List.cons_append, List.getLast?_append_of_ne_nil _ (cutQuoted_ne_nil s)]
      at hx
    exact (trimmed_cutQuoted s).last x hx
  have hline := LoadState.processLine_stripped (l := keyLine key s) (i := 0) hcontent
    (by simp [key.ne_nil]) hb (by simpa [keyLine] using hstrip) t
  rw [hline, LoadState.processContent_entry key.trimmed key.ne_nil (key.not_mem (.inl rfl))
    (by simp [Blank]) hgap (trimmed_cutQuoted s) (key.not_item _), if_neg (cutQuoted_ne_nil s)]

theorem processLine_headerLine (i : Nat) (h : PlainKey) :
    t.processLine (headerLine i h) = (t.unwind i).push h.text i := by
  have hcontent : Content (h.text ++ ([] ++ chr ':' :: ([] ++ []))) := by
    refine ⟨trimmed_append h.ne_nil (by simp) h.trimmed.head fun x hx => ?_, by simp [h.ne_nil],
      h.no_hash (by decide)⟩
    obtain rfl : chr ':' = x := Option.some.inj hx
    decide
  have hempty : Trimmed [] := ⟨nofun, nofun⟩
  have hline : Line i (h.text ++ ([] ++ chr ':' :: ([] ++ []))) (headerLine i h) :=
    ⟨[], .blank (by simp [Blank]), by simp [headerLine]⟩
  rw [LoadState.processLine_line hcontent hline, LoadState.processContent_entry h.trimmed h.ne_nil
    (h.not_mem (.inl rfl)) (by simp [Blank]) (by simp [Blank]) hempty (h.not_item _), if_pos rfl]

theorem processLine_itemLine (i : Nat) :
    t.processLine (itemLine i s) = (t.unwind i).putItem (unquote (cutQuoted s)) := by
  have hpre : chr '#' ∉ List.replicate i (chr ' ') ++ str "- " := by
    rw [List.mem_append, not_or]
    exact ⟨(blank_replicate i).no_hash, by decide⟩
  obtain ⟨b, hb, hstrip⟩ := strip_quoted hpre s
  have hcontent : Trimmed (str "- " ++ ([] ++ cutQuoted s)) := by
    refine trimmed_append (by decide) (cutQuoted_ne_nil s) (fun x hx => ?_) (trimmed_cutQuoted s).last
    obtain rfl : chr '-' = x := Option.some.inj hx
    decide
  have hline := LoadState.processLine_stripped (l := itemLine i s) (i := i) hcontent
    (List.cons_ne_nil _ _) hb (by simpa [itemLine] using hstrip) t
  rw [hline, LoadState.processContent_item (by simp [Blank]) (trimmed_cutQuoted s)]

end Lines

theorem load_keyLine {key : PlainKey} {s file : Bytes} (hfile : getlines file = [keyLine key s]) :
    (load (some file)).2 key.text = some (unquote (cutQuoted s)) := by
  have hlines : loadLines .start [keyLine key s] =
      LoadState.start.putScalar key.text (cutQuoted s) := processLine_keyLine .start s key
  have hput : (LoadState.start.putScalar key.text (cutQuoted s)).configMap =
      write (fun _ => none) (key.text, unquote (cutQuoted s)) := rfl
  rw [load, hfile, hlines, hput]
  exact write_self (fun _ => none) key.text (unquote (cutQuoted s))

/-- An item that is indented at least as deep as its header stands beneath it. -/
theorem load_itemLine {h : PlainKey} {s file : Bytes} {i j : Nat} (hij : i ≤ j)
    (hfile : getlines file = [headerLine i h, itemLine j s]) :
    (load (some file)).2 (h.text ++ str ".0") = some (unquote (cutQuoted s)) := by
  let opened : LoadState := LoadState.start.push h.text i
  have hlines : loadLines .start [headerLine i h, itemLine j s] =
      (opened.unwind j).putItem (unquote (cutQuoted s)) := by
    rw [loadLines_cons, loadLines_cons, processLine_headerLine, processLine_itemLine]
    rfl
  have hunwind : opened.unwind j = opened := by
    show { opened with
      keyStack := (unwindStacks j [h.text] [i]).1
      indentStack := (unwindStacks j [h.text] [i]).2 } = opened
    rw [unwindStacks_of_le hij]
    rfl
  have hprefix : opened.keyPrefix = h.text := by
    show joinKeys [h.text] = h.text
    simp [joinKeys, h.ne_nil]
  have hput : (opened.putItem (unquote (cutQuoted s))).configMap =
      write (fun _ => none) (h.text ++ str ".0", unquote (cutQuoted s)) := by
    have hindex : str ".0" = chr '.' :: toDecimal 0 := by decide
    rw [LoadState.putItem, hprefix, if_neg h.ne_nil, hindex]
    rfl
  rw [load, hfile, hlines, hunwind, hput]
  exact write_self (fun _ => none) (h.text ++ str ".0") (unquote (cutQuoted s))

/-- A quoted value is stored as it stands, under a key and in a list beneath a
header, exactly if it has no `#` behind white space. -/
theorem quoted_stored_iff (key h : PlainKey) (s : Bytes) (i j : Nat) (hij : i ≤ j)
    (keyFile listFile : Bytes) (hkey : getlines keyFile = [keyLine key s])
    (hlist : getlines listFile = [headerLine i h, itemLine j s]) :
    ((load (some keyFile)).2 key.text = some s ↔ Protected s) ∧
      ((load (some listFile)).2 (h.text ++ str ".0") = some s ↔ Protected s) := by
  rw [load_keyLine hkey, load_itemLine hij hlist, Option.some.injEq]
  exact ⟨unquote_cutQuoted_iff s, unquote_cutQuoted_iff s⟩

/-- The key `password`. -/
def password : PlainKey :=
  ⟨str "password", by decide, List.all_iff_forall_prop.mp (by decide)⟩

theorem quoted_stored_colon :
    ((load (some (str "password: \" a:b#\" \"\n"))).2 (str "password") = some (str " a:b#\" ")) ∧
      ((load (some (str "password:\n  - \" a:b#\" \""))).2 (str "password.0") =
        some (str " a:b#\" ")) := by
  have hprot : Protected (str " a:b#\" ") := by decide
  obtain ⟨hkey, hitem⟩ := quoted_stored_iff password password (str " a:b#\" ") 0 2 (by decide)
    (str "password: \" a:b#\" \"\n") (str "password:\n  - \" a:b#\" \"") (by decide) (by decide)
  exact ⟨hkey.mpr hprot, hitem.mpr hprot⟩

/-- A password with a `#` behind a blank is cut short, and keeps its first quote. -/
theorem passwordHash_not_stored :
    (load (some (str "password: \"pass #1\""))).2 (str "password") = some (str "\"pass") ∧
      ¬ (load (some (str "password: \"pass #1\""))).2 (str "password") = some (str "pass #1") := by
  decide

end IMSystem.ConfigManager

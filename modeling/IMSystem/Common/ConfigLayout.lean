import IMSystem.Common.ConfigManager
import Mathlib.Logic.Relation
import Mathlib.Order.Monotone.Basic

/-!
# Layout of a configuration (`common/src/config/config_manager.cpp`)

What `Load` reads depends on how the indentations of the lines compare, and not
on how deep they are, nor on comments, blank lines and trailing white space.

Results:
1. `processLine_append`: white space behind a line changes nothing.
2. `processLine_reindent`: under a reindentation, the two runs differ in their
   indentation stacks only, which the reindentation maps to each other.
3. `load_layout`: `Load` is independent of the layout.
-/

namespace IMSystem.ConfigManager

open Lib LoadState

/-! ## Changes of the layout -/

/-- The line with `f n` leading blanks in place of `n`. -/
def reindent (f : Nat → Nat) (line : Bytes) : Bytes :=
  List.replicate (f (countLeadingSpaces line)) (chr ' ') ++ line.dropWhile (· == chr ' ')

/-- One change of the layout of some lines. -/
inductive LayoutChange : List Bytes → List Bytes → Prop where
  /-- A blank or comment line is inserted. -/
  | insert (before after : List Bytes) {line : Bytes} (h : Noise line) :
      LayoutChange (before ++ after) (before ++ line :: after)
  /-- White space is appended to the lines. -/
  | append {lines lines' : List Bytes}
      (h : List.Forall₂ (fun line line' => ∃ b, Blank b ∧ line' = line ++ b) lines lines') :
      LayoutChange lines lines'
  /-- The lines are indented by `f`. -/
  | reindent {f : Nat → Nat} (hf : StrictMono f) (lines : List Bytes) :
      LayoutChange lines (lines.map (reindent f))

/-! ## White space behind a line -/

theorem rdropWhile_append_blank {b : Bytes} (hb : Blank b) (c : Bytes) :
    (c ++ b).rdropWhile isspace = c.rdropWhile isspace := by
  have hrev : ∀ x ∈ b.reverse, isspace x = true := fun x hx => hb x (List.mem_reverse.mp hx)
  rw [List.rdropWhile, List.rdropWhile, List.reverse_append, List.dropWhile_append_of_pos hrev]

theorem trim_append_blank {b : Bytes} (hb : Blank b) (c : Bytes) : trim (c ++ b) = trim c := by
  unfold trim
  rw [List.dropWhile_append]
  split
  · next hempty =>
    rw [List.isEmpty_iff] at hempty
    have hall : b.dropWhile isspace = [] := List.dropWhile_eq_nil_iff.mpr hb
    rw [hall, hempty]
  · rw [rdropWhile_append_blank hb]

theorem trim_blank_append {b : Bytes} (hb : Blank b) (c : Bytes) : trim (b ++ c) = trim c := by
  rw [trim, trim, List.dropWhile_append_of_pos hb]

/-- Stripping keeps trailing white space, or has cut it off with a comment. -/
theorem stripBehind_append_blank {b : Bytes} (hb : Blank b) (prev : UInt8) (c : Bytes) :
    ∃ b', Blank b' ∧ stripBehind prev (c ++ b) = stripBehind prev c ++ b' := by
  induction c generalizing prev with
  | nil => exact ⟨b, hb, stripBehind_of_not_mem hb.no_hash⟩
  | cons x c ih =>
    rw [List.cons_append, stripBehind, stripBehind]
    split
    · exact ⟨[], fun _ hx => absurd hx List.not_mem_nil, rfl⟩
    · obtain ⟨b', hb', heq⟩ := ih x
      exact ⟨b', hb', by rw [heq, List.cons_append]⟩

theorem eq_of_mem_spaces {line : Bytes} {x : UInt8} (h : x ∈ line.takeWhile (· == chr ' ')) :
    x = chr ' ' := by
  have hspace := List.mem_takeWhile_imp h
  exact beq_iff_eq.mp hspace

theorem countLeadingSpaces_append_blank {c : Bytes} (hc : trim c ≠ []) (b : Bytes) :
    countLeadingSpaces (c ++ b) = countLeadingSpaces c := by
  unfold countLeadingSpaces
  rw [List.takeWhile_append]
  split
  · next hall =>
    have hspaces : c.takeWhile (· == chr ' ') = c :=
      (List.takeWhile_prefix _).eq_of_length hall
    have hblank : Blank c := by
      intro x hx
      rw [← hspaces] at hx
      rw [eq_of_mem_spaces hx]
      decide
    exact absurd (trim_blank hblank) hc
  · rfl

theorem processLine_append {b : Bytes} (hb : Blank b) (s : LoadState) (line : Bytes) :
    s.processLine (line ++ b) = s.processLine line := by
  obtain ⟨b', hb', hstrip⟩ := stripBehind_append_blank hb (chr ' ') line
  have hraw : stripInlineComment (line ++ b) = stripInlineComment line ++ b' := hstrip
  rw [processLine, processLine, hraw, trim_append_blank hb']
  split
  · rfl
  · next hne => rw [countLeadingSpaces_append_blank hne]

/-! ## Reindentation -/

theorem replicate_append_dropWhile (line : Bytes) :
    List.replicate (countLeadingSpaces line) (chr ' ') ++ line.dropWhile (· == chr ' ') = line := by
  have hspaces : line.takeWhile (· == chr ' ') =
      List.replicate (countLeadingSpaces line) (chr ' ') :=
    List.eq_replicate_of_mem fun _ hx => eq_of_mem_spaces hx
  rw [← hspaces, List.takeWhile_append_dropWhile]

theorem head_dropWhile (line : Bytes) : (line.dropWhile (· == chr ' ')).head? ≠ some (chr ' ') := by
  intro h
  have hnot := List.head?_dropWhile_not (· == chr ' ') line
  rw [h] at hnot
  exact absurd hnot (by decide)

/-- Stripping keeps the first byte, if it keeps any. -/
theorem head_stripBehind {prev : UInt8} {c : Bytes} {x : UInt8}
    (h : (stripBehind prev c).head? = some x) : c.head? = some x := by
  cases c with
  | nil => cases h
  | cons y c =>
    rw [stripBehind] at h
    split at h
    · cases h
    · exact h

/-- A line acts by its indentation and what is left of it behind that. -/
theorem processLine_indented (s : LoadState) (n : Nat) {c : Bytes} (hc : c.head? ≠ some (chr ' ')) :
    s.processLine (List.replicate n (chr ' ') ++ c) =
      if trim (stripBehind (chr ' ') c) = [] then s
      else (s.unwind n).processContent n (trim (stripBehind (chr ' ') c)) := by
  have hlast : (List.replicate n (chr ' ')).getLastD (chr ' ') = chr ' ' := by
    cases n with
    | zero => rfl
    | succ n => simp [List.replicate_succ']
  have hraw : stripInlineComment (List.replicate n (chr ' ') ++ c) =
      List.replicate n (chr ' ') ++ stripBehind (chr ' ') c := by
    rw [stripInlineComment, stripBehind_append (blank_replicate n).no_hash, hlast]
  rw [processLine, hraw, trim_blank_append (blank_replicate n),
    countLeadingSpaces_append fun h => hc (head_stripBehind h)]

/-- The state of the run over the reindented lines. -/
def LoadState.mapIndent (f : Nat → Nat) (s : LoadState) : LoadState :=
  { s with indentStack := s.indentStack.map f }

section Reindent

variable {f : Nat → Nat}

theorem unwindStacks_map (hf : StrictMono f) (i : Nat) (keys : List Bytes) (indents : List Nat) :
    unwindStacks (f i) keys (indents.map f) =
      ((unwindStacks i keys indents).1, (unwindStacks i keys indents).2.map f) := by
  induction indents generalizing keys with
  | nil => rfl
  | cons top indents ih =>
    rw [List.map_cons]
    by_cases hlt : i < top
    · rw [unwindStacks_of_lt (hf hlt), unwindStacks_of_lt hlt, ih]
    · rw [unwindStacks_of_le (hf.monotone (Nat.le_of_not_lt hlt)),
        unwindStacks_of_le (Nat.le_of_not_lt hlt), List.map_cons]

theorem unwind_mapIndent (hf : StrictMono f) (s : LoadState) (i : Nat) :
    (s.mapIndent f).unwind (f i) = (s.unwind i).mapIndent f := by
  simp only [unwind, LoadState.mapIndent, unwindStacks_map hf]

theorem processContent_mapIndent (s : LoadState) (i : Nat) (content : Bytes) :
    (s.mapIndent f).processContent (f i) content = (s.processContent i content).mapIndent f := by
  have hkeys : (s.mapIndent f).keyPrefix = s.keyPrefix := rfl
  unfold processContent
  split
  · unfold putItem
    rw [hkeys]
    split
    · rfl
    · rfl
  · split
    · rfl
    · dsimp only
      split
      · rfl
      · split
        · rfl
        · rfl

/-- One line in both runs. -/
theorem processLine_reindent (hf : StrictMono f) (s : LoadState) (line : Bytes) :
    (s.mapIndent f).processLine (reindent f line) = (s.processLine line).mapIndent f := by
  have hhead := head_dropWhile line
  conv_rhs => rw [← replicate_append_dropWhile line]
  rw [reindent, processLine_indented _ _ hhead, processLine_indented _ _ hhead]
  split
  · rfl
  · rw [unwind_mapIndent hf, processContent_mapIndent]

theorem loadLines_reindent (hf : StrictMono f) (s : LoadState) (lines : List Bytes) :
    loadLines (s.mapIndent f) (lines.map (reindent f)) = (loadLines s lines).mapIndent f := by
  induction lines generalizing s with
  | nil => rfl
  | cons line lines ih =>
    rw [List.map_cons, loadLines_cons, loadLines_cons, processLine_reindent hf, ih]

end Reindent

/-! ## Independence -/

theorem loadLines_forall₂ {lines lines' : List Bytes}
    (h : List.Forall₂ (fun line line' => ∃ b, Blank b ∧ line' = line ++ b) lines lines')
    (s : LoadState) : loadLines s lines' = loadLines s lines := by
  induction h generalizing s with
  | nil => rfl
  | cons hline _ ih =>
    obtain ⟨b, hb, rfl⟩ := hline
    rw [loadLines_cons, loadLines_cons, processLine_append hb, ih]

theorem configMap_layoutChange {lines lines' : List Bytes} (h : LayoutChange lines lines') :
    (loadLines .start lines').configMap = (loadLines .start lines).configMap := by
  cases h with
  | insert before after hnoise =>
    rw [loadLines_append, loadLines_append, loadLines_cons, processLine_noise hnoise]
  | append h => rw [loadLines_forall₂ h]
  | reindent hf =>
    rename_i f
    have hstart : LoadState.start = LoadState.start.mapIndent f := rfl
    rw [hstart, loadLines_reindent hf]
    rfl

/-- Texts whose lines differ by changes of the layout load the same. -/
theorem load_layout (text text' : Bytes)
    (h : Relation.ReflTransGen LayoutChange (getlines text) (getlines text')) :
    load (some text') = load (some text) := by
  have hmap : (loadLines .start (getlines text')).configMap =
      (loadLines .start (getlines text)).configMap := by
    generalize getlines text' = lines' at h ⊢
    induction h with
    | refl => rfl
    | tail _ hchange ih => rw [configMap_layoutChange hchange, ih]
  rw [load, load, hmap]

/-- Eight blanks in place of two, a comment, and a carriage return. -/
theorem load_layout_server :
    load (some (str "server:\n# ports\n        port: 80\r\n")) =
      load (some (str "server:\n  port: 80\n")) := by
  have hdeeper : LayoutChange [str "server:", str "  port: 80"]
      [str "server:", str "        port: 80"] :=
    LayoutChange.reindent (f := fun n => 4 * n) (fun a b h => Nat.mul_lt_mul_of_pos_left h (by decide))
      [str "server:", str "  port: 80"]
  have hcomment : LayoutChange [str "server:", str "        port: 80"]
      [str "server:", str "# ports", str "        port: 80"] :=
    .insert [str "server:"] [str "        port: 80"]
      (.comment (b := []) (by simp [Blank]) (str " ports"))
  have hreturn : LayoutChange [str "server:", str "# ports", str "        port: 80"]
      [str "server:", str "# ports", str "        port: 80\r"] := by
    refine .append (.cons ⟨[], by simp [Blank], rfl⟩ (.cons ⟨[], by simp [Blank], rfl⟩
      (.cons ⟨[chr '\r'], ?_, rfl⟩ .nil)))
    intro c hc
    rw [List.mem_singleton.mp hc]
    decide
  refine load_layout _ _ ?_
  have hlines : getlines (str "server:\n  port: 80\n") = [str "server:", str "  port: 80"] := by
    decide
  have hlines' : getlines (str "server:\n# ports\n        port: 80\r\n") =
      [str "server:", str "# ports", str "        port: 80\r"] := by decide
  rw [hlines, hlines']
  exact ((Relation.ReflTransGen.single hdeeper).tail hcomment).tail hreturn

end IMSystem.ConfigManager

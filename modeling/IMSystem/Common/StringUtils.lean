import IMSystem.Lib.Bytes
import IMSystem.Lib.Splitting

/-!
# Splitting a string (`common/src/utils/string_utils.cpp`)

`Split` runs a `do … while` with three positions. Positions are natural numbers: no
string is long enough for `pos + delimiter.length()` to leave a `size_t`. The loop takes
fuel, because it does not end on every input.

Results:
1. `split_returns`: for a non-empty delimiter, the non-empty fields of the leftmost
   non-overlapping decomposition.
2. `split_terminates_iff`: for an empty one, the loop ends on the empty string only.
-/

namespace IMSystem.StringUtils

open Lib

/-- The body of `Split` from `prev` on, with the tokens found so far. `none`: the fuel
did not last to the end of the loop. -/
def splitLoop (str delimiter : Bytes) :
    Nat → Nat → List Bytes → Option (Except OutOfRange (List Bytes))
  | 0, _, _ => none
  | fuel + 1, prev, tokens =>
    let pos := (find str delimiter prev).getD str.length
    match substr str prev (pos - prev) with
    | .error e => some (.error e)
    | .ok token =>
      let tokens := if token ≠ [] then tokens ++ [token] else tokens
      let prev := pos + delimiter.length
      if pos < str.length ∧ prev < str.length then splitLoop str delimiter fuel prev tokens
      else some (.ok tokens)

/-- `StringUtils::Split`, run for at most `fuel` turns of its loop. -/
def split (fuel : Nat) (str delimiter : Bytes) : Option (Except OutOfRange (List Bytes)) :=
  splitLoop str delimiter fuel 0 []

/-- `Split` comes to an end. -/
def Terminates (str delimiter : Bytes) : Prop := ∃ fuel, split fuel str delimiter ≠ none

/-! ## One turn -/

theorem push_token (tokens : List Bytes) (token : Bytes) :
    (if token = [] then tokens else tokens ++ [token]) = tokens ++ [token].filter (· ≠ []) := by
  by_cases h : token = [] <;> simp [h]

/-- The turn that finds no further delimiter is the last one. -/
theorem splitLoop_last {p s d : Bytes} (absent : ¬ d <:+: s) (fuel : Nat) (tokens : List Bytes) :
    splitLoop (p ++ s) d (fuel + 1) p.length tokens =
      some (.ok (tokens ++ [s].filter (· ≠ []))) := by
  have hsub : substr (p ++ s) p.length ((p ++ s).length - p.length) = .ok s :=
    substr_rest p s (by simp)
  unfold splitLoop
  rw [find_eq_none absent]
  simp only [Option.getD_none, hsub, ite_not, push_token, Nat.lt_irrefl, false_and, if_false]

/-- A turn that finds the delimiter goes on behind it, if anything is there. -/
theorem splitLoop_cut {p a d s : Bytes} (first : First d a s) (hd : d ≠ []) (fuel : Nat)
    (tokens : List Bytes) :
    splitLoop (p ++ (a ++ d ++ s)) d (fuel + 1) p.length tokens =
      if s = [] then some (.ok (tokens ++ [a].filter (· ≠ [])))
      else splitLoop (p ++ a ++ d ++ s) d fuel (p ++ a ++ d).length
        (tokens ++ [a].filter (· ≠ [])) := by
  have hsub : substr (p ++ (a ++ d ++ s)) p.length (p.length + a.length - p.length) = .ok a := by
    rw [Nat.add_sub_cancel_left, List.append_assoc a d s]
    exact substr_append p a (d ++ s)
  have hpos : 0 < d.length := List.length_pos_iff.mpr hd
  have hgoes : p.length + a.length < (p ++ (a ++ d ++ s)).length ∧
      p.length + a.length + d.length < (p ++ (a ++ d ++ s)).length ↔ s ≠ [] := by
    rw [← List.length_pos_iff]
    simp only [List.length_append]
    omega
  rw [splitLoop, first.find_eq p]
  simp only [Option.getD_some, hsub, ite_not, push_token, hgoes]
  simp only [List.length_append, List.append_assoc, Nat.add_assoc]

/-! ## A whole run -/

/-- From any position on, the loop adds the non-empty fields of what is left. -/
theorem splitLoop_fields {d s : Bytes} {fs : List Bytes} (h : Fields d s fs) (p : Bytes)
    (fuel : Nat) (hfuel : fs.length ≤ fuel) (tokens : List Bytes) :
    splitLoop (p ++ s) d fuel p.length tokens =
      some (.ok (tokens ++ fs.filter (· ≠ []))) := by
  have hd := h.pattern_ne_nil
  induction h generalizing p fuel tokens with
  | last absent =>
    obtain ⟨fuel, rfl⟩ := Nat.exists_eq_succ_of_ne_zero (Nat.pos_iff_ne_zero.mp hfuel)
    exact splitLoop_last absent fuel tokens
  | @cut a s fs first rest ih =>
    obtain ⟨fuel, rfl⟩ := Nat.exists_eq_succ_of_ne_zero
      (Nat.pos_iff_ne_zero.mp (Nat.lt_of_lt_of_le (Nat.succ_pos _) hfuel))
    have hfilter : (a :: fs).filter (· ≠ []) = [a].filter (· ≠ []) ++ fs.filter (· ≠ []) := by
      rw [← List.filter_append, List.singleton_append]
    rw [splitLoop_cut first hd, hfilter, ← List.append_assoc]
    split
    · next hs =>
      -- A delimiter at the end leaves one empty field.
      subst hs
      have hempty : fs = [[]] :=
        rest.unique (.last (fun hinfix => hd (List.infix_nil.mp hinfix)))
      simp [hempty]
    · next hs =>
      exact ih (p ++ a ++ d) fuel (Nat.le_of_succ_le_succ hfuel) _

theorem split_fields {str d : Bytes} {fs : List Bytes} (h : Fields d str fs) (fuel : Nat)
    (hfuel : fs.length ≤ fuel) : split fuel str d = some (.ok (fs.filter (· ≠ []))) :=
  splitLoop_fields h [] fuel hfuel []

/-- Leaving out the empty fields loses no byte. -/
theorem flatten_filter_ne_nil (fs : List Bytes) :
    (fs.filter (· ≠ [])).flatten = fs.flatten := by
  induction fs with
  | nil => rfl
  | cons f fs ih =>
    by_cases hf : f = []
    · simp [hf, ← ih]
    · simp [hf, ← ih]

/-- For a non-empty delimiter `Split` returns, without raising, the non-empty fields of
the one leftmost non-overlapping decomposition of the string. -/
theorem split_returns {d : Bytes} (hd : d ≠ []) (str : Bytes) :
    ∃ fields tokens, Fields d str fields ∧ (∀ gs, Fields d str gs → gs = fields) ∧
      d.intercalate fields = str ∧
      (∃ enough, ∀ fuel, enough ≤ fuel → split fuel str d = some (.ok tokens)) ∧
      tokens = fields.filter (· ≠ []) ∧ (∀ t ∈ tokens, t ≠ [] ∧ ¬ d <:+: t) ∧
      tokens.flatten = fields.flatten := by
  obtain ⟨fields, h⟩ := exists_fields hd str
  refine ⟨fields, fields.filter (· ≠ []), h, fun gs hgs => hgs.unique h, h.intercalate_eq,
    ⟨fields.length, split_fields h⟩, rfl, ?_, flatten_filter_ne_nil fields⟩
  intro t ht
  rw [List.mem_filter, decide_eq_true_eq] at ht
  exact ⟨ht.2, h.not_infix t ht.1⟩

theorem split_returns_commas :
    ∃ fields tokens, Fields (str ",,") (str ",,a,,,b") fields ∧
      (∀ gs, Fields (str ",,") (str ",,a,,,b") gs → gs = fields) ∧
      (str ",,").intercalate fields = str ",,a,,,b" ∧
      (∃ enough, ∀ fuel, enough ≤ fuel →
        split fuel (str ",,a,,,b") (str ",,") = some (.ok tokens)) ∧
      tokens = fields.filter (· ≠ []) ∧ (∀ t ∈ tokens, t ≠ [] ∧ ¬ str ",," <:+: t) ∧
      tokens.flatten = fields.flatten :=
  split_returns (by decide) (str ",,a,,,b")

example : split 3 (str ",,a,,,b") (str ",,") = some (.ok [str "a", str ",b"]) := by decide

/-! ## The empty delimiter -/

/-- The empty delimiter is found where the search starts, and nothing moves on. -/
theorem splitLoop_empty (c : UInt8) (s : Bytes) (fuel : Nat) (tokens : List Bytes) :
    splitLoop (c :: s) [] fuel 0 tokens = none := by
  induction fuel generalizing tokens with
  | zero => rfl
  | succ fuel ih => exact ih tokens

/-- `Split` ends exactly when the delimiter is not empty or the string is. -/
theorem split_terminates_iff (str delimiter : Bytes) :
    Terminates str delimiter ↔ delimiter ≠ [] ∨ str = [] := by
  constructor
  · rintro ⟨fuel, hends⟩
    by_contra hnot
    rw [not_or, not_not] at hnot
    obtain ⟨rfl, hstr⟩ := hnot
    obtain ⟨c, s, rfl⟩ := List.exists_cons_of_ne_nil hstr
    exact hends (splitLoop_empty c s fuel [])
  · rintro (hd | rfl)
    · obtain ⟨fields, h⟩ := exists_fields hd str
      refine ⟨fields.length, ?_⟩
      rw [split_fields h _ (Nat.le_refl _)]
      exact Option.some_ne_none _
    · refine ⟨1, ?_⟩
      cases delimiter with
      | nil => decide
      | cons c d => exact Option.some_ne_none _

/-- One byte and the empty delimiter: the loop never ends. -/
theorem split_empty_diverges : ¬ ∀ str delimiter : Bytes, Terminates str delimiter := by
  intro h
  obtain ⟨fuel, hends⟩ := h (str "a") []
  exact hends (splitLoop_empty _ _ fuel [])

end IMSystem.StringUtils

import Mathlib.Data.List.Infix

/-!
# Searching a list for a pattern, and splitting it there

`std::string::find` returns the leftmost occurrence of a pattern. `First` says what
leftmost means without positions: a list is written `a ++ d ++ b`, and no other way of
writing it around the pattern `d` puts less in front. `Fields` repeats this on what
follows the occurrence, which is the leftmost non-overlapping decomposition of a list.

Results:
1. `search_sound`, `search_eq_none`: the search finds the leftmost occurrence, if there is one.
2. `First.search_eq`, `First.find_eq`, `first_of_search`: on a list written around that
   occurrence, this is what it finds.
3. `Fields.unique`, `exists_fields`: there is exactly one decomposition.
4. `Fields.intercalate_eq`, `Fields.not_infix`: it gives the list back, and the pattern is
   in no field.
-/

namespace IMSystem.Lib

variable {α : Type}

/-! ## The leftmost occurrence -/

/-- The occurrence of `d` between `a` and `b` is the leftmost one of `a ++ d ++ b`. -/
def First (d a b : List α) : Prop :=
  ∀ u v, u ++ d ++ v = a ++ d ++ b → a.length ≤ u.length

/-- Two leftmost occurrences of one list are the same occurrence. -/
theorem First.unique {d a b a' b' : List α} (first : First d a b) (first' : First d a' b')
    (same : a ++ d ++ b = a' ++ d ++ b') : a = a' ∧ b = b' := by
  have hlen : a.length = a'.length := Nat.le_antisymm (first _ _ same.symm) (first' _ _ same)
  rw [List.append_assoc, List.append_assoc] at same
  obtain ⟨rfl, hrest⟩ := List.append_inj same hlen
  exact ⟨rfl, List.append_cancel_left hrest⟩

/-- A pattern of one element occurs leftmost behind a list without that element. -/
theorem first_singleton {c : α} {a b : List α} (fresh : c ∉ a) : First [c] a b := by
  intro u v same
  by_contra hlt
  rw [Nat.not_le] at hlt
  have hget : (u ++ [c] ++ v)[u.length]? = some c := by simp
  rw [same, List.append_assoc, List.getElem?_append_left hlt] at hget
  exact fresh (List.mem_of_getElem? hget)

/-- What stands in front of the leftmost occurrence does not hold the pattern. -/
theorem First.not_infix {d a b : List α} (first : First d a b) (hd : d ≠ []) : ¬ d <:+: a := by
  rintro ⟨u, v, rfl⟩
  have hle := first u (v ++ d ++ b) (by simp)
  have hpos : 0 < d.length := List.length_pos_iff.mpr hd
  simp only [List.length_append] at hle
  omega

/-! ## The search -/

variable [DecidableEq α]

/-- The offset of the leftmost occurrence of `d`. -/
def search (d : List α) : List α → Option Nat
  | [] => if d = [] then some 0 else none
  | c :: s => if d <+: c :: s then some 0 else (search d s).map (· + 1)

/-- `s.find(d, start)`; `npos` is `none`. -/
def find (s d : List α) (start : Nat) : Option Nat :=
  if start ≤ s.length then (search d (s.drop start)).map (start + ·) else none

/-- The exception `std::out_of_range`. -/
inductive OutOfRange where
  | outOfRange
deriving DecidableEq, Repr

/-- `s.substr(pos, count)`: it raises when `pos` is behind the end. -/
def substr {α : Type} (s : List α) (pos count : Nat) : Except OutOfRange (List α) :=
  if pos ≤ s.length then .ok ((s.drop pos).take count) else .error .outOfRange

/-- `s.replace(pos, count, t)`: it raises when `pos` is behind the end. -/
def replace {α : Type} (s : List α) (pos count : Nat) (t : List α) : Except OutOfRange (List α) :=
  if pos ≤ s.length then .ok (s.take pos ++ t ++ s.drop (pos + count)) else .error .outOfRange

theorem substr_append {α : Type} (a b c : List α) :
    substr (a ++ (b ++ c)) a.length b.length = .ok b := by
  unfold substr
  rw [if_pos (by simp), List.drop_left, List.take_left]

/-- A count behind the end takes what is left. -/
theorem substr_rest {α : Type} (a b : List α) {count : Nat} (h : b.length ≤ count) :
    substr (a ++ b) a.length count = .ok b := by
  unfold substr
  rw [if_pos (by simp), List.drop_left, List.take_of_length_le h]

theorem replace_append {α : Type} (a b c t : List α) :
    replace (a ++ (b ++ c)) a.length b.length t = .ok (a ++ t ++ c) := by
  unfold replace
  rw [if_pos (by simp), List.take_left, ← List.append_assoc a b c, ← List.length_append,
    List.drop_left]

theorem search_eq_none {d s : List α} : search d s = none ↔ ¬ d <:+: s := by
  induction s with
  | nil => simp [search]
  | cons c s ih =>
    unfold search
    rw [List.infix_cons_iff, not_or, ← ih]
    by_cases hd : d <+: c :: s <;> simp [hd]

/-- The search stops at the leftmost occurrence. -/
theorem search_sound {d s : List α} {i : Nat} (found : search d s = some i) :
    ∃ a b, s = a ++ d ++ b ∧ First d a b ∧ a.length = i := by
  induction s generalizing i with
  | nil =>
    unfold search at found
    split at found
    · next hd =>
      subst hd
      exact ⟨[], [], rfl, fun _ _ _ => Nat.zero_le _, Option.some.inj found⟩
    · cases found
  | cons c s ih =>
    unfold search at found
    split at found
    · next hd =>
      obtain ⟨b, hb⟩ := hd
      exact ⟨[], b, by simp [hb], fun _ _ _ => Nat.zero_le _, Option.some.inj found⟩
    · next hd =>
      obtain ⟨j, hj, rfl⟩ := Option.map_eq_some_iff.mp found
      obtain ⟨a, b, rfl, hfirst, rfl⟩ := ih hj
      refine ⟨c :: a, b, by simp, ?_, rfl⟩
      intro u v same
      cases u with
      | nil => exact absurd ⟨v, by simpa using same⟩ hd
      | cons x u =>
        have htail : u ++ d ++ v = a ++ d ++ b := by
          have := List.tail_eq_of_cons_eq same
          simpa using this
        exact Nat.succ_le_succ (hfirst u v htail)

theorem First.search_eq {d a b : List α} (first : First d a b) :
    search d (a ++ d ++ b) = some a.length := by
  cases hs : search d (a ++ d ++ b) with
  | none => exact absurd ⟨a, b, rfl⟩ (search_eq_none.mp hs)
  | some i =>
    obtain ⟨a', b', same, first', rfl⟩ := search_sound hs
    rw [(first.unique first' same).1]

/-- The search passes what cannot begin the pattern. -/
theorem search_cons_of_ne {x c : α} (hne : c ≠ x) (d s : List α) :
    search (x :: d) (c :: s) = (search (x :: d) s).map (· + 1) := by
  refine if_neg ?_
  rintro ⟨t, same⟩
  exact hne (List.head_eq_of_cons_eq same).symm

theorem search_append_of_not_mem {x : α} {a : List α} (fresh : x ∉ a) (d s : List α) :
    search (x :: d) (a ++ s) = (search (x :: d) s).map (a.length + ·) := by
  induction a with
  | nil => simp
  | cons c a ih =>
    rw [List.mem_cons, not_or] at fresh
    rw [List.cons_append, search_cons_of_ne (Ne.symm fresh.1), ih fresh.2, Option.map_map]
    congr 1
    funext i
    simp only [Function.comp_apply, List.length_cons]
    omega

/-- Where the search stops is the leftmost occurrence. -/
theorem first_of_search {d a b : List α} (found : search d (a ++ d ++ b) = some a.length) :
    First d a b := by
  obtain ⟨a', b', same, first, hlen⟩ := search_sound found
  have hparts := same
  rw [List.append_assoc, List.append_assoc] at hparts
  obtain ⟨rfl, hrest⟩ := List.append_inj hparts hlen.symm
  rw [List.append_cancel_left hrest]
  exact first

theorem find_zero (s d : List α) : find s d 0 = search d s := by
  unfold find
  simp

theorem First.find_eq {d a b : List α} (first : First d a b) (s : List α) :
    find (s ++ (a ++ d ++ b)) d s.length = some (s.length + a.length) := by
  unfold find
  rw [if_pos (by simp), List.drop_left, first.search_eq]
  rfl

theorem find_eq_none {s t d : List α} (absent : ¬ d <:+: t) :
    find (s ++ t) d s.length = none := by
  unfold find
  rw [if_pos (by simp), List.drop_left, search_eq_none.mpr absent]
  rfl

/-! ## The decomposition -/

omit [DecidableEq α]

/-- The leftmost non-overlapping decomposition of a list at the occurrences of `d`:
the fields between them, the two ends included. -/
inductive Fields (d : List α) : List α → List (List α) → Prop
  | last {s : List α} (absent : ¬ d <:+: s) : Fields d s [s]
  | cut {a s : List α} {fs : List (List α)} (first : First d a s) (rest : Fields d s fs) :
      Fields d (a ++ d ++ s) (a :: fs)

theorem Fields.ne_nil {d s : List α} {fs : List (List α)} (h : Fields d s fs) : fs ≠ [] := by
  cases h <;> exact List.cons_ne_nil _ _

/-- Nothing can be decomposed at the empty pattern. -/
theorem Fields.pattern_ne_nil {d s : List α} {fs : List (List α)} (h : Fields d s fs) :
    d ≠ [] := by
  induction h with
  | last absent =>
    rintro rfl
    exact absent (List.nil_infix)
  | cut _ _ ih => exact ih

theorem Fields.unique {d s : List α} {fs gs : List (List α)} (h : Fields d s fs)
    (h' : Fields d s gs) : fs = gs := by
  induction h generalizing gs with
  | last absent =>
    cases h' with
    | last _ => rfl
    | cut _ _ => exact absurd ⟨_, _, rfl⟩ absent
  | @cut a s fs first _ ih =>
    generalize hwhole : a ++ d ++ s = whole at h'
    cases h' with
    | last absent => exact absurd ⟨a, s, hwhole⟩ absent
    | @cut a' s' gs first' rest' =>
      obtain ⟨rfl, rfl⟩ := first.unique first' hwhole
      rw [ih rest']

theorem exists_fields {d : List α} (hd : d ≠ []) (s : List α) : ∃ fs, Fields d s fs := by
  classical
  cases hs : search d s with
  | none => exact ⟨[s], .last (search_eq_none.mp hs)⟩
  | some i =>
    obtain ⟨a, b, rfl, first, rfl⟩ := search_sound hs
    -- What follows the occurrence is shorter, because the pattern is not empty.
    have hshort : b.length < (a ++ d ++ b).length := by
      have := List.length_pos_iff.mpr hd
      simp only [List.length_append]
      omega
    obtain ⟨fs, hfs⟩ := exists_fields hd b
    exact ⟨a :: fs, .cut first hfs⟩
termination_by s.length

/-- The fields, with the pattern put back between them, are the list. -/
theorem Fields.intercalate_eq {d s : List α} {fs : List (List α)} (h : Fields d s fs) :
    d.intercalate fs = s := by
  induction h with
  | last _ => simp
  | cut _ rest ih => rw [List.intercalate_cons_of_ne_nil rest.ne_nil, ih, List.append_assoc]

theorem Fields.not_infix {d s : List α} {fs : List (List α)} (h : Fields d s fs) :
    ∀ f ∈ fs, ¬ d <:+: f := by
  have hd := h.pattern_ne_nil
  induction h with
  | last absent =>
    intro f hf
    rw [List.mem_singleton.mp hf]
    exact absent
  | cut first _ ih =>
    intro f hf
    rcases List.mem_cons.mp hf with rfl | hf
    · exact first.not_infix hd
    · exact ih f hf

end IMSystem.Lib

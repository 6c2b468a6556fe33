import Mathlib.Data.List.Infix
import Mathlib.Data.Set.Basic

/-!
# Leftmost-shortest masking

Masking a text against a set of words: scan from the left, and where a word
starts, overwrite the shortest such word with a mask symbol and continue behind
it. `Masks` is the reference, over any alphabet and any set of words; programs
that mask refine it.

Results:
1. `Masks.pointwise`: every symbol is kept or overwritten.
2. `Masks.start_masked`: every occurrence of a word starts on a mask symbol.
3. `Masks.no_word_of_free`: no word free of the mask symbol occurs in a masked
   text.
4. `Masks.eq_of_no_word`: a text without words is not changed.
5. `Masks.unique`: a text has one masking.
6. `Masks.covers_iff`: when all symbols inside occurrences of words are masked.
-/

namespace IMSystem.Lib

variable {α : Type}

/-- `w` is a non-empty word of `W` at the front of `text`. -/
def StartsAt (W : Set (List α)) (w text : List α) : Prop :=
  w ∈ W ∧ w ≠ [] ∧ w <+: text

/-- Some non-empty word of `W` occurs in `text` as a contiguous substring. -/
def HasWord (W : Set (List α)) (text : List α) : Prop :=
  ∃ w ∈ W, w ≠ [] ∧ w <:+: text

/-- `Masks W star text out`: `out` is the leftmost-shortest masking of `text`. -/
inductive Masks (W : Set (List α)) (star : α) : List α → List α → Prop
  | nil : Masks W star [] []
  | hit {w rest out : List α} :
      StartsAt W w (w ++ rest) →
      (∀ v, StartsAt W v (w ++ rest) → w.length ≤ v.length) →
      Masks W star rest out →
      Masks W star (w ++ rest) (List.replicate w.length star ++ out)
  | skip {c : α} {rest out : List α} :
      (∀ v, ¬ StartsAt W v (c :: rest)) →
      Masks W star rest out →
      Masks W star (c :: rest) (c :: out)

namespace Masks

variable {W : Set (List α)} {star : α} {text out : List α}

theorem length_eq (h : Masks W star text out) : out.length = text.length := by
  induction h with
  | nil => rfl
  | hit _ _ _ ih => simp [ih]
  | skip _ _ ih => simp [ih]

/-- Every symbol of the result is the mask symbol or the symbol of the text. -/
theorem pointwise (h : Masks W star text out) (i : Nat) (hi : i < text.length) :
    out[i]? = some star ∨ out[i]? = text[i]? := by
  induction h generalizing i with
  | nil => exact absurd hi (Nat.not_lt_zero _)
  | @hit w rest out _ _ _ ih =>
    rcases Nat.lt_or_ge i w.length with hlt | hge
    · left
      rw [List.getElem?_append_left (by simpa using hlt)]
      simp [hlt]
    · rw [List.getElem?_append_right (by simpa using hge), List.getElem?_append_right hge]
      simp only [List.length_replicate]
      exact ih (i - w.length) (by rw [List.length_append] at hi; omega)
  | @skip c rest out _ _ ih =>
    cases i with
    | zero => exact .inr rfl
    | succ i =>
      simp only [List.getElem?_cons_succ]
      exact ih i (by simpa using hi)

/-- An occurrence of a word in the text starts on a mask symbol of the result. -/
theorem start_masked (h : Masks W star text out) {a w b : List α}
    (htext : text = a ++ (w ++ b)) (hw : w ∈ W) (hne : w ≠ []) : out[a.length]? = some star := by
  induction h generalizing a with
  | nil =>
    have : w = [] := by simp_all
    exact absurd this hne
  | @hit v rest out hv _ _ ih =>
    rcases Nat.lt_or_ge a.length v.length with hlt | hge
    · rw [List.getElem?_append_left (by simpa using hlt)]
      simp [hlt]
    · -- the occurrence lies behind the masked word
      obtain ⟨a', rfl⟩ : v <+: a :=
        List.prefix_of_prefix_length_le ⟨rest, rfl⟩ ⟨w ++ b, htext.symm⟩ hge
      rw [List.append_assoc, List.append_cancel_left_eq] at htext
      rw [List.length_append, List.getElem?_append_right (by simp)]
      simp only [List.length_replicate, Nat.add_sub_cancel_left]
      exact ih htext
  | @skip c rest out hno _ ih =>
    cases a with
    | nil =>
      exact absurd ⟨hw, hne, ⟨b, htext.symm⟩⟩ (hno w)
    | cons x a =>
      rw [List.cons_append, List.cons.injEq] at htext
      rw [List.length_cons, List.getElem?_cons_succ]
      exact ih htext.2

/-- A stretch of the result without the mask symbol stands in the text. -/
theorem eq_of_free (h : Masks W star text out) {a w b : List α} (hout : out = a ++ (w ++ b))
    (hfree : star ∉ w) : ∃ a' b', text = a' ++ (w ++ b') ∧ a'.length = a.length := by
  have hlen : text.length = a.length + (w.length + b.length) := by
    rw [← h.length_eq, hout]
    simp
  have hmid : (text.drop a.length).take w.length = w := by
    refine List.ext_getElem? fun i => ?_
    rcases Nat.lt_or_ge i w.length with hi | hi
    · have hat : out[a.length + i]? = w[i]? := by
        rw [hout, List.getElem?_append_right (by omega), Nat.add_sub_cancel_left,
          List.getElem?_append_left hi]
      rw [List.getElem?_take_of_lt hi, List.getElem?_drop]
      rcases h.pointwise (a.length + i) (by omega) with hstar | hsame
      · rw [hstar, List.getElem?_eq_getElem hi, Option.some.injEq] at hat
        exact absurd (hat ▸ List.getElem_mem hi) hfree
      · rw [← hsame, hat]
    · rw [List.getElem?_eq_none (by rw [List.length_take]; omega), List.getElem?_eq_none hi]
  refine ⟨text.take a.length, text.drop (a.length + w.length), ?_, ?_⟩
  · calc
      text = text.take a.length ++ text.drop a.length := (List.take_append_drop _ _).symm
      _ = text.take a.length ++ ((text.drop a.length).take w.length ++
            (text.drop a.length).drop w.length) := by simp only [List.take_append_drop]
      _ = text.take a.length ++ (w ++ text.drop (a.length + w.length)) := by
            rw [hmid, List.drop_drop]
  · rw [List.length_take]
    omega

/-- No word free of the mask symbol is left in a masked text. -/
theorem no_word_of_free (h : Masks W star text out) {w : List α} (hw : w ∈ W) (hne : w ≠ [])
    (hfree : star ∉ w) : ¬ w <:+: out := by
  rintro ⟨a, b, hout⟩
  rw [List.append_assoc] at hout
  obtain ⟨a', b', htext, hlen⟩ := h.eq_of_free hout.symm hfree
  have hstart := h.start_masked htext hw hne
  rw [← hout, hlen, List.getElem?_append_right (Nat.le_refl _), Nat.sub_self] at hstart
  cases w with
  | nil => exact hne rfl
  | cons x w =>
    rw [List.cons_append, List.getElem?_cons_zero, Option.some.injEq] at hstart
    exact hfree (hstart ▸ List.mem_cons_self)

/-- A text in which no word occurs is masked to itself. -/
theorem eq_of_no_word (h : Masks W star text out) (hno : ¬ HasWord W text) : out = text := by
  induction h with
  | nil => rfl
  | @hit w rest out hw _ _ _ =>
    exact absurd ⟨w, hw.1, hw.2.1, hw.2.2.isInfix⟩ hno
  | @skip c rest out _ _ ih =>
    rw [ih]
    rintro ⟨w, hw, hne, hinf⟩
    exact hno ⟨w, hw, hne, hinf.trans (List.suffix_cons c rest).isInfix⟩

/-! ## One masking for each text -/

/-- How a masking begins. -/
theorem cases_front (h : Masks W star text out) :
    (text = [] ∧ out = []) ∨
    (∃ w rest out', text = w ++ rest ∧ out = List.replicate w.length star ++ out' ∧
      StartsAt W w text ∧ (∀ v, StartsAt W v text → w.length ≤ v.length) ∧
      Masks W star rest out') ∨
    (∃ c rest out', text = c :: rest ∧ out = c :: out' ∧ (∀ v, ¬ StartsAt W v text) ∧
      Masks W star rest out') := by
  cases h with
  | nil => exact .inl ⟨rfl, rfl⟩
  | hit hw hshort hrest => exact .inr (.inl ⟨_, _, _, rfl, rfl, hw, hshort, hrest⟩)
  | skip hno hrest => exact .inr (.inr ⟨_, _, _, rfl, rfl, hno, hrest⟩)

/-- Where a word starts, the masking overwrites the shortest one. -/
theorem of_hit {w rest : List α} (h : Masks W star (w ++ rest) out) (hw : StartsAt W w (w ++ rest))
    (hshort : ∀ v, StartsAt W v (w ++ rest) → w.length ≤ v.length) :
    ∃ out', out = List.replicate w.length star ++ out' ∧ Masks W star rest out' := by
  rcases h.cases_front with ⟨hnil, _⟩ | ⟨v, rest', out', heq, rfl, hv, hvshort, hrest⟩ |
    ⟨c, rest', out', heq, _, hno, _⟩
  · exact absurd (List.append_eq_nil_iff.mp hnil).1 hw.2.1
  · have hlen : w.length = v.length := Nat.le_antisymm (hshort v hv) (hvshort w hw)
    obtain ⟨rfl, rfl⟩ := List.append_inj heq hlen
    exact ⟨out', rfl, hrest⟩
  · exact absurd hw (hno w)

/-- Where no word starts, the masking keeps the symbol. -/
theorem of_skip {c : α} {rest : List α} (h : Masks W star (c :: rest) out)
    (hno : ∀ v, ¬ StartsAt W v (c :: rest)) : ∃ out', out = c :: out' ∧ Masks W star rest out' := by
  rcases h.cases_front with ⟨hnil, _⟩ | ⟨v, _, _, _, _, hv, _, _⟩ | ⟨d, rest', out', heq, rfl, _, hrest⟩
  · cases hnil
  · exact absurd hv (hno v)
  · obtain ⟨rfl, rfl⟩ := List.cons.inj heq
    exact ⟨out', rfl, hrest⟩

theorem unique {out' : List α} (h : Masks W star text out) (h' : Masks W star text out') :
    out' = out := by
  induction h generalizing out' with
  | nil => exact List.eq_nil_of_length_eq_zero h'.length_eq
  | hit hw hshort _ ih =>
    obtain ⟨o, rfl, ho⟩ := h'.of_hit hw hshort
    rw [ih ho]
  | skip hno _ ih =>
    obtain ⟨o, rfl, ho⟩ := h'.of_skip hno
    rw [ih ho]

end Masks

/-! ## Symbols inside words -/

/-- The position `i` lies inside an occurrence of a word. -/
def Covered (W : Set (List α)) (text : List α) (i : Nat) : Prop :=
  ∃ a w b, text = a ++ (w ++ b) ∧ w ∈ W ∧ a.length ≤ i ∧ i < a.length + w.length

theorem Covered.mono {W W' : Set (List α)} {text : List α} {i : Nat} (h : Covered W text i)
    (hW : W ⊆ W') : Covered W' text i := by
  obtain ⟨a, w, b, htext, hw, hle, hlt⟩ := h
  exact ⟨a, w, b, htext, hW hw, hle, hlt⟩

theorem Covered.behind {W : Set (List α)} {text : List α} {i : Nat} (h : Covered W text i)
    (front : List α) : Covered W (front ++ text) (front.length + i) := by
  obtain ⟨a, w, b, rfl, hw, hle, hlt⟩ := h
  refine ⟨front ++ a, w, b, by rw [List.append_assoc], hw, ?_, ?_⟩
  · rw [List.length_append]
    omega
  · rw [List.length_append]
    omega

/-- The scan of `text` comes to `rest`, with `before` behind it. -/
inductive Reaches (W : Set (List α)) (text : List α) : List α → List α → Prop
  | start : Reaches W text [] text
  | hit {before w rest : List α} :
      Reaches W text before (w ++ rest) →
      StartsAt W w (w ++ rest) →
      (∀ v, StartsAt W v (w ++ rest) → w.length ≤ v.length) →
      Reaches W text (before ++ w) rest
  | skip {before rest : List α} {c : α} :
      Reaches W text before (c :: rest) →
      (∀ v, ¬ StartsAt W v (c :: rest)) →
      Reaches W text (before ++ [c]) rest

/-- A word lies across the border between `before` and `rest`. -/
def Across (W : Set (List α)) (before rest : List α) : Prop :=
  ∃ y z, y ≠ [] ∧ z ≠ [] ∧ y <:+ before ∧ z <+: rest ∧ y ++ z ∈ W

/-- Wherever the scan comes to stand inside an occurrence of a word, the next word
starts right there, or the symbol there is the mask symbol anyway. -/
def Seamless (W : Set (List α)) (star : α) (text : List α) : Prop :=
  ∀ before rest, Reaches W text before rest → Across W before rest →
    (∃ v, StartsAt W v rest) ∨ rest.head? = some star

theorem Reaches.append_eq {W : Set (List α)} {text before rest : List α}
    (h : Reaches W text before rest) : before ++ rest = text := by
  induction h with
  | start => rfl
  | hit _ _ _ ih => rw [List.append_assoc, ih]
  | skip _ _ ih => rw [List.append_assoc, List.singleton_append, ih]

/-- An occurrence across a border covers the position behind it. -/
theorem Across.covered {W : Set (List α)} {before rest : List α} (h : Across W before rest) :
    Covered W (before ++ rest) before.length := by
  obtain ⟨y, z, hy, hz, ⟨a, rfl⟩, ⟨b, rfl⟩, hw⟩ := h
  have hypos := List.length_pos_iff.mpr hy
  have hzpos := List.length_pos_iff.mpr hz
  refine ⟨a, y ++ z, b, by simp only [List.append_assoc], hw, ?_, ?_⟩
  · rw [List.length_append]
    omega
  · rw [List.length_append, List.length_append]
    omega

/-- A covered position is the start of an occurrence or has one across it. -/
theorem Covered.at_border {W : Set (List α)} {before rest : List α}
    (h : Covered W (before ++ rest) before.length) :
    (∃ v, StartsAt W v rest) ∨ Across W before rest := by
  obtain ⟨a, w, b, htext, hw, hle, hlt⟩ := h
  obtain ⟨y, rfl⟩ : a <+: before := List.prefix_of_prefix_length_le ⟨w ++ b, htext.symm⟩ ⟨rest, rfl⟩ hle
  rw [List.append_assoc, List.append_cancel_left_eq] at htext
  rw [List.length_append, Nat.add_lt_add_iff_left] at hlt
  obtain ⟨z, rfl⟩ : y <+: w :=
    List.prefix_of_prefix_length_le ⟨rest, htext⟩ ⟨b, rfl⟩ (Nat.le_of_lt hlt)
  rw [List.append_assoc, List.append_cancel_left_eq] at htext
  have hz : z ≠ [] := by
    rintro rfl
    simp at hlt
  by_cases hy : y = []
  · subst hy
    exact .inl ⟨z, hw, hz, b, htext.symm⟩
  · exact .inr ⟨y, z, hy, hz, List.suffix_append a y, ⟨b, htext.symm⟩, hw⟩

namespace Masks

variable {W : Set (List α)} {star : α} {text out : List α}

/-- A symbol that changes lies inside an occurrence of a word. -/
theorem covered_of_changed (h : Masks W star text out) {i : Nat} (hi : out[i]? ≠ text[i]?) :
    Covered W text i := by
  induction h generalizing i with
  | nil => exact absurd rfl hi
  | @hit w rest out hw _ _ ih =>
    rcases Nat.lt_or_ge i w.length with hlt | hge
    · exact ⟨[], w, rest, rfl, hw.1, Nat.zero_le i, by simpa using hlt⟩
    · obtain ⟨j, rfl⟩ := Nat.exists_eq_add_of_le hge
      refine (ih fun heq => hi ?_).behind w
      rw [List.getElem?_append_right (by simp), List.getElem?_append_right hge]
      simpa using heq
  | @skip c rest out _ _ ih =>
    cases i with
    | zero => exact absurd rfl hi
    | succ j =>
      rw [Nat.add_comm]
      refine (ih fun heq => hi ?_).behind [c]
      rw [List.getElem?_cons_succ, List.getElem?_cons_succ, heq]

/-- Where the scan comes to, the masking of the rest begins. -/
theorem of_reaches (h : Masks W star text out) {before rest : List α}
    (hreach : Reaches W text before rest) :
    ∃ out₁ out₂, out = out₁ ++ out₂ ∧ out₁.length = before.length ∧ Masks W star rest out₂ := by
  induction hreach with
  | start => exact ⟨[], out, rfl, rfl, h⟩
  | hit _ hw hshort ih =>
    obtain ⟨out₁, out₂, rfl, hlen, hrest⟩ := ih
    obtain ⟨out₃, rfl, hout₃⟩ := hrest.of_hit hw hshort
    exact ⟨_, out₃, (List.append_assoc ..).symm, by simp [hlen], hout₃⟩
  | skip _ hno ih =>
    obtain ⟨out₁, out₂, rfl, hlen, hrest⟩ := ih
    obtain ⟨out₃, rfl, hout₃⟩ := hrest.of_skip hno
    exact ⟨_, out₃, (List.append_assoc out₁ [_] out₃).symm, by simp [hlen], hout₃⟩

/-- A symbol that is not masked is one that the scan skips. -/
theorem skipped_of_unmasked {rest : List α} (h : Masks W star rest out) {before : List α}
    (hreach : Reaches W text before rest) {i : Nat} (hi : i < rest.length)
    (hout : out[i]? ≠ some star) :
    ∃ b c r, Reaches W text b (c :: r) ∧ b.length = before.length + i ∧
      (∀ v, ¬ StartsAt W v (c :: r)) ∧ c ≠ star := by
  induction h generalizing before i with
  | nil => exact absurd hi (Nat.not_lt_zero i)
  | @hit w rest out hw hshort _ ih =>
    rcases Nat.lt_or_ge i w.length with hlt | hge
    · refine absurd ?_ hout
      rw [List.getElem?_append_left (by simpa using hlt)]
      simp [hlt]
    · obtain ⟨j, rfl⟩ := Nat.exists_eq_add_of_le hge
      rw [List.getElem?_append_right (by simp), List.length_replicate, Nat.add_sub_cancel_left] at hout
      rw [List.length_append, Nat.add_lt_add_iff_left] at hi
      obtain ⟨b, c, r, hb, hlen, hno, hc⟩ := ih (hreach.hit hw hshort) hi hout
      exact ⟨b, c, r, hb, by rw [hlen, List.length_append, Nat.add_assoc], hno, hc⟩
  | @skip c rest out hno _ ih =>
    cases i with
    | zero => exact ⟨before, c, rest, hreach, rfl, hno, fun hc => hout (congrArg some hc)⟩
    | succ j =>
      rw [List.getElem?_cons_succ] at hout
      rw [List.length_cons, Nat.add_lt_add_iff_right] at hi
      obtain ⟨b, c', r, hb, hlen, hno', hc⟩ := ih (hreach.skip hno) hi hout
      refine ⟨b, c', r, hb, ?_, hno', hc⟩
      rw [hlen, List.length_append, List.length_singleton]
      omega

/-- All symbols inside words are masked exactly if the scan never has to leave an
occurrence of a word half overwritten. -/
theorem covers_iff (h : Masks W star text out) :
    (∀ i, Covered W text i → out[i]? = some star) ↔ Seamless W star text := by
  constructor
  · intro hcovers before rest hreach hacross
    by_cases hword : ∃ v, StartsAt W v rest
    · exact .inl hword
    · right
      have hcovered := hacross.covered
      obtain ⟨y, z, _, hz, _, hzrest, _⟩ := hacross
      obtain ⟨c, r, rfl⟩ : ∃ c r, rest = c :: r :=
        List.exists_cons_of_ne_nil fun hnil => hz (List.prefix_nil.mp (hnil ▸ hzrest))
      obtain ⟨out₁, out₂, rfl, hlen, hrest⟩ := h.of_reaches hreach
      obtain ⟨out₃, rfl, _⟩ := hrest.of_skip fun v hv => hword ⟨v, hv⟩
      have hstar := hcovers before.length (hreach.append_eq ▸ hcovered)
      rw [← hlen, List.getElem?_append_right (Nat.le_refl _), Nat.sub_self] at hstar
      exact hstar
  · intro hseamless i hi
    by_contra hout
    have hlt : i < text.length := by
      obtain ⟨a, w, b, rfl, _, _, hlt⟩ := hi
      simp only [List.length_append]
      omega
    obtain ⟨before, c, rest, hreach, hlen, hno, hc⟩ := h.skipped_of_unmasked .start hlt hout
    rw [List.length_nil, Nat.zero_add] at hlen
    rw [← hreach.append_eq, ← hlen] at hi
    rcases hi.at_border with ⟨v, hv⟩ | hacross
    · exact hno v hv
    · rcases hseamless before (c :: rest) hreach hacross with ⟨v, hv⟩ | hstar
      · exact hno v hv
      · exact hc (Option.some.inj hstar)

end Masks

end IMSystem.Lib

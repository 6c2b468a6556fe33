import IMSystem.Lib.Masking
import IMSystem.Lib.Bytes

/-!
# Self-synchronising codes

A code gives each symbol a block of letters. It is self-synchronising when the
first letter of a block is told from all others, so that a reader who starts
anywhere finds the next border. Words and texts over the symbols are then found
and masked letter by letter without ever cutting a block. UTF-8 is such a code.

Results:
1. `SelfSync.encode_prefix`: an encoded word at the front of an encoded text ends
   on a border.
2. `SelfSync.masks_blocks`: masking encoded words masks whole blocks;
   `maskBlocks_eq_encode`: what this leaves is a text.
3. `utf8_selfSync`: UTF-8 is self-synchronising.
-/

namespace IMSystem.Lib

section Code

variable {ι β : Type}

/-- The encoding of a text. -/
def encode (code : ι → List β) (cs : List ι) : List β := cs.flatMap code

/-- Blocks begin with a leading letter and go on with others, and no block is the
beginning of another. -/
structure SelfSync (code : ι → List β) (Lead : β → Prop) : Prop where
  block : ∀ c, ∃ x xs, code c = x :: xs ∧ Lead x ∧ ∀ y ∈ xs, ¬ Lead y
  prefixFree : ∀ c d s t, code c ++ s = code d ++ t → c = d

/-- Each symbol of a text, and whether it is masked. -/
abbrev Marked (ι : Type) := List (ι × Bool)

/-- The blocks of the symbols, or as many mask letters. -/
def maskBlocks (code : ι → List β) (star : β) (marked : Marked ι) : List β :=
  marked.flatMap fun m => if m.2 then List.replicate (code m.1).length star else code m.1

@[simp] theorem encode_nil (code : ι → List β) : encode code [] = [] := rfl

@[simp] theorem encode_cons (code : ι → List β) (c : ι) (cs : List ι) :
    encode code (c :: cs) = code c ++ encode code cs := List.flatMap_cons

@[simp] theorem encode_append (code : ι → List β) (cs ds : List ι) :
    encode code (cs ++ ds) = encode code cs ++ encode code ds := List.flatMap_append

theorem maskBlocks_append (code : ι → List β) (star : β) (a b : Marked ι) :
    maskBlocks code star (a ++ b) = maskBlocks code star a ++ maskBlocks code star b :=
  List.flatMap_append

/-- Masked blocks are as many mask letters as the blocks are long. -/
theorem maskBlocks_all (code : ι → List β) (star : β) (cs : List ι) :
    maskBlocks code star (cs.map fun c => (c, true)) =
      List.replicate (encode code cs).length star := by
  induction cs with
  | nil => rfl
  | cons c cs ih =>
    rw [encode_cons, List.length_append, List.replicate_add, ← ih]
    rfl

theorem encode_replicate {code : ι → List β} {s : ι} {star : β} (hs : code s = [star]) (n : Nat) :
    encode code (List.replicate n s) = List.replicate n star := by
  induction n with
  | zero => rfl
  | succ n ih => rw [List.replicate_succ, encode_cons, hs, ih, List.replicate_succ, List.singleton_append]

/-- When the mask letter is a block, masked blocks are a text again. -/
theorem maskBlocks_eq_encode {code : ι → List β} {s : ι} {star : β} (hs : code s = [star])
    (marked : Marked ι) : maskBlocks code star marked = encode code (marked.flatMap fun m =>
      if m.2 then List.replicate (code m.1).length s else [m.1]) := by
  induction marked with
  | nil => rfl
  | cons m marked ih =>
    obtain ⟨c, masked⟩ := m
    rw [List.flatMap_cons, encode_append, ← ih]
    cases masked with
    | true => exact congrArg (· ++ maskBlocks code star marked) (encode_replicate hs _).symm
    | false =>
      show code c ++ maskBlocks code star marked = encode code [c] ++ maskBlocks code star marked
      rw [encode_cons, encode_nil, List.append_nil]

namespace SelfSync

variable {code : ι → List β} {Lead : β → Prop}

theorem code_ne_nil (h : SelfSync code Lead) (c : ι) : code c ≠ [] := by
  obtain ⟨x, xs, heq, _⟩ := h.block c
  rw [heq]
  exact List.cons_ne_nil x xs

/-- An encoded word at the front of an encoded text is a word at the front of the
text. -/
theorem encode_prefix (h : SelfSync code Lead) {ws cs : List ι} {rest : List β}
    (heq : encode code ws ++ rest = encode code cs) :
    ∃ cs', cs = ws ++ cs' ∧ rest = encode code cs' := by
  induction ws generalizing cs with
  | nil => exact ⟨cs, rfl, heq⟩
  | cons w ws ih =>
    cases cs with
    | nil =>
      rw [encode_cons, List.append_assoc] at heq
      exact absurd (List.append_eq_nil_iff.mp heq).1 (h.code_ne_nil w)
    | cons c cs =>
      rw [encode_cons, encode_cons, List.append_assoc] at heq
      obtain rfl := h.prefixFree w c _ _ heq
      obtain ⟨cs', rfl, hrest⟩ := ih (List.append_cancel_left heq)
      exact ⟨cs', rfl, hrest⟩

variable {W : Set (List β)} {star : β} {out : List β}

/-- No encoded word starts inside a block. -/
theorem not_startsAt (h : SelfSync code Lead) (hW : ∀ w ∈ W, ∃ ws, encode code ws = w) {y : β}
    (hy : ¬ Lead y) (rest v : List β) : ¬ StartsAt W v (y :: rest) := by
  rintro ⟨hv, hne, hpre⟩
  obtain ⟨ws, rfl⟩ := hW v hv
  cases ws with
  | nil => exact hne rfl
  | cons w ws =>
    obtain ⟨x, xs, heq, hx, _⟩ := h.block w
    rw [encode_cons, heq, List.cons_append, List.cons_prefix_cons] at hpre
    exact hy (hpre.1 ▸ hx)

/-- The masking keeps the rest of a block whose first letter it kept. -/
theorem masks_inside (h : SelfSync code Lead) (hW : ∀ w ∈ W, ∃ ws, encode code ws = w)
    {ys rest : List β} (hys : ∀ y ∈ ys, ¬ Lead y) (hmask : Masks W star (ys ++ rest) out) :
    ∃ out', out = ys ++ out' ∧ Masks W star rest out' := by
  induction ys generalizing out with
  | nil => exact ⟨out, rfl, hmask⟩
  | cons y ys ih =>
    obtain ⟨out₁, rfl, hmask₁⟩ :=
      hmask.of_skip (h.not_startsAt hW (hys y List.mem_cons_self) (ys ++ rest))
    obtain ⟨out₂, rfl, hmask₂⟩ := ih (fun z hz => hys z (List.mem_cons_of_mem _ hz)) hmask₁
    exact ⟨out₂, rfl, hmask₂⟩

/-- Masking encoded words in an encoded text masks whole blocks. -/
theorem masks_blocks (h : SelfSync code Lead) (hW : ∀ w ∈ W, ∃ ws, encode code ws = w)
    (cs : List ι) (hmask : Masks W star (encode code cs) out) :
    ∃ marked : Marked ι, marked.map Prod.fst = cs ∧ out = maskBlocks code star marked := by
  -- on the number of symbols that are left
  induction hn : cs.length using Nat.strong_induction_on generalizing cs out with
  | _ n ih =>
    subst hn
    rcases hmask.cases_front with ⟨hnil, rfl⟩ | ⟨w, rest, out', htext, rfl, hw, _, hrest⟩ |
      ⟨x, rest, out', htext, rfl, hno, hrest⟩
    · cases cs with
      | nil => exact ⟨[], rfl, rfl⟩
      | cons c cs =>
        rw [encode_cons] at hnil
        exact absurd (List.append_eq_nil_iff.mp hnil).1 (h.code_ne_nil c)
    · obtain ⟨ws, rfl⟩ := hW w hw.1
      obtain ⟨cs', rfl, rfl⟩ := h.encode_prefix htext.symm
      have hpos : 0 < ws.length := by
        refine List.length_pos_iff.mpr fun hnil => hw.2.1 ?_
        rw [hnil, encode_nil]
      obtain ⟨marked, rfl, rfl⟩ := ih cs'.length (by rw [List.length_append]; omega) cs' hrest rfl
      refine ⟨ws.map (fun c => (c, true)) ++ marked, ?_, ?_⟩
      · rw [List.map_append, List.map_map, Function.comp_def, List.map_id']
      · rw [maskBlocks_append, maskBlocks_all]
    · cases cs with
      | nil => cases htext
      | cons c cs =>
        obtain ⟨y, ys, hblock, _, hys⟩ := h.block c
        rw [encode_cons, hblock, List.cons_append] at htext
        obtain ⟨rfl, rfl⟩ := List.cons.inj htext
        obtain ⟨out₂, rfl, hout₂⟩ := h.masks_inside hW hys hrest
        obtain ⟨marked, rfl, rfl⟩ := ih cs.length (Nat.lt_succ_self _) cs hout₂ rfl
        refine ⟨(c, false) :: marked, rfl, ?_⟩
        show y :: (ys ++ maskBlocks code star marked) = code c ++ maskBlocks code star marked
        rw [hblock, List.cons_append]

end SelfSync

end Code

/-! ## UTF-8 -/

/-- The UTF-8 encoding of a text. -/
def utf8 : List Char → Bytes := encode String.utf8EncodeChar

/-- The bytes are well-formed UTF-8. -/
def WellFormed (s : Bytes) : Prop := ∃ cs, utf8 cs = s

theorem utf8_selfSync : SelfSync String.utf8EncodeChar UInt8.IsUTF8FirstByte where
  block := by
    intro c
    obtain ⟨x, xs, heq⟩ := List.exists_cons_of_ne_nil (String.utf8EncodeChar_ne_nil (c := c))
    have hlead : ∀ (i : Nat) (hi : i < (String.utf8EncodeChar c).length),
        ((String.utf8EncodeChar c)[i]).IsUTF8FirstByte ↔ i = 0 :=
      fun i hi => UInt8.isUTF8FirstByte_getElem_utf8EncodeChar
    simp only [heq] at hlead
    refine ⟨x, xs, heq, (hlead 0 (Nat.succ_pos _)).mpr rfl, fun y hy hfirst => ?_⟩
    obtain ⟨i, hi, rfl⟩ := List.mem_iff_getElem.mp hy
    exact absurd ((hlead (i + 1) (Nat.succ_lt_succ hi)).mp hfirst) (Nat.succ_ne_zero i)
  prefixFree := by
    intro c d s t heq
    have hbytes := congrArg (fun l : List UInt8 => l.toByteArray.utf8DecodeChar? 0) heq
    simpa only [List.toByteArray_append, ByteArray.utf8DecodeChar?_utf8EncodeChar_append,
      Option.some.injEq] using hbytes

/-- A string literal is well-formed UTF-8. -/
theorem wellFormed_str (s : String) : WellFormed (str s) := by
  have hbytes : (utf8 s.toList).toByteArray = s.toByteArray := String.utf8Encode_toList
  have hlist := congrArg (fun b : ByteArray => b.data.toList) hbytes
  refine ⟨s.toList, Eq.trans ?_ hlist⟩
  rw [List.toList_data_toByteArray]

end IMSystem.Lib

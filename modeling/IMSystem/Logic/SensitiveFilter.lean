import IMSystem.Lib.Bytes
import IMSystem.Lib.Masking

/-!
# The sensitive word filter (`logic/src/sensitive_filter.cpp`)

A trie over bytes, loaded by `Init`, scanned by `HasSensitiveWord` and by
`Filter`. The two scans are written independently of each other in the source
and are modelled independently here.

Results:
1. `isWord_loaded`: the paths marked `is_end` are exactly the loaded non-empty
   words, whatever the order and grouping of the `Init` calls.
2. `hasSensitiveWord_iff`, `hasSensitiveWord_loaded_iff`: the first scan decides
   whether a loaded word occurs.
3. `filter_masks`: the second scan computes the leftmost-shortest masking.
4. `filter_eq_of_not_has`: where the first scan finds nothing, the second one
   changes nothing.
-/

namespace IMSystem.SensitiveFilter

open Lib

/-! ## The trie -/

/-- `TrieNode`: the children by their byte, and the end-of-word mark. -/
inductive TrieNode where
  | mk (children : List (UInt8 × TrieNode)) (isEnd : Bool)

namespace TrieNode

def children : TrieNode → List (UInt8 × TrieNode)
  | mk ch _ => ch

def isEnd : TrieNode → Bool
  | mk _ e => e

/-- A fresh node (`std::make_unique<TrieNode>()`). -/
def fresh : TrieNode := mk [] false

@[simp] theorem children_mk (ch : List (UInt8 × TrieNode)) (e : Bool) : (mk ch e).children = ch := rfl

@[simp] theorem isEnd_mk (ch : List (UInt8 × TrieNode)) (e : Bool) : (mk ch e).isEnd = e := rfl

end TrieNode

/-- `children.find(c)`. -/
def find (c : UInt8) : List (UInt8 × TrieNode) → Option TrieNode
  | [] => none
  | (d, n) :: rest => if d = c then some n else find c rest

/-- `children[c] = n`. -/
def assign (c : UInt8) (n : TrieNode) : List (UInt8 × TrieNode) → List (UInt8 × TrieNode)
  | [] => [(c, n)]
  | (d, m) :: rest => if d = c then (d, n) :: rest else (d, m) :: assign c n rest

/-- The loop of `AddWord` from a node on, with the bytes that are still to come.
A missing child is created before the walk goes on. -/
def addWordFrom (node : TrieNode) : Bytes → TrieNode
  | [] => .mk node.children true
  | c :: rest =>
    let child := (find c node.children).getD .fresh
    .mk (assign c (addWordFrom child rest) node.children) node.isEnd

/-- `SensitiveFilter::AddWord`. -/
def addWord (root : TrieNode) (word : Bytes) : TrieNode :=
  if word = [] then root else addWordFrom root word

/-- `SensitiveFilter::Init`. -/
def init (root : TrieNode) (words : List Bytes) : TrieNode := words.foldl addWord root

/-- The trie after a sequence of `Init` calls on the freshly constructed filter. -/
def loaded (inits : List (List Bytes)) : TrieNode := inits.foldl init .fresh

/-- The non-empty words of a sequence of `Init` calls. -/
def words (inits : List (List Bytes)) : Set Bytes :=
  {w | w ≠ [] ∧ ∃ ws ∈ inits, w ∈ ws}

/-! ## The two scans -/

/-- The inner loop of `HasSensitiveWord`: walk down from `node` along the text
until an end-of-word mark, a missing child, or the end of the text. -/
def hasWordFrom (node : TrieNode) : Bytes → Bool
  | [] => false
  | c :: rest =>
    match find c node.children with
    | none => false
    | some child => if child.isEnd then true else hasWordFrom child rest

/-- The outer loop of `HasSensitiveWord`, on the text from position `i` on. -/
def hasSensitiveWordLoop (root : TrieNode) : Bytes → Bool
  | [] => false
  | c :: rest => if hasWordFrom root (c :: rest) then true else hasSensitiveWordLoop root rest

/-- `SensitiveFilter::HasSensitiveWord`. -/
def hasSensitiveWord (root : TrieNode) (text : Bytes) : Bool :=
  if text.isEmpty || root.children.isEmpty then false else hasSensitiveWordLoop root text

/-- The inner loop of `Filter`: the distance `j - i` at which it finds an
end-of-word mark. -/
def matchFrom (node : TrieNode) : Bytes → Option Nat
  | [] => none
  | c :: rest =>
    match find c node.children with
    | none => none
    | some child => if child.isEnd then some 0 else (matchFrom child rest).map (· + 1)

/-- The outer loop of `Filter`, on the text from position `i` on. A match at
distance `k` overwrites `result[i .. i + k]` and sets `i = j`; the final `i++`
then continues behind it. -/
def filterLoop (root : TrieNode) : Bytes → Bytes
  | [] => []
  | c :: rest =>
    match matchFrom root (c :: rest) with
    | some k => List.replicate (k + 1) (chr '*') ++ filterLoop root (rest.drop k)
    | none => c :: filterLoop root rest
termination_by text => text.length
decreasing_by all_goals simp only [List.length_cons, List.length_drop]; omega

/-- `SensitiveFilter::Filter`. -/
def filter (root : TrieNode) (text : Bytes) : Bytes :=
  if text.isEmpty || root.children.isEmpty then text else filterLoop root text

/-! ## The trie represents the loaded words -/

/-- The walk from `node` along `w` ends on an end-of-word mark. -/
def isWord (node : TrieNode) : Bytes → Bool
  | [] => node.isEnd
  | c :: rest =>
    match find c node.children with
    | none => false
    | some child => isWord child rest

namespace SensitiveFilterLemmas

theorem find_assign (c d : UInt8) (n : TrieNode) (ch : List (UInt8 × TrieNode)) :
    find d (assign c n ch) = if d = c then some n else find d ch := by
  induction ch with
  | nil => simp [assign, find, eq_comm]
  | cons x rest ih =>
    obtain ⟨e, m⟩ := x
    by_cases hec : e = c
    · subst hec
      by_cases hd : d = e
      · simp [assign, find, hd]
      · simp [assign, find, hd, Ne.symm hd]
    · by_cases hed : e = d
      · subst hed
        simp [assign, find, hec]
      · simp [assign, find, hec, hed, ih]

theorem isWord_fresh (v : Bytes) : isWord .fresh v = false := by
  cases v <;> simp [isWord, TrieNode.fresh, find]

end SensitiveFilterLemmas

open SensitiveFilterLemmas

theorem isWord_addWordFrom (w : Bytes) (node : TrieNode) (v : Bytes) :
    isWord (addWordFrom node w) v = true ↔ v = w ∨ isWord node v = true := by
  induction w generalizing node v with
  | nil =>
    cases v with
    | nil => simp [addWordFrom, isWord]
    | cons d v => simp [addWordFrom, isWord]
  | cons c w ih =>
    cases v with
    | nil => simp [addWordFrom, isWord]
    | cons d v =>
      simp only [addWordFrom, isWord, TrieNode.children_mk, find_assign, List.cons.injEq]
      by_cases hdc : d = c
      · subst hdc
        simp only [if_true, ih, true_and]
        cases find d node.children with
        | none => simp [isWord_fresh]
        | some child => simp
      · simp [hdc]

theorem isWord_addWord (root : TrieNode) (w v : Bytes) :
    isWord (addWord root w) v = true ↔ (v = w ∧ w ≠ []) ∨ isWord root v = true := by
  unfold addWord
  by_cases hw : w = []
  · simp [hw]
  · simp [isWord_addWordFrom, hw]

theorem isWord_init (ws : List Bytes) (root : TrieNode) (v : Bytes) :
    isWord (init root ws) v = true ↔ (v ≠ [] ∧ v ∈ ws) ∨ isWord root v = true := by
  induction ws generalizing root with
  | nil => simp [init]
  | cons w ws ih =>
    have hcons : init root (w :: ws) = init (addWord root w) ws := rfl
    rw [hcons, ih, isWord_addWord, List.mem_cons]
    constructor
    · rintro (⟨hv, hmem⟩ | ⟨rfl, hne⟩ | hroot)
      · exact .inl ⟨hv, .inr hmem⟩
      · exact .inl ⟨hne, .inl rfl⟩
      · exact .inr hroot
    · rintro (⟨hv, rfl | hmem⟩ | hroot)
      · exact .inr (.inl ⟨rfl, hv⟩)
      · exact .inl ⟨hv, hmem⟩
      · exact .inr (.inr hroot)

/-- The trie representation invariant: the words of the trie are the loaded
non-empty words. -/
theorem isWord_loaded (inits : List (List Bytes)) (v : Bytes) :
    isWord (loaded inits) v = true ↔ v ∈ words inits := by
  have hgen : ∀ root, isWord (inits.foldl init root) v = true ↔
      v ∈ words inits ∨ isWord root v = true := by
    induction inits with
    | nil => intro root; simp [words]
    | cons ws inits ih =>
      intro root
      rw [List.foldl_cons, ih, isWord_init]
      simp only [words, Set.mem_ofPred_eq, List.mem_cons]
      constructor
      · rintro (⟨hv, us, hus, hmem⟩ | ⟨hv, hmem⟩ | hroot)
        · exact .inl ⟨hv, us, .inr hus, hmem⟩
        · exact .inl ⟨hv, ws, .inl rfl, hmem⟩
        · exact .inr hroot
      · rintro (⟨hv, us, rfl | hus, hmem⟩ | hroot)
        · exact .inr (.inl ⟨hv, hmem⟩)
        · exact .inl ⟨hv, us, hus, hmem⟩
        · exact .inr (.inr hroot)
  rw [loaded, hgen, isWord_fresh]
  simp

/-- The words of a trie whose root carries no end-of-word mark. -/
def trieWords (root : TrieNode) : Set Bytes := {w | w ≠ [] ∧ isWord root w = true}

theorem trieWords_loaded (inits : List (List Bytes)) : trieWords (loaded inits) = words inits := by
  ext w
  simp only [trieWords, Set.mem_ofPred_eq, isWord_loaded]
  exact ⟨fun h => h.2, fun h => ⟨h.1, h⟩⟩

/-! ## What the inner loops find -/

/-- The inner loop of `Filter` stops at the shortest word in front of the text. -/
theorem matchFrom_some {node : TrieNode} {text : Bytes} {k : Nat}
    (h : matchFrom node text = some k) :
    k < text.length ∧ isWord node (text.take (k + 1)) = true ∧
      ∀ j, j < k → isWord node (text.take (j + 1)) = false := by
  induction text generalizing node k with
  | nil => simp [matchFrom] at h
  | cons c rest ih =>
    simp only [matchFrom] at h
    cases hf : find c node.children with
    | none => simp [hf] at h
    | some child =>
      simp only [hf] at h
      split at h
      · next hend =>
        cases h
        refine ⟨by simp, ?_, fun j hj => absurd hj (Nat.not_lt_zero j)⟩
        simp [isWord, hf, hend]
      · next hend =>
        obtain ⟨k', hk', rfl⟩ := Option.map_eq_some_iff.mp h
        obtain ⟨hlt, hword, hleast⟩ := ih hk'
        refine ⟨by simpa using hlt, by simpa [isWord, hf] using hword, fun j hj => ?_⟩
        cases j with
        | zero => simpa [isWord, hf] using hend
        | succ j => simpa [isWord, hf] using hleast j (by omega)

/-- Where the inner loop of `Filter` finds nothing, no word is in front of the
text. -/
theorem matchFrom_none {node : TrieNode} {text : Bytes} (h : matchFrom node text = none) (k : Nat)
    (hk : k < text.length) : isWord node (text.take (k + 1)) = false := by
  induction text generalizing node k with
  | nil => exact absurd hk (Nat.not_lt_zero k)
  | cons c rest ih =>
    simp only [matchFrom] at h
    cases hf : find c node.children with
    | none => simp [isWord, hf]
    | some child =>
      simp only [hf] at h
      split at h
      · cases h
      · next hend =>
        rw [Option.map_eq_none_iff] at h
        cases k with
        | zero => simpa [isWord, hf] using hend
        | succ k => simpa [isWord, hf] using ih h k (by simpa using hk)

/-- The inner loops of the two scans agree. -/
theorem hasWordFrom_eq (node : TrieNode) (text : Bytes) :
    hasWordFrom node text = (matchFrom node text).isSome := by
  induction text generalizing node with
  | nil => rfl
  | cons c rest ih =>
    simp only [hasWordFrom, matchFrom]
    cases find c node.children with
    | none => rfl
    | some child => cases hend : child.isEnd <;> simp [hend, ih]

/-- A match is the shortest word at the front of the text. -/
theorem startsAt_of_match {root : TrieNode} {text : Bytes} {k : Nat}
    (h : matchFrom root text = some k) :
    StartsAt (trieWords root) (text.take (k + 1)) text ∧
      ∀ v, StartsAt (trieWords root) v text → (text.take (k + 1)).length ≤ v.length := by
  obtain ⟨hlt, hword, hleast⟩ := matchFrom_some h
  have hne : text.take (k + 1) ≠ [] := by
    cases text with
    | nil => exact absurd hlt (Nat.not_lt_zero k)
    | cons c rest => simp
  refine ⟨⟨⟨hne, hword⟩, hne, List.take_prefix _ _⟩, ?_⟩
  rintro v ⟨⟨hv, hvword⟩, _, hpre⟩
  have hvtake : v = text.take v.length := List.prefix_iff_eq_take.mp hpre
  by_contra hlen
  rw [List.length_take, Nat.min_eq_left (by omega), Nat.not_le] at hlen
  cases hvl : v.length with
  | zero => exact hv (List.length_eq_zero_iff.mp hvl)
  | succ j =>
    have hfalse := hleast j (by omega)
    rw [hvl] at hvtake
    rw [← hvtake, hvword] at hfalse
    exact Bool.noConfusion hfalse

/-- Without a match, no word starts at the front of the text. -/
theorem not_startsAt_of_no_match {root : TrieNode} {text : Bytes}
    (h : matchFrom root text = none) (v : Bytes) : ¬ StartsAt (trieWords root) v text := by
  rintro ⟨⟨hv, hvword⟩, _, hpre⟩
  have hvtake : v = text.take v.length := List.prefix_iff_eq_take.mp hpre
  cases hvl : v.length with
  | zero => exact hv (List.length_eq_zero_iff.mp hvl)
  | succ j =>
    have hle := hpre.length_le
    have hfalse := matchFrom_none h j (by omega)
    rw [hvl] at hvtake
    rw [← hvtake, hvword] at hfalse
    exact Bool.noConfusion hfalse

/-! ## The scans against their meaning -/

theorem filterLoop_masks (root : TrieNode) (text : Bytes) :
    Masks (trieWords root) (chr '*') text (filterLoop root text) := by
  induction text using filterLoop.induct root with
  | case1 => simpa [filterLoop] using Masks.nil
  | case2 c rest k hk ih =>
    obtain ⟨hstart, hshort⟩ := startsAt_of_match hk
    have hlen : ((c :: rest).take (k + 1)).length = k + 1 := by
      rw [List.length_take]
      exact Nat.min_eq_left (matchFrom_some hk).1
    have hsplit : (c :: rest).take (k + 1) ++ rest.drop k = c :: rest :=
      List.take_append_drop (k + 1) (c :: rest)
    rw [filterLoop, hk]
    have hmask := Masks.hit (by rwa [hsplit]) (by rwa [hsplit]) ih
    rwa [hsplit, hlen] at hmask
  | case3 c rest hk ih =>
    rw [filterLoop, hk]
    exact Masks.skip (not_startsAt_of_no_match hk) ih

theorem hasSensitiveWordLoop_iff (root : TrieNode) (text : Bytes) :
    hasSensitiveWordLoop root text = true ↔ HasWord (trieWords root) text := by
  induction text with
  | nil =>
    simp only [hasSensitiveWordLoop, HasWord, List.infix_nil]
    constructor
    · intro h; exact Bool.noConfusion h
    · rintro ⟨w, _, hne, hw⟩; exact absurd hw hne
  | cons c rest ih =>
    rw [hasSensitiveWordLoop, hasWordFrom_eq]
    cases hm : matchFrom root (c :: rest) with
    | some k =>
      have hstart := (startsAt_of_match hm).1
      simp only [Option.isSome_some, if_true, true_iff]
      exact ⟨_, hstart.1, hstart.2.1, hstart.2.2.isInfix⟩
    | none =>
      simp only [Option.isSome_none, Bool.false_eq_true, if_false, ih]
      constructor
      · rintro ⟨w, hw, hne, hinf⟩
        exact ⟨w, hw, hne, hinf.trans (List.suffix_cons c rest).isInfix⟩
      · rintro ⟨w, hw, hne, hinf⟩
        rcases List.infix_cons_iff.mp hinf with hpre | hinf
        · exact absurd ⟨hw, hne, hpre⟩ (not_startsAt_of_no_match hm w)
        · exact ⟨w, hw, hne, hinf⟩

/-- A root without children holds no word. -/
theorem not_hasWord_of_no_children {root : TrieNode} (h : root.children.isEmpty = true)
    (text : Bytes) : ¬ HasWord (trieWords root) text := by
  rintro ⟨w, ⟨hne, hword⟩, _⟩
  cases w with
  | nil => exact hne rfl
  | cons c w =>
    rw [List.isEmpty_iff] at h
    simp [isWord, h, find] at hword

theorem masks_refl_of_no_word {W : Set Bytes} {text : Bytes} (h : ¬ HasWord W text) :
    Masks W (chr '*') text text := by
  induction text with
  | nil => exact .nil
  | cons c rest ih =>
    refine .skip (fun v hv => h ⟨v, hv.1, hv.2.1, hv.2.2.isInfix⟩) (ih ?_)
    rintro ⟨w, hw, hne, hinf⟩
    exact h ⟨w, hw, hne, hinf.trans (List.suffix_cons c rest).isInfix⟩

/-- `HasSensitiveWord` decides whether a word of the trie occurs in the text. -/
theorem hasSensitiveWord_iff (root : TrieNode) (text : Bytes) :
    hasSensitiveWord root text = true ↔ HasWord (trieWords root) text := by
  unfold hasSensitiveWord
  split
  · next h =>
    rw [Bool.or_eq_true] at h
    refine ⟨fun hf => Bool.noConfusion hf, fun hw => absurd hw ?_⟩
    rcases h with htext | hroot
    · rw [List.isEmpty_iff] at htext
      rintro ⟨w, _, hne, hinf⟩
      rw [htext, List.infix_nil] at hinf
      exact hne hinf
    · exact not_hasWord_of_no_children hroot text
  · exact hasSensitiveWordLoop_iff root text

/-- After any sequence of `Init` calls, `HasSensitiveWord` finds exactly the
non-empty loaded words, so it depends on nothing but the set of them. -/
theorem hasSensitiveWord_loaded_iff (inits : List (List Bytes)) :
    (∀ text, hasSensitiveWord (loaded inits) text = true ↔
      ∃ ws ∈ inits, ∃ w ∈ ws, w ≠ [] ∧ w <:+: text) ∧
    ∀ inits', words inits' = words inits → ∀ text,
      hasSensitiveWord (loaded inits') text = hasSensitiveWord (loaded inits) text := by
  refine ⟨fun text => ?_, fun inits' hwords text => ?_⟩
  · rw [hasSensitiveWord_iff, trieWords_loaded]
    constructor
    · rintro ⟨w, ⟨hne, ws, hws, hw⟩, _, hinf⟩
      exact ⟨ws, hws, w, hw, hne, hinf⟩
    · rintro ⟨ws, hws, w, hw, hne, hinf⟩
      exact ⟨w, ⟨hne, ws, hws, hw⟩, hne, hinf⟩
  · rw [Bool.eq_iff_iff, hasSensitiveWord_iff, hasSensitiveWord_iff, trieWords_loaded,
      trieWords_loaded, hwords]

/-- Words loaded in one call, and in two calls with a repetition and the empty
word. -/
theorem hasSensitiveWord_loaded_regrouped :
    hasSensitiveWord (loaded [[str "ban"], [[], str "bad", str "ban"]]) (str "a bad day") =
      hasSensitiveWord (loaded [[str "bad", str "ban"]]) (str "a bad day") := by
  refine (hasSensitiveWord_loaded_iff [[str "bad", str "ban"]]).2 _ ?_ _
  ext w
  simp only [words, Set.mem_ofPred_eq, List.mem_cons, List.not_mem_nil, or_false,
    exists_eq_or_imp, exists_eq_left]
  constructor
  · rintro ⟨hne, hw | hw | hw | hw⟩
    · exact ⟨hne, .inr hw⟩
    · exact absurd hw hne
    · exact ⟨hne, .inl hw⟩
    · exact ⟨hne, .inr hw⟩
  · rintro ⟨hne, hw | hw⟩
    · exact ⟨hne, .inr (.inr (.inl hw))⟩
    · exact ⟨hne, .inl hw⟩

/-- `Filter` is the leftmost-shortest masking with `*` against the words of the
trie. -/
theorem filter_masks (root : TrieNode) (text : Bytes) :
    Masks (trieWords root) (chr '*') text (filter root text) := by
  unfold filter
  split
  · next h =>
    rw [Bool.or_eq_true] at h
    rcases h with htext | hroot
    · rw [List.isEmpty_iff] at htext
      subst htext
      exact .nil
    · exact masks_refl_of_no_word (not_hasWord_of_no_children hroot text)
  · exact filterLoop_masks root text

/-- Where `HasSensitiveWord` is false, `Filter` is the identity: the guard in
front of it never changes a result. -/
theorem filter_eq_of_not_has {root : TrieNode} {text : Bytes}
    (h : hasSensitiveWord root text = false) : filter root text = text := by
  refine (filter_masks root text).eq_of_no_word fun hw => ?_
  rw [(hasSensitiveWord_iff root text).mpr hw] at h
  exact Bool.noConfusion h

example : filter (loaded [[str "badword", str "apple", str "ban"]]) (str "appleban") =
    str "********" := by decide +kernel

end IMSystem.SensitiveFilter

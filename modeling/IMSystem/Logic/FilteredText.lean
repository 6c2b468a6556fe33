import IMSystem.Lib.SelfSync
import IMSystem.Logic.SensitiveFilter

/-!
# What `Filter` leaves of a text (`logic/src/sensitive_filter.cpp`)

`Filter` overwrites, from left to right, the shortest loaded word at each place
where one starts, and goes on behind it. So every word loses its first byte, but
a word that is longer than the one found at its place, or that overlaps the one
before it, may keep its end.

Results:
1. `filter_loaded`: `Filter` is the leftmost-shortest masking with the loaded words.
2. `fullyMasked_iff`: when no byte of a loaded word stays readable.
3. `filter_wellFormed`: of UTF-8, `Filter` leaves UTF-8.
-/

namespace IMSystem.SensitiveFilter

open Lib

/-- After any sequence of `Init` calls, `Filter` computes the leftmost-shortest
masking with the loaded words. It keeps the length, changes no byte outside of
them, and overwrites the first byte of each of them. -/
theorem filter_loaded (inits : List (List Bytes)) (text : Bytes) :
    (∀ out, Masks (words inits) (chr '*') text out ↔ out = filter (loaded inits) text) ∧
    (filter (loaded inits) text).length = text.length ∧
    (∀ i, (filter (loaded inits) text)[i]? ≠ text[i]? → Covered (words inits) text i) ∧
    ∀ a w b, text = a ++ (w ++ b) → w ∈ words inits →
      (filter (loaded inits) text)[a.length]? = some (chr '*') := by
  have hmask := filter_masks (loaded inits) text
  rw [trieWords_loaded] at hmask
  refine ⟨fun out => ⟨hmask.unique, ?_⟩, hmask.length_eq, fun i => hmask.covered_of_changed, ?_⟩
  · rintro rfl
    exact hmask
  · intro a w b htext hw
    exact hmask.start_masked htext hw hw.1

/-- No byte of a loaded word stays readable, and none becomes so by loading more
words. -/
structure FullyMasked (inits : List (List Bytes)) (text : Bytes) : Prop where
  covered : ∀ i : Nat, Covered (words inits) text i →
    (filter (loaded inits) text)[i]? = some (chr '*')
  additional : ∀ fewer : List (List Bytes), words fewer ⊆ words inits → ∀ i : Nat,
    (filter (loaded fewer) text)[i]? = some (chr '*') →
    (filter (loaded inits) text)[i]? = some (chr '*')

/-- A masked byte was `*` before, or belongs to a loaded word. -/
theorem masked_cases {inits : List (List Bytes)} {text : Bytes} {i : Nat}
    (h : (filter (loaded inits) text)[i]? = some (chr '*')) :
    text[i]? = some (chr '*') ∨ Covered (words inits) text i := by
  have hmask := filter_masks (loaded inits) text
  rw [trieWords_loaded] at hmask
  by_cases hsame : (filter (loaded inits) text)[i]? = text[i]?
  · exact .inl (hsame ▸ h)
  · exact .inr (hmask.covered_of_changed hsame)

/-- A byte that is `*` stays so. -/
theorem star_stays (inits : List (List Bytes)) {text : Bytes} {i : Nat}
    (h : text[i]? = some (chr '*')) : (filter (loaded inits) text)[i]? = some (chr '*') := by
  have hi : i < text.length := by
    by_contra hge
    rw [List.getElem?_eq_none (Nat.not_lt.mp hge)] at h
    cases h
  rcases (filter_masks (loaded inits) text).pointwise i hi with hstar | hsame
  · exact hstar
  · rw [hsame, h]

/-- The loaded words are masked in full exactly if, wherever the scan comes to
stand inside an occurrence of a loaded word, the next word starts right there. -/
theorem fullyMasked_iff (inits : List (List Bytes)) (text : Bytes) :
    FullyMasked inits text ↔ Seamless (words inits) (chr '*') text := by
  have hmask := filter_masks (loaded inits) text
  rw [trieWords_loaded] at hmask
  rw [← hmask.covers_iff]
  constructor
  · intro h
    exact h.covered
  · intro hcovers
    refine ⟨hcovers, fun fewer hfewer i hi => ?_⟩
    rcases masked_cases hi with hstar | hcovered
    · exact star_stays inits hstar
    · exact hcovers i (hcovered.mono hfewer)

/-- Once `ban` is loaded as well, the end of `banana` stays readable. -/
theorem banana_not_fullyMasked :
    ¬ FullyMasked [[str "banana"], [str "ban"]] (str "banana") := by
  intro h
  have hcovered : Covered (words [[str "banana"], [str "ban"]]) (str "banana") 3 :=
    ⟨[], str "banana", [], rfl, ⟨by decide, [str "banana"], List.mem_cons_self,
      List.mem_singleton_self _⟩, by decide, by decide⟩
  exact absurd (h.covered 3 hcovered) (by decide +kernel)

/-! ## UTF-8 -/

/-- With words in UTF-8, `Filter` turns UTF-8 into UTF-8, and each code point
either survives or is overwritten with all its bytes. -/
theorem filter_wellFormed {inits : List (List Bytes)}
    (hwords : ∀ ws ∈ inits, ∀ w ∈ ws, WellFormed w) {text : Bytes} (htext : WellFormed text) :
    WellFormed (filter (loaded inits) text) ∧ ∀ cs, utf8 cs = text →
      ∃ marked : Marked Char, marked.map Prod.fst = cs ∧
        filter (loaded inits) text = maskBlocks String.utf8EncodeChar (chr '*') marked := by
  have hencoded : ∀ w ∈ words inits, ∃ ws, encode String.utf8EncodeChar ws = w := by
    rintro w ⟨_, ws, hws, hw⟩
    exact hwords ws hws w hw
  have hblocks : ∀ cs, utf8 cs = text → ∃ marked : Marked Char, marked.map Prod.fst = cs ∧
      filter (loaded inits) text = maskBlocks String.utf8EncodeChar (chr '*') marked := by
    rintro cs rfl
    have hmask := filter_masks (loaded inits) (utf8 cs)
    rw [trieWords_loaded] at hmask
    exact utf8_selfSync.masks_blocks hencoded cs hmask
  obtain ⟨cs, hcs⟩ := htext
  obtain ⟨marked, _, hfilter⟩ := hblocks cs hcs
  refine ⟨?_, hblocks⟩
  rw [hfilter, maskBlocks_eq_encode (s := '*') (by decide) marked]
  exact ⟨_, rfl⟩

/-- The words of the shipped configuration, in a text of three-byte code points. -/
theorem filter_wellFormed_shipped :
    WellFormed (filter (loaded [[str "枪支", str "毒品", str "政治敏感", str "色情"]])
      (str "买毒品")) := by
  refine (filter_wellFormed (fun ws hws w hw => ?_) (wellFormed_str _)).1
  obtain rfl := List.mem_singleton.mp hws
  simp only [List.mem_cons, List.not_mem_nil, or_false] at hw
  rcases hw with rfl | rfl | rfl | rfl
  all_goals exact wellFormed_str _

end IMSystem.SensitiveFilter

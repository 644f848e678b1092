import Mathlib.Data.List.Forall2
import Mathlib.Data.List.Nodup
import SceneGrammar.Proofs.Token.Entries
import SceneGrammar.Token.Keyword

/-!
# Which words are keywords

The keywords are spelled differently from each other, so their trie finds exactly the listed
spellings.
-/

namespace SceneGrammar

theorem lookup_eq_some_iff_mem {κ α : Type} [BEq κ] [LawfulBEq κ] {entries : List (κ × α)}
    (h : (entries.map Prod.fst).Nodup) {key : κ} {value : α} :
    entries.lookup key = some value ↔ (key, value) ∈ entries := by
  induction entries with
  | nil => simp
  | cons entry entries ih =>
    obtain ⟨first, held⟩ := entry
    rw [List.map_cons, List.nodup_cons] at h
    by_cases hk : key = first
    · subst hk
      have hne : (key, value) ∉ entries := fun hm => h.1 (List.mem_map.2 ⟨_, hm, rfl⟩)
      simp [hne, eq_comm]
    · simp [List.lookup_cons, beq_eq_false_iff_ne.2 hk, hk, ih h.2]

/-- The words of a table, letter by letter. A literal is the text of its letters by definition;
to compare two texts is to encode them both, which takes far longer to check. -/
theorem map_toList_eq {α : Type} (entries : List (String × α)) {words : List (List Char)}
    (h : List.Forall₂ (fun entry word => entry.1 = .ofList word) entries words) :
    entries.map (fun entry => entry.1.toList) = words := by
  induction h with
  | nil => rfl
  | cons hword _ ih => simp [hword, ih]

namespace Keyword

theorem nodup_spellings : ((spellings.map fun (word, keyword) => (word.toList, keyword)).reverse.map
    Prod.fst).Nodup := by
  have hwords : (spellings.map (·.1.toList)).Nodup := by
    rw [map_toList_eq spellings (by repeat' constructor)]
    decide
  rwa [List.map_reverse, List.nodup_reverse, List.map_map]

theorem spelling_ne_nil {word : String} {k : Keyword} (h : (word, k) ∈ spellings) :
    word.toList ≠ [] := by
  have hall : ∀ word ∈ spellings.map (·.1.toList), word ≠ [] := by
    rw [map_toList_eq spellings (by repeat' constructor)]
    decide
  exact hall _ (List.mem_map_of_mem h)

theorem get?_trie_eq_some_iff {word : List Char} {k : Keyword} :
    trie.get? word = some k ↔ (.ofList word, k) ∈ spellings := by
  by_cases hw : word = []
  · subst hw
    constructor
    · intro h
      cases h
    · intro h
      exact absurd String.toList_ofList (spelling_ne_nil h)
  · rw [trie, Trie.get?_ofList _ hw, lookup_eq_some_iff_mem nodup_spellings, List.mem_reverse,
      List.mem_map]
    constructor
    · rintro ⟨entry, h, he⟩
      cases he
      rw [String.ofList_toList]
      exact h
    · intro h
      exact ⟨_, h, by simp⟩

end Keyword

end SceneGrammar

import Mathlib.Data.List.Induction
import SceneGrammar.Trie

/-!
# What a trie notes of words

A trie has an entry for every word that begins one of the listed words, with the value that was
listed for it last, if it was listed itself. A walk answers by the entry of what it has accepted.
-/

namespace SceneGrammar
namespace Trie
variable {α : Type}

/-- What was noted before, and one more word: its beginnings get entries, and it gets the value. -/
def noted (entries : List Char → Option (Option α)) (word : List Char) (value : α)
    (q : List Char) : Option (Option α) :=
  if q = word then some (some value)
  else if q <+: word then some (entries q).join
  else entries q

/-- The entry that a list of words gives to `q`. -/
def entryIn (words : List (List Char × α)) (q : List Char) : Option (Option α) :=
  if ∃ entry ∈ words, q <+: entry.1 then some (words.reverse.lookup q) else none

theorem lookup_eq_none_of_not_begins {words : List (List Char × α)} {q : List Char}
    (h : ¬ ∃ entry ∈ words, q <+: entry.1) : words.reverse.lookup q = none := by
  rw [List.lookup_eq_none_iff]
  intro entry hentry
  rw [List.mem_reverse] at hentry
  rw [bne_iff_ne]
  rintro rfl
  exact h ⟨entry, hentry, List.prefix_rfl⟩

theorem join_entryIn (words : List (List Char × α)) (q : List Char) :
    (entryIn words q).join = words.reverse.lookup q := by
  rw [entryIn]
  split_ifs with h
  · rfl
  · exact (lookup_eq_none_of_not_begins h).symm

theorem entryIn_concat (words : List (List Char × α)) (word : List Char) (value : α)
    (q : List Char) :
    entryIn (words ++ [(word, value)]) q = noted (entryIn words) word value q := by
  have hbegins : (∃ entry ∈ words ++ [(word, value)], q <+: entry.1) ↔
      (∃ entry ∈ words, q <+: entry.1) ∨ q <+: word := by
    simp [or_and_right, exists_or]
  have hlookup : (words ++ [(word, value)]).reverse.lookup q =
      if q = word then some value else words.reverse.lookup q := by
    rw [List.reverse_concat, List.lookup_cons]
    by_cases hq : q = word
    · simp [hq]
    · simp [hq, beq_eq_false_iff_ne.2 hq]
  rw [noted, join_entryIn, entryIn, hlookup]
  by_cases hq : q = word
  · rw [if_pos (hbegins.2 (.inr (hq ▸ List.prefix_rfl))), if_pos hq, if_pos hq]
  · by_cases hprefix : q <+: word
    · rw [if_pos (hbegins.2 (.inr hprefix)), if_neg hq, if_neg hq, if_pos hprefix]
    · rw [if_neg hq, if_neg hq, if_neg hprefix, entryIn]
      simp only [hbegins, hprefix, or_false]

/-! ## Entries of a trie -/

/-- What stands at the end of a word, if the trie goes that far. -/
def entryAt : Trie α → List Char → Option (Option α)
  | _, [] => none
  | t, [c] => (t.child c).map Prod.fst
  | t, c :: d :: word => (t.child c).bind fun (_, below) => entryAt below (d :: word)

theorem entryAt_cons {t : Trie α} (c : Char) {word : List Char} (h : word ≠ []) :
    t.entryAt (c :: word) = (t.child c).bind fun (_, below) => below.entryAt word := by
  obtain ⟨d, word, rfl⟩ := List.exists_cons_of_ne_nil h
  rfl

theorem entryAt_empty : (word : List Char) → (empty : Trie α).entryAt word = none
  | [] => rfl
  | [_] => rfl
  | _ :: _ :: _ => rfl

theorem get?_cons_of_ne_nil (t : Trie α) (c : Char) {word : List Char} (h : word ≠ []) :
    t.get? (c :: word) = (t.child c).bind fun (_, below) => below.get? word := by
  obtain ⟨d, word, rfl⟩ := List.exists_cons_of_ne_nil h
  rfl

theorem get?_eq (t : Trie α) (word : List Char) : t.get? word = (t.entryAt word).join := by
  fun_induction get? t word with
  | case1 => rfl
  | case2 t c => cases h : t.child c <;> simp [entryAt, h]
  | case3 t c d word ih => cases h : t.child c <;> simp [entryAt, h, ih]

theorem entryAt_update (t : Trie α) (c : Char) (f : Option α × Trie α → Option α × Trie α)
    {word : List Char} (h : word ≠ []) : (t.update c f).entryAt (c :: word) =
      (f ((t.child c).getD (none, .empty))).2.entryAt word := by
  rw [entryAt_cons c h, child_update_self]
  rfl

theorem entryAt_update_of_ne {c d : Char} (h : d ≠ c) (t : Trie α)
    (f : Option α × Trie α → Option α × Trie α) (word : List Char) :
    (t.update c f).entryAt (d :: word) = t.entryAt (d :: word) := by
  cases word <;> simp [entryAt, child_update_of_ne h]

theorem entryAt_getD (t : Trie α) (c : Char) {word : List Char} (h : word ≠ []) :
    ((t.child c).getD (none, .empty)).2.entryAt word = t.entryAt (c :: word) := by
  rw [entryAt_cons c h]
  cases t.child c with
  | none => exact entryAt_empty word
  | some found => rfl

theorem entryAt_insert (t : Trie α) (word : List Char) (value : α) {q : List Char} (hq : q ≠ []) :
    (t.insert word value).entryAt q = noted t.entryAt word value q := by
  fun_induction insert t word value generalizing q with
  | case1 t => simp [noted, hq]
  | case2 t c value =>
    obtain ⟨d, q, rfl⟩ := List.exists_cons_of_ne_nil hq
    by_cases hd : d = c
    · subst hd
      by_cases hq : q = []
      · subst hq
        simp [entryAt, child_update_self, noted]
      · rw [entryAt_update t d _ hq]
        simp [noted, hq, entryAt_getD t d hq]
    · rw [entryAt_update_of_ne hd]
      simp [noted, hd]
  | case3 t c e word value ih =>
    obtain ⟨d, q, rfl⟩ := List.exists_cons_of_ne_nil hq
    by_cases hd : d = c
    · subst hd
      by_cases hq : q = []
      · subst hq
        cases hc : t.child d <;> simp [entryAt, child_update_self, noted, hc]
      · rw [entryAt_update t d _ hq, ih _ hq]
        simp [noted, entryAt_getD t d hq]
    · rw [entryAt_update_of_ne hd]
      simp [noted, hd]

theorem entryAt_ofList (words : List (List Char × α)) {q : List Char} (hq : q ≠ []) :
    (ofList words).entryAt q = entryIn words q := by
  induction words using List.reverseRecOn generalizing q with
  | nil => exact entryAt_empty q
  | append_singleton words entry ih =>
    obtain ⟨word, value⟩ := entry
    have hinsert : ofList (words ++ [(word, value)]) = (ofList words).insert word value :=
      List.foldl_append
    rw [hinsert, entryAt_insert _ _ _ hq, entryIn_concat, noted, noted, ih hq]

/-- Of the values listed for a word the last one counts. -/
theorem get?_ofList (words : List (List Char × α)) {word : List Char} (h : word ≠ []) :
    (ofList words).get? word = words.reverse.lookup word := by
  rw [get?_eq, entryAt_ofList words h, join_entryIn]

/-! ## Walks -/

namespace Answer

def isDead : Answer α → Bool
  | .dead => true
  | _ => false

theorem isDead_iff {answer : Answer α} : answer.isDead ↔ answer = .dead := by
  cases answer <;> simp [isDead]

/-- The answer of a walk that comes to this entry. -/
def ofEntry : Option (Option α) → Answer α
  | none => .dead
  | some none => .inside
  | some (some value) => .word value

theorem ofEntry_eq_dead_iff {entry : Option (Option α)} : ofEntry entry = .dead ↔ entry = none := by
  rcases entry with - | - | value <;> simp [ofEntry]

theorem ofEntry_eq_word_iff {entry : Option (Option α)} {value : α} :
    ofEntry entry = .word value ↔ entry.join = some value := by
  rcases entry with - | - | value <;> simp [ofEntry]

theorem ofEntry_eq_inside_iff {entry : Option (Option α)} :
    ofEntry entry = .inside ↔ entry ≠ none ∧ entry.join = none := by
  rcases entry with - | - | value <;> simp [ofEntry]

end Answer

theorem answer_step (t : Trie α) (c : Char) : (t.step c).1 = .ofEntry (t.entryAt [c]) := by
  rw [step, entryAt]
  rcases t.child c with - | ⟨- | value, below⟩ <;> rfl

/-- The characters of a walk that were not answered dead. -/
def accepted (t : Trie α) (fed : List Char) : List Char :=
  ((fed.zip (t.walk fed)).filter fun (_, answer) => !answer.isDead).map Prod.fst

theorem accepted_cons (t : Trie α) (c : Char) (fed : List Char) :
    t.accepted (c :: fed) =
      (if (t.step c).1.isDead then [] else [c]) ++ (t.step c).2.accepted fed := by
  simp only [accepted, walk, List.zip_cons_cons, List.filter_cons]
  cases (t.step c).1.isDead <;> rfl

theorem entryAt_after_step (t : Trie α) (c : Char) {word : List Char} (h : word ≠ []) :
    (t.step c).2.entryAt word = t.entryAt ((if (t.step c).1.isDead then [] else [c]) ++ word) := by
  rw [step]
  rcases hc : t.child c with - | ⟨- | value, below⟩
  · rfl
  all_goals
    simp [Answer.isDead, entryAt_cons c h, hc]

/-- A walk answers by the entry of what it has accepted so far. -/
theorem walk_concat (t : Trie α) (fed : List Char) (c : Char) :
    t.walk (fed ++ [c]) = t.walk fed ++ [.ofEntry (t.entryAt (t.accepted fed ++ [c]))] := by
  induction fed generalizing t with
  | nil => simp [walk, accepted, answer_step]
  | cons d fed ih =>
    rw [List.cons_append, walk, walk, ih, accepted_cons, List.append_assoc,
      ← entryAt_after_step t d (by simp)]
    rfl

theorem accepted_concat (t : Trie α) (fed : List Char) (c : Char) :
    t.accepted (fed ++ [c]) = t.accepted fed ++
      if (Answer.ofEntry (t.entryAt (t.accepted fed ++ [c]))).isDead then [] else [c] := by
  have hlength : fed.length = (t.walk fed).length := by
    induction fed generalizing t with
    | nil => rfl
    | cons d fed ih => rw [walk, List.length_cons, List.length_cons, ih]
  conv_lhs => rw [accepted, walk_concat, List.zip_append hlength, List.filter_append,
    List.map_append]
  congr 1
  simp only [List.zip_cons_cons, List.zip_nil_right, List.filter_cons, List.filter_nil]
  cases (Answer.ofEntry (t.entryAt (t.accepted fed ++ [c]))).isDead <;> rfl

end Trie
end SceneGrammar

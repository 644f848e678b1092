/-!
A trie as a finite map from non-empty words, walked one character at a time. The nodes below one
node are a list linked by `beside`.
-/

namespace SceneGrammar

inductive Trie (α : Type)
  | empty
  | branch (letter : Char) (value : Option α) (below beside : Trie α)
  deriving Repr

namespace Trie
variable {α : Type}

/-- The value and the subtrie under one character. -/
def child (c : Char) : Trie α → Option (Option α × Trie α)
  | .empty => none
  | .branch d value below beside => if c = d then some (value, below) else child c beside

/-- Changes what stands under one character; a character without a node gets one. -/
def update (c : Char) (f : Option α × Trie α → Option α × Trie α) : Trie α → Trie α
  | .empty => .branch c (f (none, .empty)).1 (f (none, .empty)).2 .empty
  | .branch d value below beside =>
    if c = d then .branch d (f (value, below)).1 (f (value, below)).2 beside
    else .branch d value below (update c f beside)

theorem child_update_self (c : Char) (f : Option α × Trie α → Option α × Trie α) (t : Trie α) :
    (t.update c f).child c = some (f ((t.child c).getD (none, .empty))) := by
  induction t with
  | empty => simp [update, child]
  | branch d value below beside _ ih => by_cases h : c = d <;> simp [update, child, h, ih]

theorem child_update_of_ne {c d : Char} (h : d ≠ c) (f : Option α × Trie α → Option α × Trie α)
    (t : Trie α) : (t.update c f).child d = t.child d := by
  induction t with
  | empty => simp [update, child, h]
  | branch e value below beside _ ih =>
    by_cases he : c = e
    · subst he; simp [update, child, h]
    · by_cases hd : d = e <;> simp [update, child, he, hd, ih]

/-- The empty word has no place in the map. -/
def insert : Trie α → List Char → α → Trie α
  | t, [], _ => t
  | t, [c], value => t.update c fun (_, below) => (some value, below)
  | t, c :: d :: word, value =>
    t.update c fun (own, below) => (own, insert below (d :: word) value)

def get? : Trie α → List Char → Option α
  | _, [] => none
  | t, [c] => (t.child c).bind Prod.fst
  | t, c :: d :: word => (t.child c).bind fun (_, below) => get? below (d :: word)

/-- A word that is listed again takes its last value. -/
def ofList (words : List (List Char × α)) : Trie α :=
  words.foldl (fun t (word, value) => t.insert word value) .empty

inductive Answer (α : Type)
  | dead
  | inside
  | word (value : α)
  deriving DecidableEq, Repr

/-- The answer and where the walk stands after it; a dead step stays. -/
def step (t : Trie α) (c : Char) : Answer α × Trie α :=
  match t.child c with
  | none => (.dead, t)
  | some (none, below) => (.inside, below)
  | some (some value, below) => (.word value, below)

def walk : Trie α → List Char → List (Answer α)
  | _, [] => []
  | t, c :: word => (t.step c).1 :: walk (t.step c).2 word

end Trie

end SceneGrammar

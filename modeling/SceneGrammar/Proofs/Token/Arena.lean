import SceneGrammar.Proofs.Token.Entries

/-!
# A trie in an arena

The nodes of a trie can be kept in one growing list and linked by their places in it. Every place
that is linked is there and is reached by one word only, so an insertion notes its word and leaves
all others alone: what such an arena answers is what the trie answers.
-/

namespace SceneGrammar
namespace Trie

structure Node (α : Type) where
  links : List (Char × Nat)
  value : Option α
  deriving Repr

/-- The first node is the root. -/
structure Arena (α : Type) where
  nodes : List (Node α)
  deriving Repr

namespace Arena
variable {α : Type}

def fresh : Node α := ⟨[], none⟩

def root : Arena α := ⟨[fresh]⟩

def link (a : Arena α) (place : Nat) (c : Char) : Option Nat :=
  a.nodes[place]?.bind fun node => node.links.lookup c

def valueAt (a : Arena α) (place : Nat) : Option α := a.nodes[place]?.bind Node.value

/-- A new node at the end, linked from `place`. -/
def branch (a : Arena α) (place : Nat) (c : Char) : Arena α :=
  ⟨(a.nodes.modify place fun node => { node with links := (c, a.nodes.length) :: node.links }) ++
    [fresh]⟩

def put (a : Arena α) (place : Nat) (value : α) : Arena α :=
  ⟨a.nodes.modify place fun node => { node with value := some value }⟩

def insertAt : List Char → α → Nat → Arena α → Arena α
  | [], value, place, a => a.put place value
  | c :: word, value, place, a =>
    match a.link place c with
    | some next => insertAt word value next a
    | none => insertAt word value a.nodes.length (a.branch place c)

def insert (a : Arena α) (word : List Char) (value : α) : Arena α := a.insertAt word value 0

def ofList (words : List (List Char × α)) : Arena α :=
  words.foldl (fun a (word, value) => a.insert word value) root

/-- The answer and where the cursor stands after it; a dead step stays. -/
def step (a : Arena α) (place : Nat) (c : Char) : Answer α × Nat :=
  match a.link place c with
  | none => (.dead, place)
  | some next => (match a.valueAt next with | some value => .word value | none => .inside, next)

def walkFrom (a : Arena α) : Nat → List Char → List (Answer α)
  | _, [] => []
  | place, c :: word => (a.step place c).1 :: walkFrom a (a.step place c).2 word

def walk (a : Arena α) (word : List Char) : List (Answer α) := a.walkFrom 0 word

/-- The value of the last answer, unless one before it was dead. -/
def getFrom (a : Arena α) : Nat → Answer α → List Char → Option α
  | _, .word value, [] => some value
  | _, _, [] => none
  | place, _, c :: word =>
    if (a.step place c).1.isDead then none else getFrom a (a.step place c).2 (a.step place c).1 word

def get? (a : Arena α) (word : List Char) : Option α := a.getFrom 0 .inside word

/-! ## Places -/

def locateFrom (a : Arena α) : Nat → List Char → Option Nat
  | place, [] => some place
  | place, c :: word => (a.link place c).bind fun next => locateFrom a next word

def locate (a : Arena α) (word : List Char) : Option Nat := a.locateFrom 0 word

def entryFrom (a : Arena α) (place : Nat) (word : List Char) : Option (Option α) :=
  (a.locateFrom place word).map a.valueAt

def entryAt (a : Arena α) (word : List Char) : Option (Option α) := a.entryFrom 0 word

theorem locateFrom_concat (a : Arena α) (place : Nat) (word : List Char) (c : Char) :
    a.locateFrom place (word ++ [c]) = (a.locateFrom place word).bind fun p => a.link p c := by
  induction word generalizing place with
  | nil => simp [locateFrom]
  | cons d word ih =>
    rw [List.cons_append, locateFrom, locateFrom, Option.bind_assoc]
    simp only [ih]

theorem isSome_locate_of_prefix {a : Arena α} {q word : List Char} (h : q <+: word)
    (hword : (a.locate word).isSome) : (a.locate q).isSome := by
  obtain ⟨rest, rfl⟩ := h
  induction rest using List.reverseRecOn with
  | nil => simpa using hword
  | append_singleton rest c ih =>
    rw [locate, ← List.append_assoc, locateFrom_concat] at hword
    exact ih (Option.isSome_of_isSome_bind hword)

/-- Every place that is linked is there, and one word leads to it. -/
structure Sound (a : Arena α) : Prop where
  nonempty : 0 < a.nodes.length
  inRange : ∀ place c next, a.link place c = some next → next < a.nodes.length
  injective : ∀ p q place, a.locate p = some place → a.locate q = some place → p = q

theorem Sound.locate_lt {a : Arena α} (h : a.Sound) {word : List Char} {place : Nat}
    (hword : a.locate word = some place) : place < a.nodes.length := by
  induction word using List.reverseRecOn with
  | nil => cases hword; exact h.nonempty
  | append_singleton word c ih =>
    rw [locate, locateFrom_concat, Option.bind_eq_some_iff] at hword
    obtain ⟨before, -, hlink⟩ := hword
    exact h.inRange before c place hlink

theorem sound_root : (root : Arena α).Sound where
  nonempty := Nat.one_pos
  inRange place c next h := by
    cases place <;> simp [link, root, fresh] at h
  injective p q place hp hq := by
    have hnil (word : List Char) (h : (root : Arena α).locate word = some place) : word = [] := by
      cases word with
      | nil => rfl
      | cons c word => simp [locate, locateFrom, link, root, fresh] at h
    rw [hnil p hp, hnil q hq]

/-! ## What an insertion changes -/

section
variable {a : Arena α} {place : Nat}

theorem link_put (value : α) (p : Nat) (c : Char) : (a.put place value).link p c = a.link p c := by
  simp only [link, put, List.getElem?_modify]
  cases a.nodes[p]? with
  | none => rfl
  | some node => by_cases h : place = p <;> simp [h]

theorem locateFrom_put (value : α) (p : Nat) (word : List Char) :
    (a.put place value).locateFrom p word = a.locateFrom p word := by
  induction word generalizing p with
  | nil => rfl
  | cons c word ih => simp only [locateFrom, link_put, ih]

theorem valueAt_put (hplace : place < a.nodes.length) (value : α) (p : Nat) :
    (a.put place value).valueAt p = if p = place then some value else a.valueAt p := by
  simp only [valueAt, put, List.getElem?_modify]
  by_cases h : place = p
  · subst h
    simp [hplace]
  · simp [h, Ne.symm h]

theorem getElem?_branch (c : Char) {p : Nat} (hp : p < a.nodes.length) :
    (a.branch place c).nodes[p]? = (fun node => if place = p then
      { node with links := (c, a.nodes.length) :: node.links } else node) <$> a.nodes[p]? := by
  rw [branch, List.getElem?_append_left (by rwa [List.length_modify]), List.getElem?_modify]

theorem link_branch (c : Char) {p : Nat} (hp : p < a.nodes.length) (d : Char) :
    (a.branch place c).link p d =
      if p = place ∧ d = c then some a.nodes.length else a.link p d := by
  simp only [link, getElem?_branch c hp]
  by_cases h : place = p
  · subst h
    by_cases hd : d = c
    · simp [hp, hd]
    · simp [hp, hd, List.lookup_cons, beq_eq_false_iff_ne.2 hd]
  · simp [h, Ne.symm h]

theorem lt_of_link {p next : Nat} {c : Char} (h : a.link p c = some next) : p < a.nodes.length := by
  rw [link, Option.bind_eq_some_iff] at h
  obtain ⟨node, hnode, -⟩ := h
  exact (List.getElem?_eq_some_iff.1 hnode).1

theorem link_branch_new (c d : Char) : (a.branch place c).link a.nodes.length d = none := by
  simp [link, branch, fresh]

theorem valueAt_branch (c : Char) {p : Nat} (hp : p < a.nodes.length) :
    (a.branch place c).valueAt p = a.valueAt p := by
  simp only [valueAt, getElem?_branch c hp]
  by_cases h : place = p <;> simp [h, hp]

theorem valueAt_branch_new (c : Char) : (a.branch place c).valueAt a.nodes.length = none := by
  simp [valueAt, branch, fresh]

theorem length_branch (c : Char) : (a.branch place c).nodes.length = a.nodes.length + 1 := by
  simp [branch]

theorem Sound.put (h : a.Sound) (value : α) : (a.put place value).Sound where
  nonempty := by simpa [Arena.put] using h.nonempty
  inRange p c next hlink := by
    rw [link_put] at hlink
    simpa [Arena.put] using h.inRange p c next hlink
  injective p q next hp hq := by
    rw [locate, locateFrom_put] at hp hq
    exact h.injective p q next hp hq

variable {p : List Char} {c : Char}

/-- A branch adds the one word that leads to it. -/
theorem Sound.locate_branch (h : a.Sound) (hp : a.locate p = some place)
    (hnone : a.link place c = none) (word : List Char) : (a.branch place c).locate word =
      if word = p ++ [c] then some a.nodes.length else a.locate word := by
  induction word using List.reverseRecOn with
  | nil => simp [locate, locateFrom]
  | append_singleton word d ih =>
    have hplace := h.locate_lt hp
    rw [locate, locateFrom_concat, ← locate, ih, locate, locate, locateFrom_concat, ← locate]
    by_cases hword : word = p ++ [c]
    · -- nothing is linked from the new node, nor was there anything at its word before
      subst hword
      have hbefore : a.locate (p ++ [c]) = none := by
        rw [locate, locateFrom_concat, ← locate, hp]
        exact hnone
      simp [link_branch_new, hbefore]
    · rw [if_neg hword]
      cases hlocate : a.locate word with
      | none =>
        have hne : word ≠ p := by
          rintro rfl
          rw [hp] at hlocate
          cases hlocate
        simp [hne]
      | some found =>
        have hsame : found = place ↔ word = p :=
          ⟨fun hf => h.injective word p place (hf ▸ hlocate) hp,
            fun hw => Option.some.inj (hlocate.symm.trans (hw ▸ hp))⟩
        simp [link_branch c (h.locate_lt hlocate), hsame]

theorem Sound.branch (h : a.Sound) (hp : a.locate p = some place)
    (hnone : a.link place c = none) : (a.branch place c).Sound where
  nonempty := by rw [length_branch]; exact Nat.succ_pos _
  inRange origin d next hlink := by
    have horigin := lt_of_link hlink
    rw [length_branch] at horigin ⊢
    rcases Nat.lt_succ_iff_lt_or_eq.1 horigin with hold | rfl
    · rw [link_branch c hold] at hlink
      split_ifs at hlink
      · cases hlink
        exact Nat.lt_succ_self _
      · exact Nat.lt_succ_of_lt (h.inRange origin d next hlink)
    · rw [link_branch_new] at hlink
      cases hlink
  injective q r next hq hr := by
    rw [h.locate_branch hp hnone] at hq hr
    split_ifs at hq hr with hqp hrp hrp
    · exact hqp.trans hrp.symm
    · cases hq
      exact absurd (h.locate_lt hr) (Nat.lt_irrefl _)
    · cases hr
      exact absurd (h.locate_lt hq) (Nat.lt_irrefl _)
    · exact h.injective q r next hq hr

theorem entryAt_eq (a : Arena α) (word : List Char) :
    a.entryAt word = (a.locate word).map a.valueAt := rfl

theorem Sound.entryAt_put (h : a.Sound) (hp : a.locate p = some place) (value : α)
    (word : List Char) : (a.put place value).entryAt word = noted a.entryAt p value word := by
  have hlocate : (a.put place value).locate word = a.locate word := locateFrom_put value 0 word
  rw [entryAt_eq, hlocate, noted, entryAt_eq]
  by_cases hword : word = p
  · subst hword
    rw [hp, if_pos rfl, Option.map_some, valueAt_put (h.locate_lt hp), if_pos rfl]
  rw [if_neg hword]
  cases hfound : a.locate word with
  | none =>
    have hbegins : ¬ word <+: p := by
      intro hbegins
      have hsome := isSome_locate_of_prefix hbegins (by rw [hp]; rfl)
      rw [hfound] at hsome
      cases hsome
    rw [if_neg hbegins]
    rfl
  | some found =>
    have hne : found ≠ place := by
      rintro rfl
      exact hword (h.injective word p found hfound hp)
    rw [Option.map_some, valueAt_put (h.locate_lt hp), if_neg hne]
    simp

theorem Sound.entryAt_branch (h : a.Sound) (hp : a.locate p = some place)
    (hnone : a.link place c = none) (word : List Char) : (a.branch place c).entryAt word =
      if word = p ++ [c] then some none else a.entryAt word := by
  rw [entryAt_eq, h.locate_branch hp hnone, entryAt_eq]
  split_ifs with hword
  · rw [Option.map_some, valueAt_branch_new]
  · cases hfound : a.locate word with
    | none => rfl
    | some found => rw [Option.map_some, Option.map_some, valueAt_branch c (h.locate_lt hfound)]

theorem noted_branch (h : a.Sound) (hp : a.locate p = some place) (hnone : a.link place c = none)
    (rest : List Char) (value : α) (word : List Char) :
    noted (a.branch place c).entryAt (p ++ c :: rest) value word =
      noted a.entryAt (p ++ c :: rest) value word := by
  rw [noted, noted, h.entryAt_branch hp hnone]
  by_cases hword : word = p ++ [c]
  · subst hword
    have hbefore : a.entryAt (p ++ [c]) = none := by
      rw [entryAt_eq, locate, locateFrom_concat, ← locate, hp]
      exact congrArg _ hnone
    have hbegins : p ++ [c] <+: p ++ c :: rest := ⟨rest, by simp⟩
    rw [if_pos hbegins, if_pos hbegins, if_pos rfl, hbefore]
    rfl
  · rw [if_neg hword]

theorem Sound.insertAt {word : List Char} (h : a.Sound) (hp : a.locate p = some place) (value : α) :
    (a.insertAt word value place).Sound ∧
      ∀ q, (a.insertAt word value place).entryAt q = noted a.entryAt (p ++ word) value q := by
  induction word generalizing a place p with
  | nil =>
    rw [List.append_nil]
    exact ⟨h.put value, h.entryAt_put hp value⟩
  | cons c word ih =>
    rw [Arena.insertAt]
    cases hlink : a.link place c with
    | some next =>
      have hnext : a.locate (p ++ [c]) = some next := by
        rw [locate, locateFrom_concat, ← locate, hp]
        exact hlink
      rw [List.append_cons]
      exact ih h hnext
    | none =>
      have hnew : (a.branch place c).locate (p ++ [c]) = some a.nodes.length := by
        rw [h.locate_branch hp hlink, if_pos rfl]
      obtain ⟨hsound, hentry⟩ := ih (h.branch hp hlink) hnew
      refine ⟨hsound, fun q => ?_⟩
      rw [hentry, ← List.append_cons]
      exact noted_branch h hp hlink word value q

end

theorem sound_ofList (words : List (List Char × α)) :
    (ofList words).Sound ∧ ∀ q, q ≠ [] → (ofList words).entryAt q = entryIn words q := by
  induction words using List.reverseRecOn with
  | nil =>
    refine ⟨sound_root, fun q hq => ?_⟩
    obtain ⟨c, q, rfl⟩ := List.exists_cons_of_ne_nil hq
    rfl
  | append_singleton words entry ih =>
    obtain ⟨word, value⟩ := entry
    have hinsert : ofList (words ++ [(word, value)]) = (ofList words).insertAt word value 0 :=
      List.foldl_append
    obtain ⟨hsound, hentry⟩ := ih.1.insertAt (p := []) rfl value
    rw [hinsert]
    refine ⟨hsound, fun q hq => ?_⟩
    rw [hentry, entryIn_concat, List.nil_append, noted, noted, ih.2 q hq]

/-! ## The same answers -/

theorem answer_step (a : Arena α) (place : Nat) (c : Char) :
    (a.step place c).1 = .ofEntry (a.entryFrom place [c]) := by
  rw [step, entryFrom, locateFrom]
  cases a.link place c with
  | none => rfl
  | some next => cases h : a.valueAt next <;> simp [locateFrom, Answer.ofEntry, h]

theorem entryFrom_after_step (a : Arena α) (place : Nat) (c : Char) (word : List Char) :
    a.entryFrom (a.step place c).2 word =
      a.entryFrom place ((if (a.step place c).1.isDead then [] else [c]) ++ word) := by
  rw [step]
  cases hlink : a.link place c with
  | none => rfl
  | some next =>
    cases hvalue : a.valueAt next <;> simp [Answer.isDead, hvalue, entryFrom, locateFrom, hlink]

/-- The arena below a place has the entries of the trie. -/
def Shows (a : Arena α) (place : Nat) (t : Trie α) : Prop :=
  ∀ q, q ≠ [] → a.entryFrom place q = t.entryAt q

theorem Shows.answer_eq {a : Arena α} {place : Nat} {t : Trie α} (h : a.Shows place t) (c : Char) :
    (a.step place c).1 = (t.step c).1 := by
  rw [answer_step, Trie.answer_step, h [c] (List.cons_ne_nil _ _)]

theorem Shows.step {a : Arena α} {place : Nat} {t : Trie α} (h : a.Shows place t) (c : Char) :
    a.Shows (a.step place c).2 (t.step c).2 := by
  intro q hq
  rw [a.entryFrom_after_step, t.entryAt_after_step c hq, h.answer_eq]
  exact h _ (List.append_ne_nil_of_right_ne_nil _ hq)

theorem Shows.walkFrom_eq {a : Arena α} {place : Nat} {t : Trie α} (h : a.Shows place t)
    (fed : List Char) : a.walkFrom place fed = t.walk fed := by
  induction fed generalizing place t with
  | nil => rfl
  | cons c fed ih => rw [walkFrom, Trie.walk, h.answer_eq, ih (h.step c)]

theorem getFrom_eq (a : Arena α) (place : Nat) (last : Answer α) {word : List Char}
    (h : word ≠ []) : a.getFrom place last word = (a.entryFrom place word).join := by
  induction word generalizing place last with
  | nil => exact absurd rfl h
  | cons c word ih =>
    rw [getFrom, step, entryFrom, locateFrom]
    cases hlink : a.link place c with
    | none => rfl
    | some next =>
      cases word with
      | nil => cases hvalue : a.valueAt next <;> simp [Answer.isDead, getFrom, locateFrom, hvalue]
      | cons d word =>
        have hrest (last : Answer α) := ih next last (List.cons_ne_nil d word)
        cases hvalue : a.valueAt next <;> simp [Answer.isDead, hrest, entryFrom, hvalue]

theorem Shows.get?_eq {a : Arena α} {t : Trie α} (h : a.Shows 0 t) (word : List Char) :
    a.get? word = t.get? word := by
  cases word with
  | nil => rfl
  | cons c word =>
    rw [get?, getFrom_eq a 0 .inside (List.cons_ne_nil c word), t.get?_eq,
      h _ (List.cons_ne_nil c word)]

theorem shows_ofList (words : List (List Char × α)) : (ofList words).Shows 0 (.ofList words) := by
  intro q hq
  rw [Trie.entryAt_ofList words hq]
  exact (sound_ofList words).2 q hq

end Arena

variable {α : Type}

/-- After any insertions a trie looks up the value that was inserted last, and a cursor answers by
the words that begin with what it has accepted; an arena of linked nodes does the same. -/
theorem walk_answers_by_words (words : List (List Char × α)) :
    (ofList words).get? [] = none ∧
    (∀ word, word ≠ [] → (ofList words).get? word = words.reverse.lookup word) ∧
    (∀ fed c, ∃ answer, (ofList words).walk (fed ++ [c]) = (ofList words).walk fed ++ [answer] ∧
      (answer = .dead ↔ ∀ entry ∈ words, ¬ (ofList words).accepted fed ++ [c] <+: entry.1) ∧
      (answer = .dead → (ofList words).accepted (fed ++ [c]) = (ofList words).accepted fed) ∧
      (answer ≠ .dead →
        (ofList words).accepted (fed ++ [c]) = (ofList words).accepted fed ++ [c]) ∧
      (∀ value, answer = .word value ↔
        words.reverse.lookup ((ofList words).accepted fed ++ [c]) = some value) ∧
      (answer = .inside ↔ (∃ entry ∈ words, (ofList words).accepted fed ++ [c] <+: entry.1) ∧
        words.reverse.lookup ((ofList words).accepted fed ++ [c]) = none)) ∧
    (Arena.ofList words).Sound ∧
    (∀ word, (Arena.ofList words).get? word = (ofList words).get? word) ∧
    ∀ fed, (Arena.ofList words).walk fed = (ofList words).walk fed := by
  refine ⟨rfl, fun word => get?_ofList words, fun fed c => ?_, (Arena.sound_ofList words).1,
    (Arena.shows_ofList words).get?_eq, (Arena.shows_ofList words).walkFrom_eq⟩
  have hentry : (ofList words).entryAt ((ofList words).accepted fed ++ [c]) =
      entryIn words ((ofList words).accepted fed ++ [c]) :=
    entryAt_ofList words (by simp)
  have hdead : entryIn words ((ofList words).accepted fed ++ [c]) = none ↔
      ¬ ∃ entry ∈ words, (ofList words).accepted fed ++ [c] <+: entry.1 := by
    simp [entryIn]
  refine ⟨_, walk_concat _ fed c, ?_, fun h => ?_, fun h => ?_, fun value => ?_, ?_⟩
  · rw [Answer.ofEntry_eq_dead_iff, hentry, hdead]
    simp
  · rw [accepted_concat, if_pos (Answer.isDead_iff.2 h), List.append_nil]
  · rw [accepted_concat, if_neg (Answer.isDead_iff.not.2 h)]
  · rw [Answer.ofEntry_eq_word_iff, hentry, join_entryIn]
  · rw [Answer.ofEntry_eq_inside_iff, hentry, join_entryIn, ne_eq, hdead, not_not]

def bars : List (List Char × Nat) :=
  [("bar".toList, 0), ("bare".toList, 1), ("".toList, 5), ("bar".toList, 2)]

theorem walk_answers_by_words_bar :
    "bar".toList ≠ [] ∧ (ofList bars).get? "bar".toList = some 2 ∧
      ∃ answer, (ofList bars).walk ("bxa".toList ++ ['r']) =
          (ofList bars).walk "bxa".toList ++ [answer] ∧
        answer = .word 2 ∧ answer ≠ .dead ∧
        (ofList bars).accepted ("bxa".toList ++ ['r']) = "bar".toList := by
  obtain ⟨-, hget, hwalk, -⟩ := walk_answers_by_words bars
  obtain ⟨answer, hanswer, -, -, hgo, hword, -⟩ := hwalk "bxa".toList 'r'
  have hne : "bar".toList ≠ [] := by decide
  have htwo : answer = .word 2 := (hword 2).2 (by decide)
  have hlive : answer ≠ .dead := by rw [htwo]; simp
  exact ⟨hne, (hget _ hne).trans (by decide), answer, hanswer, htwo, hlive,
    (hgo hlive).trans (by decide)⟩

end Trie
end SceneGrammar

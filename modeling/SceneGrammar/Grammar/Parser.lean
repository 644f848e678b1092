import SceneGrammar.Token.Basic

/-!
Parsers over tokens: what may go wrong, the names in scope, and repetition. A parser leaves a suffix
of its tokens; one that always takes a token may be repeated.
-/

namespace SceneGrammar

inductive SyntaxFault
  | endOfInput
  | expected (what : String)
  | notNumber (name : String)
  | notColor (name : String)
  | negative
  | loopCount
  | badDirective
  | unknownPool
  | badDefinition (name : String)
  | badWeight
  | unclosedRule
  | emptyRule
  | strayInRule (kind : String)
  | loopedSet
  | unclosedBlock
  | strayInBlock (kind : String)
  deriving DecidableEq, Repr

namespace SyntaxFault

def message : SyntaxFault → String
  | .endOfInput => "Unexpected end of input"
  | .expected what => "Expected " ++ what
  | .notNumber name => "'" ++ name ++ "' is not defined as a number"
  | .notColor name => "'" ++ name ++ "' is not defined as a color"
  | .negative => "Expected a non-negative number"
  | .loopCount => "Loop count must be at least 1"
  | .badDirective => "Unexpected token after set"
  | .unknownPool => "Unknown color pool"
  | .badDefinition name => "Expected a number or color for '" ++ name ++ "'"
  | .badWeight => "Rule weight must be positive"
  | .unclosedRule => "Missing '\x7d' at end of rule"
  | .emptyRule => "Expected rule body"
  | .strayInRule kind => "Unexpected " ++ kind ++ " in rule body"
  | .loopedSet => "Transformations cannot be applied to set"
  | .unclosedBlock => "Unclosed transformation block"
  | .strayInBlock kind => "Unexpected " ++ kind ++ " in transformation block"

end SyntaxFault

structure SyntaxError where
  fault : SyntaxFault
  line : Nat
  deriving DecidableEq, Repr

def SyntaxError.diagnostic (e : SyntaxError) : Diagnostic :=
  ⟨.syntactic, e.fault.message, some e.line⟩

inductive Definition
  | number (value : Float)
  | color (value : Rgba)
  deriving DecidableEq

/-- The definitions so far, the latest first, and the line of the last token of the program. -/
structure Scope where
  definitions : List (String × Definition)
  lastLine : Nat

namespace Scope

def number? (s : Scope) (name : String) : Option Float :=
  match s.definitions.lookup name with
  | some (.number value) => some value
  | _ => none

def color? (s : Scope) (name : String) : Option Rgba :=
  match s.definitions.lookup name with
  | some (.color value) => some value
  | _ => none

end Scope

def Parser (α : Type) := Scope → List Token → Except SyntaxError (α × List Token)

namespace Parser
variable {α β : Type}

instance : Monad Parser where
  pure a := fun _ tokens => .ok (a, tokens)
  bind p f := fun scope tokens =>
    match p scope tokens with
    | .error e => .error e
    | .ok (a, rest) => f a scope rest

def fail (fault : SyntaxFault) (line : Nat) : Parser α := fun _ _ => .error ⟨fault, line⟩

def scope : Parser Scope := fun scope tokens => .ok (scope, tokens)

def next : Parser Token
  | scope, [] => .error ⟨.endOfInput, scope.lastLine⟩
  | _, t :: rest => .ok (t, rest)

/-- The line of the next token, or of the last one at the end. -/
def nextLine : Parser Nat
  | scope, [] => .ok (scope.lastLine, [])
  | _, t :: rest => .ok (t.line, t :: rest)

def ahead (test : Scope → List Token → Bool) : Parser Bool :=
  fun scope tokens => .ok (test scope tokens, tokens)

def expect (k : Keyword) (what : String) : Parser Token := do
  let t ← next
  if t.lexeme = .keyword k then return t else fail (.expected what) t.line

def expectName (what : String) : Parser String := do
  let t ← next
  match t.lexeme with
  | .name name => return name
  | _ => fail (.expected what) t.line

def accept (k : Keyword) : Parser Bool
  | _, [] => .ok (false, [])
  | _, t :: rest => if t.lexeme = .keyword k then .ok (true, rest) else .ok (false, t :: rest)

def Consumes (p : Parser α) : Prop :=
  ∀ ⦃scope tokens a rest⦄, p scope tokens = .ok (a, rest) → rest <:+ tokens

/-- A parser that takes at least one token when it succeeds. -/
def Advances (p : Parser α) : Prop :=
  ∀ ⦃scope tokens a rest⦄, p scope tokens = .ok (a, rest) →
    rest <:+ tokens ∧ rest.length < tokens.length

/-- Repeats a parser as long as the tokens ahead begin what it reads. -/
def many (begins : Scope → List Token → Bool) (p : Parser α) (h : Advances p) :
    Parser (List α) := fun scope tokens =>
  if begins scope tokens then
    match hp : p scope tokens with
    | .error e => .error e
    | .ok (a, rest) =>
      have := (h hp).2
      match many begins p h scope rest with
      | .error e => .error e
      | .ok (as, last) => .ok (a :: as, last)
  else .ok ([], tokens)
termination_by _ tokens => tokens.length

theorem bind_apply (p : Parser α) (f : α → Parser β) (scope : Scope) (tokens : List Token) :
    (p >>= f) scope tokens =
      match p scope tokens with
      | .error e => .error e
      | .ok (a, rest) => f a scope rest := rfl

theorem bind_eq_ok {p : Parser α} {f : α → Parser β} {scope : Scope} {tokens rest : List Token}
    {b : β} (h : (p >>= f) scope tokens = .ok (b, rest)) :
    ∃ a middle, p scope tokens = .ok (a, middle) ∧ f a scope middle = .ok (b, rest) := by
  rw [bind_apply] at h
  split at h
  · cases h
  · exact ⟨_, _, ‹_›, h⟩

theorem Advances.consumes {p : Parser α} (h : Advances p) : Consumes p := fun _ _ _ _ he => (h he).1

theorem consumes_pure (a : α) : Consumes (pure a : Parser α) := fun _ _ _ _ h => by
  cases h; exact List.suffix_rfl

theorem consumes_bind {p : Parser α} {f : α → Parser β} (hp : Consumes p)
    (hf : ∀ a, Consumes (f a)) : Consumes (p >>= f) := fun _ _ _ _ h => by
  obtain ⟨a, middle, ha, hb⟩ := bind_eq_ok h
  exact (hf a hb).trans (hp ha)

theorem advances_bind {p : Parser α} {f : α → Parser β} (hp : Advances p)
    (hf : ∀ a, Consumes (f a)) : Advances (p >>= f) := fun _ _ _ _ h => by
  obtain ⟨a, middle, ha, hb⟩ := bind_eq_ok h
  exact ⟨(hf a hb).trans (hp ha).1, Nat.lt_of_le_of_lt (hf a hb).length_le (hp ha).2⟩

theorem advances_after {p : Parser α} {f : α → Parser β} (hp : Consumes p)
    (hf : ∀ a, Advances (f a)) : Advances (p >>= f) := fun _ _ _ _ h => by
  obtain ⟨a, middle, ha, hb⟩ := bind_eq_ok h
  exact ⟨(hf a hb).1.trans (hp ha), Nat.lt_of_lt_of_le (hf a hb).2 (hp ha).length_le⟩

theorem advances_fail (fault : SyntaxFault) (line : Nat) :
    Advances (fail fault line : Parser α) := fun _ _ _ _ h => nomatch h

theorem consumes_fail (fault : SyntaxFault) (line : Nat) :
    Consumes (fail fault line : Parser α) := fun _ _ _ _ h => nomatch h

theorem consumes_scope : Consumes scope := fun _ _ _ _ h => by cases h; exact List.suffix_rfl

theorem consumes_ahead (test : Scope → List Token → Bool) : Consumes (ahead test) :=
  fun _ _ _ _ h => by cases h; exact List.suffix_rfl

theorem consumes_nextLine : Consumes nextLine := fun _ tokens _ _ h => by
  cases tokens <;> cases h <;> exact List.suffix_rfl

theorem advances_next : Advances next := fun _ tokens _ _ h => by
  cases tokens with
  | nil => cases h
  | cons t rest => cases h; exact ⟨List.suffix_cons _ _, by simp⟩

theorem advances_expect (k : Keyword) (what : String) : Advances (expect k what) :=
  advances_bind advances_next fun _ => by
    split
    · exact consumes_pure _
    · exact consumes_fail _ _

theorem advances_expectName (what : String) : Advances (expectName what) :=
  advances_bind advances_next fun _ => by
    split
    · exact consumes_pure _
    · exact consumes_fail _ _

theorem consumes_accept (k : Keyword) : Consumes (accept k) := fun _ tokens _ _ h => by
  cases tokens with
  | nil => cases h; exact List.suffix_rfl
  | cons t rest =>
    simp only [accept] at h
    split at h <;> cases h
    · exact List.suffix_cons _ _
    · exact List.suffix_rfl

theorem many_of_not {begins : Scope → List Token → Bool} {p : Parser α} {h : Advances p}
    {scope : Scope} {tokens : List Token} (hb : begins scope tokens = false) :
    many begins p h scope tokens = .ok ([], tokens) := by
  rw [many]; simp [hb]

theorem many_of_begins {begins : Scope → List Token → Bool} {p : Parser α} {h : Advances p}
    {scope : Scope} {tokens : List Token} (hb : begins scope tokens = true) :
    many begins p h scope tokens =
      (do let a ← p; let as ← many begins p h; return a :: as : Parser (List α)) scope tokens := by
  rw [many, bind_apply]
  simp only [hb, if_true, bind_apply]
  split <;> rename_i hp <;> rw [hp]
  dsimp only
  cases many begins p h scope _ <;> rfl

theorem consumes_many (begins : Scope → List Token → Bool) (p : Parser α) (h : Advances p) :
    Consumes (many begins p h) := by
  intro scope tokens as rest hm
  cases hb : begins scope tokens with
  | false => rw [many_of_not hb] at hm; cases hm; exact List.suffix_rfl
  | true =>
    rw [many_of_begins hb] at hm
    obtain ⟨a, middle, ha, hm⟩ := bind_eq_ok hm
    obtain ⟨as, last, has, hm⟩ := bind_eq_ok hm
    cases hm
    have := (h ha).2
    exact (consumes_many begins p h has).trans (h ha).1
termination_by _ tokens => tokens.length

end Parser

end SceneGrammar

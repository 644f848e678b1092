import SceneGrammar.Grammar.Parser
import SceneGrammar.Number.Binary

/-!
Operands: numbers, colours and vectors, each a literal or a name bound to one.
-/

namespace SceneGrammar

def Token.number? (t : Token) (scope : Scope) : Option Float :=
  match t.lexeme with
  | .number value => some value
  | .name name => scope.number? name
  | _ => none

def Token.color? (t : Token) (scope : Scope) : Option Rgba :=
  match t.lexeme with
  | .color value => some value
  | .name name => scope.color? name
  | _ => none

namespace Parser

def number : Parser Float := do
  let t ← next
  match t.number? (← scope) with
  | some value => return value
  | none =>
    match t.lexeme with
    | .name name => fail (.notNumber name) t.line
    | _ => fail (.expected "a number") t.line

def color : Parser Rgba := do
  let t ← next
  match t.color? (← scope) with
  | some value => return value
  | none =>
    match t.lexeme with
    | .name name => fail (.notColor name) t.line
    | _ => fail (.expected "a color") t.line

/-- The nearest integer of 64 bits. -/
def integer : Parser Int :=
  return (Reading.ofFloat (← number)).roundWithin Int64.minValue.toInt Int64.maxValue.toInt

def natural : Parser Nat := do
  let line ← nextLine
  let n ← integer
  if 0 ≤ n then return n.toNat else fail .negative line

def depth : Parser UInt32 := return .ofNat (min (← natural) (UInt32.size - 1))

/-- `count` numbers, with `separator` between them. -/
def numbers (separator : Parser Unit) : (count : Nat) → Parser (Vector Float count)
  | 0 => return #v[]
  | 1 => return #v[← number]
  | count + 2 => do
    let before ← numbers separator (count + 1)
    separator
    return before.push (← number)

/-- Commas between the numbers may be left out. -/
def vector (count : Nat) : Parser (Vector Float count) := do
  let _ ← expect .openBracket "'['"
  let v ← numbers (discard (accept .comma)) count
  let _ ← expect .closeBracket "']'"
  return v

def numberAhead : Scope → List Token → Bool
  | _, [] => false
  | scope, t :: _ => (t.number? scope).isSome

theorem advances_number : Advances number :=
  advances_bind advances_next fun _ => consumes_bind consumes_scope fun _ => by
    split
    · exact consumes_pure _
    · split <;> exact consumes_fail _ _

theorem advances_color : Advances color :=
  advances_bind advances_next fun _ => consumes_bind consumes_scope fun _ => by
    split
    · exact consumes_pure _
    · split <;> exact consumes_fail _ _

theorem advances_integer : Advances integer :=
  advances_bind advances_number fun _ => consumes_pure _

theorem advances_natural : Advances natural :=
  advances_after consumes_nextLine fun _ => advances_bind advances_integer fun _ => by
    split
    · exact consumes_pure _
    · exact consumes_fail _ _

theorem advances_depth : Advances depth :=
  advances_bind advances_natural fun _ => consumes_pure _

theorem consumes_numbers {separator : Parser Unit} (h : Consumes separator) :
    (count : Nat) → Consumes (numbers separator count)
  | 0 => consumes_pure _
  | 1 => consumes_bind advances_number.consumes fun _ => consumes_pure _
  | count + 2 =>
    consumes_bind (consumes_numbers h (count + 1)) fun _ => consumes_bind h fun _ =>
      consumes_bind advances_number.consumes fun _ => consumes_pure _

theorem advances_vector (count : Nat) : Advances (vector count) :=
  advances_bind (advances_expect _ _) fun _ =>
    consumes_bind (consumes_numbers (consumes_bind (consumes_accept _) fun _ => consumes_pure _) _)
      fun _ => consumes_bind (advances_expect _ _).consumes fun _ => consumes_pure _

end Parser

end SceneGrammar

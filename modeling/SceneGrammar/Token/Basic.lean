import SceneGrammar.Color.Basic
import SceneGrammar.Diagnostic
import SceneGrammar.Token.Keyword

/-!
Tokens: a lexeme and the line it stands on.
-/

namespace SceneGrammar

inductive Lexeme
  | number (value : Float)
  | color (value : Rgba)
  | name (value : String)
  | keyword (value : Keyword)
  deriving DecidableEq

/-- What diagnostics call the lexeme. -/
def Lexeme.kind : Lexeme → String
  | .number _ => "Number"
  | .color _ => "Rgba"
  | .name _ => "Variable"
  | .keyword k => k.name

structure Token where
  lexeme : Lexeme
  line : Nat
  deriving DecidableEq

namespace Token

def primitive? (t : Token) : Option Primitive :=
  match t.lexeme with
  | .keyword (.primitive solid) => some solid
  | _ => none

/-- The report on a token that was asked for what it does not hold. -/
def misread (t : Token) (wanted : String) : Diagnostic :=
  ⟨.internal, "Trying to get " ++ wanted ++ " token", some t.line⟩

def number (t : Token) : Except Diagnostic Float :=
  match t.lexeme with
  | .number value => .ok value
  | _ => .error (t.misread "value from non-numeric")

def color (t : Token) : Except Diagnostic Rgba :=
  match t.lexeme with
  | .color value => .ok value
  | _ => .error (t.misread "color from non-color")

def name (t : Token) : Except Diagnostic String :=
  match t.lexeme with
  | .name value => .ok value
  | _ => .error (t.misread "name from non-variable")

end Token

end SceneGrammar

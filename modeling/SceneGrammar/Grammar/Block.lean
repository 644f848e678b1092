import SceneGrammar.Grammar.Value
import SceneGrammar.Program.Operation

/-!
Transformation blocks: operators between braces.
-/

namespace SceneGrammar

namespace Parser

/-- A second number makes a scale of three, one for each axis. -/
def stretch : Parser Operation := do
  let x ← number
  if ← ahead numberAhead then
    let y ← number
    let z ← number
    return .stretch x y z
  else return .stretch x x x

def recolor : Parser Operation := do
  if ← accept .random then return .random else return .absolute (← color)

def operation : Parser Operation := do
  let t ← next
  match t.lexeme with
  | .keyword (.move axis) => return .move axis (← number)
  | .keyword (.turn axis) => return .turn axis (← number)
  | .keyword .stretch => stretch
  | .keyword .linear => return .linear (← numbers (pure ()) 9)
  | .keyword (.reflect axis) => return .reflect axis
  | .keyword .hue => return .hue (← number)
  | .keyword .saturation => return .saturation (← number)
  | .keyword .brightness => return .brightness (← number)
  | .keyword .alpha => return .alpha (← number)
  | .keyword .color => recolor
  | .keyword .blend => return .blend (← color) (← number)
  | lexeme => fail (.strayInBlock lexeme.kind) t.line

theorem consumes_stretch : Consumes stretch :=
  consumes_bind advances_number.consumes fun _ => consumes_bind (consumes_ahead _) fun _ => by
    split
    · exact consumes_bind advances_number.consumes fun _ =>
        consumes_bind advances_number.consumes fun _ => consumes_pure _
    · exact consumes_pure _

theorem consumes_recolor : Consumes recolor :=
  consumes_bind (consumes_accept _) fun _ => by
    split
    · exact consumes_pure _
    · exact consumes_bind advances_color.consumes fun _ => consumes_pure _

theorem advances_operation : Advances operation :=
  advances_bind advances_next fun _ => by
    have one (f : Float → Operation) : Consumes (return f (← number)) :=
      consumes_bind advances_number.consumes fun _ => consumes_pure _
    split
    · exact one _
    · exact one _
    · exact consumes_stretch
    · exact consumes_bind (consumes_numbers (consumes_pure _) _) fun _ => consumes_pure _
    · exact consumes_pure _
    · exact one _
    · exact one _
    · exact one _
    · exact one _
    · exact consumes_recolor
    · exact consumes_bind advances_color.consumes fun _ =>
        consumes_bind advances_number.consumes fun _ => consumes_pure _
    · exact consumes_fail _ _

/-- Does something other than a closing brace lie ahead? -/
def unclosedAhead : Scope → List Token → Bool
  | _, [] => false
  | _, t :: _ => t.lexeme ≠ .keyword .closeBrace

/-- The operators up to the closing brace; `opened` is the line of the opening one. -/
def blockFrom (opened : Nat) : Parser (List Operation) := do
  let operations ← many unclosedAhead operation advances_operation
  if ← accept .closeBrace then return operations else fail .unclosedBlock opened

def block : Parser (List Operation) := do
  let t ← expect .openBrace "'\x7b'"
  blockFrom t.line

theorem consumes_blockFrom (opened : Nat) : Consumes (blockFrom opened) :=
  consumes_bind (consumes_many _ _ _) fun _ => consumes_bind (consumes_accept _) fun _ => by
    split
    · exact consumes_pure _
    · exact consumes_fail _ _

theorem consumes_block : Consumes block :=
  consumes_bind (advances_expect _ _).consumes fun t => consumes_blockFrom t.line

end Parser

end SceneGrammar

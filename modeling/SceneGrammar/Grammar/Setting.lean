import SceneGrammar.Grammar.Value
import SceneGrammar.Program.Settings

/-!
What follows the word that sets something: the settings that rules may change too, and those of the
program alone.
-/

namespace SceneGrammar

/-- A setting of the program alone, or one that rules may change too. -/
inductive Directive
  | background (color : Rgba)
  | offset (v : Vector Float 3)
  | rotation (v : Vector Float 9)
  | pivot (v : Vector Float 3)
  | scale (s : Float)
  | setting (setting : Setting)
  deriving DecidableEq

def Settings.direct (s : Settings) : Directive → Settings
  | .background color => { s with background := color }
  | .offset v => { s with camera := { s.camera with offset := some v } }
  | .rotation v => { s with camera := { s.camera with rotation := some v } }
  | .pivot v => { s with camera := { s.camera with pivot := some v } }
  | .scale x => { s with camera := { s.camera with scale := some x } }
  | .setting setting => s.apply setting

namespace Parser

def commaAhead : Scope → List Token → Bool
  | _, [] => false
  | _, t :: _ => t.lexeme = .keyword .comma

def nextColor : Parser Rgba := do
  let _ ← expect .comma "','"
  color

theorem advances_nextColor : Advances nextColor :=
  advances_bind (advances_expect _ _) fun _ => advances_color.consumes

/-- A list holds at least one colour. -/
def pool : Parser Pool := do
  let t ← next
  match t.lexeme with
  | .keyword .randomHue => return .randomHue
  | .keyword .randomRgb => return .randomRgb
  | .keyword .greyscale => return .greyscale
  | .keyword .list =>
    let _ ← accept .colon
    let first ← color
    let more ← many commaAhead nextColor advances_nextColor
    return .list (first :: more)
  | _ => fail .unknownPool t.line

def setting (key : Token) : Parser Setting :=
  match key.lexeme with
  | .keyword .maxDepth => return .maxDepth (← depth)
  | .keyword .maxObjects => return .maxObjects (← natural)
  | .keyword .minSize => return .minSize (← number)
  | .keyword .maxSize => return .maxSize (← number)
  | .keyword .seed => do
    if ← accept .initial then return .initialSeed else return .seed (.ofInt (← integer))
  | .keyword .colorPool => return .pool (← pool)
  | _ => fail .badDirective key.line

def directive : Parser Directive := do
  let key ← next
  match key.lexeme with
  | .keyword .background => return .background (← color)
  | .keyword .cameraOffset => return .offset (← vector 3)
  | .keyword .cameraRotation => return .rotation (← vector 9)
  | .keyword .pivot => return .pivot (← vector 3)
  | .keyword .scale => return .scale (← number)
  | _ => return .setting (← setting key)

theorem consumes_pool : Consumes pool :=
  consumes_bind advances_next.consumes fun _ => by
    split
    · exact consumes_pure _
    · exact consumes_pure _
    · exact consumes_pure _
    · exact consumes_bind (consumes_accept _) fun _ =>
        consumes_bind advances_color.consumes fun _ =>
        consumes_bind (consumes_many _ _ _) fun _ => consumes_pure _
    · exact consumes_fail _ _

theorem consumes_setting (key : Token) : Consumes (setting key) := by
  unfold setting
  split
  · exact consumes_bind advances_depth.consumes fun _ => consumes_pure _
  · exact consumes_bind advances_natural.consumes fun _ => consumes_pure _
  · exact consumes_bind advances_number.consumes fun _ => consumes_pure _
  · exact consumes_bind advances_number.consumes fun _ => consumes_pure _
  · refine consumes_bind (consumes_accept _) fun b => ?_
    split
    · exact consumes_pure _
    · exact consumes_bind advances_integer.consumes fun _ => consumes_pure _
  · exact consumes_bind consumes_pool fun _ => consumes_pure _
  · exact consumes_fail _ _

theorem consumes_directive : Consumes directive :=
  consumes_bind advances_next.consumes fun key => by
    split
    · exact consumes_bind advances_color.consumes fun _ => consumes_pure _
    · exact consumes_bind (advances_vector 3).consumes fun _ => consumes_pure _
    · exact consumes_bind (advances_vector 9).consumes fun _ => consumes_pure _
    · exact consumes_bind (advances_vector 3).consumes fun _ => consumes_pure _
    · exact consumes_bind advances_number.consumes fun _ => consumes_pure _
    · exact consumes_bind (consumes_setting key) fun _ => consumes_pure _

end Parser

end SceneGrammar

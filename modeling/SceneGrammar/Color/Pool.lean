import SceneGrammar.Color.Hsv
import SceneGrammar.Random.Generator

/-!
Where a random colour comes from.
-/

namespace SceneGrammar

inductive Pool
  | randomHue
  | randomRgb
  | greyscale
  | list (colors : List Rgba)
  deriving DecidableEq, Repr

namespace Pool

/-- The channels are drawn in the order red, green, blue; an empty list gives white and draws
nothing. -/
def draw : Pool → Draw Rgba
  | .randomHue => return (⟨(← Draw.unit) * 360, 1, 1⟩ : Hsv Float).toRgba 255
  | .randomRgb => return .opaqueOf (← Draw.byte) (← Draw.byte) (← Draw.byte)
  | .greyscale => do
    let level ← Draw.byte
    return .opaqueOf level level level
  | .list [] => return .white
  | .list (color :: more) =>
    return ((color :: more)[← Draw.below (more.length + 1)]?).getD color

end Pool

end SceneGrammar

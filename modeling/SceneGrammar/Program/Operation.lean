import SceneGrammar.Program.Transformation

/-!
The operators of a transformation block. A block means its operators from the left, each placement
multiplied onto those before it.
-/

namespace SceneGrammar

inductive Operation
  | move (axis : Axis) (distance : Float)
  | turn (axis : Axis) (degrees : Float)
  | stretch (x y z : Float)
  | linear (entries : Vector Float 9)
  | reflect (axis : Axis)
  | hue (degrees : Float)
  | saturation (factor : Float)
  | brightness (factor : Float)
  | alpha (factor : Float)
  | absolute (color : Rgba)
  | random
  | blend (color : Rgba) (strength : Float)
  deriving DecidableEq

namespace Transformation

def place (t : Transformation Matrix) (m : Matrix) : Transformation Matrix :=
  { t with placement := t.placement * m }

def perform (t : Transformation Matrix) : Operation → Transformation Matrix
  | .move axis distance => t.place (.shift axis (narrow distance))
  | .turn axis degrees => t.place (.rotation axis (narrow degrees))
  | .stretch x y z => t.place (.diagonal (narrow x) (narrow y) (narrow z))
  | .linear entries => t.place (.linear (entries.map narrow))
  | .reflect axis => t.place (.reflect axis)
  | .hue degrees => { t with hue := t.hue + degrees }
  | .saturation factor => { t with saturation := t.saturation * factor }
  | .brightness factor => { t with brightness := t.brightness * factor }
  | .alpha factor => { t with alpha := t.alpha * factor }
  | .absolute color => { t with absolute := some color }
  | .random => { t with random := true }
  | .blend color strength => { t with blend := some ⟨color, strength⟩ }

def ofOperations (operations : List Operation) : Transformation Matrix :=
  operations.foldl perform identity

theorem ofOperations_concat (operations : List Operation) (operation : Operation) :
    ofOperations (operations ++ [operation]) = (ofOperations operations).perform operation := by
  simp [ofOperations]

end Transformation

end SceneGrammar

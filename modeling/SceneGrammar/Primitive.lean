/-!
The solids a scene is made of.
-/

namespace SceneGrammar

inductive Primitive
  | box
  | grid
  | sphere
  | line
  | point
  | triangle
  | mesh
  | cylinder
  | tube
  deriving DecidableEq, Repr

def Primitive.name : Primitive → String
  | .box => "box"
  | .grid => "grid"
  | .sphere => "sphere"
  | .line => "line"
  | .point => "point"
  | .triangle => "triangle"
  | .mesh => "mesh"
  | .cylinder => "cylinder"
  | .tube => "tube"

end SceneGrammar

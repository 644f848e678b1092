import SceneGrammar.Program.Rule

/-!
What expansion delivers: one background, one camera, then what is drawn. A scene takes the events
one by one and may refuse any of them.
-/

namespace SceneGrammar

structure Drawing (M : Type) where
  solid : Primitive
  pose : Pose M
  deriving DecidableEq

inductive Event (M : Type)
  | background (color : Rgba)
  | camera (camera : Camera)
  | draw (drawing : Drawing M)
  deriving DecidableEq

/-- A scene with state `σ`, which a refusal leaves as the scene wishes. -/
abbrev Scene (M σ ε : Type) := Event M → EStateM ε σ Unit

def Event.isDraw {M : Type} : Event M → Bool
  | .draw _ => true
  | _ => false

namespace Scene
variable {M ε : Type}

def recorder : Scene M (Array (Event M)) ε := fun event => modify (·.push event)

/-- Keeps events until there are `room` of them, and refuses the next. -/
def limitedRecorder (room : Nat) (full : ε) : Scene M (Array (Event M)) ε := fun event => do
  if (← get).size = room then throw full else recorder event

end Scene

end SceneGrammar

import SceneGrammar.Primitive
import SceneGrammar.Program.Settings
import SceneGrammar.Program.Transformation

/-!
Rules: sequences of actions, each done once for every combination of its loops.
-/

namespace SceneGrammar

structure Loop (M : Type) where
  repetitions : UInt32
  transformation : Transformation M
  deriving DecidableEq

inductive Effect
  | draw (solid : Primitive)
  | invoke (name : String)
  | set (setting : Setting)
  deriving DecidableEq

/-- The first loop is the outermost; an action without loops is done once. -/
structure Action (M : Type) where
  loops : List (Loop M)
  effect : Effect
  line : Nat
  deriving DecidableEq

/-- A limit in the head of a rule and the rule to go on with; expansion takes no notice of it. -/
structure DepthLimit where
  maxDepth : UInt32
  next : Option String
  deriving DecidableEq

structure Rule (M : Type) where
  name : Option String
  depthLimit : Option DepthLimit
  actions : List (Action M)
  deriving DecidableEq

namespace Rule
variable {M : Type}

def title (r : Rule M) : String := r.name.getD "<initial>"

/-- The rule names it invokes, with repetitions, in the order of its actions. -/
def invoked (r : Rule M) : List String :=
  r.actions.filterMap fun action =>
    match action.effect with
    | .invoke name => some name
    | _ => none

end Rule

end SceneGrammar

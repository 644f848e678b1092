import SceneGrammar.Expansion.Run

/-!
The trace of an expansion: what its steps came to and did, in order.
-/

namespace SceneGrammar

inductive Note
  | action (rule : String) (index height : Nat)
  | drawn (solid : Primitive) (before : Nat)
  | set
  deriving DecidableEq, Repr

namespace Note
variable {M : Type}

/-- A step that finds an action names it with the height of the stack. -/
def ofFrame (m : Machine M) : List Note :=
  match m.stack with
  | [] => []
  | frame :: _ =>
    if frame.action?.isSome then [.action frame.rule.title frame.index m.stack.length] else []

def ofDeed (m : Machine M) : Deed M → List Note
  | .draw drawing => [.drawn drawing.solid m.stats.objects]
  | .change _ => [.set]
  | _ => []

def keeper {ε : Type} : Observer M (Array Note) ε := fun m deed =>
  modify fun (notes : Array Note) => notes ++ (ofFrame m ++ ofDeed m deed)

end Note

def Program.trace {M ε : Type} [Mul M] [One M] (p : Program M) :
    EStateM (BuildError ε) (Array Note) Stats := do
  let m ← Machine.drainAll p Note.keeper (.start p p.streams) p.initial
  return m.stats

end SceneGrammar

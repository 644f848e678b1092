import SceneGrammar.Expansion.Machine

/-!
Running the machine to its end. An observer is told of every step after it was decided and may end
the run; a scene is the observer that takes what is drawn.
-/

namespace SceneGrammar

/-- Why a program was not built, with the failures `ε` of the scene. -/
inductive BuildError (ε : Type)
  | rejected (diagnostics : List Diagnostic)
  | unreadable
  | scene (failure : ε)
  | rule (diagnostic : Diagnostic)
  deriving DecidableEq

def BuildError.message {ε : Type} (describe : ε → String) : BuildError ε → String
  | .rejected diagnostics => Diagnostic.displayAll diagnostics
  | .unreadable => "reading program: stream did not contain valid UTF-8"
  | .scene failure => describe failure
  | .rule diagnostic => diagnostic.display

/-- Told of a step by the machine as it stood before and by what the step did. -/
abbrev Observer (M σ ε : Type) := Machine M → Deed M → EStateM ε σ Unit

def Scene.observer {M σ ε : Type} (scene : Scene M σ ε) : Observer M σ ε := fun _ deed =>
  match deed with
  | .draw drawing => scene (.draw drawing)
  | _ => pure ()

namespace Machine
variable {M σ ε : Type} [Mul M]

/-- Steps until the stack is empty or the budget is spent, which empties it. -/
def drain (p : Program M) (observe : Observer M σ ε) (m : Machine M) :
    EStateM (BuildError ε) σ (Machine M) :=
  match hs : m.stack with
  | [] => pure m
  | frame :: below =>
    if m.isSpent then pure (m.withStack [])
    else
      match h : m.step p frame below with
      | .error diagnostic => throw (.rule diagnostic)
      | .ok (deed, next) => do
        have := step_descends hs h
        (observe m deed).adaptExcept .scene
        drain p observe next
termination_by (Descends.wellFounded heightLimit).wrap m.turnsLeft
decreasing_by assumption

variable [One M]

/-- Every anonymous rule starts at the unit placement in red, unless the budget is spent. -/
def drainAll (p : Program M) (observe : Observer M σ ε) :
    Machine M → List (Rule M) → EStateM (BuildError ε) σ (Machine M)
  | m, [] => pure m
  | m, rule :: rules =>
    if m.isSpent then pure m
    else do
      let m ← drain p observe (m.push rule ⟨1, .pureRed⟩)
      drainAll p observe m rules

end Machine

namespace Program
variable {M σ ε : Type} [Mul M] [One M]

/-- The background, the camera, then the anonymous rules in order. -/
def expandFrom (p : Program M) (streams : Streams) (scene : Scene M σ ε) :
    EStateM (BuildError ε) σ Stats := do
  (scene (.background p.settings.background)).adaptExcept .scene
  (scene (.camera p.settings.camera)).adaptExcept .scene
  let m ← Machine.drainAll p scene.observer (.start p streams) p.initial
  return m.stats

def expand (p : Program M) (scene : Scene M σ ε) : EStateM (BuildError ε) σ Stats :=
  p.expandFrom p.streams scene

end Program

end SceneGrammar

import SceneGrammar.Compile
import SceneGrammar.Expansion.Trace

/-!
Building a scene from source text. Nothing reaches the scene unless the program compiles.
-/

namespace SceneGrammar

/-- What the caller overrides in the settings of a program. -/
structure Options where
  seed : Option Int64
  maxObjects : Option Nat
  deriving DecidableEq

namespace Options

def none : Options := ⟨.none, .none⟩

/-- The smaller of two limits; what is absent does not limit. -/
def tighter : Option Nat → Option Nat → Option Nat
  | some a, some b => some (min a b)
  | some a, .none => some a
  | .none, b => b

def apply {M : Type} (o : Options) (p : Program M) : Program M :=
  { p with settings :=
      { p.settings with
        seed := o.seed.or p.settings.seed
        maxObjects := tighter p.settings.maxObjects o.maxObjects } }

end Options

def compileWith {ε : Type} (source : String) (options : Options) :
    Except (BuildError ε) (Program Matrix) :=
  match compile source with
  | .ok program => .ok (options.apply program)
  | .error diagnostics => .error (.rejected diagnostics)

def build {σ ε : Type} (source : String) (options : Options) (scene : Scene Matrix σ ε) :
    EStateM (BuildError ε) σ Stats :=
  match compileWith source options with
  | .ok program => program.expand scene
  | .error e => throw e

/-- The whole program is read before anything else is done. -/
def buildBytes {σ ε : Type} (bytes : ByteArray) (options : Options) (scene : Scene Matrix σ ε) :
    EStateM (BuildError ε) σ Stats :=
  match String.fromUTF8? bytes with
  | some source => build source options scene
  | none => throw .unreadable

def trace {ε : Type} (source : String) (options : Options) :
    EStateM (BuildError ε) (Array Note) Stats :=
  match compileWith source options with
  | .ok program => program.trace
  | .error e => throw e

end SceneGrammar

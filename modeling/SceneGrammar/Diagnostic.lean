/-!
What is reported about a program: a kind, a wording and the line where one is known.
-/

namespace SceneGrammar

inductive Phase
  | lexical
  | syntactic
  | semantic
  | internal
  deriving DecidableEq, Repr

structure Diagnostic where
  phase : Phase
  message : String
  line : Option Nat
  deriving DecidableEq, Repr

namespace Diagnostic

def display (d : Diagnostic) : String :=
  match d.line with
  | none => d.message
  | some line => s!"line {line}: {d.message}"

/-- One report a line. -/
def displayAll (ds : List Diagnostic) : String := "\n".intercalate (ds.map display)

def unknownRule (name : String) (line : Option Nat) : Diagnostic :=
  ⟨.semantic, "Undefined rule: " ++ name, line⟩

end Diagnostic

end SceneGrammar

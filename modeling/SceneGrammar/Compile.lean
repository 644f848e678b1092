import SceneGrammar.Grammar.Construct
import SceneGrammar.Scan.Basic

/-!
From source text to programs. Reading keeps what it could make of a text; compiling accepts only a
program without any fault.
-/

namespace SceneGrammar

/-- What was made of a text: a program, perhaps cut short by a failure. -/
structure ParsedSource where
  program : Program Matrix
  charClasses : List CharClass
  lexical : List Diagnostic
  failure : Option SyntaxError

def parseSource (source : String) : ParsedSource :=
  let scan := scan source
  let (program, failure) := parseTokens scan.tokens
  ⟨program, scan.charClasses, scan.diagnostics, failure⟩

namespace ParsedSource

/-- Lexical faults come first, then the one that ended parsing. -/
def diagnostics (s : ParsedSource) : List Diagnostic :=
  s.lexical ++ (s.failure.map SyntaxError.diagnostic).toList

/-- The references of a program are checked only if it was read to its end. -/
def faults (s : ParsedSource) : List Diagnostic :=
  s.lexical ++
    match s.failure with
    | some e => [e.diagnostic]
    | none => s.program.validate

/-- The program, its weights normalized, or all faults. -/
def compile (s : ParsedSource) : Except (List Diagnostic) (Program Matrix) :=
  if s.faults.isEmpty then .ok s.program.normalize else .error s.faults

theorem compile_eq_error_iff {s : ParsedSource} {diagnostics : List Diagnostic} :
    s.compile = .error diagnostics ↔ s.faults = diagnostics ∧ diagnostics ≠ [] := by
  unfold compile
  split
  · rename_i h
    rw [List.isEmpty_iff] at h
    simp [h, eq_comm]
  · rename_i h
    rw [List.isEmpty_iff] at h
    rw [Except.error.injEq]
    exact ⟨fun e => ⟨e, e ▸ h⟩, And.left⟩

end ParsedSource

def compile (source : String) : Except (List Diagnostic) (Program Matrix) :=
  (parseSource source).compile

end SceneGrammar

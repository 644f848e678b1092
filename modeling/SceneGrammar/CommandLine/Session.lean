import SceneGrammar.Build
import SceneGrammar.CommandLine.Arguments
import SceneGrammar.Output.JsonLines

/-!
What the program does with its arguments, over any host that can read and write files. The output is
created before the program is compiled, so that a program with faults leaves it empty.
-/

namespace SceneGrammar

inductive Report
  | written (events : Nat) (stats : Stats)
  | valid (path : String) (initial named : Nat)
  deriving DecidableEq, Repr

/-- Files, a standard output and a log; a fault is told in the host's words. -/
class Host (m : Type → Type) where
  read : String → m (Except String ByteArray)
  create : String → m (Except String Unit)
  write : String → ByteArray → m (Except String Unit)
  print : ByteArray → m (Except String Unit)
  log : Report → m Unit

inductive SessionError
  | reading (path cause : String)
  | checking (path : String) (error : BuildError WriteError)
  | creating (path cause : String)
  | building (path : String) (error : BuildError WriteError)
  | writing (target : String) (error : WriteError)
  deriving DecidableEq

namespace SessionError

def message : SessionError → String
  | .reading path cause => "Reading " ++ path ++ ": " ++ cause
  | .checking path error => "Checking " ++ path ++ ": " ++ error.message WriteError.message
  | .creating path cause => "Creating " ++ path ++ ": " ++ cause
  | .building path error => "Building " ++ path ++ ": " ++ error.message WriteError.message
  | .writing target error => "Writing " ++ target ++ ": " ++ error.message

end SessionError

namespace Arguments

def options (a : Arguments) : Options := ⟨a.seed, a.maxObjects⟩

section
variable {m : Type → Type} [Monad m] [Host m]

abbrev Session (m : Type → Type) := ExceptT SessionError m

def guarded {α : Type} (fault : String → SessionError) (act : m (Except String α)) :
    Session m α := do
  match ← act with
  | .ok value => return value
  | .error cause => throw (fault cause)

def readSource (path : String) : Session m String := do
  let bytes ← guarded (.reading path) (Host.read path)
  match String.fromUTF8? bytes with
  | some source => return source
  | none => throw (.reading path "stream did not contain valid UTF-8")

def runCheck (a : Arguments) (source : String) : Session m Unit :=
  match compile source with
  | .error diagnostics => throw (.checking a.input (.rejected diagnostics))
  | .ok program =>
    (Host.log (.valid a.input program.initial.length program.ruleCount) : m Unit)

/-- The lines that building writes, all of them or as far as it came. -/
def buildLines (a : Arguments) (source : String) :
    EStateM.Result (BuildError WriteError) JsonLines Stats :=
  (build source a.options JsonLines.scene).run (.on .unlimited)

def deliver (a : Arguments) (lines : JsonLines) : m (Except String Unit) :=
  match a.output with
  | some path => Host.write path lines.sink.bytes
  | none => Host.print lines.sink.bytes

/-- What was written before a failure is delivered too; the failure is what is told. -/
def runBuild (a : Arguments) (source : String) : Session m Unit := do
  if let some path := a.output then
    guarded (.creating path) (Host.create path)
  match a.buildLines source with
  | .ok stats lines =>
    guarded (fun cause => .writing (a.output.getD "stdout") ⟨.flush, cause⟩) (a.deliver lines)
    (Host.log (.written lines.written stats) : m Unit)
  | .error error lines =>
    let _ ← (a.deliver lines : m (Except String Unit))
    throw (.building a.input error)

def run (a : Arguments) : Session m Unit := do
  let source ← readSource a.input
  if a.check then a.runCheck source else a.runBuild source

end

end Arguments

end SceneGrammar

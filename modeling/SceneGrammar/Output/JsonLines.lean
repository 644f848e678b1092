import SceneGrammar.Output.EventLine
import SceneGrammar.Output.Sink

/-!
A scene that writes its events as lines of JSON.
-/

namespace SceneGrammar

/-- What was being done when the sink failed. -/
inductive Writing
  | text
  | newline
  | flush
  deriving DecidableEq, Repr

structure WriteError where
  writing : Writing
  cause : String
  deriving DecidableEq, Repr

def Writing.context : Writing → String
  | .text => "Serializing scene event"
  | .newline => "Writing scene event"
  | .flush => "Flushing scene output"

def WriteError.message (e : WriteError) : String := e.writing.context ++ ": " ++ e.cause

/-- `written` counts the events whose line is complete. -/
structure JsonLines where
  sink : Sink
  written : Nat

namespace JsonLines

def on (sink : Sink) : JsonLines := ⟨sink, 0⟩

def put (writing : Writing) (text : String) : EStateM WriteError JsonLines Unit := do
  let lines ← get
  let (fits, sink) := lines.sink.write text.toUTF8
  set { lines with sink }
  if fits then pure () else throw ⟨writing, "disk full"⟩

def scene : Scene Matrix JsonLines WriteError := fun event => do
  put .text event.json
  put .newline "\n"
  modify fun lines => { lines with written := lines.written + 1 }

def finish (lines : JsonLines) : Except WriteError Sink :=
  if lines.sink.flushes then .ok lines.sink else .error ⟨.flush, "flush failed"⟩

end JsonLines

end SceneGrammar

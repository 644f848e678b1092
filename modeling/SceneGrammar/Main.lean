import SceneGrammar.CommandLine.Session

/-!
The command line on a real machine.
-/

namespace SceneGrammar

/-- A fault in the words of the system and with its number. -/
def faultText : IO.Error → String
  | .userError text => text
  | .unexpectedEof => "unexpected end of file"
  | .interrupted _ code details | .noFileOrDirectory _ code details
  | .alreadyExists _ code details | .invalidArgument _ code details
  | .permissionDenied _ code details | .resourceExhausted _ code details
  | .inappropriateType _ code details | .noSuchThing _ code details
  | .otherError code details | .resourceBusy code details | .resourceVanished code details
  | .unsupportedOperation code details | .hardwareFault code details
  | .unsatisfiedConstraints code details | .illegalOperation code details
  | .protocolError code details | .timeExpired code details =>
    s!"{details} (os error {code})"

def attempt {α : Type} (act : IO α) : IO (Except String α) := do
  match ← act.toBaseIO with
  | .ok value => return .ok value
  | .error e => return .error (faultText e)

def Report.line : Report → String
  | .written events stats =>
    s!"INFO scene written events={events} objects={stats.objects} steps={stats.steps}" ++
      s!" max_stack={stats.maxStack} pruned={stats.pruned}"
  | .valid path initial named => s!"INFO {path} is valid initial={initial} named={named}"

instance : Host IO where
  read path := attempt (IO.FS.withFile path .read fun file => file.readBinToEnd)
  create path := attempt (IO.FS.writeBinFile path .empty)
  write path bytes := attempt (IO.FS.withFile path .write fun file => do
    file.write bytes
    file.flush)
  print bytes := attempt do
    let out ← IO.getStdout
    out.write bytes
    out.flush
  log report := IO.eprintln report.line

def usage : String :=
  "Usage: scenegrammar [OPTIONS] <INPUT>\n\n" ++
  "  -o, --output <PATH>      Write the scene here instead of standard output\n" ++
  "      --seed <SEED>        Replace the seed of the program\n" ++
  "      --max-objects <N>    Draw at most this many objects\n" ++
  "      --check              Read and check the program only\n" ++
  "  -h, --help               Print help\n" ++
  "  -V, --version            Print version\n"

def UsageError.explanation : UsageError → String
  | .missingInput => "error: no program was given"
  | .unknownWord => "error: unexpected argument"
  | .missingValue => "error: a value is required"
  | .badValue => "error: invalid value"
  | .repeated => "error: an argument cannot be used multiple times"
  | .needlessValue => "error: an unexpected value was given"
  | .help => usage
  | .version => "scenegrammar 0.1.0"

/-- The exit code: zero if all went well, two for words that cannot be understood. -/
def runWords (words : List String) : IO UInt32 := do
  match Arguments.parse words with
  | .error .help => IO.println usage; return 0
  | .error .version => IO.println UsageError.version.explanation; return 0
  | .error e => IO.eprintln e.explanation; return 2
  | .ok arguments =>
    match ← (arguments.run (m := IO)).run with
    | .ok () => return 0
    | .error e => IO.eprintln ("Error: " ++ e.message); return 1

end SceneGrammar

def main (words : List String) : IO UInt32 := SceneGrammar.runWords words

/-!
The words of a command line. An option keeps its value pending until the next option, flag or
operand settles it, so a word that is not known is reported before a bad value that is still
pending.
-/

namespace SceneGrammar

structure Arguments where
  input : String
  output : Option String
  seed : Option Int64
  maxObjects : Option Nat
  check : Bool
  deriving DecidableEq

inductive UsageError
  | missingInput
  | unknownWord
  | missingValue
  | badValue
  | repeated
  | needlessValue
  | help
  | version
  deriving DecidableEq, Repr

inductive Slotted
  | input
  | output
  | seed
  | maxObjects
  deriving DecidableEq, Repr

inductive Switch
  | check
  | help
  | version
  deriving DecidableEq, Repr

inductive Long
  | option (slot : Slotted)
  | switch (switch : Switch)
  deriving DecidableEq, Repr

namespace Long

/-- Names are not abbreviated. -/
def ofName? : String → Option Long
  | "output" => some (.option .output)
  | "seed" => some (.option .seed)
  | "max-objects" => some (.option .maxObjects)
  | "check" => some (.switch .check)
  | "help" => some (.switch .help)
  | "version" => some (.switch .version)
  | _ => none

end Long

/-- Digits after an optional plus sign. -/
def parseUnsigned? (text : List Char) : Option Nat :=
  let digits := match text with
    | '+' :: digits => digits
    | digits => digits
  if digits.isEmpty || !digits.all Char.isDigit then none
  else some (digits.foldl (fun n c => n * 10 + (c.toNat - '0'.toNat)) 0)

/-- Digits after an optional sign. -/
def parseSigned? : List Char → Option Int
  | '-' :: '+' :: _ => none
  | '-' :: digits => (parseUnsigned? digits).map fun n => -n
  | text => (parseUnsigned? text).map Int.ofNat

def parseSeed? (text : String) : Option Int64 :=
  (parseSigned? text.toList).bind fun n =>
    if Int64.minValue.toInt ≤ n ∧ n ≤ Int64.maxValue.toInt then some (.ofInt n) else none

def parseCount? (text : String) : Option Nat :=
  (parseUnsigned? text.toList).filter (· < UInt64.size)

/-- Digits, after them perhaps a point and after that perhaps an exponent mark, small or capital;
neither comes first, and the mark is not last. -/
def resemblesNumber (text : List Char) : Bool :=
  let (mantissa, exponent) := text.span fun c => c != 'e' && c != 'E'
  let (whole, fraction) := mantissa.span Char.isDigit
  let fractionFits := match fraction with
    | [] => true
    | '.' :: digits => digits.all Char.isDigit && !whole.isEmpty
    | _ => false
  let exponentFits := match exponent with
    | [] => true
    | _ :: digits => digits.all Char.isDigit && !digits.isEmpty && !mantissa.isEmpty
  fractionFits && exponentFits

/-- The values settled so far, and the one that is pending: without a value if the next word may be
it. -/
structure Parsing where
  input : Option String
  output : Option String
  seed : Option Int64
  maxObjects : Option Nat
  check : Bool
  pending : Option (Slotted × Option String)
  operandsOnly : Bool
  operandSeen : Bool

namespace Parsing

def start : Parsing := ⟨none, none, none, none, false, none, false, false⟩

def path (text : String) : Except UsageError String :=
  if text.isEmpty then .error .missingValue else .ok text

def isSet (p : Parsing) : Slotted → Bool
  | .input => p.input.isSome
  | .output => p.output.isSome
  | .seed => p.seed.isSome
  | .maxObjects => p.maxObjects.isSome

/-- A value that is missing is reported before a repetition, and that before a bad value. -/
def store (p : Parsing) (slot : Slotted) (value : Option String) : Except UsageError Parsing :=
  match value with
  | none => .error .missingValue
  | some text =>
    if p.isSet slot then .error .repeated
    else
      match slot with
      | .input => (path text).map fun value => { p with input := some value }
      | .output => (path text).map fun value => { p with output := some value }
      | .seed =>
        match parseSeed? text with
        | some value => .ok { p with seed := some value }
        | none => .error .badValue
      | .maxObjects =>
        match parseCount? text with
        | some value => .ok { p with maxObjects := some value }
        | none => .error .badValue

def settle (p : Parsing) : Except UsageError Parsing :=
  match p.pending with
  | none => .ok p
  | some (slot, value) => { p with pending := none }.store slot value

def takeOption (p : Parsing) (slot : Slotted) (attached : Option String) :
    Except UsageError Parsing := do
  let p ← p.settle
  match attached with
  | some text => p.store slot (some text)
  | none => return { p with pending := some (slot, none) }

def takeSwitch (p : Parsing) (switch : Switch) : Except UsageError Parsing := do
  let p ← p.settle
  match switch with
  | .check => if p.check then .error .repeated else return { p with check := true }
  | .help => .error .help
  | .version => .error .version

def takeLong (p : Parsing) (word : List Char) : Except UsageError Parsing :=
  let (name, rest) := word.span (· != '=')
  let attached := match rest with
    | [] => none
    | _ :: value => some (String.ofList value)
  match Long.ofName? (.ofList name) with
  | none => .error .unknownWord
  | some (.option slot) => p.takeOption slot attached
  | some (.switch switch) =>
    if attached.isSome then .error .needlessValue else p.takeSwitch switch

def takeShort (p : Parsing) : List Char → Except UsageError Parsing
  | ['o'] => p.takeOption .output none
  | 'o' :: '=' :: value => p.takeOption .output (some (.ofList value))
  | 'o' :: value => p.takeOption .output (some (.ofList value))
  | 'h' :: _ => p.takeSwitch .help
  | 'V' :: _ => p.takeSwitch .version
  | _ => .error .unknownWord

def takeOperand (p : Parsing) (word : String) : Except UsageError Parsing :=
  if p.operandSeen then .error .unknownWord
  else do
    let p ← p.settle
    return { p with pending := some (.input, some word), operandSeen := true }

/-- The value the last option waits for, or else an operand. -/
def takeValue (p : Parsing) (word : String) : Except UsageError Parsing :=
  match p.pending with
  | some (slot, none) => .ok { p with pending := some (slot, some word) }
  | _ => p.takeOperand word

def awaitsSeed (p : Parsing) : Bool :=
  match p.pending with
  | some (.seed, none) => true
  | _ => false

/-- Only a seed may be a negative number in a word of its own. -/
def take (p : Parsing) (word : String) : Except UsageError Parsing :=
  if p.operandsOnly then p.takeOperand word
  else
    match word.toList with
    | ['-', '-'] => .ok { p with operandsOnly := true }
    | '-' :: '-' :: rest => p.takeLong rest
    | '-' :: c :: rest =>
      if p.awaitsSeed && resemblesNumber (c :: rest) then p.takeValue word
      else p.takeShort (c :: rest)
    | _ => p.takeValue word

def finish (p : Parsing) : Except UsageError Arguments := do
  let p ← p.settle
  match p.input with
  | some input => return ⟨input, p.output, p.seed, p.maxObjects, p.check⟩
  | none => .error .missingInput

end Parsing

def Arguments.parse (words : List String) : Except UsageError Arguments := do
  let p ← words.foldlM Parsing.take .start
  p.finish

end SceneGrammar

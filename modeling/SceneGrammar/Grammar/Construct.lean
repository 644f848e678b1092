import SceneGrammar.Grammar.Action
import SceneGrammar.Program.Basic

/-!
The top-level constructs of a program, and the program that a list of tokens means.
-/

namespace SceneGrammar

inductive Construct
  | directive (directive : Directive)
  | define (name : String) (value : Definition)
  | rule (weight : Float) (rule : Rule Matrix)

/-- What a rule may have between its name and its body. -/
inductive Modifier
  | weight (value : Float)
  | depth (limit : DepthLimit)

namespace Modifier

def weight? : Modifier → Option Float
  | .weight value => some value
  | .depth _ => none

def depth? : Modifier → Option DepthLimit
  | .weight _ => none
  | .depth limit => some limit

/-- The last weight counts; without one it is one. -/
def weightOf (modifiers : List Modifier) : Float :=
  (modifiers.filterMap weight?).getLast?.getD 1

def depthOf (modifiers : List Modifier) : Option DepthLimit :=
  (modifiers.filterMap depth?).getLast?

end Modifier

namespace Parser

def definition : Parser (String × Definition) := do
  let name ← expectName "a name after #define"
  let t ← next
  match t.lexeme with
  | .number value => return (name, .number value)
  | .color value => return (name, .color value)
  | _ => fail (.badDefinition name) t.line

def modifierAhead : Scope → List Token → Bool
  | _, ⟨.keyword .weight, _⟩ :: _ => true
  | _, ⟨.keyword .maxDepth, _⟩ :: _ => true
  | _, _ => false

def positive (line : Nat) : Parser Float := do
  let value ← number
  if 0 < value then return value else fail .badWeight line

def nextRule : Parser (Option String) := do
  if ← accept .greater then return some (← expectName "rule name after '>'") else return none

def modifier : Parser Modifier := do
  let t ← next
  match t.lexeme with
  | .keyword .weight => return .weight (← positive t.line)
  | _ => return .depth ⟨← depth, ← nextRule⟩

theorem advances_modifier : Advances modifier :=
  advances_bind advances_next fun t => by
    split
    · refine consumes_bind (consumes_bind advances_number.consumes fun _ => ?_) fun _ =>
        consumes_pure _
      split
      · exact consumes_pure _
      · exact consumes_fail _ _
    · refine consumes_bind advances_depth.consumes fun _ =>
        consumes_bind (consumes_bind (consumes_accept _) fun _ => ?_) fun _ => consumes_pure _
      split
      · exact consumes_bind (advances_expectName _).consumes fun _ => consumes_pure _
      · exact consumes_pure _

/-- The actions up to the closing brace; a body has at least one. -/
def body (opened : Nat) : Parser (List (Action Matrix)) := do
  let actions ← many unclosedAhead (action true) (advances_action true)
  if ← accept .closeBrace then
    if actions.isEmpty then fail .emptyRule opened else return actions
  else fail .unclosedRule (← scope).lastLine

def rule : Parser Construct := do
  let name ← expectName "rule name"
  let modifiers ← many modifierAhead modifier advances_modifier
  let t ← expect .openBrace "'\x7b' after rule name"
  let actions ← body t.line
  return .rule (Modifier.weightOf modifiers) ⟨some name, Modifier.depthOf modifiers, actions⟩

/-- Does anything but a directive, a definition or a rule lie ahead? -/
def actionAhead : Scope → List Token → Bool
  | _, [] => false
  | _, ⟨.keyword .set, _⟩ :: _ => false
  | _, ⟨.keyword .rule, _⟩ :: _ => false
  | _, ⟨.keyword .define, _⟩ :: _ => false
  | _, _ => true

/-- The actions outside all rules, as far as they stand together, are one anonymous rule. -/
def initialRule : Parser Construct := do
  let first ← action false
  let more ← many actionAhead (action false) (advances_action false)
  return .rule 1 ⟨none, none, first :: more⟩

/-- Which construct lies ahead is told by one token. -/
def construct : Parser Construct := do
  if ← ahead actionAhead then initialRule
  else
    let t ← next
    match t.lexeme with
    | .keyword .set => return .directive (← directive)
    | .keyword .rule => rule
    | _ =>
      let (name, value) ← definition
      return .define name value

theorem consumes_definition : Consumes definition :=
  consumes_bind (advances_expectName _).consumes fun _ =>
    consumes_bind advances_next.consumes fun _ => by
      split
      · exact consumes_pure _
      · exact consumes_pure _
      · exact consumes_fail _ _

theorem consumes_body (opened : Nat) : Consumes (body opened) :=
  consumes_bind (consumes_many _ _ _) fun actions => consumes_bind (consumes_accept _) fun _ => by
    split
    · split
      · exact consumes_fail _ _
      · exact consumes_pure _
    · exact consumes_bind consumes_scope fun _ => consumes_fail _ _

theorem consumes_rule : Consumes rule :=
  consumes_bind (advances_expectName _).consumes fun _ =>
    consumes_bind (consumes_many _ _ _) fun _ =>
    consumes_bind (advances_expect _ _).consumes fun _ => consumes_bind (consumes_body _) fun _ =>
      consumes_pure _

theorem advances_initialRule : Advances initialRule :=
  advances_bind (advances_action false) fun _ => consumes_bind (consumes_many _ _ _) fun _ =>
    consumes_pure _

theorem advances_construct : Advances construct :=
  advances_after (consumes_ahead _) fun b => by
    cases b with
    | true => exact advances_initialRule
    | false =>
      refine advances_bind advances_next fun t => ?_
      split
      · exact consumes_bind consumes_directive fun _ => consumes_pure _
      · exact consumes_rule
      · exact consumes_bind consumes_definition fun _ => consumes_pure _

end Parser

structure Draft where
  program : Program Matrix
  definitions : List (String × Definition)

namespace Draft

def blank : Draft := ⟨.empty, []⟩

/-- A later definition of a name hides the earlier ones. -/
def add (d : Draft) : Construct → Draft
  | .directive x => { d with program := { d.program with settings := d.program.settings.direct x } }
  | .define name value => { d with definitions := (name, value) :: d.definitions }
  | .rule weight rule => { d with program := d.program.addRule weight rule }

end Draft

/-- Constructs are added whole, up to the first that cannot be read. -/
def parseFrom (lastLine : Nat) (draft : Draft) (tokens : List Token) :
    Program Matrix × Option SyntaxError :=
  if tokens = [] then (draft.program, none)
  else
    match h : Parser.construct ⟨draft.definitions, lastLine⟩ tokens with
    | .error e => (draft.program, some e)
    | .ok (construct, rest) =>
      have := (Parser.advances_construct h).2
      parseFrom lastLine (draft.add construct) rest
termination_by tokens.length

/-- What every construct that is read leaves true of the program holds of the program at the end. -/
theorem parseFrom_keeps {P : Program Matrix → Prop} {lastLine : Nat} {draft : Draft}
    {tokens : List Token}
    (step : ∀ {draft : Draft} {tokens rest : List Token} {construct : Construct},
      Parser.construct ⟨draft.definitions, lastLine⟩ tokens = .ok (construct, rest) →
        P draft.program → P (draft.add construct).program)
    (h : P draft.program) : P (parseFrom lastLine draft tokens).1 := by
  fun_induction parseFrom lastLine draft tokens with
  | case1 => exact h
  | case2 => exact h
  | case3 _ _ _ _ _ hread _ ih => exact ih (step hread h)

/-- The line of the last token, one if there is none. -/
def lastLine (tokens : List Token) : Nat := (tokens.getLast?.map Token.line).getD 1

def parseTokens (tokens : List Token) : Program Matrix × Option SyntaxError :=
  parseFrom (lastLine tokens) .blank tokens

end SceneGrammar

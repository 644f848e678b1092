import SceneGrammar.Grammar.Block
import SceneGrammar.Grammar.Setting
import SceneGrammar.Program.Rule

/-!
Actions: loops, each a count and a block, before what is drawn, invoked or set.
-/

namespace SceneGrammar

/-- A count is rounded and must be at least one; what exceeds 32 bits, or is no number, becomes the
greatest count. -/
def repetitions? (count : Float) : Option UInt32 :=
  let greatest := UInt32.size - 1
  match Reading.ofFloat count with
  | .undefined | .infinite false => some (.ofNat greatest)
  | .infinite true => none
  | .finite x => if x.round < 1 then none else some (.ofNat (min x.round.toNat greatest))

namespace Parser

/-- A name begins a loop only if it is bound to a number and an asterisk follows. -/
def loopAhead : Scope → List Token → Bool
  | _, ⟨.number _, _⟩ :: _ => true
  | _, ⟨.keyword .openBrace, _⟩ :: _ => true
  | scope, ⟨.name name, _⟩ :: t :: _ =>
    (scope.number? name).isSome && t.lexeme = .keyword .times
  | _, _ => false

def repetitions (count : Float) (line : Nat) : Parser UInt32 :=
  match repetitions? count with
  | some n => pure n
  | none => fail .loopCount line

/-- A block without a count is done once. -/
def loop : Parser (Loop Matrix) := do
  let t ← next
  match t.number? (← scope) with
  | some count =>
    let repetitions ← repetitions count t.line
    let _ ← expect .times "'*' after loop count"
    return ⟨repetitions, .ofOperations (← block)⟩
  | none => return ⟨1, .ofOperations (← blockFrom t.line)⟩

theorem advances_loop : Advances loop :=
  advances_bind advances_next fun t => consumes_bind consumes_scope fun _ => by
    split
    · refine consumes_bind ?_ fun _ => consumes_bind (advances_expect _ _).consumes fun _ =>
        consumes_bind consumes_block fun _ => consumes_pure _
      unfold repetitions
      split
      · exact consumes_pure _
      · exact consumes_fail _ _
    · exact consumes_bind (consumes_blockFrom _) fun _ => consumes_pure _

/-- What an action does; settings are changed in rules only, and never in a loop. -/
def effect (inRule looped : Bool) : Parser (Effect × Nat) := do
  let t ← next
  match t.lexeme with
  | .keyword (.primitive solid) => return (.draw solid, t.line)
  | .name name => return (.invoke name, t.line)
  | .keyword .set =>
    if inRule then
      if looped then fail .loopedSet t.line
      else return (.set (← setting (← next)), t.line)
    else fail (.strayInRule t.lexeme.kind) t.line
  | lexeme => fail (.strayInRule lexeme.kind) t.line

def action (inRule : Bool) : Parser (Action Matrix) := do
  let loops ← many loopAhead loop advances_loop
  let (effect, line) ← effect inRule (!loops.isEmpty)
  return ⟨loops, effect, line⟩

theorem advances_effect (inRule looped : Bool) : Advances (effect inRule looped) :=
  advances_bind advances_next fun t => by
    split
    · exact consumes_pure _
    · exact consumes_pure _
    · split
      · split
        · exact consumes_fail _ _
        · exact consumes_bind advances_next.consumes fun key =>
            consumes_bind (consumes_setting key) fun _ => consumes_pure _
      · exact consumes_fail _ _
    · exact consumes_fail _ _

theorem advances_action (inRule : Bool) : Advances (action inRule) :=
  advances_after (consumes_many _ _ _) fun _ =>
    advances_bind (advances_effect _ _) fun _ => consumes_pure _

end Parser

end SceneGrammar

import SceneGrammar.Grammar.Construct

/-!
# The grammar

Which tokens make up which phrase, and what the phrase means, said without the parser. A phrase
depends on the definitions so far: a name stands for a number or a colour if it is bound to one.
-/

namespace SceneGrammar

abbrev Bindings := List (String × Definition)

def Keyword.token (k : Keyword) (line : Nat) : Token := ⟨.keyword k, line⟩

/-- The keyword, or nothing. -/
inductive OptionalPhrase (k : Keyword) : List Token → Prop
  | absent : OptionalPhrase k []
  | present (line : Nat) : OptionalPhrase k [k.token line]

/-- Any number of phrases of one kind. -/
inductive RepeatedPhrase {α : Type} (Phrase : List Token → α → Prop) : List Token → List α → Prop
  | none : RepeatedPhrase Phrase [] []
  | more {ts us : List Token} {a : α} {as : List α} (h : Phrase ts a)
      (hs : RepeatedPhrase Phrase us as) : RepeatedPhrase Phrase (ts ++ us) (a :: as)

/-! ## Operands -/

inductive NumberPhrase (b : Bindings) : List Token → Float → Prop
  | literal (x : Float) (line : Nat) : NumberPhrase b [⟨.number x, line⟩] x
  | bound {name : String} {x : Float} (h : b.lookup name = some (.number x)) (line : Nat) :
      NumberPhrase b [⟨.name name, line⟩] x

inductive ColorPhrase (b : Bindings) : List Token → Rgba → Prop
  | literal (c : Rgba) (line : Nat) : ColorPhrase b [⟨.color c, line⟩] c
  | bound {name : String} {c : Rgba} (h : b.lookup name = some (.color c)) (line : Nat) :
      ColorPhrase b [⟨.name name, line⟩] c

/-- The nearest integer of 64 bits. -/
def nearest (x : Float) : Int :=
  (Reading.ofFloat x).roundWithin Int64.minValue.toInt Int64.maxValue.toInt

inductive IntegerPhrase (b : Bindings) : List Token → Int → Prop
  | nearest {ts : List Token} {x : Float} (h : NumberPhrase b ts x) :
      IntegerPhrase b ts (nearest x)

inductive NaturalPhrase (b : Bindings) : List Token → Nat → Prop
  | integer {ts : List Token} {n : Int} (h : IntegerPhrase b ts n) (hn : 0 ≤ n) :
      NaturalPhrase b ts n.toNat

/-- A depth beyond 32 bits is the greatest one. -/
inductive DepthPhrase (b : Bindings) : List Token → UInt32 → Prop
  | natural {ts : List Token} {n : Nat} (h : NaturalPhrase b ts n) :
      DepthPhrase b ts (.ofNat (min n (UInt32.size - 1)))

/-- So many numbers, and between them what may stand there. -/
def NumbersPhrase (b : Bindings) (Between : List Token → Prop) :
    (count : Nat) → List Token → Vector Float count → Prop
  | 0, ts, _ => ts = []
  | 1, ts, v => ∃ x, NumberPhrase b ts x ∧ v = #v[x]
  | count + 2, ts, v => ∃ front between back before x, ts = front ++ (between ++ back) ∧
      NumbersPhrase b Between (count + 1) front before ∧ Between between ∧
      NumberPhrase b back x ∧ v = before.push x

/-- Commas between the numbers may be left out. -/
inductive VectorPhrase (b : Bindings) (count : Nat) : List Token → Vector Float count → Prop
  | brackets {ts : List Token} {v : Vector Float count}
      (h : NumbersPhrase b (OptionalPhrase .comma) count ts v) (line line' : Nat) :
      VectorPhrase b count (Keyword.openBracket.token line :: (ts ++ [Keyword.closeBracket.token line']))
        v

/-! ## Settings and directives -/

inductive NextColorPhrase (b : Bindings) : List Token → Rgba → Prop
  | comma {ts : List Token} {c : Rgba} (line : Nat) (h : ColorPhrase b ts c) :
      NextColorPhrase b (Keyword.comma.token line :: ts) c

inductive PoolPhrase (b : Bindings) : List Token → Pool → Prop
  | randomHue (line : Nat) : PoolPhrase b [Keyword.randomHue.token line] .randomHue
  | randomRgb (line : Nat) : PoolPhrase b [Keyword.randomRgb.token line] .randomRgb
  | greyscale (line : Nat) : PoolPhrase b [Keyword.greyscale.token line] .greyscale
  | list {colon ts us : List Token} {first : Rgba} {more : List Rgba} (line : Nat)
      (hc : OptionalPhrase .colon colon) (hf : ColorPhrase b ts first)
      (hm : RepeatedPhrase (NextColorPhrase b) us more) :
      PoolPhrase b (Keyword.list.token line :: (colon ++ (ts ++ us))) (.list (first :: more))

inductive SettingPhrase (b : Bindings) : List Token → Setting → Prop
  | maxDepth {ts : List Token} {n : UInt32} (line : Nat) (h : DepthPhrase b ts n) :
      SettingPhrase b (Keyword.maxDepth.token line :: ts) (.maxDepth n)
  | maxObjects {ts : List Token} {n : Nat} (line : Nat) (h : NaturalPhrase b ts n) :
      SettingPhrase b (Keyword.maxObjects.token line :: ts) (.maxObjects n)
  | minSize {ts : List Token} {x : Float} (line : Nat) (h : NumberPhrase b ts x) :
      SettingPhrase b (Keyword.minSize.token line :: ts) (.minSize x)
  | maxSize {ts : List Token} {x : Float} (line : Nat) (h : NumberPhrase b ts x) :
      SettingPhrase b (Keyword.maxSize.token line :: ts) (.maxSize x)
  | initialSeed (line line' : Nat) :
      SettingPhrase b [Keyword.seed.token line, Keyword.initial.token line'] .initialSeed
  | seed {ts : List Token} {n : Int} (line : Nat) (h : IntegerPhrase b ts n) :
      SettingPhrase b (Keyword.seed.token line :: ts) (.seed (.ofInt n))
  | pool {ts : List Token} {pool : Pool} (line : Nat) (h : PoolPhrase b ts pool) :
      SettingPhrase b (Keyword.colorPool.token line :: ts) (.pool pool)

/-- A rule may change the settings; what else there is to set is set once, for the program. -/
inductive DirectivePhrase (b : Bindings) : List Token → Directive → Prop
  | background {ts : List Token} {c : Rgba} (line : Nat) (h : ColorPhrase b ts c) :
      DirectivePhrase b (Keyword.background.token line :: ts) (.background c)
  | offset {ts : List Token} {v : Vector Float 3} (line : Nat) (h : VectorPhrase b 3 ts v) :
      DirectivePhrase b (Keyword.cameraOffset.token line :: ts) (.offset v)
  | rotation {ts : List Token} {v : Vector Float 9} (line : Nat) (h : VectorPhrase b 9 ts v) :
      DirectivePhrase b (Keyword.cameraRotation.token line :: ts) (.rotation v)
  | pivot {ts : List Token} {v : Vector Float 3} (line : Nat) (h : VectorPhrase b 3 ts v) :
      DirectivePhrase b (Keyword.pivot.token line :: ts) (.pivot v)
  | scale {ts : List Token} {x : Float} (line : Nat) (h : NumberPhrase b ts x) :
      DirectivePhrase b (Keyword.scale.token line :: ts) (.scale x)
  | setting {ts : List Token} {setting : Setting} (h : SettingPhrase b ts setting) :
      DirectivePhrase b ts (.setting setting)

/-- Only literals are defined, not other names. -/
inductive DefinitionPhrase : List Token → String × Definition → Prop
  | number (name : String) (x : Float) (line line' line'' : Nat) :
      DefinitionPhrase [Keyword.define.token line, ⟨.name name, line'⟩, ⟨.number x, line''⟩]
        (name, .number x)
  | color (name : String) (c : Rgba) (line line' line'' : Nat) :
      DefinitionPhrase [Keyword.define.token line, ⟨.name name, line'⟩, ⟨.color c, line''⟩]
        (name, .color c)

/-! ## Loops and actions -/

inductive OperationPhrase (b : Bindings) : List Token → Operation → Prop
  | move {ts : List Token} {x : Float} (axis : Axis) (line : Nat) (h : NumberPhrase b ts x) :
      OperationPhrase b ((Keyword.move axis).token line :: ts) (.move axis x)
  | turn {ts : List Token} {x : Float} (axis : Axis) (line : Nat) (h : NumberPhrase b ts x) :
      OperationPhrase b ((Keyword.turn axis).token line :: ts) (.turn axis x)
  | stretch {ts : List Token} {x : Float} (line : Nat) (h : NumberPhrase b ts x) :
      OperationPhrase b (Keyword.stretch.token line :: ts) (.stretch x x x)
  | stretchEach {ts us vs : List Token} {x y z : Float} (line : Nat) (hx : NumberPhrase b ts x)
      (hy : NumberPhrase b us y) (hz : NumberPhrase b vs z) :
      OperationPhrase b (Keyword.stretch.token line :: (ts ++ (us ++ vs))) (.stretch x y z)
  | linear {ts : List Token} {v : Vector Float 9} (line : Nat)
      (h : NumbersPhrase b (· = []) 9 ts v) :
      OperationPhrase b (Keyword.linear.token line :: ts) (.linear v)
  | reflect (axis : Axis) (line : Nat) :
      OperationPhrase b [(Keyword.reflect axis).token line] (.reflect axis)
  | hue {ts : List Token} {x : Float} (line : Nat) (h : NumberPhrase b ts x) :
      OperationPhrase b (Keyword.hue.token line :: ts) (.hue x)
  | saturation {ts : List Token} {x : Float} (line : Nat) (h : NumberPhrase b ts x) :
      OperationPhrase b (Keyword.saturation.token line :: ts) (.saturation x)
  | brightness {ts : List Token} {x : Float} (line : Nat) (h : NumberPhrase b ts x) :
      OperationPhrase b (Keyword.brightness.token line :: ts) (.brightness x)
  | alpha {ts : List Token} {x : Float} (line : Nat) (h : NumberPhrase b ts x) :
      OperationPhrase b (Keyword.alpha.token line :: ts) (.alpha x)
  | random (line line' : Nat) :
      OperationPhrase b [Keyword.color.token line, Keyword.random.token line'] .random
  | absolute {ts : List Token} {c : Rgba} (line : Nat) (h : ColorPhrase b ts c) :
      OperationPhrase b (Keyword.color.token line :: ts) (.absolute c)
  | blend {ts us : List Token} {c : Rgba} {x : Float} (line : Nat) (hc : ColorPhrase b ts c)
      (hx : NumberPhrase b us x) :
      OperationPhrase b (Keyword.blend.token line :: (ts ++ us)) (.blend c x)

inductive BlockPhrase (b : Bindings) : List Token → List Operation → Prop
  | braces {ts : List Token} {operations : List Operation} (line line' : Nat)
      (h : RepeatedPhrase (OperationPhrase b) ts operations) :
      BlockPhrase b (Keyword.openBrace.token line :: (ts ++ [Keyword.closeBrace.token line']))
        operations

inductive LoopPhrase (b : Bindings) : List Token → Loop Matrix → Prop
  | counted {ts us : List Token} {x : Float} {n : UInt32} {operations : List Operation} (line : Nat)
      (hx : NumberPhrase b ts x) (hn : repetitions? x = some n) (h : BlockPhrase b us operations) :
      LoopPhrase b (ts ++ Keyword.times.token line :: us) ⟨n, .ofOperations operations⟩
  | once {ts : List Token} {operations : List Operation} (h : BlockPhrase b ts operations) :
      LoopPhrase b ts ⟨1, .ofOperations operations⟩

/-- Settings are changed in rules only, and not in loops. -/
inductive ActionPhrase (b : Bindings) (inRule : Bool) : List Token → Action Matrix → Prop
  | draw {ts : List Token} {loops : List (Loop Matrix)} (solid : Primitive) (line : Nat)
      (h : RepeatedPhrase (LoopPhrase b) ts loops) :
      ActionPhrase b inRule (ts ++ [(Keyword.primitive solid).token line]) ⟨loops, .draw solid, line⟩
  | invoke {ts : List Token} {loops : List (Loop Matrix)} (name : String) (line : Nat)
      (h : RepeatedPhrase (LoopPhrase b) ts loops) :
      ActionPhrase b inRule (ts ++ [⟨.name name, line⟩]) ⟨loops, .invoke name, line⟩
  | set {ts : List Token} {setting : Setting} (line : Nat) (hr : inRule)
      (h : SettingPhrase b ts setting) :
      ActionPhrase b inRule (Keyword.set.token line :: ts) ⟨[], .set setting, line⟩

/-! ## Rules and programs -/

inductive ModifierPhrase (b : Bindings) : List Token → Modifier → Prop
  | weight {ts : List Token} {x : Float} (line : Nat) (h : NumberPhrase b ts x) (hx : 0 < x) :
      ModifierPhrase b (Keyword.weight.token line :: ts) (.weight x)
  | depth {ts : List Token} {n : UInt32} (line : Nat) (h : DepthPhrase b ts n) :
      ModifierPhrase b (Keyword.maxDepth.token line :: ts) (.depth ⟨n, none⟩)
  | depthThen {ts : List Token} {n : UInt32} (next : String) (line line' line'' : Nat)
      (h : DepthPhrase b ts n) :
      ModifierPhrase b
        (Keyword.maxDepth.token line :: (ts ++ [Keyword.greater.token line', ⟨.name next, line''⟩]))
        (.depth ⟨n, some next⟩)

/-- The actions of a named rule, at least one. -/
inductive BodyPhrase (b : Bindings) : List Token → List (Action Matrix) → Prop
  | braces {ts : List Token} {actions : List (Action Matrix)} (line line' : Nat)
      (h : RepeatedPhrase (ActionPhrase b true) ts actions) (hne : actions ≠ []) :
      BodyPhrase b (Keyword.openBrace.token line :: (ts ++ [Keyword.closeBrace.token line'])) actions

/-- The constructs that a keyword begins. -/
inductive ConstructPhrase (b : Bindings) : List Token → Construct → Prop
  | directive {ts : List Token} {directive : Directive} (line : Nat)
      (h : DirectivePhrase b ts directive) :
      ConstructPhrase b (Keyword.set.token line :: ts) (.directive directive)
  | define {ts : List Token} {name : String} {value : Definition}
      (h : DefinitionPhrase ts (name, value)) : ConstructPhrase b ts (.define name value)
  | rule {ts us : List Token} {modifiers : List Modifier} {actions : List (Action Matrix)}
      (name : String) (line line' : Nat) (hm : RepeatedPhrase (ModifierPhrase b) ts modifiers)
      (h : BodyPhrase b us actions) :
      ConstructPhrase b (Keyword.rule.token line :: ⟨.name name, line'⟩ :: (ts ++ us))
        (.rule (Modifier.weightOf modifiers) ⟨some name, Modifier.depthOf modifiers, actions⟩)

/-- The actions outside of all rules, at least one. -/
inductive InitialPhrase (b : Bindings) : List Token → Construct → Prop
  | actions {ts : List Token} {actions : List (Action Matrix)}
      (h : RepeatedPhrase (ActionPhrase b false) ts actions) (hne : actions ≠ []) :
      InitialPhrase b ts (.rule 1 ⟨none, none, actions⟩)

/-- The program ends here, or a construct follows that a keyword begins. -/
def EndsActions (rest : List Token) : Prop :=
  ∀ t ∈ rest.head?, t.lexeme = .keyword .set ∨ t.lexeme = .keyword .rule ∨
    t.lexeme = .keyword .define

/-- The constructs one after the other, each added to the draft of those before it. Actions outside
of rules are one anonymous rule as far as they stand together. -/
inductive ProgramPhrase : Draft → List Token → Program Matrix → Prop
  | done (d : Draft) : ProgramPhrase d [] d.program
  | construct {d : Draft} {ts us : List Token} {construct : Construct} {program : Program Matrix}
      (h : ConstructPhrase d.definitions ts construct)
      (hs : ProgramPhrase (d.add construct) us program) : ProgramPhrase d (ts ++ us) program
  | initial {d : Draft} {ts us : List Token} {construct : Construct} {program : Program Matrix}
      (h : InitialPhrase d.definitions ts construct) (he : EndsActions us)
      (hs : ProgramPhrase (d.add construct) us program) : ProgramPhrase d (ts ++ us) program

end SceneGrammar

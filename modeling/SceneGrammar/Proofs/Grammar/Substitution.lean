import Mathlib.Data.List.Chain
import SceneGrammar.Proofs.Expansion.Safety
import SceneGrammar.Proofs.Grammar.Definitions
import SceneGrammar.Proofs.Program.Groups

/-!
# Definitions are substitution

A name that is bound to a literal and the literal itself mean the same wherever the name is not that
of a rule. So a definition is done away with by writing its literal for its name.
-/

namespace SceneGrammar

def Definition.lexeme : Definition → Lexeme
  | .number x => .number x
  | .color c => .color c

/-- The literal in place of the name, on the same line. -/
def Token.inline (name : String) (value : Definition) : Token → Token
  | ⟨.name other, line⟩ => ⟨if other = name then value.lexeme else .name other, line⟩
  | t => t

/-- The next token is the name of a definition, of a rule or of a rule to go on with. -/
def Token.declares (t : Token) : Bool :=
  match t.lexeme with
  | .keyword .define | .keyword .rule | .keyword .greater => true
  | _ => false

/-- The name is not declared among these tokens. -/
def Undeclared (name : String) (tokens : List Token) : Prop :=
  tokens.IsChain fun t u => t.declares = true → u.lexeme ≠ .name name

variable {b : Bindings} {name : String} {value : Definition} {ts : List Token}

theorem inline_name_self (line : Nat) :
    Token.inline name value ⟨.name name, line⟩ = ⟨value.lexeme, line⟩ := by
  rw [Token.inline, if_pos rfl]

theorem inline_name_of_ne {other : String} (h : other ≠ name) (line : Nat) :
    Token.inline name value ⟨.name other, line⟩ = ⟨.name other, line⟩ := by
  rw [Token.inline, if_neg h]

theorem OptionalPhrase.inline {k : Keyword} (h : OptionalPhrase k ts) :
    OptionalPhrase k (ts.map (Token.inline name value)) := by
  cases h with
  | absent => exact .absent
  | present line => exact .present line

theorem RepeatedPhrase.inline {α : Type} {Phrase : List Token → α → Prop} {as : List α}
    (h : RepeatedPhrase Phrase ts as)
    (hp : ∀ {ts : List Token}, ∀ a ∈ as, Phrase ts a → Phrase (ts.map (Token.inline name value)) a) :
    RepeatedPhrase Phrase (ts.map (Token.inline name value)) as := by
  induction h with
  | none => exact .none
  | more h _ ih =>
    rw [List.map_append]
    exact .more (hp _ List.mem_cons_self h) (ih fun a ha => hp a (List.mem_cons_of_mem _ ha))

/-! ## Operands and settings -/

theorem NumberPhrase.inline {x : Float} (h : NumberPhrase b ts x)
    (hb : b.lookup name = some value) : NumberPhrase b (ts.map (Token.inline name value)) x := by
  cases h with
  | literal x line => exact .literal x line
  | @bound other x h line =>
    by_cases heq : other = name
    · subst heq
      cases hb.symm.trans h
      rw [List.map_singleton, inline_name_self]
      exact .literal x line
    · rw [List.map_singleton, inline_name_of_ne heq]
      exact .bound h line

theorem ColorPhrase.inline {c : Rgba} (h : ColorPhrase b ts c)
    (hb : b.lookup name = some value) : ColorPhrase b (ts.map (Token.inline name value)) c := by
  cases h with
  | literal c line => exact .literal c line
  | @bound other c h line =>
    by_cases heq : other = name
    · subst heq
      cases hb.symm.trans h
      rw [List.map_singleton, inline_name_self]
      exact .literal c line
    · rw [List.map_singleton, inline_name_of_ne heq]
      exact .bound h line

theorem IntegerPhrase.inline {n : Int} (h : IntegerPhrase b ts n)
    (hb : b.lookup name = some value) : IntegerPhrase b (ts.map (Token.inline name value)) n := by
  cases h with
  | nearest h => exact .nearest (h.inline hb)

theorem NaturalPhrase.inline {n : Nat} (h : NaturalPhrase b ts n)
    (hb : b.lookup name = some value) : NaturalPhrase b (ts.map (Token.inline name value)) n := by
  cases h with
  | integer h hn => exact .integer (h.inline hb) hn

theorem DepthPhrase.inline {n : UInt32} (h : DepthPhrase b ts n)
    (hb : b.lookup name = some value) : DepthPhrase b (ts.map (Token.inline name value)) n := by
  cases h with
  | natural h => exact .natural (h.inline hb)

theorem NumbersPhrase.inline {Between : List Token → Prop} {count : Nat} {v : Vector Float count}
    (h : NumbersPhrase b Between count ts v) (hb : b.lookup name = some value)
    (hp : ∀ {ts : List Token}, Between ts → Between (ts.map (Token.inline name value))) :
    NumbersPhrase b Between count (ts.map (Token.inline name value)) v := by
  induction count generalizing ts with
  | zero =>
    obtain rfl : ts = [] := h
    rfl
  | succ count ih =>
    cases count with
    | zero =>
      obtain ⟨x, hx, rfl⟩ := h
      exact ⟨x, hx.inline hb, rfl⟩
    | succ count =>
      obtain ⟨front, between, back, before, x, rfl, hfront, hbetween, hback, rfl⟩ := h
      rw [List.map_append, List.map_append]
      exact ⟨_, _, _, before, x, rfl, ih hfront, hp hbetween, hback.inline hb, rfl⟩

theorem VectorPhrase.inline {count : Nat} {v : Vector Float count} (h : VectorPhrase b count ts v)
    (hb : b.lookup name = some value) :
    VectorPhrase b count (ts.map (Token.inline name value)) v := by
  cases h with
  | brackets h line line' =>
    rw [List.map_cons, List.map_append]
    exact .brackets (h.inline hb OptionalPhrase.inline) line line'

theorem NextColorPhrase.inline {c : Rgba} (h : NextColorPhrase b ts c)
    (hb : b.lookup name = some value) : NextColorPhrase b (ts.map (Token.inline name value)) c := by
  cases h with
  | comma line h => exact .comma line (h.inline hb)

theorem PoolPhrase.inline {pool : Pool} (h : PoolPhrase b ts pool)
    (hb : b.lookup name = some value) : PoolPhrase b (ts.map (Token.inline name value)) pool := by
  cases h with
  | randomHue line => exact .randomHue line
  | randomRgb line => exact .randomRgb line
  | greyscale line => exact .greyscale line
  | list line hc hf hm =>
    rw [List.map_cons, List.map_append, List.map_append]
    exact .list line hc.inline (hf.inline hb) (hm.inline fun _ _ h => h.inline hb)

theorem SettingPhrase.inline {setting : Setting} (h : SettingPhrase b ts setting)
    (hb : b.lookup name = some value) :
    SettingPhrase b (ts.map (Token.inline name value)) setting := by
  cases h with
  | maxDepth line h => exact .maxDepth line (h.inline hb)
  | maxObjects line h => exact .maxObjects line (h.inline hb)
  | minSize line h => exact .minSize line (h.inline hb)
  | maxSize line h => exact .maxSize line (h.inline hb)
  | initialSeed line line' => exact .initialSeed line line'
  | seed line h => exact .seed line (h.inline hb)
  | pool line h => exact .pool line (h.inline hb)

theorem DirectivePhrase.inline {directive : Directive} (h : DirectivePhrase b ts directive)
    (hb : b.lookup name = some value) :
    DirectivePhrase b (ts.map (Token.inline name value)) directive := by
  cases h with
  | background line h => exact .background line (h.inline hb)
  | offset line h => exact .offset line (h.inline hb)
  | rotation line h => exact .rotation line (h.inline hb)
  | pivot line h => exact .pivot line (h.inline hb)
  | scale line h => exact .scale line (h.inline hb)
  | setting h => exact .setting (h.inline hb)

/-! ## Actions -/

theorem OperationPhrase.inline {operation : Operation} (h : OperationPhrase b ts operation)
    (hb : b.lookup name = some value) :
    OperationPhrase b (ts.map (Token.inline name value)) operation := by
  cases h with
  | move axis line h => exact .move axis line (h.inline hb)
  | turn axis line h => exact .turn axis line (h.inline hb)
  | stretch line h => exact .stretch line (h.inline hb)
  | stretchEach line hx hy hz =>
    rw [List.map_cons, List.map_append, List.map_append]
    exact .stretchEach line (hx.inline hb) (hy.inline hb) (hz.inline hb)
  | linear line h => exact .linear line (h.inline hb List.map_eq_nil_iff.2)
  | reflect axis line => exact .reflect axis line
  | hue line h => exact .hue line (h.inline hb)
  | saturation line h => exact .saturation line (h.inline hb)
  | brightness line h => exact .brightness line (h.inline hb)
  | alpha line h => exact .alpha line (h.inline hb)
  | random line line' => exact .random line line'
  | absolute line h => exact .absolute line (h.inline hb)
  | blend line hc hx =>
    rw [List.map_cons, List.map_append]
    exact .blend line (hc.inline hb) (hx.inline hb)

theorem BlockPhrase.inline {operations : List Operation} (h : BlockPhrase b ts operations)
    (hb : b.lookup name = some value) :
    BlockPhrase b (ts.map (Token.inline name value)) operations := by
  cases h with
  | braces line line' h =>
    rw [List.map_cons, List.map_append]
    exact .braces line line' (h.inline fun _ _ h => h.inline hb)

theorem LoopPhrase.inline {loop : Loop Matrix} (h : LoopPhrase b ts loop)
    (hb : b.lookup name = some value) : LoopPhrase b (ts.map (Token.inline name value)) loop := by
  cases h with
  | counted line hx hn h =>
    rw [List.map_append, List.map_cons]
    exact .counted line (hx.inline hb) hn (h.inline hb)
  | once h => exact .once (h.inline hb)

theorem ActionPhrase.inline {inRule : Bool} {action : Action Matrix}
    (h : ActionPhrase b inRule ts action) (hb : b.lookup name = some value)
    (hi : action.effect ≠ .invoke name) :
    ActionPhrase b inRule (ts.map (Token.inline name value)) action := by
  cases h with
  | draw solid line h =>
    rw [List.map_append]
    exact .draw solid line (h.inline fun _ _ h => h.inline hb)
  | invoke other line h =>
    have hne : other ≠ name := fun heq => hi (congrArg Effect.invoke heq)
    rw [List.map_append, List.map_singleton, inline_name_of_ne hne]
    exact .invoke other line (h.inline fun _ _ h => h.inline hb)
  | set line hr h => exact .set line hr (h.inline hb)

/-! ## Rules and programs -/

theorem Undeclared.of_append {front back : List Token} (h : Undeclared name (front ++ back)) :
    Undeclared name front ∧ Undeclared name back :=
  ⟨h.left_of_append, h.right_of_append⟩

theorem Undeclared.of_cons {t : Token} (h : Undeclared name (t :: ts)) : Undeclared name ts :=
  List.IsChain.tail h

theorem Undeclared.ne {t : Token} {other : String} {line : Nat}
    (h : Undeclared name (t :: ⟨.name other, line⟩ :: ts)) (ht : t.declares = true) :
    other ≠ name :=
  fun heq => (List.isChain_cons_cons.1 h).1 ht (congrArg Lexeme.name heq)

theorem ModifierPhrase.inline {modifier : Modifier} (h : ModifierPhrase b ts modifier)
    (hb : b.lookup name = some value) (hu : Undeclared name ts) :
    ModifierPhrase b (ts.map (Token.inline name value)) modifier := by
  cases h with
  | weight line h hx => exact .weight line (h.inline hb) hx
  | depth line h => exact .depth line (h.inline hb)
  | depthThen next line line' line'' h =>
    have hne : next ≠ name := hu.of_cons.of_append.2.ne rfl
    rw [List.map_cons, List.map_append, List.map_cons, List.map_singleton, inline_name_of_ne hne]
    exact .depthThen next line line' line'' (h.inline hb)

theorem modifiers_inline {modifiers : List Modifier}
    (h : RepeatedPhrase (ModifierPhrase b) ts modifiers) (hb : b.lookup name = some value)
    (hu : Undeclared name ts) :
    RepeatedPhrase (ModifierPhrase b) (ts.map (Token.inline name value)) modifiers := by
  induction h with
  | none => exact .none
  | more h _ ih =>
    rw [List.map_append]
    exact .more (h.inline hb hu.of_append.1) (ih hu.of_append.2)

theorem actions_inline {inRule : Bool} {actions : List (Action Matrix)}
    (h : RepeatedPhrase (ActionPhrase b inRule) ts actions) (hb : b.lookup name = some value)
    (hi : ∀ action ∈ actions, action.effect ≠ .invoke name) :
    RepeatedPhrase (ActionPhrase b inRule) (ts.map (Token.inline name value)) actions :=
  h.inline fun action ha h => h.inline hb (hi action ha)

theorem BodyPhrase.inline {actions : List (Action Matrix)} (h : BodyPhrase b ts actions)
    (hb : b.lookup name = some value) (hi : ∀ action ∈ actions, action.effect ≠ .invoke name) :
    BodyPhrase b (ts.map (Token.inline name value)) actions := by
  cases h with
  | braces line line' h hne =>
    rw [List.map_cons, List.map_append]
    exact .braces line line' (actions_inline h hb hi) hne

/-- The construct is not a rule that invokes the name. -/
def Construct.Uninvoked (name : String) : Construct → Prop
  | .rule _ r => name ∉ r.invoked
  | _ => True

theorem Rule.effect_ne_of_not_mem_invoked {M : Type} {r : Rule M} (h : name ∉ r.invoked) :
    ∀ action ∈ r.actions, action.effect ≠ .invoke name :=
  fun _ ha he => h (Rule.mem_invoked ha he)

theorem ConstructPhrase.inline {construct : Construct} (h : ConstructPhrase b ts construct)
    (hb : b.lookup name = some value) (hu : Undeclared name ts) (hi : construct.Uninvoked name) :
    ConstructPhrase b (ts.map (Token.inline name value)) construct := by
  cases h with
  | directive line h => exact .directive line (h.inline hb)
  | @define ts other value h =>
    cases h with
    | number _ x line line' line'' =>
      have hne : other ≠ name := hu.ne rfl
      rw [List.map_cons, List.map_cons, inline_name_of_ne hne]
      exact .define (.number other x line line' line'')
    | color _ c line line' line'' =>
      have hne : other ≠ name := hu.ne rfl
      rw [List.map_cons, List.map_cons, inline_name_of_ne hne]
      exact .define (.color other c line line' line'')
  | rule other line line' hm h =>
    have hne : other ≠ name := hu.ne rfl
    rw [List.map_cons, List.map_cons, inline_name_of_ne hne, List.map_append]
    exact .rule other line line' (modifiers_inline hm hb hu.of_cons.of_cons.of_append.1)
      (h.inline hb (Rule.effect_ne_of_not_mem_invoked hi))

theorem InitialPhrase.inline {construct : Construct} (h : InitialPhrase b ts construct)
    (hb : b.lookup name = some value) (hi : construct.Uninvoked name) :
    InitialPhrase b (ts.map (Token.inline name value)) construct := by
  cases h with
  | actions h hne =>
    exact .actions (actions_inline h hb (Rule.effect_ne_of_not_mem_invoked hi)) hne

theorem EndsActions.inline (h : EndsActions ts) :
    EndsActions (ts.map (Token.inline name value)) := by
  cases ts with
  | nil => exact nofun
  | cons t ts =>
    intro u hu
    cases hu
    obtain ⟨lexeme, line⟩ := t
    have hends := h _ rfl
    cases lexeme with
    | name other => obtain hk | hk | hk := hends <;> cases hk
    | number | color | keyword => exact hends

theorem Draft.rules_subset_add (d : Draft) (construct : Construct) :
    d.program.rules ⊆ (d.add construct).program.rules := by
  cases construct with
  | directive => exact List.Subset.refl _
  | define => exact List.Subset.refl _
  | rule weight rule =>
    exact fun r hr => (d.program.perm_rules_addRule weight rule).mem_iff.2 (List.mem_cons_of_mem _ hr)

/-- No rule is lost on the way to the end of a program. -/
theorem ProgramPhrase.rules_subset {d : Draft} {program : Program Matrix}
    (h : ProgramPhrase d ts program) : d.program.rules ⊆ program.rules := by
  induction h with
  | done => exact List.Subset.refl _
  | construct _ _ ih => exact List.Subset.trans (Draft.rules_subset_add _ _) ih
  | initial _ _ _ ih => exact List.Subset.trans (Draft.rules_subset_add _ _) ih

theorem ProgramPhrase.uninvoked {d : Draft} {construct : Construct} {program : Program Matrix}
    (h : ProgramPhrase (d.add construct) ts program)
    (hi : ∀ rule ∈ program.rules, name ∉ rule.invoked) : construct.Uninvoked name := by
  cases construct with
  | directive => trivial
  | define => trivial
  | rule weight rule =>
    exact hi rule (h.rules_subset ((d.program.perm_rules_addRule weight rule).mem_iff.2
      List.mem_cons_self))

theorem ConstructPhrase.lookup_add {d : Draft} {construct : Construct}
    (h : ConstructPhrase d.definitions ts construct) (hu : Undeclared name ts)
    (hb : d.definitions.lookup name = some value) :
    (d.add construct).definitions.lookup name = some value := by
  cases h with
  | directive => exact hb
  | rule => exact hb
  | @define ts other value h =>
    have hne : other ≠ name := by cases h <;> exact hu.ne rfl
    rwa [Draft.add, List.lookup_cons, beq_eq_false_iff_ne.2 hne.symm]

theorem InitialPhrase.lookup_add {d : Draft} {construct : Construct}
    (h : InitialPhrase d.definitions ts construct) (hb : d.definitions.lookup name = some value) :
    (d.add construct).definitions.lookup name = some value := by
  cases h
  exact hb

theorem ProgramPhrase.inline {d : Draft} {program : Program Matrix} (h : ProgramPhrase d ts program)
    (hb : d.definitions.lookup name = some value) (hu : Undeclared name ts)
    (hi : ∀ rule ∈ program.rules, name ∉ rule.invoked) :
    ProgramPhrase d (ts.map (Token.inline name value)) program := by
  induction h with
  | done d => exact .done d
  | construct h hs ih =>
    rw [List.map_append]
    exact .construct (h.inline hb hu.of_append.1 (hs.uninvoked hi))
      (ih (h.lookup_add hu.of_append.1 hb) hu.of_append.2 hi)
  | initial h he hs ih =>
    rw [List.map_append]
    exact .initial (h.inline hb (hs.uninvoked hi)) he.inline
      (ih (h.lookup_add hb) hu.of_append.2 hi)

theorem programPhrase_define_iff {d : Draft} {line line' line'' : Nat} {program : Program Matrix} :
    ProgramPhrase d (Keyword.define.token line :: ⟨.name name, line'⟩ :: ⟨value.lexeme, line''⟩ :: ts)
      program ↔ ProgramPhrase (d.add (.define name value)) ts program := by
  have hread : Parser.construct ⟨d.definitions, 1⟩
      (Keyword.define.token line :: ⟨.name name, line'⟩ :: ⟨value.lexeme, line''⟩ :: ts) =
        .ok (.define name value, ts) := by
    cases value <;> rfl
  constructor
  · intro h
    have hparse := parseFrom_of_programPhrase h 1
    rw [parseFrom_of_construct hread] at hparse
    exact programPhrase_of_parseFrom hparse
  · intro h
    have hparse := parseFrom_of_programPhrase h 1
    rw [← parseFrom_of_construct hread] at hparse
    exact programPhrase_of_parseFrom hparse

/-- What follows a definition means the same with the literal in place of the name, provided that
the name is declared nowhere else there and the rules do not invoke it. -/
theorem parseTokens_inline {before after : List Token} {line line' line'' : Nat}
    {program : Program Matrix}
    (h : parseTokens (before ++ Keyword.define.token line :: ⟨.name name, line'⟩ ::
      ⟨value.lexeme, line''⟩ :: after) = (program, none))
    (hu : Undeclared name after) (hi : ∀ rule ∈ program.rules, name ∉ rule.invoked) :
    parseTokens (before ++ Keyword.define.token line :: ⟨.name name, line'⟩ ::
      ⟨value.lexeme, line''⟩ :: after.map (Token.inline name value)) = (program, none) := by
  obtain ⟨d, hd, hbefore⟩ := (programPhrase_of_parseFrom h).exists_before_define
  have hbound : (d.add (.define name value)).definitions.lookup name = some value :=
    List.lookup_cons_self
  have hafter := (programPhrase_define_iff.1 hd).inline hbound hu hi
  exact parseFrom_of_programPhrase (hbefore _ _ (programPhrase_define_iff.2 hafter)) _

/-- A rule with this operand for its weight and in its loop, and as the count of the loop. -/
def spiral (operand : Lexeme) : List Token := [
  Keyword.rule.token 3, ⟨.name "r", 3⟩, Keyword.weight.token 3, ⟨operand, 3⟩,
  Keyword.openBrace.token 3, ⟨operand, 4⟩, Keyword.times.token 4, Keyword.openBrace.token 4,
  (Keyword.turn .z).token 4, ⟨operand, 4⟩, Keyword.stretch.token 4, ⟨operand, 4⟩,
  Keyword.closeBrace.token 4, (Keyword.primitive .box).token 4, Keyword.closeBrace.token 5]

theorem parseTokens_inline_spiral :
    ∃ program : Program Matrix,
      parseTokens ([⟨.name "r", 1⟩] ++ Keyword.define.token 2 :: ⟨.name "n", 2⟩ ::
        ⟨(Definition.number 3).lexeme, 2⟩ :: spiral (.name "n")) = (program, none) ∧
      Undeclared "n" (spiral (.name "n")) ∧ (∀ rule ∈ program.rules, "n" ∉ rule.invoked) ∧
      parseTokens ([⟨.name "r", 1⟩] ++ Keyword.define.token 2 :: ⟨.name "n", 2⟩ ::
        ⟨(Definition.number 3).lexeme, 2⟩ :: spiral (.number 3)) = (program, none) := by
  have hread : (parseTokens ([⟨.name "r", 1⟩] ++ Keyword.define.token 2 :: ⟨.name "n", 2⟩ ::
      ⟨(Definition.number 3).lexeme, 2⟩ :: spiral (.name "n"))).2 = none := by decide +kernel
  have hu : Undeclared "n" (spiral (.name "n")) := by
    unfold Undeclared
    decide
  have hi : ∀ rule ∈ (parseTokens ([⟨.name "r", 1⟩] ++ Keyword.define.token 2 :: ⟨.name "n", 2⟩ ::
      ⟨(Definition.number 3).lexeme, 2⟩ :: spiral (.name "n"))).1.rules, "n" ∉ rule.invoked := by
    decide +kernel
  have hinline : (spiral (.name "n")).map (Token.inline "n" (.number 3)) = spiral (.number 3) := by
    decide
  exact ⟨_, Prod.ext rfl hread, hu, hi, hinline ▸ parseTokens_inline (Prod.ext rfl hread) hu hi⟩

end SceneGrammar

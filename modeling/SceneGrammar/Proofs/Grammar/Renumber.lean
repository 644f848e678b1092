import SceneGrammar.Proofs.Grammar.Acceptance
import SceneGrammar.Proofs.Program.Renumber

/-!
# Reading tokens with other line numbers

No parser lets a line decide anything: on tokens with other line numbers it takes as many of them
and makes the same of them, but for the lines in actions and in the error. This is one statement for
each parser, put together from those for the steps that parsers are made of.
-/

namespace SceneGrammar

def Token.renumber (f : Nat → Nat) (t : Token) : Token := { t with line := f t.line }

def Scope.renumber (f : Nat → Nat) (s : Scope) : Scope := { s with lastLine := f s.lastLine }

def SyntaxError.renumber (f : Nat → Nat) (e : SyntaxError) : SyntaxError :=
  { e with line := f e.line }

namespace Parser
variable {α β : Type} {f : Nat → Nat}

/-- On renumbered tokens the second parser does what the first does on the tokens themselves, and
comes to the value that `g` makes of the first one's. -/
def Renumbers (f : Nat → Nat) (g : α → α) (p q : Parser α) : Prop :=
  ∀ scope tokens, q (scope.renumber f) (tokens.map (Token.renumber f)) =
    match p scope tokens with
    | .error e => .error (e.renumber f)
    | .ok (a, rest) => .ok (g a, rest.map (Token.renumber f))

theorem renumbers_pure (g : α → α) (a : α) : Renumbers f g (pure a) (pure (g a)) :=
  fun _ _ => rfl

theorem renumbers_fail (g : α → α) (fault : SyntaxFault) (line : Nat) :
    Renumbers f g (fail fault line) (fail fault (f line)) := fun _ _ => rfl

theorem renumbers_bind {g : α → α} {h : β → β} {p q : Parser α} {k l : α → Parser β}
    (hp : Renumbers f g p q) (hk : ∀ a, Renumbers f h (k a) (l (g a))) :
    Renumbers f h (p >>= k) (q >>= l) := by
  intro scope tokens
  rw [bind_apply, bind_apply, hp]
  cases p scope tokens with
  | error e => rfl
  | ok result => exact hk result.1 scope result.2

/-- What is made of a value without a line. -/
theorem renumbers_return {h : β → β} {p q : Parser α} (hp : Renumbers f id p q) {wrap : α → β}
    (hwrap : ∀ a, h (wrap a) = wrap a) :
    Renumbers f h (do return wrap (← p)) (do return wrap (← q)) :=
  renumbers_bind hp fun a => by
    have hpure := renumbers_pure (f := f) h (wrap a)
    rwa [hwrap] at hpure

theorem renumbers_scope : Renumbers f (Scope.renumber f) scope scope := fun _ _ => rfl

theorem renumbers_next : Renumbers f (Token.renumber f) next next := fun _ tokens => by
  cases tokens <;> rfl

theorem renumbers_nextLine : Renumbers f f nextLine nextLine := fun _ tokens => by
  cases tokens <;> rfl

theorem renumbers_ahead {test : Scope → List Token → Bool}
    (h : ∀ scope tokens, test (Scope.renumber f scope) (tokens.map (Token.renumber f)) =
      test scope tokens) : Renumbers f id (ahead test) (ahead test) := fun scope tokens => by
  rw [ahead, h]
  rfl

theorem renumbers_expect (k : Keyword) (what : String) :
    Renumbers f (Token.renumber f) (expect k what) (expect k what) :=
  renumbers_bind renumbers_next fun t => by
    have hlexeme : (t.renumber f).lexeme = t.lexeme := rfl
    rw [hlexeme]
    split
    · exact renumbers_pure _ t
    · exact renumbers_fail _ _ t.line

theorem renumbers_expectName (what : String) :
    Renumbers f id (expectName what) (expectName what) :=
  renumbers_bind renumbers_next fun t => by
    obtain ⟨lexeme, line⟩ := t
    cases lexeme with
    | name name => exact renumbers_pure _ name
    | number | color | keyword => exact renumbers_fail _ _ line

theorem renumbers_accept (k : Keyword) : Renumbers f id (accept k) (accept k) := by
  intro scope tokens
  cases tokens with
  | nil => rfl
  | cons t rest =>
    have hlexeme : (t.renumber f).lexeme = t.lexeme := rfl
    rw [List.map_cons, accept, accept, hlexeme]
    by_cases h : t.lexeme = .keyword k
    · rw [if_pos h, if_pos h]
      rfl
    · rw [if_neg h, if_neg h]
      rfl

theorem renumbers_many {g : α → α} {begins : Scope → List Token → Bool} {p : Parser α}
    {advances : Advances p} (hp : Renumbers f g p p)
    (hb : ∀ scope tokens, begins (Scope.renumber f scope) (tokens.map (Token.renumber f)) =
      begins scope tokens) :
    Renumbers f (List.map g) (many begins p advances) (many begins p advances) := by
  intro scope tokens
  cases h : begins scope tokens with
  | false =>
    rw [many_of_not h, many_of_not ((hb scope tokens).trans h)]
    rfl
  | true =>
    rw [many_of_begins h, many_of_begins ((hb scope tokens).trans h), bind_apply, bind_apply, hp]
    cases ha : p scope tokens with
    | error e => rfl
    | ok result =>
      obtain ⟨a, rest⟩ := result
      have := (advances ha).2
      dsimp only
      rw [bind_apply, bind_apply, renumbers_many hp hb scope rest]
      cases many begins p advances scope rest <;> rfl
termination_by _ tokens => tokens.length

/-! ## Operands, settings and directives -/

theorem number?_renumber (t : Token) (scope : Scope) :
    (t.renumber f).number? (scope.renumber f) = t.number? scope := rfl

theorem color?_renumber (t : Token) (scope : Scope) :
    (t.renumber f).color? (scope.renumber f) = t.color? scope := rfl

theorem renumbers_number : Renumbers f id number number :=
  renumbers_bind renumbers_next fun t => renumbers_bind renumbers_scope fun scope => by
    rw [number?_renumber]
    cases t.number? scope with
    | some value => exact renumbers_pure _ value
    | none =>
      obtain ⟨lexeme, line⟩ := t
      cases lexeme <;> exact renumbers_fail _ _ line

theorem renumbers_color : Renumbers f id color color :=
  renumbers_bind renumbers_next fun t => renumbers_bind renumbers_scope fun scope => by
    rw [color?_renumber]
    cases t.color? scope with
    | some value => exact renumbers_pure _ value
    | none =>
      obtain ⟨lexeme, line⟩ := t
      cases lexeme <;> exact renumbers_fail _ _ line

theorem renumbers_integer : Renumbers f id integer integer :=
  renumbers_return renumbers_number fun _ => rfl

theorem renumbers_natural : Renumbers f id natural natural :=
  renumbers_bind renumbers_nextLine fun line => renumbers_bind renumbers_integer fun n => by
    rw [id]
    split
    · exact renumbers_pure _ _
    · exact renumbers_fail _ _ line

theorem renumbers_depth : Renumbers f id depth depth :=
  renumbers_return renumbers_natural fun _ => rfl

theorem renumbers_numbers {separator : Parser Unit} (hs : Renumbers f id separator separator) :
    (count : Nat) → Renumbers f id (numbers separator count) (numbers separator count)
  | 0 => renumbers_pure _ _
  | 1 => renumbers_return renumbers_number fun _ => rfl
  | count + 2 =>
    renumbers_bind (renumbers_numbers hs (count + 1)) fun _ => renumbers_bind hs fun _ =>
      renumbers_return renumbers_number fun _ => rfl

theorem renumbers_vector (count : Nat) : Renumbers f id (vector count) (vector count) :=
  renumbers_bind (renumbers_expect _ _) fun _ =>
    renumbers_bind (renumbers_numbers (renumbers_bind (renumbers_accept _) fun _ =>
      renumbers_pure _ _) count) fun _ =>
    renumbers_bind (renumbers_expect _ _) fun _ => renumbers_pure _ _

theorem numberAhead_renumber (scope : Scope) (tokens : List Token) :
    numberAhead (scope.renumber f) (tokens.map (Token.renumber f)) = numberAhead scope tokens := by
  cases tokens <;> rfl

theorem commaAhead_renumber (scope : Scope) (tokens : List Token) :
    commaAhead (scope.renumber f) (tokens.map (Token.renumber f)) = commaAhead scope tokens := by
  cases tokens <;> rfl

theorem renumbers_nextColor : Renumbers f id nextColor nextColor :=
  renumbers_bind (renumbers_expect _ _) fun _ => renumbers_color

theorem renumbers_pool : Renumbers f id pool pool :=
  renumbers_bind renumbers_next fun t => by
    obtain ⟨lexeme, line⟩ := t
    cases lexeme with
    | number | color | name => exact renumbers_fail _ _ line
    | keyword k =>
      cases k with
      | randomHue | randomRgb | greyscale => exact renumbers_pure _ _
      | list =>
        refine renumbers_bind (renumbers_accept _) fun _ => renumbers_bind renumbers_color fun _ =>
          renumbers_bind (renumbers_many renumbers_nextColor commaAhead_renumber) fun colors => ?_
        rw [List.map_id]
        exact renumbers_pure _ _
      | _ => exact renumbers_fail _ _ line

theorem renumbers_setting (key : Token) :
    Renumbers f id (setting key) (setting (key.renumber f)) := by
  obtain ⟨lexeme, line⟩ := key
  cases lexeme with
  | number | color | name => exact renumbers_fail _ _ line
  | keyword k =>
    cases k with
    | maxDepth => exact renumbers_return renumbers_depth fun _ => rfl
    | maxObjects => exact renumbers_return renumbers_natural fun _ => rfl
    | minSize | maxSize => exact renumbers_return renumbers_number fun _ => rfl
    | seed =>
      refine renumbers_bind (renumbers_accept _) fun initial => ?_
      cases initial with
      | true => exact renumbers_pure _ _
      | false => exact renumbers_return renumbers_integer fun _ => rfl
    | colorPool => exact renumbers_return renumbers_pool fun _ => rfl
    | _ => exact renumbers_fail _ _ line

theorem renumbers_directive : Renumbers f id directive directive :=
  renumbers_bind renumbers_next fun key => by
    have other : Renumbers f id (do return Directive.setting (← setting key))
        (do return Directive.setting (← setting (key.renumber f))) :=
      renumbers_return (renumbers_setting key) fun _ => rfl
    obtain ⟨lexeme, line⟩ := key
    cases lexeme with
    | number | color | name => exact other
    | keyword k =>
      cases k with
      | background => exact renumbers_return renumbers_color fun _ => rfl
      | cameraOffset | pivot => exact renumbers_return (renumbers_vector 3) fun _ => rfl
      | cameraRotation => exact renumbers_return (renumbers_vector 9) fun _ => rfl
      | scale => exact renumbers_return renumbers_number fun _ => rfl
      | _ => exact other

/-! ## Actions -/

theorem renumbers_stretch : Renumbers f id stretch stretch :=
  renumbers_bind renumbers_number fun _ =>
    renumbers_bind (renumbers_ahead numberAhead_renumber) fun more => by
      cases more with
      | true =>
        exact renumbers_bind renumbers_number fun _ =>
          renumbers_return renumbers_number fun _ => rfl
      | false => exact renumbers_pure _ _

theorem renumbers_recolor : Renumbers f id recolor recolor :=
  renumbers_bind (renumbers_accept _) fun random => by
    cases random with
    | true => exact renumbers_pure _ _
    | false => exact renumbers_return renumbers_color fun _ => rfl

theorem renumbers_operation : Renumbers f id operation operation :=
  renumbers_bind renumbers_next fun t => by
    obtain ⟨lexeme, line⟩ := t
    cases lexeme with
    | number | color | name => exact renumbers_fail _ _ line
    | keyword k =>
      cases k with
      | move | turn | hue | saturation | brightness | alpha =>
        exact renumbers_return renumbers_number fun _ => rfl
      | stretch => exact renumbers_stretch
      | linear =>
        exact renumbers_return (renumbers_numbers (renumbers_pure _ _) 9) fun _ => rfl
      | reflect => exact renumbers_pure _ _
      | color => exact renumbers_recolor
      | blend =>
        exact renumbers_bind renumbers_color fun _ => renumbers_return renumbers_number fun _ => rfl
      | _ => exact renumbers_fail _ _ line

theorem unclosedAhead_renumber (scope : Scope) (tokens : List Token) :
    unclosedAhead (scope.renumber f) (tokens.map (Token.renumber f)) =
      unclosedAhead scope tokens := by
  cases tokens <;> rfl

theorem renumbers_blockFrom (opened : Nat) :
    Renumbers f id (blockFrom opened) (blockFrom (f opened)) :=
  renumbers_bind (renumbers_many renumbers_operation unclosedAhead_renumber) fun operations =>
    renumbers_bind (renumbers_accept _) fun closed => by
      rw [List.map_id]
      cases closed with
      | true => exact renumbers_pure _ _
      | false => exact renumbers_fail _ _ opened

theorem renumbers_block : Renumbers f id block block :=
  renumbers_bind (renumbers_expect _ _) fun t => renumbers_blockFrom t.line

theorem renumbers_repetitions (count : Float) (line : Nat) :
    Renumbers f id (repetitions count line) (repetitions count (f line)) := by
  unfold repetitions
  cases repetitions? count with
  | some n => exact renumbers_pure _ n
  | none => exact renumbers_fail _ _ line

theorem loopAhead_renumber (scope : Scope) (tokens : List Token) :
    loopAhead (scope.renumber f) (tokens.map (Token.renumber f)) = loopAhead scope tokens := by
  match tokens with
  | [] => rfl
  | ⟨lexeme, _⟩ :: rest =>
    cases lexeme with
    | number | color => rfl
    | name => cases rest <;> rfl
    | keyword k => cases k <;> rfl

theorem renumbers_loop : Renumbers f id loop loop :=
  renumbers_bind renumbers_next fun t => renumbers_bind renumbers_scope fun scope => by
    rw [number?_renumber]
    cases t.number? scope with
    | some count =>
      exact renumbers_bind (renumbers_repetitions count t.line) fun _ =>
        renumbers_bind (renumbers_expect _ _) fun _ => renumbers_return renumbers_block fun _ => rfl
    | none => exact renumbers_return (renumbers_blockFrom t.line) fun _ => rfl

theorem renumbers_effect (inRule looped : Bool) :
    Renumbers f (Prod.map id f) (effect inRule looped) (effect inRule looped) :=
  renumbers_bind renumbers_next fun t => by
    obtain ⟨lexeme, line⟩ := t
    cases lexeme with
    | number | color => exact renumbers_fail _ _ line
    | name => exact renumbers_pure _ (_, line)
    | keyword k =>
      cases k with
      | primitive => exact renumbers_pure _ (_, line)
      | set =>
        cases inRule with
        | false => exact renumbers_fail _ _ line
        | true =>
          cases looped with
          | true => exact renumbers_fail _ _ line
          | false =>
            exact renumbers_bind renumbers_next fun key =>
              renumbers_bind (renumbers_setting key) fun value =>
                renumbers_pure _ (Effect.set value, line)
      | _ => exact renumbers_fail _ _ line

theorem renumbers_action (inRule : Bool) :
    Renumbers f (Action.renumber f) (action inRule) (action inRule) :=
  renumbers_bind (renumbers_many renumbers_loop loopAhead_renumber) fun loops => by
    rw [List.map_id]
    exact renumbers_bind (renumbers_effect inRule _) fun (effect, line) =>
      renumbers_pure _ (Action.mk loops effect line)

/-! ## Constructs -/

theorem renumbers_definition : Renumbers f id definition definition :=
  renumbers_bind (renumbers_expectName _) fun _ => renumbers_bind renumbers_next fun t => by
    obtain ⟨lexeme, line⟩ := t
    cases lexeme with
    | number | color => exact renumbers_pure _ _
    | name | keyword => exact renumbers_fail _ _ line

theorem modifierAhead_renumber (scope : Scope) (tokens : List Token) :
    modifierAhead (scope.renumber f) (tokens.map (Token.renumber f)) =
      modifierAhead scope tokens := by
  match tokens with
  | [] => rfl
  | ⟨lexeme, _⟩ :: _ =>
    cases lexeme with
    | number | color | name => rfl
    | keyword k => cases k <;> rfl

theorem renumbers_positive (line : Nat) : Renumbers f id (positive line) (positive (f line)) :=
  renumbers_bind renumbers_number fun value => by
    rw [id]
    split
    · exact renumbers_pure _ _
    · exact renumbers_fail _ _ line

theorem renumbers_nextRule : Renumbers f id nextRule nextRule :=
  renumbers_bind (renumbers_accept _) fun next => by
    cases next with
    | true => exact renumbers_return (renumbers_expectName _) fun _ => rfl
    | false => exact renumbers_pure _ _

theorem renumbers_modifier : Renumbers f id modifier modifier :=
  renumbers_bind renumbers_next fun t => by
    have limit : Renumbers f id (do return Modifier.depth ⟨← depth, ← nextRule⟩)
        (do return Modifier.depth ⟨← depth, ← nextRule⟩) :=
      renumbers_bind renumbers_depth fun _ => renumbers_return renumbers_nextRule fun _ => rfl
    obtain ⟨lexeme, line⟩ := t
    cases lexeme with
    | number | color | name => exact limit
    | keyword k =>
      cases k with
      | weight => exact renumbers_return (renumbers_positive line) fun _ => rfl
      | _ => exact limit

theorem renumbers_body (opened : Nat) :
    Renumbers f (List.map (Action.renumber f)) (body opened) (body (f opened)) :=
  renumbers_bind (renumbers_many (renumbers_action true) unclosedAhead_renumber) fun actions =>
    renumbers_bind (renumbers_accept _) fun closed => by
      cases closed with
      | false => exact renumbers_bind renumbers_scope fun scope => renumbers_fail _ _ scope.lastLine
      | true =>
        cases actions with
        | nil => exact renumbers_fail _ _ opened
        | cons action actions => exact renumbers_pure _ (action :: actions)

end Parser

def Construct.renumber (f : Nat → Nat) : Construct → Construct
  | .rule weight r => .rule weight (r.renumber f)
  | construct => construct

namespace Parser
variable {f : Nat → Nat}

theorem renumbers_rule : Renumbers f (Construct.renumber f) rule rule :=
  renumbers_bind (renumbers_expectName _) fun name =>
    renumbers_bind (renumbers_many renumbers_modifier modifierAhead_renumber) fun modifiers =>
      renumbers_bind (renumbers_expect _ _) fun t =>
        renumbers_bind (renumbers_body t.line) fun actions => by
          rw [List.map_id]
          exact renumbers_pure _ (Construct.rule (Modifier.weightOf modifiers)
            ⟨some name, Modifier.depthOf modifiers, actions⟩)

theorem actionAhead_renumber (scope : Scope) (tokens : List Token) :
    actionAhead (scope.renumber f) (tokens.map (Token.renumber f)) = actionAhead scope tokens := by
  match tokens with
  | [] => rfl
  | ⟨lexeme, _⟩ :: _ =>
    cases lexeme with
    | number | color | name => rfl
    | keyword k => cases k <;> rfl

theorem renumbers_initialRule : Renumbers f (Construct.renumber f) initialRule initialRule :=
  renumbers_bind (renumbers_action false) fun first =>
    renumbers_bind (renumbers_many (renumbers_action false) actionAhead_renumber) fun more =>
      renumbers_pure _ (Construct.rule 1 ⟨none, none, first :: more⟩)

theorem renumbers_construct : Renumbers f (Construct.renumber f) construct construct :=
  renumbers_bind (renumbers_ahead actionAhead_renumber) fun initial => by
    cases initial with
    | true => exact renumbers_initialRule
    | false =>
      refine renumbers_bind renumbers_next fun t => ?_
      have define (defined : String × Definition) : Renumbers f (Construct.renumber f)
          (pure (.define defined.1 defined.2)) (pure (.define defined.1 defined.2)) :=
        renumbers_pure _ _
      obtain ⟨lexeme, line⟩ := t
      cases lexeme with
      | number | color | name => exact renumbers_bind renumbers_definition define
      | keyword k =>
        cases k with
        | set => exact renumbers_return renumbers_directive fun _ => rfl
        | rule => exact renumbers_rule
        | _ => exact renumbers_bind renumbers_definition define

end Parser

/-! ## Programs -/

def Draft.renumber (f : Nat → Nat) (d : Draft) : Draft := ⟨d.program.renumber f, d.definitions⟩

theorem Draft.add_renumber (f : Nat → Nat) (d : Draft) (construct : Construct) :
    (d.renumber f).add (construct.renumber f) = (d.add construct).renumber f := by
  cases construct with
  | directive => rfl
  | define => rfl
  | rule weight rule =>
    have hname : (rule.renumber f).name = rule.name := rfl
    exact congrArg (Draft.mk · d.definitions) (d.program.addRule_mapRules weight hname)

theorem parseFrom_renumber (f : Nat → Nat) (lastLine : Nat) (d : Draft) (tokens : List Token) :
    parseFrom (f lastLine) (d.renumber f) (tokens.map (Token.renumber f)) =
      Prod.map (Program.renumber f) (Option.map (SyntaxError.renumber f))
        (parseFrom lastLine d tokens) := by
  fun_induction parseFrom lastLine d tokens with
  | case1 d =>
    rw [List.map_nil, parseFrom, if_pos rfl]
    rfl
  | case2 d tokens hne e h =>
    have hread := Parser.renumbers_construct (f := f) ⟨d.definitions, lastLine⟩ tokens
    rw [h] at hread
    exact parseFrom_of_error (mt List.map_eq_nil_iff.1 hne) hread
  | case3 d tokens _ construct more h _ ih =>
    have hread := Parser.renumbers_construct (f := f) ⟨d.definitions, lastLine⟩ tokens
    rw [h] at hread
    have hmore : parseFrom (f lastLine) (d.renumber f) (tokens.map (Token.renumber f)) =
        parseFrom (f lastLine) ((d.renumber f).add (construct.renumber f))
          (more.map (Token.renumber f)) := parseFrom_of_construct hread
    rw [hmore, Draft.add_renumber, ih]

theorem lastLine_renumber (f : Nat → Nat) {tokens : List Token} (h : tokens ≠ []) :
    lastLine (tokens.map (Token.renumber f)) = f (lastLine tokens) := by
  rw [lastLine, lastLine, List.getLast?_map, List.getLast?_eq_some_getLast h]
  rfl

/-- Tokens on other lines make the same program, but for the lines its actions stand on, and fail in
the same way, but for the line of the error. -/
theorem parseTokens_renumber (f : Nat → Nat) (tokens : List Token) :
    parseTokens (tokens.map (Token.renumber f)) =
      Prod.map (Program.renumber f) (Option.map (SyntaxError.renumber f)) (parseTokens tokens) := by
  by_cases h : tokens = []
  · rw [h, List.map_nil, parseTokens, parseFrom, if_pos rfl]
    rfl
  · rw [parseTokens, lastLine_renumber f h]
    exact parseFrom_renumber f (lastLine tokens) .blank tokens

end SceneGrammar

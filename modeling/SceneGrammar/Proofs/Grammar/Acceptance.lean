import SceneGrammar.Proofs.Grammar.Actions

/-!
# The parser accepts the grammar

From rules up to whole programs. A list of tokens is parsed without an error just if it is a program
of the grammar, and the program built is the one that the grammar derives.
-/

namespace SceneGrammar.Parser

variable {scope : Scope} {tokens rest : List Token}

/-! ## Rules -/

theorem repeats_modifier : Repeats modifierAhead modifier ModifierPhrase (notAhead .greater) where
  sound := by
    intro scope tokens value rest hb h
    obtain ⟨⟨lexeme, line⟩, more, rfl, hmore⟩ := bind_next_eq_ok h
    cases lexeme with
    | number | color | name => cases hb
    | keyword k =>
      cases k with
      | weight =>
        obtain ⟨x, last, hx, hlast⟩ := bind_eq_ok hmore
        cases hlast
        obtain ⟨x, ts, after, rfl, hts, hafter⟩ := Reads.bind_eq_ok reads_number hx
        split at hafter
        · rename_i hpos
          cases hafter
          exact ⟨_, rfl, .weight line hts hpos⟩
        · cases hafter
      | maxDepth =>
        obtain ⟨n, ts, after, rfl, hn, hafter⟩ := Reads.bind_eq_ok reads_depth hmore
        obtain ⟨next, last, hnext, hlast⟩ := bind_eq_ok hafter
        cases hlast
        obtain ⟨line', last, rfl, hname⟩ | hnone := bind_accept_eq_ok hnext
        · obtain ⟨name, line'', more, rfl, hend⟩ := bind_expectName_eq_ok hname
          cases hend
          exact ⟨_, by simp [Keyword.token], .depthThen name line line' line'' hn⟩
        · cases hnone
          exact ⟨_, rfl, .depth line hn⟩
      | _ => cases hb
  complete := by
    intro scope front value rest h hr
    cases h with
    | @weight ts x line h hx =>
      have hpositive : positive line scope (ts ++ rest) = .ok (x, rest) := by
        rw [positive, Reads.bind_ok reads_number h trivial]
        simp only [hx, if_true]
        rfl
      exact (Parser.bind_ok hpositive).trans rfl
    | depth line h =>
      have hnext : nextRule scope rest = .ok (none, rest) := by
        rw [nextRule, bind_accept_absent _ hr]
        rfl
      exact (Reads.bind_ok reads_depth h trivial).trans (Parser.bind_ok hnext)
    | depthThen next line line' line'' h =>
      have hnext : nextRule scope (Keyword.greater.token line' :: ⟨.name next, line''⟩ :: rest) =
          .ok (some next, rest) := by
        rw [nextRule, bind_accept_present]
        rfl
      rw [List.cons_append, List.append_assoc]
      exact (Reads.bind_ok reads_depth h trivial).trans (Parser.bind_ok hnext)
  begins := by
    intro scope front value rest h
    cases h <;> rfl
  next := by
    intro b front value rest h t ht he
    cases h <;> cases ht <;> cases he

def braceAhead : Follow := fun _ rest => ∃ line more, rest = Keyword.openBrace.token line :: more

theorem reads_modifiers : Reads (many modifierAhead modifier advances_modifier)
    (fun b => RepeatedPhrase (ModifierPhrase b)) braceAhead :=
  Repeats.reads_many repeats_modifier fun ⟨line, more, he⟩ => by
    subst he
    exact ⟨rfl, fun t ht => by cases ht; exact nofun⟩

theorem reads_ruleActions : Reads (many unclosedAhead (action true) (advances_action true))
    (fun b => RepeatedPhrase (ActionPhrase b true)) closesAhead :=
  Repeats.reads_many repeats_ruleAction fun ⟨line, more, he⟩ => by
    subst he
    exact ⟨rfl, fun t ht => by cases ht; exact nofun, fun t ht => by cases ht; exact nofun⟩

theorem reads_initialActions : Reads (many actionAhead (action false) (advances_action false))
    (fun b => RepeatedPhrase (ActionPhrase b false)) (fun _ => EndsActions) :=
  Repeats.reads_many repeats_initialAction fun {_ rest} h => by
    refine ⟨actionAhead_eq_false_iff.2 h, fun t ht he => ?_, fun t ht he => ?_⟩
    · obtain hk | hk | hk := h t ht <;> cases hk.symm.trans he
    · obtain hk | hk | hk := h t ht <;> cases hk.symm.trans he

theorem sound_rule {construct : Construct} (line : Nat)
    (h : rule scope tokens = .ok (construct, rest)) : ∃ front, tokens = front ++ rest ∧
      ConstructPhrase scope.definitions (Keyword.rule.token line :: front) construct := by
  obtain ⟨name, line', more, rfl, hmore⟩ := bind_expectName_eq_ok h
  obtain ⟨modifiers, ts, after, rfl, hts, hafter⟩ := Reads.bind_eq_ok reads_modifiers hmore
  obtain ⟨open', inner, rfl, hinner⟩ := bind_expect_eq_ok hafter
  obtain ⟨actions, last, hbody, hlast⟩ := bind_eq_ok hinner
  cases hlast
  obtain ⟨actions, us, close, rfl, hus, hclose⟩ := Reads.bind_eq_ok reads_ruleActions hbody
  obtain ⟨close', last, rfl, hend⟩ | hend := bind_accept_eq_ok hclose
  · cases actions with
    | nil => cases hend
    | cons action actions =>
      cases hend
      exact ⟨_, by simp, .rule name line line' hts (.braces open' close' hus (by simp))⟩
  · cases hend

theorem complete_body {opened : Nat} {us : List Token} {actions : List (Action Matrix)}
    (h : RepeatedPhrase (ActionPhrase scope.definitions true) us actions) (hne : actions ≠ [])
    (line : Nat) :
    body opened scope (us ++ (Keyword.closeBrace.token line :: rest)) = .ok (actions, rest) := by
  rw [body, Reads.bind_ok reads_ruleActions h ⟨line, rest, rfl⟩, bind_accept_present]
  cases actions with
  | nil => exact absurd rfl hne
  | cons action actions => rfl

/-! ## Constructs and programs -/

theorem sound_definition {value : String × Definition} (line : Nat)
    (h : definition scope tokens = .ok (value, rest)) : ∃ front, tokens = front ++ rest ∧
      DefinitionPhrase (Keyword.define.token line :: front) value := by
  obtain ⟨name, line', more, rfl, hmore⟩ := bind_expectName_eq_ok h
  obtain ⟨⟨lexeme, line''⟩, last, rfl, hlast⟩ := bind_next_eq_ok hmore
  cases lexeme with
  | number x =>
    cases hlast
    exact ⟨[_, _], rfl, .number name x line line' line''⟩
  | color c =>
    cases hlast
    exact ⟨[_, _], rfl, .color name c line line' line''⟩
  | name | keyword => cases hlast

/-- The actions outside of rules are read as those in rules are. -/
theorem initialRule_eq (hb : actionAhead scope tokens = true) :
    initialRule scope tokens =
      (do return .rule 1 ⟨none, none, ← many actionAhead (action false) (advances_action false)⟩ :
        Parser Construct) scope tokens := by
  rw [initialRule, bind_apply, bind_apply (many actionAhead _ _), many_of_begins hb, bind_apply]
  cases action false scope tokens with
  | error e => rfl
  | ok result =>
    obtain ⟨first, middle⟩ := result
    dsimp only
    rw [bind_apply, bind_apply]
    cases many actionAhead (action false) (advances_action false) scope middle <;> rfl

theorem sound_construct {value : Construct} (h : construct scope tokens = .ok (value, rest)) :
    ∃ front, tokens = front ++ rest ∧ (ConstructPhrase scope.definitions front value ∨
      (InitialPhrase scope.definitions front value ∧ EndsActions rest)) := by
  rw [construct, bind_ahead] at h
  cases hb : actionAhead scope tokens with
  | true =>
    rw [hb, if_pos rfl, initialRule_eq hb] at h
    obtain ⟨actions, last, hactions, hlast⟩ := bind_eq_ok h
    cases hlast
    obtain ⟨hend, ts, rfl, hts⟩ := sound_many repeats_initialAction hactions
    have hend := actionAhead_eq_false_iff.1 hend
    refine ⟨ts, rfl, .inr ⟨.actions hts ?_, hend⟩⟩
    -- an action begins here, so the run of them is not empty
    rintro rfl
    cases hts
    rw [List.nil_append, actionAhead_eq_false_iff.2 hend] at hb
    cases hb
  | false =>
    rw [hb, if_neg Bool.false_ne_true] at h
    obtain ⟨t, more, rfl, hmore⟩ := bind_next_eq_ok h
    obtain hk | hk | hk := actionAhead_eq_false_iff.1 hb t rfl
    · rw [eq_token hk] at hmore ⊢
      obtain ⟨value, ts, last, rfl, hts, hlast⟩ := Reads.bind_eq_ok reads_directive hmore
      cases hlast
      exact ⟨_, rfl, .inl (.directive t.line hts)⟩
    · rw [eq_token hk] at hmore ⊢
      obtain ⟨front, rfl, hfront⟩ := sound_rule t.line hmore
      exact ⟨_, rfl, .inl hfront⟩
    · rw [eq_token hk] at hmore ⊢
      obtain ⟨⟨name, value⟩, last, hdefinition, hlast⟩ := bind_eq_ok hmore
      cases hlast
      obtain ⟨front, rfl, hfront⟩ := sound_definition t.line hdefinition
      exact ⟨_, rfl, .inl (.define hfront)⟩

theorem construct_rule (line : Nat) (tokens : List Token) :
    construct scope (Keyword.rule.token line :: tokens) = rule scope tokens := rfl

theorem complete_construct {front : List Token} {value : Construct}
    (h : ConstructPhrase scope.definitions front value)
    (hr : ∀ colors, value = .directive (.setting (.pool (.list colors))) →
      notAhead .comma scope.definitions rest) :
    construct scope (front ++ rest) = .ok (value, rest) := by
  cases h with
  | directive line h =>
    have hread := complete_directive h fun colors he => hr colors (congrArg Construct.directive he)
    exact Parser.bind_ok hread
  | define h => cases h <;> rfl
  | rule name line line' hm h =>
    obtain ⟨open', close, h, hne⟩ := h
    simp only [List.cons_append, List.append_assoc, List.nil_append]
    rw [construct_rule, rule, bind_expectName,
      Reads.bind_ok reads_modifiers hm ⟨open', _, rfl⟩, bind_expect,
      Parser.bind_ok (complete_body h hne close)]
    rfl

theorem complete_initial {front : List Token} {value : Construct}
    (h : InitialPhrase scope.definitions front value) (hr : EndsActions rest) :
    construct scope (front ++ rest) = .ok (value, rest) := by
  obtain ⟨h, hne⟩ := h
  have hb : actionAhead scope (front ++ rest) = true := by
    cases h with
    | none => exact absurd rfl hne
    | more ha _ =>
      rw [List.append_assoc]
      exact Repeats.begins repeats_initialAction _ ha
  rw [construct, bind_ahead, hb, if_pos rfl, initialRule_eq hb]
  exact Reads.bind_ok reads_initialActions h hr

end SceneGrammar.Parser

namespace SceneGrammar

theorem parseFrom_of_construct {lastLine : Nat} {draft : Draft} {tokens rest : List Token}
    {value : Construct} (h : Parser.construct ⟨draft.definitions, lastLine⟩ tokens = .ok (value, rest)) :
    parseFrom lastLine draft tokens = parseFrom lastLine (draft.add value) rest := by
  have hne : tokens ≠ [] := by
    rintro rfl
    exact absurd (Parser.advances_construct h).2 (Nat.not_lt_zero _)
  rw [parseFrom, if_neg hne]
  split
  · rename_i he
    cases he.symm.trans h
  · rename_i he
    cases he.symm.trans h
    rfl

theorem parseFrom_of_error {lastLine : Nat} {d : Draft} {tokens : List Token} {e : SyntaxError}
    (hne : tokens ≠ []) (h : Parser.construct ⟨d.definitions, lastLine⟩ tokens = .error e) :
    parseFrom lastLine d tokens = (d.program, some e) := by
  rw [parseFrom, if_neg hne]
  split
  · rename_i he
    cases he.symm.trans h
    rfl
  · rename_i he
    cases he.symm.trans h

theorem notAhead_comma_of_programPhrase {draft : Draft} {tokens : List Token}
    {program : Program Matrix} (h : ProgramPhrase draft tokens program) (b : Bindings) :
    Parser.notAhead .comma b tokens := by
  cases h with
  | done => exact nofun
  | construct h _ =>
    intro t ht
    cases h with
    | directive | rule =>
      cases ht
      exact nofun
    | define h =>
      cases h <;> cases ht <;> exact nofun
  | initial h _ _ =>
    obtain ⟨h, hne⟩ := h
    cases h with
    | none => exact absurd rfl hne
    | more ha _ =>
      rw [List.append_assoc]
      exact (Parser.endsAction_of_actionPhrase _ ha).1

theorem parseFrom_of_programPhrase {draft : Draft} {tokens : List Token} {program : Program Matrix}
    (h : ProgramPhrase draft tokens program) (lastLine : Nat) :
    parseFrom lastLine draft tokens = (program, none) := by
  induction h with
  | done => rw [parseFrom, if_pos rfl]
  | construct h hs ih =>
    rw [parseFrom_of_construct (Parser.complete_construct h fun _ _ =>
      notAhead_comma_of_programPhrase hs _), ih]
  | initial h he _ ih => rw [parseFrom_of_construct (Parser.complete_initial h he), ih]

theorem programPhrase_of_parseFrom {lastLine : Nat} {draft : Draft} {tokens : List Token}
    {program : Program Matrix} (h : parseFrom lastLine draft tokens = (program, none)) :
    ProgramPhrase draft tokens program := by
  fun_induction parseFrom lastLine draft tokens with
  | case1 =>
    cases h
    exact .done _
  | case2 => cases h
  | case3 draft tokens _ value rest hread _ ih =>
    obtain ⟨front, rfl, hconstruct | ⟨hinitial, hend⟩⟩ := Parser.sound_construct hread
    · exact .construct hconstruct (ih h)
    · exact .initial hinitial hend (ih h)

/-- Tokens mean one program at most. -/
theorem programPhrase_unique {draft : Draft} {tokens : List Token} {program other : Program Matrix}
    (h : ProgramPhrase draft tokens program) (h' : ProgramPhrase draft tokens other) :
    program = other := by
  have hparse := parseFrom_of_programPhrase h 1
  rw [parseFrom_of_programPhrase h' 1] at hparse
  exact (Prod.mk.inj hparse).1.symm

/-- The parser accepts its grammar, and builds the program that the grammar derives. -/
theorem parseTokens_eq_iff (tokens : List Token) (program : Program Matrix) :
    parseTokens tokens = (program, none) ↔ ProgramPhrase .blank tokens program :=
  ⟨programPhrase_of_parseFrom, fun h => parseFrom_of_programPhrase h (lastLine tokens)⟩

end SceneGrammar

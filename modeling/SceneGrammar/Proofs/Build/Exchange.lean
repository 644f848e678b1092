import SceneGrammar.Proofs.Build.Reports
import SceneGrammar.Proofs.Grammar.Exchange

/-!
# The order of independent constructs says nothing

Texts that differ in the order of two independent constructs only are accepted alike, with the same
references to report, and build the same scene.
-/

namespace SceneGrammar

/-- The reports on references. -/
def semantic (faults : List Diagnostic) : List Diagnostic :=
  faults.filter fun d => decide (d.phase = .semantic)

namespace ParsedSource

theorem faults_eq_nil_iff {s : ParsedSource} :
    s.faults = [] ↔ s.lexical = [] ∧ s.failure = none ∧ s.program.validate = [] := by
  rw [faults, List.append_eq_nil_iff]
  cases s.failure with
  | some e => simp
  | none => simp

theorem semantic_faults {s : ParsedSource} (hl : ∀ d ∈ s.lexical, d.phase = .lexical) :
    semantic s.faults = if s.failure.isSome then [] else s.program.validate := by
  have hlexical : semantic s.lexical = [] := by
    refine List.filter_eq_nil_iff.2 fun d hd => ?_
    rw [hl d hd]
    decide
  rw [semantic, faults, List.filter_append]
  change semantic s.lexical ++ _ = _
  rw [hlexical, List.nil_append]
  cases s.failure with
  | some e => rfl
  | none =>
    refine List.filter_eq_self.2 fun d hd => ?_
    obtain ⟨name, -, rfl⟩ := List.mem_map.1 hd
    rfl

/-- What was made of two texts differs in the order of the groups and in lines only. -/
structure Regroups (s t : ParsedSource) : Prop where
  lexical : s.lexical = [] ↔ t.lexical = []
  failure : s.failure.map (SyntaxError.renumber unlined) =
    t.failure.map (SyntaxError.renumber unlined)
  program : (s.program.renumber unlined).Regroups (t.program.renumber unlined)

namespace Regroups

variable {s t : ParsedSource}

theorem perm_validate (h : s.Regroups t) : s.program.validate.Perm t.program.validate := by
  rw [← s.program.validate_renumber unlined, ← t.program.validate_renumber unlined]
  exact h.program.perm_validate

theorem isSome_failure (h : s.Regroups t) : s.failure.isSome = t.failure.isSome := by
  have hsome := congrArg Option.isSome h.failure
  rwa [Option.isSome_map, Option.isSome_map] at hsome

theorem faults_eq_nil_iff (h : s.Regroups t) : s.faults = [] ↔ t.faults = [] := by
  have hvalidate : s.program.validate = [] ↔ t.program.validate = [] :=
    ⟨fun hs => List.perm_nil.1 (hs ▸ h.perm_validate.symm),
      fun ht => List.perm_nil.1 (ht ▸ h.perm_validate)⟩
  have hfailure : s.failure = none ↔ t.failure = none := by
    rw [← Option.isNone_iff_eq_none, ← Option.isNone_iff_eq_none, ← Option.not_isSome,
      ← Option.not_isSome, h.isSome_failure]
  rw [ParsedSource.faults_eq_nil_iff, ParsedSource.faults_eq_nil_iff, h.lexical, hfailure, hvalidate]

theorem perm_semantic (h : s.Regroups t) (hs : ∀ d ∈ s.lexical, d.phase = .lexical)
    (ht : ∀ d ∈ t.lexical, d.phase = .lexical) :
    (semantic s.faults).Perm (semantic t.faults) := by
  rw [semantic_faults hs, semantic_faults ht, h.isSome_failure]
  split
  · exact .refl _
  · exact h.perm_validate

theorem compile_cases (h : s.Regroups t) :
    (∃ p q, s.compile = .ok p ∧ t.compile = .ok q ∧
        (p.renumber unlined).Regroups (q.renumber unlined)) ∨
      (s.compile = .error s.faults ∧ t.compile = .error t.faults) := by
  by_cases hs : s.faults = []
  · have ht := h.faults_eq_nil_iff.1 hs
    refine .inl ⟨s.program.normalize, t.program.normalize, ?_, ?_, ?_⟩
    · rw [compile, hs]
      rfl
    · rw [compile, ht]
      rfl
    · rw [← Program.normalize_renumber, ← Program.normalize_renumber]
      exact h.program.normalize
  · have ht := mt h.faults_eq_nil_iff.2 hs
    exact .inr ⟨compile_eq_error_iff.2 ⟨rfl, hs⟩, compile_eq_error_iff.2 ⟨rfl, ht⟩⟩

end Regroups

end ParsedSource

theorem phase_of_mem_lexical {source : String} {d : Diagnostic}
    (h : d ∈ (parseSource source).lexical) : d.phase = .lexical := by
  have hlexical : (parseSource source).lexical = _ := diagnostics_eq_faultsFrom 1 _
  rw [hlexical] at h
  obtain ⟨report, -, rfl⟩ := List.mem_map.1 h
  rfl

/-- Tokens that make the same program but for the order of the groups do so in any text. -/
theorem parseSource_regroups {tokens tokens' : List Token} {a b : String}
    (hprogram : (parseTokens tokens).1.Regroups (parseTokens tokens').1)
    (hfailure : (parseTokens tokens).2 = (parseTokens tokens').2)
    (ha : (scan a).tokens.map Token.lexeme = tokens.map Token.lexeme)
    (hb : (scan b).tokens.map Token.lexeme = tokens'.map Token.lexeme)
    (hl : (scan a).diagnostics = [] ↔ (scan b).diagnostics = []) :
    (parseSource a).Regroups (parseSource b) := by
  have hread {source : String} {tokens : List Token}
      (h : (scan source).tokens.map Token.lexeme = tokens.map Token.lexeme) :
      (parseSource source).program.renumber unlined = (parseTokens tokens).1.renumber unlined ∧
        (parseSource source).failure.map (SyntaxError.renumber unlined) =
          (parseTokens tokens).2.map (SyntaxError.renumber unlined) := by
    have hparse := congrArg parseTokens (renumber_unlined_eq h)
    rw [parseTokens_renumber, parseTokens_renumber] at hparse
    exact Prod.mk.inj hparse
  obtain ⟨hprogram₁, hfailure₁⟩ := hread ha
  obtain ⟨hprogram₂, hfailure₂⟩ := hread hb
  refine ⟨hl, ?_, ?_⟩
  · rw [hfailure₁, hfailure₂, hfailure]
  · rw [hprogram₁, hprogram₂]
    exact hprogram.renumber unlined

/-- Two independent constructs side by side may be exchanged, in the tokens and in all texts with
their lexemes, unless a list of colours would be followed by a comma then. -/
theorem build_eq_of_exchange {before first second after : List Token} {x y : Construct} {d : Draft}
    (h : Adjacent before first second after x y d) (hi : x.Independent y)
    (hc : ∀ colors, x = .directive (.setting (.pool (.list colors))) →
      ∀ t ∈ after.head?, t.lexeme ≠ .keyword .comma) :
    (parseTokens (before ++ (first ++ (second ++ after)))).1.Regroups
      (parseTokens (before ++ (second ++ (first ++ after)))).1 ∧
    (parseTokens (before ++ (first ++ (second ++ after)))).2 =
      (parseTokens (before ++ (second ++ (first ++ after)))).2 ∧
    ∀ {a b : String},
      (scan a).tokens.map Token.lexeme =
        (before ++ (first ++ (second ++ after))).map Token.lexeme →
      (scan b).tokens.map Token.lexeme =
        (before ++ (second ++ (first ++ after))).map Token.lexeme →
      ((scan a).diagnostics = [] ↔ (scan b).diagnostics = []) →
      (semantic (parseSource a).faults).Perm (semantic (parseSource b).faults) ∧
      ((∃ p q, compile a = .ok p ∧ compile b = .ok q ∧
          (p.renumber unlined).Regroups (q.renumber unlined) ∧
          ∀ options, delivered a options = delivered b options ∧
            ∀ {σ ε : Type} (scene : Scene Matrix σ ε),
              build a options scene = build b options scene) ∨
        (compile a = .error (parseSource a).faults ∧ compile b = .error (parseSource b).faults ∧
          ∀ options {σ ε : Type} (scene : Scene Matrix σ ε) (s : σ),
            (build a options scene).run s = .error (.rejected (parseSource a).faults) s ∧
              (build b options scene).run s = .error (.rejected (parseSource b).faults) s)) := by
  obtain ⟨hprogram, hfailure⟩ := h.parseTokens_regroups hi hc
  refine ⟨hprogram, hfailure, fun {a b} ha hb hl => ?_⟩
  have hregroups := parseSource_regroups hprogram hfailure ha hb hl
  refine ⟨hregroups.perm_semantic (fun _ => phase_of_mem_lexical) fun _ => phase_of_mem_lexical, ?_⟩
  rcases hregroups.compile_cases with ⟨p, q, hp, hq, hpq⟩ | ⟨hfaults, hfaults'⟩
  · refine .inl ⟨p, q, hp, hq, hpq, fun options => ?_⟩
    have hdelivered := delivered_eq_of_regroups hp hq hpq options
    exact ⟨hdelivered, fun scene => by rw [build_eq_give, hdelivered, ← build_eq_give]⟩
  · exact .inr ⟨hfaults, hfaults', fun options _ _ scene s =>
      ⟨run_build_of_error hfaults options scene s, run_build_of_error hfaults' options scene s⟩⟩

/-- Sets the pool to a list of one colour. -/
def poolTokens : List Token :=
  [Keyword.set.token 1, Keyword.colorPool.token 1, Keyword.list.token 1, ⟨.color .white, 1⟩]

def boxTokens : List Token := [Keyword.rule.token 2, ⟨.name "r", 2⟩, Keyword.openBrace.token 2,
  (Keyword.primitive .box).token 2, Keyword.closeBrace.token 2]

def boxRule : Rule Matrix := ⟨some "r", none, [⟨[], .draw .box, 2⟩]⟩

theorem constructPhrase_pool (b : Bindings) :
    ConstructPhrase b poolTokens (.directive (.setting (.pool (.list [.white])))) :=
  .directive 1 (.setting (.pool 1 (.list 1 .absent (.literal .white 1) .none)))

theorem constructPhrase_box (b : Bindings) : ConstructPhrase b boxTokens (.rule 1 boxRule) :=
  .rule "r" 2 2 .none (.braces 2 2 (.more (.draw .box 2 .none) .none) (List.cons_ne_nil _ _))

theorem adjacent_pool_box (after : List Token) :
    Adjacent [] poolTokens boxTokens after (.directive (.setting (.pool (.list [.white]))))
      (.rule 1 boxRule) .blank where
  reads := .stop _ _
  reads_first := Parser.complete_construct (constructPhrase_pool _) fun _ _ =>
    ((constructPhrase_box []).endsActions after).notAhead_comma []
  reads_second := Parser.complete_construct (constructPhrase_box _) nofun

def called : List Token := [⟨.name "r", 3⟩]

def poolFirst : String := "set colorpool list white rule r \x7bbox\x7d r"

def boxFirst : String := "rule r \x7bbox\x7d set colorpool list white r"

theorem build_eq_of_exchange_pool_box :
    Adjacent [] poolTokens boxTokens called (.directive (.setting (.pool (.list [.white]))))
      (.rule 1 boxRule) .blank ∧
    (Construct.directive (.setting (.pool (.list [.white])))).Independent (.rule 1 boxRule) ∧
    (∀ t ∈ called.head?, t.lexeme ≠ .keyword .comma) ∧
    (scan poolFirst).tokens.map Token.lexeme =
      ([] ++ (poolTokens ++ (boxTokens ++ called))).map Token.lexeme ∧
    (scan boxFirst).tokens.map Token.lexeme =
      ([] ++ (boxTokens ++ (poolTokens ++ called))).map Token.lexeme ∧
    ((scan poolFirst).diagnostics = [] ↔ (scan boxFirst).diagnostics = []) ∧
    ∃ p q, compile poolFirst = .ok p ∧ compile boxFirst = .ok q ∧
      (p.renumber unlined).Regroups (q.renumber unlined) ∧
      ∀ options, delivered poolFirst options = delivered boxFirst options ∧
        ∀ {σ ε : Type} (scene : Scene Matrix σ ε),
          build poolFirst options scene = build boxFirst options scene := by
  have hadjacent := adjacent_pool_box called
  have hindependent : (Construct.directive (.setting (.pool (.list [.white])))).Independent
      (.rule 1 boxRule) := .directiveRule nofun
  have hcomma : ∀ t ∈ called.head?, t.lexeme ≠ .keyword .comma := by decide
  -- decided at once, so that the first text is scanned once
  have hdecided : ((scan poolFirst).tokens.map Token.lexeme =
        ([] ++ (poolTokens ++ (boxTokens ++ called))).map Token.lexeme ∧
      (scan boxFirst).tokens.map Token.lexeme =
        ([] ++ (boxTokens ++ (poolTokens ++ called))).map Token.lexeme ∧
      ((scan poolFirst).diagnostics = [] ↔ (scan boxFirst).diagnostics = [])) ∧
      (compile poolFirst).toOption.isSome = true := by
    decide +kernel
  obtain ⟨⟨ha, hb, hl⟩, hcompiles⟩ := hdecided
  obtain ⟨-, -, htexts⟩ := build_eq_of_exchange hadjacent hindependent fun _ _ => hcomma
  refine ⟨hadjacent, hindependent, hcomma, ha, hb, hl, ?_⟩
  obtain ⟨-, hbuild | ⟨hfaults, -⟩⟩ := htexts ha hb hl
  · exact hbuild
  · rw [hfaults] at hcompiles
    cases hcompiles

/-- A comma and a colour behind a rule are an error, but behind a list they go on with it. -/
theorem exchange_lets_list_go_on :
    ∃ (before first second after : List Token) (x y : Construct) (d : Draft),
      Adjacent before first second after x y d ∧ x.Independent y ∧
      (parseTokens (before ++ (first ++ (second ++ after)))).1.settings.pool = .list [.white] ∧
      (parseTokens (before ++ (first ++ (second ++ after)))).2 =
        some ⟨.strayInRule "Comma", 3⟩ ∧
      (parseTokens (before ++ (second ++ (first ++ after)))).1.settings.pool =
        .list [.white, .white] ∧
      (parseTokens (before ++ (second ++ (first ++ after)))).2 = none := by
  refine ⟨[], poolTokens, boxTokens, [Keyword.comma.token 3, ⟨.color .white, 3⟩], _, _, _,
    adjacent_pool_box _, .directiveRule nofun, ?_⟩
  decide +kernel

end SceneGrammar

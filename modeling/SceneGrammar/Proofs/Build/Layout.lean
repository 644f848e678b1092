import SceneGrammar.Proofs.Expansion.Renumber
import SceneGrammar.Proofs.Grammar.Renumber
import SceneGrammar.Proofs.Program.Regroup

/-!
# Layout says nothing

Two texts with the same lexemes in the same order mean the same, however they are laid out. Their
tokens become equal once they all stand on one line, and from there on nothing asks for the line
except to store or to report it.
-/

namespace SceneGrammar

/-- Puts everything on one line, so that what differs in its lines only becomes equal. -/
def unlined : Nat → Nat := fun _ => 0

theorem renumber_unlined_eq {tokens more : List Token}
    (h : tokens.map Token.lexeme = more.map Token.lexeme) :
    tokens.map (Token.renumber unlined) = more.map (Token.renumber unlined) := by
  have hcomp : Token.renumber unlined = (fun lexeme => ⟨lexeme, 0⟩) ∘ Token.lexeme := rfl
  rw [hcomp, ← List.map_map, h, List.map_map]

namespace ParsedSource

def renumber (f : Nat → Nat) (s : ParsedSource) : ParsedSource where
  program := s.program.renumber f
  charClasses := s.charClasses
  lexical := s.lexical.map (Diagnostic.renumber f)
  failure := s.failure.map (SyntaxError.renumber f)

theorem diagnostics_renumber (f : Nat → Nat) (s : ParsedSource) :
    (s.renumber f).diagnostics = s.diagnostics.map (Diagnostic.renumber f) := by
  rw [diagnostics, diagnostics, List.map_append]
  cases h : s.failure <;> simp only [renumber, h] <;> rfl

theorem validate_map_renumber (f : Nat → Nat) {M : Type} (p : Program M) :
    p.validate.map (Diagnostic.renumber f) = p.validate := by
  rw [Program.validate, List.map_map]
  rfl

theorem faults_renumber (f : Nat → Nat) (s : ParsedSource) :
    (s.renumber f).faults = s.faults.map (Diagnostic.renumber f) := by
  rw [faults, faults, List.map_append]
  cases h : s.failure with
  | some e =>
    simp only [renumber, h]
    rfl
  | none => simp only [renumber, h, Option.map_none, Program.validate_renumber,
      validate_map_renumber]

theorem compile_renumber (f : Nat → Nat) (s : ParsedSource) :
    (s.renumber f).compile =
      (s.compile.map (Program.renumber f)).mapError (List.map (Diagnostic.renumber f)) := by
  rw [compile, compile, faults_renumber, List.isEmpty_map]
  split
  · exact congrArg Except.ok (s.program.normalize_renumber f)
  · rfl

end ParsedSource

/-- What is read of the one text and of the other is the same but for lines. -/
theorem parseSource_renumber_eq {a b : String} (ha : (scan a).diagnostics = [])
    (hb : (scan b).diagnostics = [])
    (h : (scan a).tokens.map Token.lexeme = (scan b).tokens.map Token.lexeme) :
    (parseSource a).renumber unlined =
      { (parseSource b).renumber unlined with charClasses := (scan a).charClasses } := by
  have htokens := congrArg parseTokens (renumber_unlined_eq h)
  rw [parseTokens_renumber, parseTokens_renumber, Prod.mk.injEq] at htokens
  simp only [parseSource, ParsedSource.renumber, ha, hb, ParsedSource.mk.injEq, true_and]
  exact htokens

theorem delivered_eq_of_regroups {a b : String} {p q : Program Matrix} {f : Nat → Nat}
    (hp : compile a = .ok p) (hq : compile b = .ok q) (h : (p.renumber f).Regroups (q.renumber f))
    (options : Options) : delivered a options = delivered b options := by
  have happly : ((options.apply p).renumber f).Regroups ((options.apply q).renumber f) :=
    h.apply options
  have hdelivery : (delivered a options).events = (delivered b options).events ∧
      (delivered a options).result.mapError (BuildError.renumber f) =
        (delivered b options).result.mapError (BuildError.renumber f) := by
    rw [← Delivery.mk.injEq, delivered_of_compile hp, delivered_of_compile hq,
      ← Program.delivery_renumber, ← Program.delivery_renumber, happly.delivery_eq]
    exact congrArg _ happly.streams_eq
  obtain ⟨drawings, after, hexpands⟩ := exists_expands_of_compile hp options
  obtain ⟨drawings', after', hexpands'⟩ := exists_expands_of_compile hq options
  rw [(delivered_of_expands hp hexpands).1, (delivered_of_expands hq hexpands').1] at hdelivery ⊢
  rw [Delivery.mk.injEq]
  exact ⟨hdelivery.1, congrArg Except.ok (Except.ok.inj hdelivery.2)⟩

theorem delivered_eq_of_renumber {a b : String} {p q : Program Matrix} {f : Nat → Nat}
    (hp : compile a = .ok p) (hq : compile b = .ok q) (h : p.renumber f = q.renumber f)
    (options : Options) : delivered a options = delivered b options := by
  have hregroups : (p.renumber f).Regroups (q.renumber f) := h ▸ .refl _
  exact delivered_eq_of_regroups hp hq hregroups options

theorem compile_cases_of_renumber {a b : String} {f : Nat → Nat}
    (h : ((parseSource a).renumber f).compile = ((parseSource b).renumber f).compile) :
    (∃ p q, compile a = .ok p ∧ compile b = .ok q ∧ p.renumber f = q.renumber f) ∨
      ∃ faults faults', compile a = .error faults ∧ compile b = .error faults' ∧
        faults.map (Diagnostic.renumber f) = faults'.map (Diagnostic.renumber f) := by
  rw [ParsedSource.compile_renumber, ParsedSource.compile_renumber] at h
  unfold compile
  cases ha : (parseSource a).compile with
  | ok p =>
    rw [ha] at h
    cases hb : (parseSource b).compile with
    | ok q =>
      rw [hb] at h
      exact .inl ⟨p, q, rfl, rfl, Except.ok.inj h⟩
    | error faults =>
      rw [hb] at h
      cases h
  | error faults =>
    rw [ha] at h
    cases hb : (parseSource b).compile with
    | ok q =>
      rw [hb] at h
      cases h
    | error faults' =>
      rw [hb] at h
      exact .inr ⟨faults, faults', rfl, rfl, Except.error.inj h⟩

/-- Texts with the same lexemes make the same program and the same faults, but for lines. Both build
the same scene or neither builds any. -/
theorem build_eq_of_lexemes {a b : String} (ha : (scan a).diagnostics = [])
    (hb : (scan b).diagnostics = [])
    (h : (scan a).tokens.map Token.lexeme = (scan b).tokens.map Token.lexeme) :
    (parseSource a).program.renumber unlined = (parseSource b).program.renumber unlined ∧
    (parseSource a).diagnostics.map (Diagnostic.renumber unlined) =
      (parseSource b).diagnostics.map (Diagnostic.renumber unlined) ∧
    ((∃ p q, compile a = .ok p ∧ compile b = .ok q ∧ p.renumber unlined = q.renumber unlined ∧
        ∀ options, delivered a options = delivered b options ∧
          ∀ {σ ε : Type} (scene : Scene Matrix σ ε),
            build a options scene = build b options scene) ∨
      ∃ faults faults', compile a = .error faults ∧ compile b = .error faults' ∧
        faults.map (Diagnostic.renumber unlined) = faults'.map (Diagnostic.renumber unlined) ∧
        ∀ options {σ ε : Type} (scene : Scene Matrix σ ε) (s : σ),
          (build a options scene).run s = .error (.rejected faults) s ∧
            (build b options scene).run s = .error (.rejected faults') s) := by
  have hsource := parseSource_renumber_eq ha hb h
  refine ⟨congrArg ParsedSource.program hsource, ?_, ?_⟩
  · rw [← ParsedSource.diagnostics_renumber, ← ParsedSource.diagnostics_renumber, hsource]
    rfl
  have hcompile : ((parseSource a).renumber unlined).compile =
      ((parseSource b).renumber unlined).compile := by
    rw [hsource]
    rfl
  rcases compile_cases_of_renumber hcompile with
    ⟨p, q, hp, hq, hpq⟩ | ⟨faults, faults', hf, hf', hff⟩
  · refine .inl ⟨p, q, hp, hq, hpq, fun options => ?_⟩
    have hdelivered := delivered_eq_of_renumber hp hq hpq options
    exact ⟨hdelivered, fun scene => by rw [build_eq_give, hdelivered, ← build_eq_give]⟩
  · exact .inr ⟨faults, faults', hf, hf', hff, fun options _ _ scene s =>
      ⟨run_build_of_error hf options scene s, run_build_of_error hf' options scene s⟩⟩

def stairs : String := "2 * \x7by 1\x7d r rule r \x7bbox\x7d"

def stairsSpread : String := "2*\x7by 1\x7d // up\nr rule r/*\n*/\x7bbox\x7d"

theorem build_eq_of_lexemes_stairs :
    ((scan stairs).diagnostics = [] ∧ (scan stairsSpread).diagnostics = [] ∧
      (scan stairs).tokens.map Token.lexeme = (scan stairsSpread).tokens.map Token.lexeme) ∧
      ∃ p q, compile stairs = .ok p ∧ compile stairsSpread = .ok q ∧
        p.renumber unlined = q.renumber unlined ∧
        ∀ options, delivered stairs options = delivered stairsSpread options ∧
          ∀ {σ ε : Type} (scene : Scene Matrix σ ε),
            build stairs options scene = build stairsSpread options scene := by
  -- decided at once, so that the first text is scanned once
  have hdecided : ((scan stairs).diagnostics = [] ∧ (scan stairsSpread).diagnostics = [] ∧
      (scan stairs).tokens.map Token.lexeme = (scan stairsSpread).tokens.map Token.lexeme) ∧
      (compile stairs).toOption.isSome = true := by
    decide +kernel
  obtain ⟨hscan, hcompiles⟩ := hdecided
  refine ⟨hscan, ?_⟩
  obtain ⟨-, -, hbuild | ⟨faults, -, hfaults, -⟩⟩ := build_eq_of_lexemes hscan.1 hscan.2.1 hscan.2.2
  · exact hbuild
  · rw [hfaults] at hcompiles
    cases hcompiles

end SceneGrammar

import SceneGrammar.Proofs.Grammar.Acceptance

/-!
# Reading that fails

A construct is added whole or not at all. So what is kept of tokens that cannot be read to their end
is what the tokens before the failing construct mean when they stand alone. The point to prove is
that a construct is read in the same way when nothing follows it, for the parser has looked at the
token behind it.
-/

namespace SceneGrammar

/-- Constructs are read one after another, each added to the draft of those before it. -/
inductive Draft.Reads (lastLine : Nat) : Draft → List Token → Draft → List Token → Prop
  | stop (d : Draft) (tokens : List Token) : Reads lastLine d tokens d tokens
  | construct {d after : Draft} {tokens more rest : List Token} {construct : Construct}
      (h : Parser.construct ⟨d.definitions, lastLine⟩ tokens = .ok (construct, more))
      (later : Reads lastLine (d.add construct) more after rest) :
      Reads lastLine d tokens after rest

/-- The construct that begins behind the first `k` tokens is the first that cannot be read. -/
def FailsAt (tokens : List Token) (k : Nat) (e : SyntaxError) : Prop :=
  k < tokens.length ∧ ∃ d, Draft.Reads (lastLine tokens) .blank tokens d (tokens.drop k) ∧
    Parser.construct ⟨d.definitions, lastLine tokens⟩ (tokens.drop k) = .error e

theorem EndsActions.of_append {front rest : List Token} (h : EndsActions (front ++ rest)) :
    EndsActions front := by
  cases front with
  | nil => exact nofun
  | cons t front => exact h

namespace Draft

theorem Reads.exists_programPhrase {lastLine : Nat} {d after : Draft} {tokens rest : List Token}
    (h : Reads lastLine d tokens after rest) :
    ∃ front, tokens = front ++ rest ∧ ProgramPhrase d front after.program := by
  induction h with
  | stop d tokens => exact ⟨[], rfl, .done d⟩
  | construct h _ ih =>
    obtain ⟨back, rfl, hback⟩ := ih
    obtain ⟨front, rfl, hfront⟩ := Parser.sound_construct h
    refine ⟨front ++ back, by rw [List.append_assoc], ?_⟩
    rcases hfront with hfront | ⟨hfront, hend⟩
    · exact .construct hfront hback
    · exact .initial hfront hend.of_append hback

theorem Reads.eq_of_error {lastLine : Nat} {d after after' : Draft} {tokens rest rest' : List Token}
    {e e' : SyntaxError} (h : Reads lastLine d tokens after rest)
    (he : Parser.construct ⟨after.definitions, lastLine⟩ rest = .error e)
    (h' : Reads lastLine d tokens after' rest')
    (he' : Parser.construct ⟨after'.definitions, lastLine⟩ rest' = .error e') :
    after' = after ∧ rest' = rest := by
  induction h with
  | stop =>
    cases h' with
    | stop => exact ⟨rfl, rfl⟩
    | construct hread _ => cases he.symm.trans hread
  | construct hread _ ih =>
    cases h' with
    | stop => cases he'.symm.trans hread
    | construct hread' later' =>
      cases hread.symm.trans hread'
      exact ih he later'

end Draft

theorem exists_reads_of_parseFrom {lastLine : Nat} {d : Draft} {tokens : List Token}
    {program : Program Matrix} {e : SyntaxError}
    (h : parseFrom lastLine d tokens = (program, some e)) :
    ∃ after rest, d.Reads lastLine tokens after rest ∧ rest ≠ [] ∧ after.program = program ∧
      Parser.construct ⟨after.definitions, lastLine⟩ rest = .error e := by
  fun_induction parseFrom lastLine d tokens with
  | case1 => cases h
  | case2 d tokens hne e' hread =>
    cases h
    exact ⟨d, tokens, .stop d tokens, hne, rfl, hread⟩
  | case3 d tokens _ construct more hread _ ih =>
    obtain ⟨after, rest, hreads, hne, hprogram, he⟩ := ih h
    exact ⟨after, rest, .construct hread hreads, hne, hprogram, he⟩

theorem FailsAt.unique {tokens : List Token} {k k' : Nat} {e e' : SyntaxError}
    (h : FailsAt tokens k e) (h' : FailsAt tokens k' e') : k' = k ∧ e' = e := by
  obtain ⟨hk, d, hreads, he⟩ := h
  obtain ⟨hk', d', hreads', he'⟩ := h'
  obtain ⟨rfl, hrest⟩ := hreads.eq_of_error he hreads' he'
  have hlength := congrArg List.length hrest
  rw [List.length_drop, List.length_drop] at hlength
  have hkk : k' = k := by omega
  rw [hrest, he] at he'
  exact ⟨hkk, (Except.error.inj he').symm⟩

/-- What is kept of a program that cannot be read to its end is what the tokens before the failing
construct mean alone: nothing of that construct comes into it. -/
theorem parseTokens_take_of_failure {tokens : List Token} {program : Program Matrix}
    {e : SyntaxError} (h : parseTokens tokens = (program, some e)) :
    ∃ k, FailsAt tokens k e ∧ (∀ k' e', FailsAt tokens k' e' → k' = k ∧ e' = e) ∧
      ProgramPhrase .blank (tokens.take k) program ∧
      parseTokens (tokens.take k) = (program, none) := by
  obtain ⟨d, rest, hreads, hne, rfl, he⟩ := exists_reads_of_parseFrom h
  obtain ⟨front, htokens, hphrase⟩ := hreads.exists_programPhrase
  have hdrop : tokens.drop front.length = rest := by rw [htokens, List.drop_left]
  have htake : tokens.take front.length = front := by rw [htokens, List.take_left]
  have hlt : front.length < tokens.length := by
    have hpos := List.length_pos_iff.2 hne
    rw [htokens, List.length_append]
    omega
  have hfails : FailsAt tokens front.length e := ⟨hlt, d, by rwa [hdrop], by rwa [hdrop]⟩
  refine ⟨front.length, hfails, fun k' e' hfails' => hfails.unique hfails', ?_⟩
  rw [htake]
  exact ⟨hphrase, parseFrom_of_programPhrase hphrase (lastLine front)⟩

/-- A list of colours that might go on, then an action without an end. -/
def unended : List Token := [
  Keyword.set.token 1, Keyword.colorPool.token 1, Keyword.list.token 1, ⟨.color .white, 1⟩,
  Keyword.rule.token 2, ⟨.name "r", 2⟩, Keyword.openBrace.token 2, (Keyword.primitive .box).token 2,
  Keyword.closeBrace.token 2, (Keyword.primitive .box).token 3, ⟨.number 3, 3⟩,
  Keyword.times.token 3, Keyword.openBrace.token 4, Keyword.stretch.token 4, ⟨.number 2, 4⟩]

theorem parseTokens_take_of_failure_unended :
    ∃ program, parseTokens unended = (program, some ⟨.unclosedBlock, 4⟩) ∧
      ∃ k, FailsAt unended k ⟨.unclosedBlock, 4⟩ ∧
        (∀ k' e', FailsAt unended k' e' → k' = k ∧ e' = ⟨.unclosedBlock, 4⟩) ∧
        ProgramPhrase .blank (unended.take k) program ∧
        parseTokens (unended.take k) = (program, none) := by
  have hfailure : (parseTokens unended).2 = some ⟨.unclosedBlock, 4⟩ := by decide +kernel
  have hparse : parseTokens unended = ((parseTokens unended).1, some ⟨.unclosedBlock, 4⟩) :=
    Prod.ext rfl hfailure
  exact ⟨_, hparse, parseTokens_take_of_failure hparse⟩

end SceneGrammar

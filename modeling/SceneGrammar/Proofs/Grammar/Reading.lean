import SceneGrammar.Proofs.Grammar.Phrase

/-!
# Parsers that read phrases

A parser reads a kind of phrase if what it takes is such a phrase, and if it takes every such phrase
whole, provided that what follows does not go on with it. Each step of a parser is opened by one
lemma in either direction, and repetition is dealt with once for all parsers.
-/

namespace SceneGrammar.Parser

variable {α β : Type} {scope : Scope} {tokens rest : List Token}

/-- What may follow a phrase. -/
abbrev Follow := Bindings → List Token → Prop

def anything : Follow := fun _ _ => True

def notAhead (k : Keyword) : Follow := fun _ rest => ∀ t ∈ rest.head?, t.lexeme ≠ .keyword k

structure Reads (p : Parser α) (Phrase : Bindings → List Token → α → Prop) (follow : Follow) :
    Prop where
  sound : ∀ {scope tokens a rest}, p scope tokens = .ok (a, rest) →
    ∃ front, tokens = front ++ rest ∧ Phrase scope.definitions front a
  complete : ∀ {scope front a rest}, Phrase scope.definitions front a →
    follow scope.definitions rest → p scope (front ++ rest) = .ok (a, rest)

/-! ## Steps that succeed -/

theorem bind_ok {p : Parser α} {f : α → Parser β} {a : α} (h : p scope tokens = .ok (a, rest)) :
    (p >>= f) scope tokens = f a scope rest := by
  rw [bind_apply, h]

theorem Reads.bind_ok {p : Parser α} {Phrase : Bindings → List Token → α → Prop} {follow : Follow}
    (hp : Reads p Phrase follow) {f : α → Parser β} {front : List Token} {a : α}
    (h : Phrase scope.definitions front a) (hf : follow scope.definitions rest) :
    (p >>= f) scope (front ++ rest) = f a scope rest :=
  Parser.bind_ok (hp.complete h hf)

theorem bind_scope (f : Scope → Parser α) (scope : Scope) (tokens : List Token) :
    (Parser.scope >>= f) scope tokens = f scope scope tokens := rfl

theorem bind_next (f : Token → Parser α) (scope : Scope) (t : Token) (rest : List Token) :
    (next >>= f) scope (t :: rest) = f t scope rest := rfl

theorem bind_expect (k : Keyword) (what : String) (f : Token → Parser α) (scope : Scope)
    (line : Nat) (rest : List Token) :
    (expect k what >>= f) scope (k.token line :: rest) = f (k.token line) scope rest := by
  have hk : (k.token line).lexeme = .keyword k := rfl
  refine Parser.bind_ok ?_
  rw [expect, bind_next]
  simp only [hk, if_true]
  rfl

theorem bind_expectName (what : String) (f : String → Parser α) (scope : Scope) (name : String)
    (line : Nat) (rest : List Token) :
    (expectName what >>= f) scope (⟨.name name, line⟩ :: rest) = f name scope rest := rfl

theorem bind_accept_present (k : Keyword) (f : Bool → Parser α) (scope : Scope) (line : Nat)
    (rest : List Token) : (accept k >>= f) scope (k.token line :: rest) = f true scope rest :=
  Parser.bind_ok (if_pos rfl)

theorem bind_accept_absent {k : Keyword} (f : Bool → Parser α)
    (h : notAhead k scope.definitions rest) : (accept k >>= f) scope rest = f false scope rest := by
  refine Parser.bind_ok ?_
  cases rest with
  | nil => rfl
  | cons t rest => exact if_neg (h t rfl)

theorem bind_optional {k : Keyword} (p : Parser α) {optional : List Token}
    (h : OptionalPhrase k optional) (hr : notAhead k scope.definitions rest) :
    (accept k >>= fun _ => p) scope (optional ++ rest) = p scope rest := by
  cases h with
  | absent => exact bind_accept_absent _ hr
  | present line => exact bind_accept_present k _ scope line rest

/-! ## Steps that have succeeded -/

section Inversion

variable {f : α → Parser β} {b : β}

theorem Reads.bind_eq_ok {p : Parser α} {Phrase : Bindings → List Token → α → Prop}
    {follow : Follow} (hp : Reads p Phrase follow) (h : (p >>= f) scope tokens = .ok (b, rest)) :
    ∃ a front more, tokens = front ++ more ∧ Phrase scope.definitions front a ∧
      f a scope more = .ok (b, rest) := by
  obtain ⟨a, more, ha, h⟩ := Parser.bind_eq_ok h
  obtain ⟨front, htokens, hfront⟩ := hp.sound ha
  exact ⟨a, front, more, htokens, hfront, h⟩

/-- A parser that does no more than wrap up what another reads. -/
theorem Reads.sound_return {p : Parser α} {Phrase : Bindings → List Token → α → Prop}
    {follow : Follow} (hp : Reads p Phrase follow) {wrap : α → β} {Whole : List Token → β → Prop}
    (hwrap : ∀ {front a}, Phrase scope.definitions front a → Whole front (wrap a))
    (h : (do return wrap (← p) : Parser β) scope tokens = .ok (b, rest)) :
    ∃ front, tokens = front ++ rest ∧ Whole front b := by
  obtain ⟨a, front, more, rfl, ha, hmore⟩ := hp.bind_eq_ok h
  cases hmore
  exact ⟨front, rfl, hwrap ha⟩

theorem exists_front_cons {t : Token} {Whole : List Token → Prop}
    (h : ∃ front, tokens = front ++ rest ∧ Whole (t :: front)) :
    ∃ front, t :: tokens = front ++ rest ∧ Whole front := by
  obtain ⟨front, rfl, hfront⟩ := h
  exact ⟨t :: front, rfl, hfront⟩

theorem bind_next_eq_ok {f : Token → Parser β} (h : (next >>= f) scope tokens = .ok (b, rest)) :
    ∃ t more, tokens = t :: more ∧ f t scope more = .ok (b, rest) := by
  cases tokens with
  | nil => cases h
  | cons t more => exact ⟨t, more, rfl, h⟩

theorem eq_token {t : Token} {k : Keyword} (h : t.lexeme = .keyword k) : t = k.token t.line := by
  obtain ⟨lexeme, line⟩ := t
  cases h
  rfl

theorem bind_expect_eq_ok {k : Keyword} {what : String} {f : Token → Parser β}
    (h : (expect k what >>= f) scope tokens = .ok (b, rest)) :
    ∃ line more, tokens = k.token line :: more ∧ f (k.token line) scope more = .ok (b, rest) := by
  obtain ⟨u, middle, hu, hf⟩ := bind_eq_ok h
  obtain ⟨t, more, rfl, ht⟩ := bind_next_eq_ok hu
  split at ht
  · rename_i hk
    cases ht
    have hu := eq_token hk
    exact ⟨u.line, middle, by rw [← hu], by rwa [← hu]⟩
  · cases ht

theorem bind_expectName_eq_ok {what : String} {f : String → Parser β}
    (h : (expectName what >>= f) scope tokens = .ok (b, rest)) :
    ∃ name line more, tokens = ⟨.name name, line⟩ :: more ∧
      f name scope more = .ok (b, rest) := by
  obtain ⟨name, middle, hn, hf⟩ := bind_eq_ok h
  obtain ⟨⟨lexeme, line⟩, more, rfl, ht⟩ := bind_next_eq_ok hn
  cases lexeme with
  | name name =>
    cases ht
    exact ⟨_, line, middle, rfl, hf⟩
  | number | color | keyword => cases ht

theorem bind_accept_eq_ok {k : Keyword} {f : Bool → Parser β}
    (h : (accept k >>= f) scope tokens = .ok (b, rest)) :
    (∃ line more, tokens = k.token line :: more ∧ f true scope more = .ok (b, rest)) ∨
      f false scope tokens = .ok (b, rest) := by
  obtain ⟨found, middle, ha, hf⟩ := bind_eq_ok h
  cases tokens with
  | nil =>
    cases ha
    exact .inr hf
  | cons t more =>
    rw [accept] at ha
    split at ha
    · rename_i hk
      cases ha
      exact .inl ⟨t.line, middle, by rw [← eq_token hk], hf⟩
    · cases ha
      exact .inr hf

theorem bind_optional_eq_ok {k : Keyword} {p : Parser β}
    (h : (accept k >>= fun _ => p) scope tokens = .ok (b, rest)) :
    ∃ optional more, tokens = optional ++ more ∧ OptionalPhrase k optional ∧
      p scope more = .ok (b, rest) := by
  obtain ⟨line, more, rfl, hmore⟩ | hmore := bind_accept_eq_ok h
  · exact ⟨[k.token line], more, rfl, .present line, hmore⟩
  · exact ⟨[], tokens, rfl, .absent, hmore⟩

end Inversion

/-! ## Repetition -/

/-- A parser that may be repeated: it is begun where a phrase begins, and phrases may follow one
another. -/
structure Repeats (begins : Scope → List Token → Bool) (p : Parser α)
    (Phrase : Bindings → List Token → α → Prop) (follow : Follow) : Prop where
  sound : ∀ {scope tokens a rest}, begins scope tokens → p scope tokens = .ok (a, rest) →
    ∃ front, tokens = front ++ rest ∧ Phrase scope.definitions front a
  complete : ∀ {scope front a rest}, Phrase scope.definitions front a →
    follow scope.definitions rest → p scope (front ++ rest) = .ok (a, rest)
  begins : ∀ {scope front a} (rest), Phrase scope.definitions front a → begins scope (front ++ rest)
  next : ∀ {b front a} (rest), Phrase b front a → follow b (front ++ rest)

section Many

variable {begins : Scope → List Token → Bool} {p : Parser α} {advances : Advances p}
  {Phrase : Bindings → List Token → α → Prop} {follow : Follow}

theorem sound_many (hp : Repeats begins p Phrase follow) {scope : Scope} {tokens rest : List Token}
    {as : List α} (h : many begins p advances scope tokens = .ok (as, rest)) :
    begins scope rest = false ∧
      ∃ front, tokens = front ++ rest ∧ RepeatedPhrase (Phrase scope.definitions) front as := by
  cases hb : begins scope tokens with
  | false =>
    rw [many_of_not hb] at h
    cases h
    exact ⟨hb, [], rfl, .none⟩
  | true =>
    rw [many_of_begins hb] at h
    obtain ⟨a, middle, ha, hmiddle⟩ := bind_eq_ok h
    obtain ⟨as, last, has, hlast⟩ := bind_eq_ok hmiddle
    cases hlast
    have := (advances ha).2
    obtain ⟨ts, rfl, hts⟩ := hp.sound hb ha
    obtain ⟨hend, us, rfl, hus⟩ := sound_many hp has
    exact ⟨hend, ts ++ us, by rw [List.append_assoc], .more hts hus⟩
termination_by tokens.length

/-- The repetition ends where no further phrase is begun. -/
theorem Repeats.reads_many (hp : Repeats begins p Phrase follow) {last : Follow}
    (hlast : ∀ {scope rest}, last scope.definitions rest →
      begins scope rest = false ∧ follow scope.definitions rest) :
    Reads (many begins p advances) (fun b => RepeatedPhrase (Phrase b)) last where
  sound h := (sound_many hp h).2
  complete := by
    intro scope front as rest h hl
    obtain ⟨hend, hfollow⟩ := hlast hl
    induction h with
    | none => exact many_of_not hend
    | @more ts us a as ha hs ih =>
      -- behind a phrase stands the next one, or what follows them all
      have hnext : follow scope.definitions (us ++ rest) := by
        cases hs with
        | none => exact hfollow
        | more h _ =>
          rw [List.append_assoc]
          exact hp.next _ h
      rw [List.append_assoc, many_of_begins (hp.begins _ ha), bind_ok (hp.complete ha hnext),
        bind_ok ih]
      rfl

end Many

end SceneGrammar.Parser

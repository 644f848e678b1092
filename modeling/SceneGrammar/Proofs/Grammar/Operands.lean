import SceneGrammar.Proofs.Grammar.Reading

/-!
# Operands are read as phrases

Numbers, colours and whatever is made of numbers. An operand may be followed by anything.
-/

namespace SceneGrammar.Parser

variable {α : Type} {scope : Scope} {rest : List Token}

theorem number?_eq_some_iff {t : Token} {x : Float} :
    t.number? scope = some x ↔ NumberPhrase scope.definitions [t] x := by
  obtain ⟨lexeme, line⟩ := t
  constructor
  · intro h
    cases lexeme with
    | number y =>
      cases h
      exact .literal x line
    | name name =>
      change scope.number? name = some x at h
      unfold Scope.number? at h
      split at h
      · rename_i hb
        cases h
        exact .bound hb line
      · cases h
    | color | keyword => cases h
  · rintro (⟨x, line⟩ | ⟨hb, line⟩)
    · rfl
    · simp only [Token.number?, Scope.number?, hb]

theorem color?_eq_some_iff {t : Token} {c : Rgba} :
    t.color? scope = some c ↔ ColorPhrase scope.definitions [t] c := by
  obtain ⟨lexeme, line⟩ := t
  constructor
  · intro h
    cases lexeme with
    | color d =>
      cases h
      exact .literal c line
    | name name =>
      change scope.color? name = some c at h
      unfold Scope.color? at h
      split at h
      · rename_i hb
        cases h
        exact .bound hb line
      · cases h
    | number | keyword => cases h
  · rintro (⟨c, line⟩ | ⟨hb, line⟩)
    · rfl
    · simp only [Token.color?, Scope.color?, hb]

theorem exists_of_numberPhrase {b : Bindings} {ts : List Token} {x : Float}
    (h : NumberPhrase b ts x) : ∃ t, ts = [t] ∧ ∀ k, t.lexeme ≠ .keyword k := by
  cases h <;> exact ⟨_, rfl, nofun⟩

theorem exists_of_colorPhrase {b : Bindings} {ts : List Token} {c : Rgba}
    (h : ColorPhrase b ts c) : ∃ t, ts = [t] ∧ ∀ k, t.lexeme ≠ .keyword k := by
  cases h <;> exact ⟨_, rfl, nofun⟩

theorem notAhead_of_operand {b : Bindings} {ts : List Token} (k : Keyword)
    (h : ∃ t, ts = [t] ∧ ∀ k, t.lexeme ≠ .keyword k) (rest : List Token) :
    notAhead k b (ts ++ rest) := by
  obtain ⟨t, rfl, hk⟩ := h
  intro u hu
  cases hu
  exact hk k

theorem notAhead_of_numberPhrase (k : Keyword) {b : Bindings} {ts : List Token} {x : Float}
    (h : NumberPhrase b ts x) (rest : List Token) : notAhead k b (ts ++ rest) :=
  notAhead_of_operand k (exists_of_numberPhrase h) rest

theorem notAhead_of_colorPhrase (k : Keyword) {b : Bindings} {ts : List Token} {c : Rgba}
    (h : ColorPhrase b ts c) (rest : List Token) : notAhead k b (ts ++ rest) :=
  notAhead_of_operand k (exists_of_colorPhrase h) rest

theorem reads_number : Reads number NumberPhrase anything where
  sound := by
    intro scope tokens x rest h
    obtain ⟨t, more, rfl, ht⟩ := bind_next_eq_ok h
    rw [bind_scope] at ht
    cases hx : t.number? scope with
    | some y =>
      simp only [hx] at ht
      cases ht
      exact ⟨[t], rfl, number?_eq_some_iff.1 hx⟩
    | none =>
      simp only [hx] at ht
      obtain ⟨lexeme, line⟩ := t
      cases lexeme <;> cases ht
  complete := by
    intro scope front x rest h _
    obtain ⟨t, rfl, -⟩ := exists_of_numberPhrase h
    rw [List.singleton_append, number, bind_next, bind_scope, number?_eq_some_iff.2 h]
    rfl

theorem reads_color : Reads color ColorPhrase anything where
  sound := by
    intro scope tokens c rest h
    obtain ⟨t, more, rfl, ht⟩ := bind_next_eq_ok h
    rw [bind_scope] at ht
    cases hc : t.color? scope with
    | some d =>
      simp only [hc] at ht
      cases ht
      exact ⟨[t], rfl, color?_eq_some_iff.1 hc⟩
    | none =>
      simp only [hc] at ht
      obtain ⟨lexeme, line⟩ := t
      cases lexeme <;> cases ht
  complete := by
    intro scope front c rest h _
    obtain ⟨t, rfl, -⟩ := exists_of_colorPhrase h
    rw [List.singleton_append, color, bind_next, bind_scope, color?_eq_some_iff.2 h]
    rfl

theorem reads_integer : Reads integer IntegerPhrase anything where
  sound := by
    intro scope tokens n rest h
    exact Reads.sound_return reads_number .nearest h
  complete := by
    rintro scope front n rest ⟨hx⟩ -
    exact Reads.bind_ok reads_number hx trivial

theorem bind_nextLine (f : Nat → Parser α) (scope : Scope) (tokens : List Token) :
    ∃ line, (nextLine >>= f) scope tokens = f line scope tokens := by
  cases tokens with
  | nil => exact ⟨_, rfl⟩
  | cons t rest => exact ⟨_, rfl⟩

theorem reads_natural : Reads natural NaturalPhrase anything where
  sound := by
    intro scope tokens n rest h
    rw [natural] at h
    obtain ⟨line, hline⟩ := bind_nextLine _ scope tokens
    rw [hline] at h
    obtain ⟨n, front, more, rfl, hn, hmore⟩ := Reads.bind_eq_ok reads_integer h
    split at hmore
    · rename_i hpos
      cases hmore
      exact ⟨front, rfl, .integer hn hpos⟩
    · cases hmore
  complete := by
    rintro scope front n rest ⟨hn, hpos⟩ -
    obtain ⟨line, hline⟩ := bind_nextLine _ scope (front ++ rest)
    rw [natural, hline, Reads.bind_ok reads_integer hn trivial]
    simp only [hpos, if_true]
    rfl

theorem reads_depth : Reads depth DepthPhrase anything where
  sound := by
    intro scope tokens n rest h
    exact Reads.sound_return reads_natural .natural h
  complete := by
    rintro scope front n rest ⟨hn⟩ -
    exact Reads.bind_ok reads_natural hn trivial

/-! ## Vectors -/

/-- What may stand between two numbers, and how it is passed over. -/
structure Passes (separator : Parser Unit) (Between : List Token → Prop) : Prop where
  sound : ∀ {scope tokens rest}, separator scope tokens = .ok ((), rest) →
    ∃ between, tokens = between ++ rest ∧ Between between
  complete : ∀ {scope between back rest x}, Between between → NumberPhrase scope.definitions back x →
    separator scope (between ++ (back ++ rest)) = .ok ((), back ++ rest)

theorem passes_nothing : Passes (pure ()) (· = []) where
  sound := by
    intro scope tokens rest h
    cases h
    exact ⟨[], rfl, rfl⟩
  complete := by
    rintro scope between back rest x rfl -
    rfl

theorem passes_comma : Passes (discard (accept .comma)) (OptionalPhrase .comma) where
  sound := by
    intro scope tokens rest h
    change (accept .comma >>= fun _ => pure ()) scope tokens = _ at h
    obtain ⟨between, more, rfl, hbetween, hmore⟩ := bind_optional_eq_ok h
    cases hmore
    exact ⟨between, rfl, hbetween⟩
  complete := by
    intro scope between back rest x hbetween hx
    exact (bind_optional (pure ()) hbetween (notAhead_of_numberPhrase .comma hx rest)).trans rfl

theorem reads_numbers {separator : Parser Unit} {Between : List Token → Prop}
    (hs : Passes separator Between) : (count : Nat) →
    Reads (numbers separator count) (fun b => NumbersPhrase b Between count) anything
  | 0 =>
    { sound := by
        intro scope tokens v rest h
        cases h
        exact ⟨[], rfl, rfl⟩
      complete := by
        rintro scope front v rest rfl -
        rw [show v = #v[] from Vector.eq_empty]
        rfl }
  | 1 =>
    { sound := by
        intro scope tokens v rest h
        obtain ⟨x, front, more, rfl, hx, hmore⟩ := Reads.bind_eq_ok reads_number h
        cases hmore
        exact ⟨front, rfl, x, hx, rfl⟩
      complete := by
        rintro scope front v rest ⟨x, hx, rfl⟩ -
        exact Reads.bind_ok reads_number hx trivial }
  | count + 2 =>
    { sound := by
        intro scope tokens v rest h
        obtain ⟨before, front, more, rfl, hbefore, hmore⟩ :=
          (reads_numbers hs (count + 1)).bind_eq_ok h
        obtain ⟨u, middle, hu, hmiddle⟩ := bind_eq_ok hmore
        obtain ⟨between, rfl, hbetween⟩ := hs.sound hu
        obtain ⟨x, back, last, rfl, hx, hlast⟩ := Reads.bind_eq_ok reads_number hmiddle
        cases hlast
        exact ⟨front ++ (between ++ back), by simp only [List.append_assoc], front, between, back,
          before, x, rfl, hbefore, hbetween, hx, rfl⟩
      complete := by
        rintro scope tokens v rest ⟨front, between, back, before, x, rfl, hbefore, hbetween, hx, rfl⟩ -
        rw [List.append_assoc, List.append_assoc, numbers,
          (reads_numbers hs (count + 1)).bind_ok hbefore trivial,
          Parser.bind_ok (hs.complete hbetween hx), Reads.bind_ok reads_number hx trivial]
        rfl }

theorem reads_vector (count : Nat) :
    Reads (vector count) (fun b => VectorPhrase b count) anything where
  sound := by
    intro scope tokens v rest h
    obtain ⟨line, more, rfl, hmore⟩ := bind_expect_eq_ok h
    obtain ⟨v, front, last, rfl, hv, hlast⟩ := (reads_numbers passes_comma count).bind_eq_ok hmore
    obtain ⟨line', last, rfl, hrest⟩ := bind_expect_eq_ok hlast
    cases hrest
    exact ⟨_, by simp, .brackets hv line line'⟩
  complete := by
    rintro scope tokens v rest ⟨hv, line, line'⟩ -
    rw [vector, List.cons_append, bind_expect, List.append_assoc,
      (reads_numbers passes_comma count).bind_ok hv trivial, List.singleton_append, bind_expect]
    rfl

end SceneGrammar.Parser

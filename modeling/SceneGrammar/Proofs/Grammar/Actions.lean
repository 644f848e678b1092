import SceneGrammar.Proofs.Grammar.Directives

/-!
# Blocks, loops and actions are read as phrases

A scale takes a second number for its own, a name before an asterisk is a count: what must not follow
a phrase is told by its next token.
-/

namespace SceneGrammar.Parser

variable {scope : Scope} {tokens rest : List Token}

/-! ## Blocks and loops -/

/-- The next token is no number, so that a scale has but one. -/
def noNumber : Follow := fun b rest => ∀ t ∈ rest.head?, ∀ x, ¬ NumberPhrase b [t] x

theorem noNumber_keyword (b : Bindings) (k : Keyword) (line : Nat) (rest : List Token) :
    noNumber b (k.token line :: rest) := by
  intro t ht x hx
  cases ht
  cases hx

theorem numberAhead_of_noNumber (h : noNumber scope.definitions rest) :
    numberAhead scope rest = false := by
  cases rest with
  | nil => rfl
  | cons t rest =>
    refine Option.isSome_eq_false_iff.2 (Option.isNone_iff_eq_none.2 ?_)
    exact Option.eq_none_iff_forall_not_mem.2 fun x hx => h t rfl x (number?_eq_some_iff.1 hx)

theorem numberAhead_of_numberPhrase {ts : List Token} {x : Float}
    (h : NumberPhrase scope.definitions ts x) : numberAhead scope (ts ++ rest) = true := by
  obtain ⟨t, rfl, -⟩ := exists_of_numberPhrase h
  exact Option.isSome_of_eq_some (number?_eq_some_iff.2 h)

theorem bind_ahead {α : Type} (test : Scope → List Token → Bool) (f : Bool → Parser α)
    (scope : Scope) (tokens : List Token) :
    (ahead test >>= f) scope tokens = f (test scope tokens) scope tokens := rfl

theorem sound_stretch {operation : Operation} (line : Nat)
    (h : stretch scope tokens = .ok (operation, rest)) : ∃ front, tokens = front ++ rest ∧
      OperationPhrase scope.definitions (Keyword.stretch.token line :: front) operation := by
  obtain ⟨x, ts, more, rfl, hx, hmore⟩ := Reads.bind_eq_ok reads_number h
  rw [bind_ahead] at hmore
  split at hmore
  · obtain ⟨y, us, after, rfl, hy, hafter⟩ := Reads.bind_eq_ok reads_number hmore
    obtain ⟨z, vs, last, rfl, hz, hlast⟩ := Reads.bind_eq_ok reads_number hafter
    cases hlast
    exact ⟨ts ++ (us ++ vs), by simp only [List.append_assoc], .stretchEach line hx hy hz⟩
  · cases hmore
    exact ⟨ts, rfl, .stretch line hx⟩

theorem reads_operation : Reads operation OperationPhrase noNumber where
  sound := by
    intro scope tokens value rest h
    obtain ⟨⟨lexeme, line⟩, more, rfl, hmore⟩ := bind_next_eq_ok h
    cases lexeme with
    | number | color | name => cases hmore
    | keyword k =>
      cases k with
      | move axis =>
        exact exists_front_cons (Reads.sound_return reads_number (.move axis line) hmore)
      | turn axis =>
        exact exists_front_cons (Reads.sound_return reads_number (.turn axis line) hmore)
      | stretch => exact exists_front_cons (sound_stretch line hmore)
      | linear =>
        exact exists_front_cons ((reads_numbers passes_nothing 9).sound_return (.linear line) hmore)
      | reflect axis =>
        cases hmore
        exact ⟨_, rfl, .reflect axis line⟩
      | hue => exact exists_front_cons (Reads.sound_return reads_number (.hue line) hmore)
      | saturation =>
        exact exists_front_cons (Reads.sound_return reads_number (.saturation line) hmore)
      | brightness =>
        exact exists_front_cons (Reads.sound_return reads_number (.brightness line) hmore)
      | alpha => exact exists_front_cons (Reads.sound_return reads_number (.alpha line) hmore)
      | color =>
        obtain ⟨line', last, rfl, hlast⟩ | hlast := bind_accept_eq_ok hmore
        · cases hlast
          exact ⟨_, rfl, .random line line'⟩
        · exact exists_front_cons (Reads.sound_return reads_color (.absolute line) hlast)
      | blend =>
        obtain ⟨c, ts, after, rfl, hc, hafter⟩ := Reads.bind_eq_ok reads_color hmore
        obtain ⟨x, us, last, rfl, hx, hlast⟩ := Reads.bind_eq_ok reads_number hafter
        cases hlast
        exact ⟨_, by simp [Keyword.token], .blend line hc hx⟩
      | _ => cases hmore
  complete := by
    rintro scope front value rest h hr
    cases h with
    | move axis line hx | turn axis line hx => exact Reads.bind_ok reads_number hx trivial
    | hue line hx | saturation line hx | brightness line hx | alpha line hx =>
      exact Reads.bind_ok reads_number hx trivial
    | stretch line hx =>
      refine (Reads.bind_ok reads_number hx trivial).trans ?_
      rw [bind_ahead, numberAhead_of_noNumber hr]
      rfl
    | @stretchEach ts us vs x y z line hx hy hz =>
      rw [List.cons_append, List.append_assoc, List.append_assoc]
      refine (Reads.bind_ok reads_number hx trivial).trans ?_
      rw [bind_ahead, numberAhead_of_numberPhrase hy, if_pos rfl,
        Reads.bind_ok reads_number hy trivial, Reads.bind_ok reads_number hz trivial]
      rfl
    | linear line hv => exact (reads_numbers passes_nothing 9).bind_ok hv trivial
    | reflect axis line => rfl
    | random line line' => rfl
    | absolute line hc =>
      exact (bind_accept_absent _ (notAhead_of_colorPhrase .random hc rest)).trans
        (Reads.bind_ok reads_color hc trivial)
    | blend line hc hx =>
      rw [List.cons_append, List.append_assoc]
      exact (Reads.bind_ok reads_color hc trivial).trans (Reads.bind_ok reads_number hx trivial)

theorem head_operationPhrase {b : Bindings} {ts : List Token} {operation : Operation}
    (h : OperationPhrase b ts operation) :
    ∃ k line more, ts = Keyword.token k line :: more ∧ k ≠ .closeBrace := by
  cases h <;> exact ⟨_, _, _, rfl, nofun⟩

theorem unclosedAhead_of_ne {t : Token} (h : t.lexeme ≠ .keyword .closeBrace) :
    unclosedAhead scope (t :: rest) = true :=
  decide_eq_true h

theorem repeats_operation : Repeats unclosedAhead operation OperationPhrase noNumber where
  sound _ h := Reads.sound reads_operation h
  complete := Reads.complete reads_operation
  begins := by
    intro scope front value rest h
    obtain ⟨k, line, more, rfl, hk⟩ := head_operationPhrase h
    exact unclosedAhead_of_ne fun he => hk (Lexeme.keyword.inj he)
  next := by
    intro b front value rest h
    obtain ⟨k, line, more, rfl, -⟩ := head_operationPhrase h
    exact noNumber_keyword b k line _

def closesAhead : Follow := fun _ rest => ∃ line more, rest = Keyword.closeBrace.token line :: more

theorem reads_operations : Reads (many unclosedAhead operation advances_operation)
    (fun b => RepeatedPhrase (OperationPhrase b)) closesAhead :=
  Repeats.reads_many repeats_operation fun {scope _} ⟨line, more, he⟩ => by
    subst he
    exact ⟨rfl, noNumber_keyword scope.definitions _ line more⟩

theorem sound_blockFrom {opened : Nat} {operations : List Operation}
    (h : blockFrom opened scope tokens = .ok (operations, rest)) :
    ∃ ts line, tokens = ts ++ (Keyword.closeBrace.token line :: rest) ∧
      RepeatedPhrase (OperationPhrase scope.definitions) ts operations := by
  obtain ⟨operations, ts, more, rfl, hts, hmore⟩ := Reads.bind_eq_ok reads_operations h
  obtain ⟨line, last, rfl, hlast⟩ | hlast := bind_accept_eq_ok hmore
  · cases hlast
    exact ⟨ts, line, rfl, hts⟩
  · cases hlast

theorem complete_blockFrom (opened : Nat) {ts : List Token} {operations : List Operation}
    (h : RepeatedPhrase (OperationPhrase scope.definitions) ts operations) (line : Nat)
    (rest : List Token) :
    blockFrom opened scope (ts ++ (Keyword.closeBrace.token line :: rest)) =
      .ok (operations, rest) := by
  rw [blockFrom, Reads.bind_ok reads_operations h ⟨line, rest, rfl⟩, bind_accept_present]
  rfl

theorem reads_block : Reads block BlockPhrase anything where
  sound := by
    intro scope tokens operations rest h
    obtain ⟨line, more, rfl, hmore⟩ := bind_expect_eq_ok h
    obtain ⟨ts, line', rfl, hts⟩ := sound_blockFrom hmore
    exact ⟨_, by simp, .braces line line' hts⟩
  complete := by
    rintro scope front operations rest ⟨line, line', h⟩ -
    rw [List.cons_append, List.append_assoc, block, bind_expect]
    exact complete_blockFrom _ h line' rest

theorem head_numberPhrase {ts : List Token} {x : Float} (h : NumberPhrase scope.definitions ts x) :
    ∃ t, ts = [t] ∧ t.number? scope = some x := by
  obtain ⟨t, rfl, -⟩ := exists_of_numberPhrase h
  exact ⟨t, rfl, number?_eq_some_iff.2 h⟩

theorem repetitions_eq_ok_iff {count : Float} {line : Nat} {n : UInt32} :
    repetitions count line scope tokens = .ok (n, rest) ↔
      repetitions? count = some n ∧ tokens = rest := by
  unfold repetitions
  cases repetitions? count with
  | none => exact ⟨nofun, nofun⟩
  | some m =>
    constructor
    · intro h
      cases h
      exact ⟨rfl, rfl⟩
    · rintro ⟨h, rfl⟩
      cases h
      rfl

theorem openBrace_of_loopAhead {t : Token} (hb : loopAhead scope (t :: rest))
    (hx : t.number? scope = none) : ∃ line, t = Keyword.openBrace.token line := by
  obtain ⟨lexeme, line⟩ := t
  cases lexeme with
  | number => cases hx
  | color => cases hb
  | name name =>
    cases rest with
    | nil => cases hb
    | cons u rest =>
      change (scope.number? name).isSome && _ at hb
      change scope.number? name = none at hx
      rw [hx] at hb
      cases hb
  | keyword k =>
    cases k with
    | openBrace => exact ⟨line, rfl⟩
    | _ => cases hb

theorem repeats_loop : Repeats loopAhead loop LoopPhrase anything where
  sound := by
    intro scope tokens value rest hb h
    obtain ⟨t, more, rfl, hmore⟩ := bind_next_eq_ok h
    rw [bind_scope] at hmore
    cases hx : t.number? scope with
    | some x =>
      simp only [hx] at hmore
      obtain ⟨n, after, hn, hafter⟩ := bind_eq_ok hmore
      obtain ⟨hcount, rfl⟩ := repetitions_eq_ok_iff.1 hn
      obtain ⟨line, block, rfl, hblock⟩ := bind_expect_eq_ok hafter
      obtain ⟨operations, us, last, rfl, hus, hlast⟩ := Reads.bind_eq_ok reads_block hblock
      cases hlast
      exact ⟨[t] ++ Keyword.times.token line :: us, by simp,
        .counted line (number?_eq_some_iff.1 hx) hcount hus⟩
    | none =>
      simp only [hx] at hmore
      obtain ⟨line, rfl⟩ := openBrace_of_loopAhead hb hx
      obtain ⟨operations, last, hoperations, hlast⟩ := bind_eq_ok hmore
      cases hlast
      obtain ⟨ts, line', rfl, hts⟩ := sound_blockFrom hoperations
      exact ⟨_, by simp, .once (.braces line line' hts)⟩
  complete := by
    intro scope front value rest h _
    cases h with
    | @counted ts us x n operations line hx hn h =>
      obtain ⟨t, rfl, ht⟩ := head_numberPhrase hx
      rw [List.append_assoc, List.singleton_append, List.cons_append, loop, bind_next, bind_scope]
      simp only [ht]
      rw [Parser.bind_ok (repetitions_eq_ok_iff.2 ⟨hn, rfl⟩), bind_expect,
        Reads.bind_ok reads_block h trivial]
      rfl
    | once h =>
      obtain ⟨line, line', h⟩ := h
      rw [List.cons_append, List.append_assoc]
      exact (Parser.bind_ok (complete_blockFrom line h line' rest)).trans rfl
  begins := by
    intro scope front value rest h
    cases h with
    | counted line hx _ _ =>
      cases hx with
      | literal => rfl
      | bound hb => simp [loopAhead, Scope.number?, hb, Keyword.token]
    | once h =>
      obtain ⟨line, line', h⟩ := h
      rfl
  next _ _ := trivial

/-! ## Actions -/

/-- No loop begins here. -/
def noLoop : Follow := fun b rest => ∀ lastLine, loopAhead ⟨b, lastLine⟩ rest = false

theorem reads_loops : Reads (many loopAhead loop advances_loop)
    (fun b => RepeatedPhrase (LoopPhrase b)) noLoop :=
  Repeats.reads_many repeats_loop fun {scope _} h => ⟨h scope.lastLine, trivial⟩

/-- What no action goes on with. -/
def endsAction : Follow := fun b rest => notAhead .comma b rest ∧ notAhead .times b rest

theorem noLoop_name {b : Bindings} (name : String) (line : Nat) (h : notAhead .times b rest) :
    noLoop b (⟨.name name, line⟩ :: rest) := by
  intro lastLine
  cases rest with
  | nil => rfl
  | cons t rest =>
    have ht : t.lexeme ≠ .keyword .times := h t rfl
    simp [loopAhead, ht]

theorem reads_action (inRule : Bool) :
    Reads (action inRule) (fun b => ActionPhrase b inRule) endsAction where
  sound := by
    intro scope tokens value rest h
    obtain ⟨loops, ts, more, rfl, hts, hmore⟩ := Reads.bind_eq_ok reads_loops h
    obtain ⟨⟨effect, line⟩, last, heffect, hlast⟩ := bind_eq_ok hmore
    cases hlast
    obtain ⟨⟨lexeme, line⟩, after, rfl, hafter⟩ := bind_next_eq_ok heffect
    cases lexeme with
    | number | color => cases hafter
    | name name =>
      cases hafter
      exact ⟨_, by simp, .invoke name line hts⟩
    | keyword k =>
      cases k with
      | primitive solid =>
        cases hafter
        exact ⟨_, by simp [Keyword.token], .draw solid line hts⟩
      | set =>
        cases inRule with
        | false => cases hafter
        | true =>
          cases hts with
          | more => cases hafter
          | none =>
            obtain ⟨key, front, rfl, hkey⟩ := bind_next_eq_ok hafter
            obtain ⟨setting, last, hset, hlast⟩ := bind_eq_ok hkey
            cases hlast
            obtain ⟨us, rfl, hus⟩ := sound_setting hset
            exact ⟨_, rfl, .set line rfl hus⟩
      | _ => cases hafter
  complete := by
    rintro scope front value rest h ⟨hcomma, htimes⟩
    cases h with
    | draw solid line h =>
      rw [List.append_assoc, action, Reads.bind_ok reads_loops h (fun _ => rfl)]
      rfl
    | invoke name line h =>
      rw [List.append_assoc, List.singleton_append, action,
        Reads.bind_ok reads_loops h (noLoop_name name line htimes)]
      rfl
    | @set ts setting line hr h =>
      subst hr
      obtain ⟨k, -, line', front, rfl, hset⟩ := complete_setting h fun _ _ => hcomma
      have heffect : effect true false scope
          (Keyword.set.token line :: k.token line' :: (front ++ rest)) =
            .ok ((.set setting, line), rest) := by
        rw [effect, bind_next]
        dsimp only [Keyword.token]
        rw [if_pos rfl, if_neg Bool.false_ne_true, bind_next]
        exact (Parser.bind_ok hset).trans rfl
      rw [List.cons_append, List.cons_append, action, Parser.bind_ok (many_of_not rfl)]
      exact Parser.bind_ok heffect

theorem head_loopPhrase {b : Bindings} {ts : List Token} {value : Loop Matrix}
    (h : LoopPhrase b ts value) :
    ∃ t more, ts = t :: more ∧ ∀ k, t.lexeme = .keyword k → k = .openBrace := by
  cases h with
  | counted line hx _ _ =>
    obtain ⟨t, rfl, hk⟩ := exists_of_numberPhrase hx
    exact ⟨t, _, rfl, fun k he => absurd he (hk k)⟩
  | once h =>
    obtain ⟨line, line', h⟩ := h
    exact ⟨_, _, rfl, fun k he => (Lexeme.keyword.inj he).symm⟩

theorem head_actionPhrase {b : Bindings} {inRule : Bool} {ts : List Token} {value : Action Matrix}
    (h : ActionPhrase b inRule ts value) :
    ∃ t more, ts = t :: more ∧ ∀ k, t.lexeme = .keyword k →
      k = .openBrace ∨ (∃ solid, k = .primitive solid) ∨ (k = .set ∧ inRule) := by
  have behind {us : List Token} {loops : List (Loop Matrix)} {t : Token}
      (hl : RepeatedPhrase (LoopPhrase b) us loops)
      (ht : ∀ k, t.lexeme = .keyword k → ∃ solid, k = .primitive solid) :
      ∃ u more, us ++ [t] = u :: more ∧ ∀ k, u.lexeme = .keyword k →
        k = .openBrace ∨ (∃ solid, k = .primitive solid) ∨ (k = .set ∧ inRule) := by
    cases hl with
    | none => exact ⟨t, [], rfl, fun k he => .inr (.inl (ht k he))⟩
    | more hloop _ =>
      obtain ⟨u, more, rfl, hu⟩ := head_loopPhrase hloop
      exact ⟨u, _, rfl, fun k he => .inl (hu k he)⟩
  cases h with
  | draw solid line h => exact behind h fun k he => ⟨solid, (Lexeme.keyword.inj he).symm⟩
  | invoke name line h => exact behind h nofun
  | set line hr h =>
    exact ⟨_, _, rfl, fun k he => .inr (.inr ⟨(Lexeme.keyword.inj he).symm, hr⟩)⟩

theorem endsAction_of_actionPhrase {b : Bindings} {inRule : Bool} {ts : List Token}
    {value : Action Matrix} (rest : List Token) (h : ActionPhrase b inRule ts value) :
    endsAction b (ts ++ rest) := by
  obtain ⟨t, more, rfl, ht⟩ := head_actionPhrase h
  constructor
  · rintro u hu he
    cases hu
    obtain hk | ⟨solid, hk⟩ | ⟨hk, -⟩ := ht _ he <;> cases hk
  · rintro u hu he
    cases hu
    obtain hk | ⟨solid, hk⟩ | ⟨hk, -⟩ := ht _ he <;> cases hk

theorem repeats_ruleAction :
    Repeats unclosedAhead (action true) (fun b => ActionPhrase b true) endsAction where
  sound _ h := (reads_action true).sound h
  complete := (reads_action true).complete
  begins := by
    intro scope front value rest h
    obtain ⟨t, more, rfl, ht⟩ := head_actionPhrase h
    refine unclosedAhead_of_ne fun he => ?_
    obtain hk | ⟨solid, hk⟩ | ⟨hk, -⟩ := ht _ he <;> cases hk
  next := endsAction_of_actionPhrase

theorem actionAhead_eq_false_iff : actionAhead scope rest = false ↔ EndsActions rest := by
  cases rest with
  | nil => simp [actionAhead, EndsActions]
  | cons t rest =>
    obtain ⟨lexeme, line⟩ := t
    cases lexeme with
    | number | color | name => simp [actionAhead, EndsActions]
    | keyword k => cases k <;> simp [actionAhead, EndsActions]

theorem repeats_initialAction :
    Repeats actionAhead (action false) (fun b => ActionPhrase b false) endsAction where
  sound _ h := (reads_action false).sound h
  complete := (reads_action false).complete
  begins := by
    intro scope front value rest h
    obtain ⟨t, more, rfl, ht⟩ := head_actionPhrase h
    refine Bool.not_eq_false _ |>.mp fun he => ?_
    obtain hk | hk | hk := actionAhead_eq_false_iff.1 he t rfl
    · obtain hset | ⟨solid, hset⟩ | ⟨-, hr⟩ := ht _ hk
      · cases hset
      · cases hset
      · cases hr
    · obtain hrule | ⟨solid, hrule⟩ | ⟨hrule, -⟩ := ht _ hk <;> cases hrule
    · obtain hdefine | ⟨solid, hdefine⟩ | ⟨hdefine, -⟩ := ht _ hk <;> cases hdefine
  next := endsAction_of_actionPhrase

end SceneGrammar.Parser

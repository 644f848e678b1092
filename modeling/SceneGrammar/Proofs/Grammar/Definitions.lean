import SceneGrammar.Proofs.Grammar.Acceptance

/-!
# Where definitions stand

The word that begins a definition is in no other phrase. So a program is split at every definition:
what stands before it is read without regard to it and to what follows.
-/

namespace SceneGrammar

/-- No definition begins among these tokens. -/
def Defineless (tokens : List Token) : Prop := ∀ t ∈ tokens, t.lexeme ≠ .keyword .define

theorem defineless_nil : Defineless [] := nofun

theorem defineless_cons {t : Token} {ts : List Token} :
    Defineless (t :: ts) ↔ t.lexeme ≠ .keyword .define ∧ Defineless ts :=
  List.forall_mem_cons

theorem Keyword.defineless_token {k : Keyword} {line : Nat} {ts : List Token} (h : k ≠ .define)
    (hts : Defineless ts) : Defineless (k.token line :: ts) :=
  defineless_cons.2 ⟨fun he => h (Lexeme.keyword.inj he), hts⟩

theorem Keyword.defineless_singleton {k : Keyword} {line : Nat} (h : k ≠ .define) :
    Defineless [k.token line] :=
  Keyword.defineless_token h defineless_nil

theorem Defineless.append {ts us : List Token} (hts : Defineless ts) (hus : Defineless us) :
    Defineless (ts ++ us) :=
  List.forall_mem_append.2 ⟨hts, hus⟩

theorem defineless_name (name : String) (line : Nat) : Defineless [⟨.name name, line⟩] :=
  defineless_cons.2 ⟨nofun, defineless_nil⟩

variable {b : Bindings} {ts : List Token}

theorem OptionalPhrase.defineless {k : Keyword} (h : OptionalPhrase k ts) (hk : k ≠ .define) :
    Defineless ts := by
  cases h with
  | absent => exact defineless_nil
  | present line => exact Keyword.defineless_singleton hk

theorem RepeatedPhrase.defineless {α : Type} {Phrase : List Token → α → Prop} {as : List α}
    (hp : ∀ {ts : List Token} {a : α}, Phrase ts a → Defineless ts)
    (h : RepeatedPhrase Phrase ts as) : Defineless ts := by
  induction h with
  | none => exact defineless_nil
  | more h _ ih => exact (hp h).append ih

/-! ## Operands and settings -/

theorem NumberPhrase.defineless {x : Float} (h : NumberPhrase b ts x) : Defineless ts := by
  cases h with
  | literal => exact defineless_cons.2 ⟨nofun, defineless_nil⟩
  | bound _ line => exact defineless_name _ line

theorem ColorPhrase.defineless {c : Rgba} (h : ColorPhrase b ts c) : Defineless ts := by
  cases h with
  | literal => exact defineless_cons.2 ⟨nofun, defineless_nil⟩
  | bound _ line => exact defineless_name _ line

theorem IntegerPhrase.defineless {n : Int} (h : IntegerPhrase b ts n) : Defineless ts := by
  cases h with
  | nearest h => exact h.defineless

theorem NaturalPhrase.defineless {n : Nat} (h : NaturalPhrase b ts n) : Defineless ts := by
  cases h with
  | integer h _ => exact h.defineless

theorem DepthPhrase.defineless {n : UInt32} (h : DepthPhrase b ts n) : Defineless ts := by
  cases h with
  | natural h => exact h.defineless

theorem NumbersPhrase.defineless {Between : List Token → Prop}
    (hp : ∀ {ts : List Token}, Between ts → Defineless ts) {count : Nat} {v : Vector Float count}
    (h : NumbersPhrase b Between count ts v) : Defineless ts := by
  induction count generalizing ts with
  | zero =>
    obtain rfl : ts = [] := h
    exact defineless_nil
  | succ count ih =>
    cases count with
    | zero =>
      obtain ⟨x, hx, -⟩ := h
      exact hx.defineless
    | succ count =>
      obtain ⟨front, between, back, before, x, rfl, hfront, hbetween, hback, -⟩ := h
      exact (ih hfront).append ((hp hbetween).append hback.defineless)

theorem VectorPhrase.defineless {count : Nat} {v : Vector Float count}
    (h : VectorPhrase b count ts v) : Defineless ts := by
  cases h with
  | brackets h line line' =>
    have hnumbers := h.defineless fun hcomma => hcomma.defineless nofun
    exact Keyword.defineless_token nofun
      (hnumbers.append (Keyword.defineless_singleton nofun))

theorem NextColorPhrase.defineless {c : Rgba} (h : NextColorPhrase b ts c) : Defineless ts := by
  cases h with
  | comma line h => exact Keyword.defineless_token nofun h.defineless

theorem PoolPhrase.defineless {pool : Pool} (h : PoolPhrase b ts pool) : Defineless ts := by
  cases h with
  | randomHue line | randomRgb line | greyscale line =>
    exact Keyword.defineless_singleton nofun
  | list line hc hf hm =>
    exact Keyword.defineless_token nofun ((hc.defineless nofun).append
      (hf.defineless.append (hm.defineless NextColorPhrase.defineless)))

theorem SettingPhrase.defineless {setting : Setting} (h : SettingPhrase b ts setting) :
    Defineless ts := by
  cases h with
  | maxDepth line h | maxObjects line h | minSize line h | maxSize line h | seed line h
  | pool line h => exact Keyword.defineless_token nofun h.defineless
  | initialSeed line line' =>
    exact Keyword.defineless_token nofun (Keyword.defineless_singleton nofun)

theorem DirectivePhrase.defineless {directive : Directive} (h : DirectivePhrase b ts directive) :
    Defineless ts := by
  cases h with
  | background line h | offset line h | rotation line h | pivot line h | scale line h =>
    exact Keyword.defineless_token nofun h.defineless
  | setting h => exact h.defineless

/-! ## Actions and rules -/

theorem OperationPhrase.defineless {operation : Operation} (h : OperationPhrase b ts operation) :
    Defineless ts := by
  cases h with
  | move _ line h | turn _ line h | stretch line h | hue line h | saturation line h
  | brightness line h | alpha line h | absolute line h =>
    exact Keyword.defineless_token nofun h.defineless
  | stretchEach line hx hy hz =>
    exact Keyword.defineless_token nofun
      (hx.defineless.append (hy.defineless.append hz.defineless))
  | linear line h =>
    have hgap {ts : List Token} (he : ts = []) : Defineless ts := he ▸ defineless_nil
    exact Keyword.defineless_token nofun (h.defineless hgap)
  | reflect _ line => exact Keyword.defineless_singleton nofun
  | random line line' =>
    exact Keyword.defineless_token nofun (Keyword.defineless_singleton nofun)
  | blend line hc hx =>
    exact Keyword.defineless_token nofun (hc.defineless.append hx.defineless)

theorem BlockPhrase.defineless {operations : List Operation} (h : BlockPhrase b ts operations) :
    Defineless ts := by
  cases h with
  | braces line line' h =>
    exact Keyword.defineless_token nofun
      ((h.defineless OperationPhrase.defineless).append (Keyword.defineless_singleton nofun))

theorem LoopPhrase.defineless {loop : Loop Matrix} (h : LoopPhrase b ts loop) : Defineless ts := by
  cases h with
  | counted line hx _ h =>
    exact hx.defineless.append (Keyword.defineless_token nofun h.defineless)
  | once h => exact h.defineless

theorem ActionPhrase.defineless {inRule : Bool} {action : Action Matrix}
    (h : ActionPhrase b inRule ts action) : Defineless ts := by
  cases h with
  | draw solid line h =>
    exact (h.defineless LoopPhrase.defineless).append (Keyword.defineless_singleton nofun)
  | invoke name line h =>
    exact (h.defineless LoopPhrase.defineless).append (defineless_name name line)
  | set line _ h => exact Keyword.defineless_token nofun h.defineless

theorem ModifierPhrase.defineless {modifier : Modifier} (h : ModifierPhrase b ts modifier) :
    Defineless ts := by
  cases h with
  | weight line h _ | depth line h => exact Keyword.defineless_token nofun h.defineless
  | depthThen next line line' line'' h =>
    exact Keyword.defineless_token nofun (h.defineless.append
      (Keyword.defineless_token nofun (defineless_name next line'')))

theorem BodyPhrase.defineless {actions : List (Action Matrix)} (h : BodyPhrase b ts actions) :
    Defineless ts := by
  cases h with
  | braces line line' h _ =>
    exact Keyword.defineless_token nofun
      ((h.defineless ActionPhrase.defineless).append (Keyword.defineless_singleton nofun))

theorem InitialPhrase.defineless {construct : Construct} (h : InitialPhrase b ts construct) :
    Defineless ts := by
  cases h with
  | actions h _ => exact h.defineless ActionPhrase.defineless

/-- A definition begins with its only word of that kind, and all other constructs are without. -/
theorem ConstructPhrase.defineless_tail {construct : Construct} (h : ConstructPhrase b ts construct) :
    Defineless ts.tail := by
  cases h with
  | directive line h => exact h.defineless
  | define h => cases h <;> exact defineless_cons.2 ⟨nofun, defineless_cons.2 ⟨nofun, defineless_nil⟩⟩
  | rule name line line' hm h =>
    exact (defineless_name name line').append
      ((hm.defineless ModifierPhrase.defineless).append h.defineless)

/-! ## Programs -/

theorem Defineless.tail (h : Defineless ts) : Defineless ts.tail :=
  fun t ht => h t (List.mem_of_mem_tail ht)

/-- A definition does not begin inside a construct, only with it or behind it. -/
theorem Defineless.append_eq_cases {before rest us : List Token} {line : Nat}
    (h : Defineless ts.tail) (he : before ++ Keyword.define.token line :: rest = ts ++ us) :
    before = [] ∨
      ∃ inner, before = ts ++ inner ∧ inner ++ Keyword.define.token line :: rest = us := by
  rcases List.append_eq_append_iff.1 he with ⟨inner, rfl, hinner⟩ | ⟨inner, rfl, rfl⟩
  · cases inner with
    | nil => exact .inr ⟨[], by rw [List.append_nil, List.append_nil], hinner⟩
    | cons t inner =>
      obtain ⟨rfl, rfl⟩ := List.cons.inj hinner
      cases before with
      | nil => exact .inl rfl
      | cons first before =>
        exact absurd rfl (h _ (List.mem_append_right before List.mem_cons_self))
  · exact .inr ⟨inner, rfl, rfl⟩

theorem EndsActions.append_define {front rest : List Token} {line : Nat}
    (h : EndsActions (front ++ Keyword.define.token line :: rest)) (rest' : List Token) :
    EndsActions (front ++ Keyword.define.token line :: rest') := by
  cases front with
  | nil => exact fun t ht => h t ht
  | cons first front => exact h

/-- Up to a definition a program is read without regard to what is defined there and follows. -/
theorem ProgramPhrase.exists_before_define {d : Draft} {before rest : List Token} {line : Nat}
    {program : Program Matrix}
    (h : ProgramPhrase d (before ++ Keyword.define.token line :: rest) program) :
    ∃ d', ProgramPhrase d' (Keyword.define.token line :: rest) program ∧
      ∀ rest' program', ProgramPhrase d' (Keyword.define.token line :: rest') program' →
        ProgramPhrase d (before ++ Keyword.define.token line :: rest') program' := by
  generalize htokens : before ++ Keyword.define.token line :: rest = tokens at h
  induction h generalizing before with
  | done d => cases List.append_ne_nil_of_right_ne_nil _ (List.cons_ne_nil _ _) htokens
  | @construct d ts us construct program h hs ih =>
    rcases h.defineless_tail.append_eq_cases htokens with rfl | ⟨inner, rfl, rfl⟩
    · have hwhole := ProgramPhrase.construct h hs
      rw [← htokens] at hwhole
      exact ⟨d, hwhole, fun _ _ h' => h'⟩
    · obtain ⟨d', hd', hbefore⟩ := ih rfl
      refine ⟨d', hd', fun rest' program' h' => ?_⟩
      rw [List.append_assoc]
      exact .construct h (hbefore rest' program' h')
  | @initial d ts us construct program h he hs ih =>
    rcases h.defineless.tail.append_eq_cases htokens with rfl | ⟨inner, rfl, rfl⟩
    · have hwhole := ProgramPhrase.initial h he hs
      rw [← htokens] at hwhole
      exact ⟨d, hwhole, fun _ _ h' => h'⟩
    · obtain ⟨d', hd', hbefore⟩ := ih rfl
      refine ⟨d', hd', fun rest' program' h' => ?_⟩
      rw [List.append_assoc]
      exact .initial h (he.append_define rest') (hbefore rest' program' h')

end SceneGrammar

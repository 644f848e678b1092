import SceneGrammar.Compile

/-!
# Anonymous rules change no setting

Outside the named rules the parser takes `set` for a directive, never for an action. So the settings
of a compiled program change only where a named rule is being done.
-/

namespace SceneGrammar

namespace Action
variable {M : Type}

def KeepsSettings (a : Action M) : Prop := ∀ setting, a.effect ≠ .set setting

end Action

namespace Rule
variable {M : Type}

def KeepsSettings (r : Rule M) : Prop := ∀ action ∈ r.actions, action.KeepsSettings

end Rule

namespace Parser
variable {α β : Type}

def Yields (P : α → Prop) (p : Parser α) : Prop :=
  ∀ ⦃scope tokens a rest⦄, p scope tokens = .ok (a, rest) → P a

theorem yields_pure {P : α → Prop} {a : α} (h : P a) : Yields P (pure a) := fun _ _ _ _ he => by
  cases he
  exact h

theorem yields_fail {P : α → Prop} (fault : SyntaxFault) (line : Nat) :
    Yields P (fail fault line) := fun _ _ _ _ he => nomatch he

theorem yields_bind {P : α → Prop} {Q : β → Prop} {p : Parser α} {f : α → Parser β}
    (hp : Yields P p) (hf : ∀ a, P a → Yields Q (f a)) : Yields Q (p >>= f) := fun _ _ _ _ he => by
  obtain ⟨a, middle, ha, hb⟩ := bind_eq_ok he
  exact hf a (hp ha) hb

theorem yields_after {Q : β → Prop} {p : Parser α} {f : α → Parser β}
    (hf : ∀ a, Yields Q (f a)) : Yields Q (p >>= f) :=
  yields_bind (P := fun _ => True) (fun _ _ _ _ _ => trivial) fun a _ => hf a

theorem yields_many {P : α → Prop} {begins : Scope → List Token → Bool} {p : Parser α}
    {h : Advances p} (hp : Yields P p) : Yields (fun as => ∀ a ∈ as, P a) (many begins p h) := by
  intro scope tokens as rest hm
  cases hb : begins scope tokens with
  | false =>
    rw [many_of_not hb] at hm
    cases hm
    exact fun _ ha => nomatch ha
  | true =>
    rw [many_of_begins hb] at hm
    obtain ⟨a, middle, ha, hm⟩ := bind_eq_ok hm
    obtain ⟨later, last, hlater, hm⟩ := bind_eq_ok hm
    cases hm
    have := (h ha).2
    exact List.forall_mem_cons.2 ⟨hp ha, yields_many hp hlater⟩
termination_by _ tokens => tokens.length

theorem yields_effect (looped : Bool) :
    Yields (fun read => ∀ setting, read.1 ≠ Effect.set setting) (effect false looped) :=
  yields_after fun t => by
    split
    · exact yields_pure fun _ h => nomatch h
    · exact yields_pure fun _ h => nomatch h
    · exact yields_fail _ _
    · exact yields_fail _ _

theorem yields_action : Yields Action.KeepsSettings (action false) :=
  yields_after fun _ => yields_bind (yields_effect _) fun _ he => yields_pure he

end Parser

namespace Construct

/-- A rule that stands here without a name. -/
def KeepsSettings : Construct → Prop
  | .rule _ r => r.name = none → r.KeepsSettings
  | _ => True

end Construct

namespace Parser

theorem yields_initialRule : Yields Construct.KeepsSettings initialRule :=
  yields_bind yields_action fun _ hfirst => yields_bind (yields_many yields_action) fun _ hmore =>
    yields_pure fun _ => List.forall_mem_cons.2 ⟨hfirst, hmore⟩

theorem yields_rule : Yields Construct.KeepsSettings rule :=
  yields_after fun _ => yields_after fun _ => yields_after fun _ => yields_after fun _ =>
    yields_pure fun h => nomatch h

theorem yields_construct : Yields Construct.KeepsSettings construct :=
  yields_after fun anonymous => by
    cases anonymous with
    | true => exact yields_initialRule
    | false =>
      refine yields_after fun t => ?_
      split
      · exact yields_after fun _ => yields_pure trivial
      · exact yields_rule
      · exact yields_after fun _ => yields_pure trivial

end Parser

namespace Program

def AnonymousKeepSettings {M : Type} (p : Program M) : Prop :=
  ∀ rule ∈ p.initial, rule.KeepsSettings

theorem anonymousKeepSettings_add {draft : Draft} {construct : Construct}
    (hd : draft.program.AnonymousKeepSettings) (hc : construct.KeepsSettings) :
    (draft.add construct).program.AnonymousKeepSettings := by
  cases construct with
  | directive directive => exact hd
  | define name value => exact hd
  | rule weight rule =>
    cases hn : rule.name with
    | some name =>
      simp only [Draft.add, addRule, hn]
      exact hd
    | none =>
      simp only [Draft.add, addRule, hn]
      intro other ho
      rcases List.mem_append.1 ho with ho | ho
      · exact hd other ho
      · rw [List.mem_singleton.1 ho]
        exact hc hn

theorem anonymousKeepSettings_of_compile {source : String} {p : Program Matrix}
    (h : compile source = .ok p) : p.AnonymousKeepSettings := by
  unfold compile ParsedSource.compile at h
  split at h
  · cases h
    have hblank : Draft.blank.program.AnonymousKeepSettings := fun _ hr => nomatch hr
    exact parseFrom_keeps (fun hread hd =>
      anonymousKeepSettings_add hd (Parser.yields_construct hread)) hblank
  · cases h

end Program

end SceneGrammar

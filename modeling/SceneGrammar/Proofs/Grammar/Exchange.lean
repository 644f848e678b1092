import SceneGrammar.Proofs.Grammar.Failure
import SceneGrammar.Proofs.Program.Regroup

/-!
# Constructs that may be exchanged

Two constructs side by side that set different things, or are rules of different names, leave the
same behind in either order: nothing else is kept of a construct than what it adds. But a list of
colours goes on with a comma, and what stands behind the second comes to stand behind the first.
-/

namespace SceneGrammar

/-! ## Directives -/

def Setting.word : Setting → Keyword
  | .maxDepth _ => .maxDepth
  | .maxObjects _ => .maxObjects
  | .minSize _ => .minSize
  | .maxSize _ => .maxSize
  | .seed _ | .initialSeed => .seed
  | .pool _ => .colorPool

/-- The word for what is set; every field of the camera has its own. -/
def Directive.word : Directive → Keyword
  | .background _ => .background
  | .offset _ => .cameraOffset
  | .rotation _ => .cameraRotation
  | .pivot _ => .pivot
  | .scale _ => .scale
  | .setting x => x.word

theorem Settings.apply_comm (s : Settings) {x y : Setting} (h : x.word ≠ y.word) :
    (s.apply x).apply y = (s.apply y).apply x := by
  cases x <;> cases y <;> first | rfl | exact absurd rfl h

theorem Settings.direct_comm (s : Settings) {x y : Directive} (h : x.word ≠ y.word) :
    (s.direct x).direct y = (s.direct y).direct x := by
  cases x with
  | setting x =>
    cases y with
    | setting y => exact s.apply_comm h
    | _ => cases x <;> rfl
  | _ =>
    cases y with
    | setting y => cases y <;> rfl
    | _ => first | rfl | exact absurd rfl h

/-! ## Independence -/

namespace Construct

/-- Directives for different settings, rules of different names, or one of each. -/
inductive Independent : Construct → Construct → Prop
  | directives {x y : Directive} (h : x.word ≠ y.word) : Independent (.directive x) (.directive y)
  | rules {weight weight' : Float} {r r' : Rule Matrix} (hr : r.name ≠ none) (hr' : r'.name ≠ none)
      (h : r.name ≠ r'.name) : Independent (.rule weight r) (.rule weight' r')
  | directiveRule {x : Directive} {weight : Float} {r : Rule Matrix} (hr : r.name ≠ none) :
      Independent (.directive x) (.rule weight r)
  | ruleDirective {x : Directive} {weight : Float} {r : Rule Matrix} (hr : r.name ≠ none) :
      Independent (.rule weight r) (.directive x)

theorem Independent.symm {x y : Construct} (h : x.Independent y) : y.Independent x := by
  cases h with
  | directives h => exact .directives h.symm
  | rules hr hr' h => exact .rules hr' hr h.symm
  | directiveRule hr => exact .ruleDirective hr
  | ruleDirective hr => exact .directiveRule hr

theorem Independent.definitions_add {x y : Construct} (h : x.Independent y) (d : Draft) :
    (d.add x).definitions = d.definitions := by
  cases h <;> rfl

theorem Independent.regroups_add {x y : Construct} (h : x.Independent y) (d : Draft) :
    ((d.add x).add y).program.Regroups ((d.add y).add x).program := by
  cases h with
  | @directives x y h =>
    have hsettings := d.program.settings.direct_comm h
    simp only [Draft.add, hsettings]
    exact .refl _
  | rules hr hr' h => exact d.program.regroups_addRule_comm hr hr' h
  | @directiveRule x weight r hr =>
    simp only [Draft.add, Program.addRule]
    cases r.name <;> exact .refl _
  | @ruleDirective x weight r hr =>
    simp only [Draft.add, Program.addRule]
    cases r.name <;> exact .refl _

end Construct

theorem Program.Regroups.add {d d' : Draft} (h : d.program.Regroups d'.program)
    (construct : Construct) : (d.add construct).program.Regroups (d'.add construct).program := by
  cases construct with
  | directive directive => exact h.withSettings (Settings.direct · directive)
  | define => exact h
  | rule weight rule => exact h.addRule weight rule

/-! ## Reading -/

theorem EndsActions.notAhead_comma {rest : List Token} (h : EndsActions rest) (b : Bindings) :
    Parser.notAhead .comma b rest := by
  intro t ht he
  obtain hk | hk | hk := h t ht <;> cases hk.symm.trans he

theorem ConstructPhrase.endsActions {b : Bindings} {ts : List Token} {construct : Construct}
    (h : ConstructPhrase b ts construct) (rest : List Token) : EndsActions (ts ++ rest) := by
  intro t ht
  cases h with
  | directive =>
    cases ht
    exact .inl rfl
  | define h => cases h <;> cases ht <;> exact .inr (.inr rfl)
  | rule =>
    cases ht
    exact .inr (.inl rfl)

theorem EndsActions.append_of_append {front rest rest' : List Token}
    (h : EndsActions (front ++ rest)) (hr : EndsActions rest') : EndsActions (front ++ rest') := by
  cases front with
  | nil => exact hr
  | cons t front => exact h

theorem constructPhrase_of_construct {b : Bindings} {lastLine : Nat} {front rest : List Token}
    {x y : Construct} (h : Parser.construct ⟨b, lastLine⟩ (front ++ rest) = .ok (x, rest))
    (hi : x.Independent y) : ConstructPhrase b front x := by
  obtain ⟨front', htokens, hphrase | ⟨hphrase, -⟩⟩ := Parser.sound_construct h
  · rwa [List.append_cancel_right htokens]
  · cases hphrase
    cases hi with
    | rules hr | ruleDirective hr => exact absurd rfl hr

namespace Draft

theorem Reads.notAhead_comma {lastLine : Nat} {d after : Draft} {tokens rest : List Token}
    (h : Reads lastLine d tokens after rest) (he : EndsActions rest) (b : Bindings) :
    Parser.notAhead .comma b tokens := by
  obtain ⟨front, rfl, hphrase⟩ := h.exists_programPhrase
  cases front with
  | nil => exact he.notAhead_comma b
  | cons t front => exact notAhead_comma_of_programPhrase hphrase b

/-- What is read up to the beginning of a construct is read there whatever construct it is. -/
theorem Reads.exists_front {lastLine : Nat} {d after : Draft} {tokens rest : List Token}
    (h : Reads lastLine d tokens after rest) (he : EndsActions rest) :
    ∃ front, tokens = front ++ rest ∧ ∀ lastLine' rest', EndsActions rest' →
      Reads lastLine' d (front ++ rest') after rest' := by
  induction h with
  | stop d tokens => exact ⟨[], rfl, fun _ rest' _ => .stop d rest'⟩
  | @construct d after tokens more rest construct h _ ih =>
    obtain ⟨back, rfl, hback⟩ := ih he
    obtain ⟨front, rfl, hfront⟩ := Parser.sound_construct h
    refine ⟨front ++ back, by rw [List.append_assoc], fun lastLine' rest' he' => ?_⟩
    have hlater := hback lastLine' rest' he'
    rw [List.append_assoc]
    rcases hfront with hfront | ⟨hfront, hend⟩
    · exact .construct (Parser.complete_construct hfront fun _ _ => hlater.notAhead_comma he' _) hlater
    · exact .construct (Parser.complete_initial hfront (hend.append_of_append he')) hlater

end Draft

theorem parseFrom_of_reads {lastLine : Nat} {d after : Draft} {tokens rest : List Token}
    (h : d.Reads lastLine tokens after rest) :
    parseFrom lastLine d tokens = parseFrom lastLine after rest := by
  induction h with
  | stop => rfl
  | construct h _ ih => rw [parseFrom_of_construct h, ih]

/-- Only the definitions of a draft have a say in what is read. -/
theorem parseFrom_regroups {lastLine : Nat} {d d' : Draft} {tokens : List Token}
    (hd : d.definitions = d'.definitions) (h : d.program.Regroups d'.program) :
    (parseFrom lastLine d tokens).1.Regroups (parseFrom lastLine d' tokens).1 ∧
      (parseFrom lastLine d tokens).2 = (parseFrom lastLine d' tokens).2 := by
  fun_induction parseFrom lastLine d tokens generalizing d' with
  | case1 d =>
    rw [parseFrom, if_pos rfl]
    exact ⟨h, rfl⟩
  | case2 d tokens hne e hread =>
    rw [hd] at hread
    rw [parseFrom_of_error hne hread]
    exact ⟨h, rfl⟩
  | case3 d tokens hne construct rest hread _ ih =>
    rw [hd] at hread
    rw [parseFrom_of_construct hread]
    refine ih ?_ (h.add construct)
    cases construct with
    | define name value => exact congrArg ((name, value) :: ·) hd
    | directive | rule => exact hd

theorem lastLine_append (front : List Token) {rest : List Token} (h : rest ≠ []) :
    lastLine (front ++ rest) = lastLine rest := by
  rw [lastLine, lastLine, List.getLast?_append, List.getLast?_eq_some_getLast h]
  rfl

/-! ## Exchange -/

/-- Behind what is read into the draft stand two constructs that are read whole. -/
structure Adjacent (before first second after : List Token) (x y : Construct) (d : Draft) :
    Prop where
  reads : Draft.Reads (lastLine (before ++ (first ++ (second ++ after)))) .blank
    (before ++ (first ++ (second ++ after))) d (first ++ (second ++ after))
  reads_first : Parser.construct
    ⟨d.definitions, lastLine (before ++ (first ++ (second ++ after)))⟩
    (first ++ (second ++ after)) = .ok (x, second ++ after)
  reads_second : Parser.construct
    ⟨(d.add x).definitions, lastLine (before ++ (first ++ (second ++ after)))⟩
    (second ++ after) = .ok (y, after)

namespace Adjacent

variable {before first second after : List Token} {x y : Construct} {d : Draft}

theorem exchange (h : Adjacent before first second after x y d) (hi : x.Independent y)
    (hc : ∀ colors, x = .directive (.setting (.pool (.list colors))) →
      Parser.notAhead .comma d.definitions after) :
    Adjacent before second first after y x d := by
  have hfirst := constructPhrase_of_construct h.reads_first hi
  have hsecond := constructPhrase_of_construct h.reads_second hi.symm
  rw [hi.definitions_add] at hsecond
  obtain ⟨front, htokens, hreads⟩ := h.reads.exists_front (hfirst.endsActions _)
  obtain rfl := List.append_cancel_right htokens
  refine ⟨hreads _ _ (hsecond.endsActions _), ?_, ?_⟩
  · exact Parser.complete_construct hsecond fun _ _ => (hfirst.endsActions _).notAhead_comma _
  · rw [hi.symm.definitions_add]
    exact Parser.complete_construct hfirst hc

theorem parseTokens_eq (h : Adjacent before first second after x y d) :
    parseTokens (before ++ (first ++ (second ++ after))) =
      parseFrom (lastLine (before ++ (first ++ (second ++ after)))) ((d.add x).add y) after := by
  rw [parseTokens, parseFrom_of_reads h.reads, parseFrom_of_construct h.reads_first,
    parseFrom_of_construct h.reads_second]

theorem parseTokens_regroups (h : Adjacent before first second after x y d) (hi : x.Independent y)
    (hc : ∀ colors, x = .directive (.setting (.pool (.list colors))) →
      Parser.notAhead .comma d.definitions after) :
    (parseTokens (before ++ (first ++ (second ++ after)))).1.Regroups
        (parseTokens (before ++ (second ++ (first ++ after)))).1 ∧
      (parseTokens (before ++ (first ++ (second ++ after)))).2 =
        (parseTokens (before ++ (second ++ (first ++ after)))).2 := by
  rw [h.parseTokens_eq, (h.exchange hi hc).parseTokens_eq]
  have hregroups := hi.regroups_add d
  have hdefinitions : ((d.add x).add y).definitions = ((d.add y).add x).definitions := by
    rw [hi.symm.definitions_add, hi.definitions_add, hi.definitions_add, hi.symm.definitions_add]
  by_cases hafter : after = []
  · -- nothing is left to be read, so it does not matter that the last line may be another
    subst hafter
    rw [parseFrom, if_pos rfl, parseFrom, if_pos rfl]
    exact ⟨hregroups, rfl⟩
  · have hline (front back : List Token) :
        lastLine (before ++ (front ++ (back ++ after))) = lastLine after := by
      rw [← List.append_assoc, ← List.append_assoc, lastLine_append _ hafter]
    rw [hline, hline]
    exact parseFrom_regroups hdefinitions hregroups

end Adjacent

end SceneGrammar

import SceneGrammar.Proofs.Expansion.Safety
import SceneGrammar.Proofs.Grammar.Anonymous
import SceneGrammar.Proofs.Program.Groups

/-!
# Loops are done at least once

A count before a loop is rounded and refused below one, and a block without a count is done once. So
no loop of a compiled program is empty.
-/

namespace SceneGrammar

def Loop.Repeats {M : Type} (loop : Loop M) : Prop := 1 ≤ loop.repetitions.toNat

namespace Rule
variable {M : Type}

def Repeats (r : Rule M) : Prop := ∀ action ∈ r.actions, ∀ loop ∈ action.loops, loop.Repeats

end Rule

theorem repetitions_pos {count : Float} {n : UInt32} (h : repetitions? count = some n) :
    1 ≤ n.toNat := by
  have hgreatest : (UInt32.ofNat (UInt32.size - 1)).toNat = UInt32.size - 1 := rfl
  have hsize : 1 < UInt32.size := by decide
  unfold repetitions? at h
  split at h
  · cases h
    omega
  · cases h
    omega
  · cases h
  · rename_i x hx
    split at h
    · cases h
    · rename_i hround
      cases h
      have hlt : min x.round.toNat (UInt32.size - 1) < UInt32.size := by omega
      rw [UInt32.toNat_ofNat_of_lt' hlt]
      omega

namespace Parser

theorem yields_repetitions (count : Float) (line : Nat) :
    Yields (fun n => 1 ≤ n.toNat) (repetitions count line) := by
  unfold repetitions
  cases hn : repetitions? count with
  | none => exact yields_fail _ _
  | some n => exact yields_pure (repetitions_pos hn)

theorem yields_loop_repeats : Yields Loop.Repeats loop :=
  yields_after fun t => yields_after fun _ => by
    split
    · exact yields_bind (yields_repetitions _ _) fun _ hn => yields_after fun _ =>
        yields_after fun _ => yields_pure hn
    · exact yields_after fun _ => yields_pure (Nat.le_refl 1)

theorem yields_action_repeats (inRule : Bool) :
    Yields (fun action => ∀ loop ∈ action.loops, loop.Repeats) (action inRule) :=
  yields_bind (yields_many yields_loop_repeats) fun _ hloops => yields_after fun _ =>
    yields_pure hloops

theorem yields_body_repeats (opened : Nat) :
    Yields (fun actions => ∀ action ∈ actions, ∀ loop ∈ action.loops, loop.Repeats)
      (body opened) :=
  yields_bind (yields_many (yields_action_repeats true)) fun _ hactions => yields_after fun _ => by
    split
    · split
      · exact yields_fail _ _
      · exact yields_pure hactions
    · exact yields_after fun _ => yields_fail _ _

end Parser

def Construct.Repeats : Construct → Prop
  | .rule _ r => r.Repeats
  | _ => True

namespace Parser

theorem yields_rule_repeats : Yields Construct.Repeats rule :=
  yields_after fun _ => yields_after fun _ => yields_after fun _ =>
    yields_bind (yields_body_repeats _) fun _ hactions => yields_pure hactions

theorem yields_initialRule_repeats : Yields Construct.Repeats initialRule :=
  yields_bind (yields_action_repeats false) fun _ hfirst =>
    yields_bind (yields_many (yields_action_repeats false)) fun _ hmore =>
      yields_pure (List.forall_mem_cons.2 ⟨hfirst, hmore⟩)

theorem yields_construct_repeats : Yields Construct.Repeats construct :=
  yields_after fun anonymous => by
    cases anonymous with
    | true => exact yields_initialRule_repeats
    | false =>
      refine yields_after fun t => ?_
      split
      · exact yields_after fun _ => yields_pure trivial
      · exact yields_rule_repeats
      · exact yields_after fun _ => yields_pure trivial

end Parser

namespace Program
variable {M : Type}

theorem repeats_add {draft : Draft} {construct : Construct}
    (hd : ∀ rule ∈ draft.program.rules, rule.Repeats) (hc : construct.Repeats) :
    ∀ rule ∈ (draft.add construct).program.rules, rule.Repeats := by
  cases construct with
  | directive directive => exact hd
  | define name value => exact hd
  | rule weight rule =>
    intro other hother
    have hcases := (draft.program.perm_rules_addRule weight rule).mem_iff.1 hother
    rcases List.mem_cons.1 hcases with rfl | hother
    · exact hc
    · exact hd other hother

theorem repeats_of_compile {source : String} {p : Program Matrix} (h : compile source = .ok p) :
    ∀ rule ∈ p.rules, rule.Repeats := by
  unfold compile ParsedSource.compile at h
  split at h
  · cases h
    have hblank : ∀ rule ∈ Draft.blank.program.rules, rule.Repeats := fun _ hr => nomatch hr
    have hread : ∀ rule ∈ (parseSource source).program.rules, rule.Repeats :=
      parseFrom_keeps (P := fun p => ∀ rule ∈ p.rules, rule.Repeats)
        (fun hread hd => repeats_add hd (Parser.yields_construct_repeats hread)) hblank
    have hrules : (parseSource source).program.normalize.rules =
        (parseSource source).program.rules := by
      rw [rules, variants_normalize]
      rfl
    rwa [hrules]
  · cases h

end Program

end SceneGrammar

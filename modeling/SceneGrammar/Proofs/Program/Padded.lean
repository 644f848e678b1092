import Mathlib.Data.List.Forall2
import SceneGrammar.Proofs.Program.Variants

/-!
# Programs with trivial loops

An action without loops may be given one that is done once with a transformation that changes
nothing, as the empty block in a source text is. A padded program has such loops in any number of
places and is the same in all else, so the choices among its variants are the same.
-/

namespace SceneGrammar

namespace Loop
variable {M : Type} [One M]

/-- What an empty block is read as. -/
def once : Loop M := ⟨1, .identity⟩

end Loop

namespace Action
variable {M : Type} [One M]

def Padded (a b : Action M) : Prop := b = a ∨ a.loops = [] ∧ b = { a with loops := [.once] }

instance [DecidableEq M] (a b : Action M) : Decidable (a.Padded b) :=
  inferInstanceAs (Decidable (_ ∨ _))

theorem Padded.effect {a b : Action M} (h : a.Padded b) : b.effect = a.effect := by
  obtain rfl | ⟨-, rfl⟩ := h <;> rfl

theorem Padded.line {a b : Action M} (h : a.Padded b) : b.line = a.line := by
  obtain rfl | ⟨-, rfl⟩ := h <;> rfl

end Action

namespace Rule
variable {M : Type} [One M]

def Padded (r s : Rule M) : Prop :=
  s.name = r.name ∧ s.depthLimit = r.depthLimit ∧ List.Forall₂ Action.Padded r.actions s.actions

instance [DecidableEq M] (r s : Rule M) : Decidable (r.Padded s) :=
  inferInstanceAs (Decidable (_ ∧ _))

end Rule

namespace Roulette
variable {κ α β : Type}

/-- The slots of two wheels have the same weights and hold items in a relation. -/
def Alike (R : α → β → Prop) (wheel : Roulette κ α) (other : Roulette κ β) : Prop :=
  other.weights = wheel.weights ∧ other.normalized = wheel.normalized ∧
    List.Forall₂ R wheel.items other.items

instance [DecidableEq κ] {R : α → β → Prop} [∀ a b, Decidable (R a b)] (wheel : Roulette κ α)
    (other : Roulette κ β) : Decidable (wheel.Alike R other) :=
  inferInstanceAs (Decidable (_ ∧ _))

theorem Alike.spin_eq [Scalar κ] {R : α → β → Prop} {wheel : Roulette κ α} {other : Roulette κ β}
    (h : wheel.Alike R other) {m : Type → Type} [Monad m] (draw : m κ) :
    other.spin draw = wheel.spin draw := by
  have hslots {γ : Type} (wheel : Roulette κ γ) :
      (wheel.map fun _ => ()) = ⟨wheel.weights.map (⟨·, ()⟩), wheel.normalized⟩ := by
    simp only [map, weights, List.map_map]
    rfl
  rw [← spin_map (fun _ => ()) other, ← spin_map (fun _ => ()) wheel, hslots, hslots, h.1, h.2.1]

end Roulette

theorem rel_getElem?_of_forall₂ {α β : Type} {R : α → β → Prop} {as : List α} {bs : List β}
    (h : List.Forall₂ R as bs) (i : Nat) : Option.Rel R as[i]? bs[i]? := by
  induction h generalizing i with
  | nil => exact .none
  | cons hab _ ih =>
    cases i with
    | zero => exact .some hab
    | succ i => exact ih i

namespace Program
variable {M : Type} [One M]

def Padded (p q : Program M) : Prop :=
  q.settings = p.settings ∧ List.Forall₂ Rule.Padded p.initial q.initial ∧
    List.Forall₂ (fun group other => other.1 = group.1 ∧ group.2.Alike Rule.Padded other.2)
      p.groups q.groups

instance [DecidableEq M] (p q : Program M) : Decidable (p.Padded q) :=
  inferInstanceAs (Decidable (_ ∧ _))

theorem Padded.group? {p q : Program M} (h : p.Padded q) (name : String) :
    Option.Rel (Roulette.Alike Rule.Padded) (p.group? name) (q.group? name) := by
  rw [Program.group?, Program.group?]
  have hgroups := h.2.2
  generalize p.groups = groups, q.groups = others at hgroups
  induction hgroups with
  | nil => exact .none
  | @cons group other _ _ hgroup _ ih =>
    rw [List.lookup_cons, List.lookup_cons, hgroup.1]
    cases name == group.1 with
    | false => exact ih
    | true => exact .some hgroup.2

/-- What a pick of one program comes to, that of the other comes to as well. -/
theorem Padded.run_pick {p q : Program M} (h : p.Padded q) (name : String) (line : Option Nat)
    (draw : Draw Float) (g : Generator) :
    (∃ diagnostic g', (p.pick name line draw).run g = (.error diagnostic, g') ∧
      (q.pick name line draw).run g = (.error diagnostic, g')) ∨
    ∃ i rule other g', (p.pick name line draw).run g = (.ok (i, rule), g') ∧
      (q.pick name line draw).run g = (.ok (i, other), g') ∧ rule.Padded other := by
  rw [Program.run_pick, Program.run_pick]
  have hgroup := h.group? name
  generalize p.group? name = found, q.group? name = padded at hgroup
  cases hgroup with
  | none => exact .inl ⟨_, g, rfl, rfl⟩
  | @some group other halike =>
    dsimp only
    rw [halike.spin_eq]
    rcases (group.spin draw).run g with ⟨_ | i, g'⟩
    · exact .inl ⟨_, g', rfl, rfl⟩
    · have hitem := rel_getElem?_of_forall₂ halike.2.2 i
      dsimp only
      generalize group.items[i]? = found, other.items[i]? = padded at hitem
      cases hitem with
      | none => exact .inl ⟨_, g', rfl, rfl⟩
      | some hrule => exact .inr ⟨i, _, _, g', rfl, rfl, hrule⟩

end Program

end SceneGrammar

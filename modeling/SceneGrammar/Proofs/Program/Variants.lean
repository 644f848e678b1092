import SceneGrammar.Proofs.Expansion.Moves

/-!
# Programs with other rules in the same places

A function on rules that goes over a whole program leaves the weights of the variants alone, so the
choices stay what they were.
-/

namespace SceneGrammar

namespace Roulette
variable {κ α β : Type}

def map (f : α → β) (wheel : Roulette κ α) : Roulette κ β :=
  ⟨wheel.slots.map fun slot => ⟨slot.weight, f slot.item⟩, wheel.normalized⟩

theorem items_map (f : α → β) (wheel : Roulette κ α) :
    (wheel.map f).items = wheel.items.map f := by
  simp only [items, map, List.map_map]
  rfl

theorem weights_map (f : α → β) (wheel : Roulette κ α) : (wheel.map f).weights = wheel.weights := by
  simp only [weights, map, List.map_map]
  rfl

theorem isEmpty_map (f : α → β) (wheel : Roulette κ α) :
    (wheel.map f).isEmpty = wheel.isEmpty := by
  simp only [isEmpty, map, List.isEmpty_map]

theorem map_empty (f : α → β) : (empty : Roulette κ α).map f = empty := rfl

theorem map_add (f : α → β) (wheel : Roulette κ α) (weight : κ) (item : α) :
    (wheel.add weight item).map f = (wheel.map f).add weight (f item) := by
  simp only [add, map, List.map_append, List.map_cons, List.map_nil]

variable [Scalar κ]

theorem landing_map (f : α → β) (limit sum : κ) (slots : List (Slot κ α)) :
    landing limit sum (slots.map fun slot => ⟨slot.weight, f slot.item⟩) =
      landing limit sum slots := by
  induction slots generalizing sum with
  | nil => rfl
  | cons slot slots ih => simp only [List.map_cons, landing, ih]

theorem scale_map (f : α → β) (wheel : Roulette κ α) : (wheel.map f).scale = wheel.scale := by
  rw [scale, weights_map]
  rfl

theorem pick_map (f : α → β) (wheel : Roulette κ α) (u : κ) :
    (wheel.map f).pick u = wheel.pick u := by
  have hsize : (wheel.map f).size = wheel.size := by simp only [size, map, List.length_map]
  rw [pick, pick, isEmpty_map, scale_map, hsize, map, landing_map]

theorem spin_map {m : Type → Type} [Monad m] (f : α → β) (wheel : Roulette κ α) (draw : m κ) :
    (wheel.map f).spin draw = wheel.spin draw := by
  have hpick : (wheel.map f).pick = wheel.pick := funext (pick_map f wheel)
  rw [spin, spin, isEmpty_map, hpick]

theorem normalize_map (f : α → β) (wheel : Roulette κ α) :
    (wheel.map f).normalize = wheel.normalize.map f := by
  have hnormalized : (wheel.map f).normalized = wheel.normalized := rfl
  simp only [normalize, weights_map, hnormalized]
  split
  · rfl
  · simp only [map]
    split
    · simp only [List.map_map]
      rfl
    · rfl

end Roulette

namespace Program
variable {M : Type}

def mapRules (f : Rule M → Rule M) (p : Program M) : Program M where
  settings := p.settings
  initial := p.initial.map f
  groups := p.groups.map fun (name, group) => (name, group.map f)

theorem group?_mapRules (f : Rule M → Rule M) (p : Program M) (name : String) :
    (p.mapRules f).group? name = (p.group? name).map (Roulette.map f) := by
  simp only [group?, mapRules]
  induction p.groups with
  | nil => rfl
  | cons entry groups ih =>
    obtain ⟨other, group⟩ := entry
    simp only [List.map_cons, List.lookup_cons]
    cases name == other with
    | false => exact ih
    | true => rfl

theorem variants_mapRules (f : Rule M → Rule M) (p : Program M) :
    (p.mapRules f).variants = p.variants.map f := by
  simp only [variants, mapRules, List.flatMap_map, List.map_flatMap, Roulette.items_map]

theorem defines_mapRules (f : Rule M → Rule M) (p : Program M) (name : String) :
    (p.mapRules f).Defines name = p.Defines name := by
  simp only [Defines, group?_mapRules, Option.any_map]
  congr 1
  funext group
  exact congrArg (!·) (Roulette.isEmpty_map f group)

theorem normalize_mapRules (f : Rule M → Rule M) (p : Program M) :
    (p.mapRules f).normalize = p.normalize.mapRules f := by
  simp only [normalize, mapRules, List.map_map, Program.mk.injEq, true_and]
  exact List.map_congr_left fun entry _ => congrArg (entry.1, ·) (Roulette.normalize_map f entry.2)

theorem run_pick_mapRules (f : Rule M → Rule M) (p : Program M) (name : String) (line : Option Nat)
    (draw : Draw Float) (g : Generator) :
    ((p.mapRules f).pick name line draw).run g =
      let (choice, g') := (p.pick name line draw).run g
      (choice.map fun (i, rule) => (i, f rule), g') := by
  rw [run_pick, run_pick, group?_mapRules]
  cases p.group? name with
  | none => rfl
  | some group =>
    simp only [Option.map_some, Roulette.spin_map, Roulette.items_map, List.getElem?_map]
    rcases (group.spin draw).run g with ⟨_ | i, g'⟩
    · rfl
    · dsimp only
      cases group.items[i]? <;> rfl

theorem addTo_map {f : Rule M → Rule M} (name : String) (weight : Float) (rule : Rule M)
    (groups : List (String × Variants M)) :
    addTo name weight (f rule) (groups.map fun (name, group) => (name, group.map f)) =
      (addTo name weight rule groups).map fun (name, group) => (name, group.map f) := by
  induction groups with
  | nil => simp only [List.map_nil, addTo, List.map_cons, Roulette.map_add, Roulette.map_empty]
  | cons entry groups ih =>
    obtain ⟨other, group⟩ := entry
    rw [List.map_cons, addTo, addTo]
    split
    · simp only [List.map_cons, Roulette.map_add]
    · simp only [List.map_cons, ih]

theorem addRule_mapRules {f : Rule M → Rule M} (p : Program M) (weight : Float) {rule : Rule M}
    (h : (f rule).name = rule.name) :
    (p.mapRules f).addRule weight (f rule) = (p.addRule weight rule).mapRules f := by
  rw [addRule, addRule, h]
  cases rule.name with
  | none => simp only [mapRules, List.map_append, List.map_cons, List.map_nil]
  | some name => simp only [mapRules, addTo_map]

end Program

end SceneGrammar

import SceneGrammar.Number.Scalar

/-!
Weighted choice. A wheel keeps its slots in the order they were added, and a draw `u` from `[0, 1)`
lands on the first slot where the sum of the weights goes beyond the share `u` of the total.
-/

namespace SceneGrammar

structure Slot (κ α : Type) where
  weight : κ
  item : α

structure Roulette (κ α : Type) where
  slots : List (Slot κ α)
  normalized : Bool

namespace Roulette
variable {κ α : Type}

def empty : Roulette κ α := ⟨[], false⟩

def add (wheel : Roulette κ α) (weight : κ) (item : α) : Roulette κ α :=
  ⟨wheel.slots ++ [⟨weight, item⟩], false⟩

def items (wheel : Roulette κ α) : List α := wheel.slots.map Slot.item
def weights (wheel : Roulette κ α) : List κ := wheel.slots.map Slot.weight
def size (wheel : Roulette κ α) : Nat := wheel.slots.length
def isEmpty (wheel : Roulette κ α) : Bool := wheel.slots.isEmpty

theorem items_add (wheel : Roulette κ α) (weight : κ) (item : α) :
    (wheel.add weight item).items = wheel.items ++ [item] := by
  simp [items, add]

theorem weights_add (wheel : Roulette κ α) (weight : κ) (item : α) :
    (wheel.add weight item).weights = wheel.weights ++ [weight] := by
  simp [weights, add]

variable [Scalar κ]

/-- Divides the weights by their sum, unless that was done since the last addition or the sum is not
positive. -/
def normalize (wheel : Roulette κ α) : Roulette κ α :=
  if wheel.normalized then wheel
  else
    let sum := Scalar.total wheel.weights
    let slots := if Scalar.zero < sum then
        wheel.slots.map fun slot => { slot with weight := slot.weight / sum }
      else wheel.slots
    ⟨slots, true⟩

/-- The first index where `sum` and the weights up to there exceed `limit`. -/
def landing (limit sum : κ) : List (Slot κ α) → Option Nat
  | [] => none
  | slot :: slots =>
    if limit < sum + slot.weight then some 0
    else (landing limit (sum + slot.weight) slots).map (· + 1)

def scale (wheel : Roulette κ α) : κ :=
  if wheel.normalized then Scalar.one else Scalar.total wheel.weights

/-- Where rounding keeps the sums from going beyond the draw, the last slot takes it. -/
def pick (wheel : Roulette κ α) (u : κ) : Option Nat :=
  if wheel.isEmpty then none
  else some ((landing (u * wheel.scale) Scalar.zero wheel.slots).getD (wheel.size - 1))

/-- An empty wheel draws nothing. -/
def spin {m : Type → Type} [Monad m] (wheel : Roulette κ α) (draw : m κ) : m (Option Nat) :=
  if wheel.isEmpty then pure none else wheel.pick <$> draw

theorem items_normalize (wheel : Roulette κ α) : wheel.normalize.items = wheel.items := by
  simp only [normalize, items]
  split
  · rfl
  · split <;> simp

theorem isEmpty_normalize (wheel : Roulette κ α) : wheel.normalize.isEmpty = wheel.isEmpty := by
  have hitems := congrArg List.isEmpty wheel.items_normalize
  rwa [items, items, List.isEmpty_map, List.isEmpty_map] at hitems

theorem normalize_normalize (wheel : Roulette κ α) :
    wheel.normalize.normalize = wheel.normalize := by
  by_cases h : wheel.normalized <;> simp [normalize, h]

theorem landing_lt_length {limit sum : κ} {slots : List (Slot κ α)} {i : Nat}
    (h : landing limit sum slots = some i) : i < slots.length := by
  induction slots generalizing sum i with
  | nil => simp [landing] at h
  | cons slot slots ih =>
    rw [landing] at h
    split at h
    · cases h; simp
    · obtain ⟨j, hj, rfl⟩ := Option.map_eq_some_iff.1 h
      simpa using ih hj

theorem pick_lt_size {wheel : Roulette κ α} {u : κ} {i : Nat} (h : wheel.pick u = some i) :
    i < wheel.size := by
  rw [pick] at h
  split at h
  · cases h
  · rename_i hne
    have : 0 < wheel.slots.length := List.length_pos_iff.2 (by simpa [isEmpty] using hne)
    cases hl : landing (u * wheel.scale) Scalar.zero wheel.slots with
    | none => simp only [hl, Option.getD_none, Option.some.injEq] at h; unfold size at *; omega
    | some j =>
      simp only [hl, Option.getD_some, Option.some.injEq] at h
      subst h
      exact landing_lt_length hl

theorem pick_eq_none_iff {wheel : Roulette κ α} {u : κ} : wheel.pick u = none ↔ wheel.isEmpty := by
  simp [pick]

end Roulette

end SceneGrammar

import SceneGrammar.Diagnostic
import SceneGrammar.Program.Rule
import SceneGrammar.Random.Streams
import SceneGrammar.Roulette

/-!
Programs: settings, the anonymous rules that expansion starts from, and the named rules, of which
those with one name are variants to choose from.
-/

namespace SceneGrammar

abbrev Variants (M : Type) := Roulette Float (Rule M)

/-- The groups stand in the order of their first variants, each name once. -/
structure Program (M : Type) where
  settings : Settings
  initial : List (Rule M)
  groups : List (String × Variants M)

namespace Program
variable {M : Type}

def empty : Program M := ⟨.initial, [], []⟩

def group? (p : Program M) (name : String) : Option (Variants M) := p.groups.lookup name

/-- Adds a variant to the group of `name`, which is made if it is missing. -/
def addTo (name : String) (weight : Float) (rule : Rule M) :
    List (String × Variants M) → List (String × Variants M)
  | [] => [(name, Roulette.empty.add weight rule)]
  | (other, variants) :: groups =>
    if name = other then (other, variants.add weight rule) :: groups
    else (other, variants) :: addTo name weight rule groups

/-- The weight of an anonymous rule is of no consequence. -/
def addRule (p : Program M) (weight : Float) (rule : Rule M) : Program M :=
  match rule.name with
  | some name => { p with groups := addTo name weight rule p.groups }
  | none => { p with initial := p.initial ++ [rule] }

def variants (p : Program M) : List (Rule M) := p.groups.flatMap fun (_, group) => group.items

def ruleCount (p : Program M) : Nat := p.variants.length

def seed (p : Program M) : Int64 := p.settings.seedInEffect

def streams (p : Program M) : Streams := .ofSeed p.seed

def Defines (p : Program M) (name : String) : Bool := (p.group? name).any (!·.isEmpty)

/-- The invoked names that no variant answers to, with repetitions. -/
def dangling (p : Program M) (rules : List (Rule M)) : List String :=
  (rules.flatMap Rule.invoked).filter (!p.Defines ·)

/-- One report an invocation: those of the anonymous rules as they stand in the program, then those
of the named rules sorted by name. -/
def validate (p : Program M) : List Diagnostic :=
  (p.dangling p.initial ++ (p.dangling p.variants).mergeSort fun a b => decide (a ≤ b)).map
    (Diagnostic.unknownRule · none)

def normalize (p : Program M) : Program M :=
  { p with groups := p.groups.map fun (name, group) => (name, group.normalize) }

/-- The index of the variant chosen and the variant; without variants nothing is drawn. -/
def pick {m : Type → Type} [Monad m] (p : Program M) (name : String) (line : Option Nat)
    (draw : m Float) : m (Except Diagnostic (Nat × Rule M)) :=
  match p.group? name with
  | none => pure (.error (.unknownRule name line))
  | some group => do
    match ← group.spin draw with
    | none => return .error (.unknownRule name line)
    | some i =>
      match group.items[i]? with
      | none => return .error (.unknownRule name line)
      | some rule => return .ok (i, rule)

theorem lookup_addTo_self (name : String) (weight : Float) (rule : Rule M)
    (groups : List (String × Variants M)) :
    (addTo name weight rule groups).lookup name =
      some (((groups.lookup name).getD .empty).add weight rule) := by
  induction groups with
  | nil => simp [addTo]
  | cons entry groups ih =>
    obtain ⟨other, variants⟩ := entry
    by_cases h : name = other
    · simp [addTo, h]
    · simp [addTo, h, List.lookup_cons, beq_eq_false_iff_ne.2 h, ih]

theorem lookup_addTo_of_ne {name other : String} (h : other ≠ name) (weight : Float) (rule : Rule M)
    (groups : List (String × Variants M)) :
    (addTo name weight rule groups).lookup other = groups.lookup other := by
  induction groups with
  | nil => simp [addTo, List.lookup_cons, beq_eq_false_iff_ne.2 h]
  | cons entry groups ih =>
    obtain ⟨first, variants⟩ := entry
    by_cases hf : name = first
    · subst hf; simp [addTo, List.lookup_cons, beq_eq_false_iff_ne.2 h]
    · by_cases ho : other = first <;>
        simp [addTo, hf, ho, List.lookup_cons, ih]

theorem mem_names_addTo (name : String) (weight : Float) (rule : Rule M)
    (groups : List (String × Variants M)) (other : String) :
    other ∈ (addTo name weight rule groups).map Prod.fst ↔
      other = name ∨ other ∈ groups.map Prod.fst := by
  induction groups with
  | nil => simp [addTo]
  | cons entry groups ih =>
    obtain ⟨first, variants⟩ := entry
    by_cases hf : name = first
    · subst hf; simp [addTo]
    · simp only [addTo, hf, if_false, List.map_cons, List.mem_cons, ih, or_left_comm]

end Program

end SceneGrammar

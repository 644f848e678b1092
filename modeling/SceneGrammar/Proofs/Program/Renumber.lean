import SceneGrammar.Build
import SceneGrammar.Proofs.Program.Variants

/-!
# Programs with other line numbers

The lines that actions stand on are kept for reports alone. A program with other line numbers refers
to the same rules and chooses the same variants; what it reports has the other numbers.
-/

namespace SceneGrammar

def Diagnostic.renumber (f : Nat → Nat) (d : Diagnostic) : Diagnostic :=
  { d with line := d.line.map f }

def BuildError.renumber {ε : Type} (f : Nat → Nat) : BuildError ε → BuildError ε
  | .rejected diagnostics => .rejected (diagnostics.map (Diagnostic.renumber f))
  | .rule diagnostic => .rule (diagnostic.renumber f)
  | e => e

def Action.renumber {M : Type} (f : Nat → Nat) (a : Action M) : Action M :=
  { a with line := f a.line }

namespace Rule
variable {M : Type}

def renumber (f : Nat → Nat) (r : Rule M) : Rule M :=
  { r with actions := r.actions.map (Action.renumber f) }

theorem invoked_renumber (f : Nat → Nat) (r : Rule M) : (r.renumber f).invoked = r.invoked := by
  simp only [invoked, renumber, List.filterMap_map]
  rfl

end Rule

namespace Program
variable {M : Type}

def renumber (f : Nat → Nat) (p : Program M) : Program M := p.mapRules (Rule.renumber f)

theorem dangling_renumber (f : Nat → Nat) (p : Program M) (rules : List (Rule M)) :
    (p.renumber f).dangling (rules.map (Rule.renumber f)) = p.dangling rules := by
  simp only [dangling, renumber, defines_mapRules, List.flatMap_map, Rule.invoked_renumber]

theorem validate_renumber (f : Nat → Nat) (p : Program M) :
    (p.renumber f).validate = p.validate := by
  have hinitial : (p.renumber f).initial = p.initial.map (Rule.renumber f) := rfl
  have hvariants : (p.renumber f).variants = p.variants.map (Rule.renumber f) :=
    variants_mapRules _ p
  rw [validate, validate, hinitial, hvariants, dangling_renumber, dangling_renumber]

theorem normalize_renumber (f : Nat → Nat) (p : Program M) :
    (p.renumber f).normalize = p.normalize.renumber f :=
  normalize_mapRules _ p

theorem run_pick_map_line (f : Nat → Nat) (p : Program M) (name : String) (line : Option Nat)
    (draw : Draw Float) (g : Generator) :
    (p.pick name (line.map f) draw).run g =
      let (choice, g') := (p.pick name line draw).run g
      (choice.mapError (Diagnostic.renumber f), g') := by
  rw [run_pick, run_pick]
  cases p.group? name with
  | none => rfl
  | some group =>
    rcases hspin : (group.spin draw).run g with ⟨_ | i, g'⟩
    · simp only [hspin]
      rfl
    · simp only [hspin]
      cases group.items[i]? <;> rfl

/-- A pick of the renumbered program is that of the program itself, renumbered. -/
theorem run_pick_renumber (f : Nat → Nat) (p : Program M) (name : String) (line : Option Nat)
    (draw : Draw Float) (g : Generator) :
    ((p.renumber f).pick name (line.map f) draw).run g =
      let (choice, g') := (p.pick name line draw).run g
      ((choice.map fun (i, rule) => (i, rule.renumber f)).mapError (Diagnostic.renumber f),
        g') := by
  rw [renumber, run_pick_mapRules, run_pick_map_line]
  rcases (p.pick name line draw).run g with ⟨_ | _, g'⟩ <;> rfl

end Program

end SceneGrammar

import SceneGrammar.Proofs.Expansion.Combinations
import SceneGrammar.Proofs.Program.Variants

/-!
# Programs without their colours

Bleaching replaces every colour, and all that makes colours, by one and the same. What is left of a
program is its structure. The dials and the frames of a bleached program are those of the program
itself, bleached, whatever the pools are and the generators they draw from.
-/

namespace SceneGrammar

namespace Transformation
variable {M : Type}

def bleach (t : Transformation M) : Transformation M := ⟨t.placement, 0, 1, 1, 1, none, false, none⟩

theorem altersHsv_bleach (t : Transformation M) : t.bleach.altersHsv = false := by
  simp only [altersHsv, bleach, Option.any_none, Bool.or_false]
  decide

theorem tint_bleach (t : Transformation M) (color : Rgba) : t.bleach.tint color = color := by
  have hfade : ((1 : Float) != 1) = false := by decide
  have hhsv : t.bleach.recolorHsv color = color := by
    rw [recolorHsv, altersHsv_bleach, if_neg Bool.false_ne_true]
  change t.bleach.fade (t.bleach.recolorHsv color) = color
  rw [hhsv, fade, bleach, hfade, if_neg Bool.false_ne_true]

end Transformation

namespace Pose
variable {M : Type}

def bleach (pose : Pose M) : Pose M := ⟨pose.placement, .pureRed⟩

end Pose

theorem Transformation.run_apply_bleach {M : Type} [Mul M] (t : Transformation M)
    (pool pool' : Pool) (pose : Pose M) (g g' : Generator) :
    (t.bleach.apply pool' pose.bleach).run g' = (((t.apply pool pose).run g).1.bleach, g') := by
  rw [run_apply_of_not_drawsColor rfl, onPose, tint_bleach]
  rfl

namespace Loop
variable {M : Type}

def bleach (loop : Loop M) : Loop M := ⟨loop.repetitions, loop.transformation.bleach⟩

end Loop

namespace Setting

/-- A change of the pool stays a change, but always to the same pool. -/
def bleach : Setting → Setting
  | .pool _ => .pool .randomRgb
  | setting => setting

end Setting

namespace Effect

def bleach : Effect → Effect
  | .set setting => .set setting.bleach
  | effect => effect

end Effect

namespace Action
variable {M : Type}

def bleach (a : Action M) : Action M := ⟨a.loops.map Loop.bleach, a.effect.bleach, a.line⟩

end Action

namespace Rule
variable {M : Type}

def bleach (r : Rule M) : Rule M := { r with actions := r.actions.map Action.bleach }

end Rule

namespace Settings

def bleach (s : Settings) : Settings := { s with background := .white, pool := .randomRgb }

theorem bleach_apply (s : Settings) (setting : Setting) :
    s.bleach.apply setting.bleach = (s.apply setting).bleach := by
  cases setting <;> rfl

end Settings

namespace Program
variable {M : Type}

def bleach (p : Program M) : Program M where
  settings := p.settings.bleach
  initial := p.initial.map Rule.bleach
  groups := p.groups.map fun (name, group) => (name, group.map Rule.bleach)

theorem run_pick_bleach (p : Program M) (name : String) (line : Option Nat) (draw : Draw Float)
    (g : Generator) :
    (p.bleach.pick name line draw).run g =
      let (choice, g') := (p.pick name line draw).run g
      (choice.map fun (i, rule) => (i, rule.bleach), g') :=
  p.run_pick_mapRules Rule.bleach name line draw g

end Program

end SceneGrammar

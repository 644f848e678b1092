import SceneGrammar.Expansion.Odometer

/-!
A rule being done: the action it has come to, the pose it inherited and the dials of that action.
-/

namespace SceneGrammar

structure Frame (M : Type) where
  rule : Rule M
  index : Nat
  input : Pose M
  dials : List (Dial M)
  deriving DecidableEq

namespace Frame
variable {M : Type}

def action? (f : Frame M) : Option (Action M) := f.rule.actions[f.index]?

/-- The pose of the present turn: the one the innermost loop has reached. -/
def pose (f : Frame M) : Pose M := (f.dials.getLast?.map Dial.pose).getD f.input

def loopsAt (rule : Rule M) (index : Nat) : List (Loop M) :=
  (rule.actions[index]?.map Action.loops).getD []

def turnsLeft (f : Frame M) : Nat :=
  match f.rule.actions.drop f.index with
  | [] => 0
  | _ :: later => Odometer.turnsLeft f.dials + Odometer.turnsOf later

theorem turnsLeft_of_action {f : Frame M} (h : f.action?.isSome) :
    f.turnsLeft = Odometer.turnsLeft f.dials +
      Odometer.turnsOf (f.rule.actions.drop (f.index + 1)) := by
  have hi : f.index < f.rule.actions.length := by simpa [action?] using h
  rw [turnsLeft, List.drop_eq_getElem_cons hi]

variable [Mul M]

/-- Comes to an action, with its loops at their first repetitions. -/
def enter (pool : Pool) (rule : Rule M) (input : Pose M) (index : Nat) : Draw (Frame M) :=
  return ⟨rule, index, input, ← Odometer.prime pool input (loopsAt rule index)⟩

/-- Drops what is left of the present action. -/
def skip (pool : Pool) (f : Frame M) : Draw (Frame M) := enter pool f.rule f.input (f.index + 1)

/-- The next turn: the next combination of loops, or else the next action. -/
def proceed (pool : Pool) (f : Frame M) : Draw (Frame M) := do
  match ← Odometer.advance pool f.dials with
  | some dials => return { f with dials }
  | none => f.skip pool

theorem turnsLeft_enter (pool : Pool) (rule : Rule M) (input : Pose M) (index : Nat)
    (g : Generator) :
    ((enter pool rule input index).run g).1.turnsLeft =
      Odometer.turnsOf (rule.actions.drop index) := by
  change turnsLeft ⟨rule, index, input, ((Odometer.prime pool input _).run g).1⟩ = _
  simp only [turnsLeft, Odometer.turnsLeft_prime, loopsAt, ← List.head?_drop]
  cases rule.actions.drop index <;> simp [Odometer.turnsOf]

theorem turnsLeft_skip_lt (pool : Pool) {f : Frame M} (h : f.action?.isSome) (g : Generator) :
    ((f.skip pool).run g).1.turnsLeft < f.turnsLeft := by
  rw [skip, turnsLeft_enter, turnsLeft_of_action h]
  have := Odometer.turnsLeft_pos f.dials
  omega

theorem turnsLeft_proceed_lt (pool : Pool) {f : Frame M} (h : f.action?.isSome) (g : Generator) :
    ((f.proceed pool).run g).1.turnsLeft < f.turnsLeft := by
  rw [proceed, StateT.run_bind]
  rcases hm : (Odometer.advance pool f.dials).run g with ⟨_ | dials, g'⟩
  · exact turnsLeft_skip_lt pool h g'
  · change turnsLeft { f with dials } < _
    have := (Odometer.advance_lowers (congrArg Prod.fst hm)).2
    rw [turnsLeft_of_action h, turnsLeft_of_action (by exact h)]
    simp only
    omega

end Frame

end SceneGrammar

import SceneGrammar.Program.Rule

/-!
The loops of an action as the dials of an odometer. The innermost dial moves fastest, and every dial
keeps the pose reached by its loop, so that a move applies the loop of the dial that moved once to
its own pose and restarts only the dials inside it.
-/

namespace SceneGrammar

/-- `count` repetitions lie behind the present one. -/
structure Dial (M : Type) where
  loop : Loop M
  count : Nat
  pose : Pose M
  deriving DecidableEq

namespace Odometer
variable {M : Type}

section
variable [Mul M]

/-- Sets every dial to its first repetition, the outermost first. -/
def prime (pool : Pool) : Pose M → List (Loop M) → Draw (List (Dial M))
  | _, [] => return []
  | pose, loop :: loops => do
    let pose ← loop.transformation.apply pool pose
    return ⟨loop, 0, pose⟩ :: (← prime pool pose loops)

/-- Moves on to the next combination; after the last there is none. -/
def advance (pool : Pool) : List (Dial M) → Draw (Option (List (Dial M)))
  | [] => return none
  | dial :: dials => do
    match ← advance pool dials with
    | some dials => return some (dial :: dials)
    | none =>
      if dial.count + 1 < dial.loop.repetitions.toNat then
        let pose ← dial.loop.transformation.apply pool dial.pose
        let dials ← prime pool pose (dials.map Dial.loop)
        return some (⟨dial.loop, dial.count + 1, pose⟩ :: dials)
      else return none

end

/-- How often an action with these loops is done; a loop counts at least once. -/
def turns (loops : List (Loop M)) : Nat :=
  loops.foldr (fun loop n => max 1 loop.repetitions.toNat * n) 1

/-- How many turns these actions take, one after another. -/
def turnsOf (actions : List (Action M)) : Nat :=
  actions.foldr (fun action n => turns action.loops + n) 0

/-- The combinations from the present one on. -/
def turnsLeft : List (Dial M) → Nat
  | [] => 1
  | dial :: dials =>
    (dial.loop.repetitions.toNat - 1 - dial.count) * turns (dials.map Dial.loop) + turnsLeft dials

theorem turns_pos (loops : List (Loop M)) : 0 < turns loops := by
  induction loops with
  | nil => exact Nat.one_pos
  | cons loop loops ih => exact Nat.mul_pos (by omega) ih

theorem turnsLeft_pos (dials : List (Dial M)) : 0 < turnsLeft dials := by
  induction dials with
  | nil => exact Nat.one_pos
  | cons dial dials ih => simp only [turnsLeft]; omega

theorem turns_eq_turnsLeft {dials : List (Dial M)} (h : ∀ dial ∈ dials, dial.count = 0) :
    turnsLeft dials = turns (dials.map Dial.loop) := by
  induction dials with
  | nil => rfl
  | cons dial dials ih =>
    rw [turnsLeft, ih fun d hd => h d (.tail _ hd), h dial (.head _), Nat.sub_zero,
      ← Nat.succ_mul, List.map_cons, turns, turns, List.foldr_cons]
    congr 1
    omega

variable [Mul M]

theorem map_loop_prime (pool : Pool) (pose : Pose M) (loops : List (Loop M)) (g : Generator) :
    ((prime pool pose loops).run g).1.map Dial.loop = loops := by
  induction loops generalizing pose g with
  | nil => rfl
  | cons loop loops ih => exact congrArg (loop :: ·) (ih _ _)

theorem count_prime (pool : Pool) (pose : Pose M) (loops : List (Loop M)) (g : Generator) :
    ∀ dial ∈ ((prime pool pose loops).run g).1, dial.count = 0 := by
  induction loops generalizing pose g with
  | nil => exact fun _ h => nomatch h
  | cons loop loops ih =>
    intro dial h
    rcases List.mem_cons.1 h with rfl | h
    · rfl
    · exact ih _ _ dial h

theorem turnsLeft_prime (pool : Pool) (pose : Pose M) (loops : List (Loop M)) (g : Generator) :
    turnsLeft ((prime pool pose loops).run g).1 = turns loops := by
  rw [turns_eq_turnsLeft (count_prime pool pose loops g), map_loop_prime]

theorem advance_cons (pool : Pool) (dial : Dial M) (dials : List (Dial M)) (g : Generator) :
    ((advance pool (dial :: dials)).run g) =
      match (advance pool dials).run g with
      | (some dials, g) => (some (dial :: dials), g)
      | (none, g) =>
        if dial.count + 1 < dial.loop.repetitions.toNat then
          let (pose, g) := (dial.loop.transformation.apply pool dial.pose).run g
          let (dials, g) := (prime pool pose (dials.map Dial.loop)).run g
          (some (⟨dial.loop, dial.count + 1, pose⟩ :: dials), g)
        else (none, g) := by
  simp only [advance]
  change StateT.run (_ >>= _) g = _
  rw [StateT.run_bind]
  change (match (advance pool dials).run g with | (a, g) => _) = _
  rcases (advance pool dials).run g with ⟨_ | _, g'⟩
  · dsimp only
    split <;> rfl
  · rfl

theorem advance_lowers {pool : Pool} {dials after : List (Dial M)} {g : Generator}
    (h : ((advance pool dials).run g).1 = some after) :
    after.map Dial.loop = dials.map Dial.loop ∧ turnsLeft after < turnsLeft dials := by
  induction dials generalizing after g with
  | nil => cases h
  | cons dial dials ih =>
    rw [advance_cons] at h
    split at h
    · rename_i moved g' hm
      cases h
      obtain ⟨hl, hlt⟩ := ih (congrArg Prod.fst hm)
      simp only [List.map_cons, hl, turnsLeft, true_and]
      omega
    · split at h
      · rename_i hc
        cases h
        refine ⟨congrArg (dial.loop :: ·) (map_loop_prime _ _ _ _), ?_⟩
        have hp := turnsLeft_pos dials
        have hs : dial.loop.repetitions.toNat - 1 - dial.count =
            dial.loop.repetitions.toNat - 1 - (dial.count + 1) + 1 := by omega
        simp only [turnsLeft]
        change _ * turns (((prime pool _ _).run _).1.map Dial.loop) +
          turnsLeft ((prime pool _ _).run _).1 < _
        rw [map_loop_prime, turnsLeft_prime, hs, Nat.add_mul]
        omega
      · cases h

end Odometer

end SceneGrammar

import Mathlib.Data.List.Induction
import SceneGrammar.Proofs.Expansion.Combinations

/-!
# Frames on slates

A slate holds what a frame does, with the poses and the counts of its loops in two lists. A slate
that comes to an action with loops is written on anew, but without loops there it keeps what it
holds, so what it holds may be of another action or of another rule. Nothing is taken for granted:
to look for a pose or a count that is not there and to count too far are lapses. A slate that shows
a frame takes every turn as the frame does and has no lapse.
-/

namespace SceneGrammar

/-- What a run on slates breaks off with if it is put together wrongly. -/
inductive Lapse
  | noSlate
  | noDial
  | emptyStack
  | overflow
  deriving DecidableEq

/-- A frame as it is written down: the poses and the counts of loops are of the last action with
loops, of whichever rule. -/
structure Slate (M : Type) where
  rule : Rule M
  index : Nat
  input : Pose M
  poses : List (Pose M)
  counts : List UInt32

/-- A computation that takes its chance from one generator, and may lapse. -/
abbrev Risk := StateT Generator (Except Lapse)

def Risk.ofDraw {α : Type} (draw : Draw α) : Risk α := fun g => .ok (draw.run g)

namespace Slate
variable {M : Type}

def blank (rule : Rule M) (input : Pose M) : Slate M := ⟨rule, 0, input, [], []⟩

def action? (s : Slate M) : Option (Action M) := s.rule.actions[s.index]?

variable [Mul M]

/-- The poses of loops at their first repetitions, each reached from the one before. -/
def reach (pool : Pool) : Pose M → List (Loop M) → Draw (List (Pose M))
  | _, [] => return []
  | pose, loop :: loops => do
    let pose ← loop.transformation.apply pool pose
    return pose :: (← reach pool pose loops)

/-- Comes to an action. Without loops there, those of an earlier action stay on the slate. -/
def enter (pool : Pool) (s : Slate M) (index : Nat) : Draw (Slate M) := do
  let loops := Frame.loopsAt s.rule index
  if loops.isEmpty then return { s with index }
  else
    let poses ← reach pool s.input loops
    return { s with index, poses, counts := loops.map fun _ => 0 }

/-- Goes on from `pose` through the loops from the `i`th on, and writes down what each reaches. -/
def reachFrom (pool : Pool) : Pose M → Nat → List (Loop M) → List (Pose M) → Risk (List (Pose M))
  | _, _, [], poses => return poses
  | pose, i, loop :: loops, poses => do
    let pose ← .ofDraw (loop.transformation.apply pool pose)
    if i < poses.length then reachFrom pool pose (i + 1) loops (poses.set i pose)
    else throw .noDial

/-- Moves on the last of the first `n` loops that has a repetition left and starts those behind it
again. Tells whether there was one. -/
def advance (pool : Pool) (loops : List (Loop M)) : Nat → Slate M → Risk (Bool × Slate M)
  | 0, s => return (false, s)
  | n + 1, s =>
    match s.counts[n]?, loops[n]? with
    | some count, some loop =>
      if count.toNat + 1 = UInt32.size then throw .overflow
      else if count + 1 < loop.repetitions then
        match s.poses[n]? with
        | none => throw .noDial
        | some pose => do
          let poses ← reachFrom pool pose n (loops.drop n) s.poses
          return (true, { s with poses, counts := s.counts.set n (count + 1) })
      else advance pool loops n { s with counts := s.counts.set n 0 }
    | _, _ => throw .noDial

def skip (pool : Pool) (s : Slate M) : Risk (Slate M) := .ofDraw (s.enter pool (s.index + 1))

/-- The next turn of an action with these loops, or else the next action. -/
def proceed (pool : Pool) (loops : List (Loop M)) (s : Slate M) : Risk (Slate M) := do
  let (moved, s) ← s.advance pool loops loops.length
  if moved then return s else s.skip pool

end Slate

/-! ## Dials on a slate -/

namespace Dial
variable {M : Type}

/-- The count as it stands on a slate. -/
def digit (dial : Dial M) : UInt32 := .ofNat dial.count

def InRange (dial : Dial M) : Prop := dial.count < max 1 dial.loop.repetitions.toNat

namespace InRange
variable {dial : Dial M}

theorem count_succ_lt_size (h : dial.InRange) : dial.count + 1 < UInt32.size := by
  have hsize := dial.loop.repetitions.toNat_lt_size
  have hone : 1 < UInt32.size := by decide
  rw [InRange] at h
  omega

theorem toNat_digit (h : dial.InRange) : dial.digit.toNat = dial.count := by
  have hsize := h.count_succ_lt_size
  exact UInt32.toNat_ofNat_of_lt' (by omega)

theorem toNat_digit_succ_ne (h : dial.InRange) : dial.digit.toNat + 1 ≠ UInt32.size := by
  have hsize := h.count_succ_lt_size
  rw [h.toNat_digit]
  omega

theorem digit_succ_lt_iff (h : dial.InRange) :
    dial.digit + 1 < dial.loop.repetitions ↔ dial.count + 1 < dial.loop.repetitions.toNat := by
  have hsucc : (dial.digit + 1).toNat = dial.count + 1 := by
    rw [UInt32.toNat_add, h.toNat_digit]
    exact Nat.mod_eq_of_lt h.count_succ_lt_size
  rw [UInt32.lt_iff_toNat_lt, hsucc]

end InRange

end Dial

namespace Odometer
variable {M : Type} [Mul M] {pool : Pool}

theorem inRange_prime (pool : Pool) (input : Pose M) (loops : List (Loop M)) (g : Generator) :
    ∀ dial ∈ ((prime pool input loops).run g).1, dial.InRange := by
  intro dial hdial
  rw [Dial.InRange, count_prime pool input loops g dial hdial]
  omega

theorem inRange_advance {dials moved : List (Dial M)} {g g' : Generator}
    (h : (advance pool dials).run g = (some moved, g')) (hd : ∀ dial ∈ dials, dial.InRange) :
    ∀ dial ∈ moved, dial.InRange := by
  induction dials generalizing moved g g' with
  | nil => cases h
  | cons dial dials ih =>
    rw [List.forall_mem_cons] at hd
    rw [advance_cons] at h
    split at h
    · rename_i inner g₁ hinner
      cases h
      exact List.forall_mem_cons.2 ⟨hd.1, ih hinner hd.2⟩
    · split at h
      · rename_i hc
        cases h
        refine List.forall_mem_cons.2 ⟨?_, inRange_prime pool _ _ _⟩
        change dial.count + 1 < max 1 dial.loop.repetitions.toNat
        omega
      · cases h

theorem advance_append {back moved : List (Dial M)} {g g' : Generator}
    (h : (advance pool back).run g = (some moved, g')) (front : List (Dial M)) :
    (advance pool (front ++ back)).run g = (some (front ++ moved), g') := by
  induction front with
  | nil => exact h
  | cons dial front ih => rw [List.cons_append, advance_cons, ih, List.cons_append]

theorem map_digit_prime (pool : Pool) (pose : Pose M) (loops : List (Loop M)) (g : Generator) :
    ((prime pool pose loops).run g).1.map Dial.digit = loops.map fun _ => 0 := by
  induction loops generalizing pose g with
  | nil => rfl
  | cons loop loops ih => exact congrArg (0 :: ·) (ih _ _)

end Odometer

namespace Slate
variable {M : Type} [Mul M] {pool : Pool}

theorem reach_cons (pool : Pool) (pose : Pose M) (loop : Loop M) (loops : List (Loop M))
    (g : Generator) :
    (reach pool pose (loop :: loops)).run g =
      let (pose, g) := (loop.transformation.apply pool pose).run g
      let (poses, g) := (reach pool pose loops).run g
      (pose :: poses, g) := rfl

theorem run_reach (pool : Pool) (pose : Pose M) (loops : List (Loop M)) (g : Generator) :
    (reach pool pose loops).run g =
      (((Odometer.prime pool pose loops).run g).1.map Dial.pose,
        ((Odometer.prime pool pose loops).run g).2) := by
  induction loops generalizing pose g with
  | nil => rfl
  | cons loop loops ih =>
    rcases happly : (loop.transformation.apply pool pose).run g with ⟨next, g'⟩
    rw [reach_cons, Odometer.prime_cons, happly]
    dsimp only
    rw [ih]
    rfl

theorem reachFrom_cons {pose next : Pose M} {loop : Loop M} {i : Nat} {poses : List (Pose M)}
    {g g' : Generator} (happly : (loop.transformation.apply pool pose).run g = (next, g'))
    (hi : i < poses.length) (loops : List (Loop M)) :
    (reachFrom pool pose i (loop :: loops) poses).run g =
      (reachFrom pool next (i + 1) loops (poses.set i next)).run g' := by
  change (let applied := (loop.transformation.apply pool pose).run g
    (if i < poses.length then
      reachFrom pool applied.1 (i + 1) loops (poses.set i applied.1)
    else throw .noDial : Risk (List (Pose M))).run applied.2) = _
  rw [happly]
  exact congrArg (StateT.run · g') (if_pos hi)

/-- The poses behind those of `front` are written over, one for each loop. -/
theorem run_reachFrom (pool : Pool) (pose : Pose M) (loops : List (Loop M))
    (front old : List (Pose M)) (h : old.length = loops.length) (g : Generator) :
    (reachFrom pool pose front.length loops (front ++ old)).run g =
      .ok (front ++ ((reach pool pose loops).run g).1, ((reach pool pose loops).run g).2) := by
  induction loops generalizing pose front old g with
  | nil =>
    rw [List.length_eq_zero_iff.1 h]
    rfl
  | cons loop loops ih =>
    obtain ⟨first, old, rfl⟩ := List.exists_cons_of_length_eq_add_one h
    rcases happly : (loop.transformation.apply pool pose).run g with ⟨next, g'⟩
    have hrest := ih next (front ++ [next]) old (by simpa using h) g'
    rw [List.length_append, List.append_assoc, List.append_assoc] at hrest
    rw [reachFrom_cons happly (by simp), List.set_append_right _ _ (Nat.le_refl _), Nat.sub_self,
      reach_cons, happly]
    exact hrest

/-- The dial at `front.length` has a repetition left, those behind it have none. -/
theorem run_advance_turn {front back : List (Dial M)} {dial : Dial M} {s : Slate M} {g : Generator}
    (hback : (Odometer.advance pool back).run g = (none, g)) (hdial : dial.InRange)
    (hc : dial.count + 1 < dial.loop.repetitions.toNat)
    (hposes : s.poses = (front ++ dial :: back).map Dial.pose)
    (hcounts : s.counts = front.map Dial.digit ++ dial.digit :: back.map fun _ => 0) :
    ∃ moved g', (Odometer.advance pool (dial :: back)).run g = (some moved, g') ∧
      (s.advance pool ((front ++ dial :: back).map Dial.loop) (front.length + 1)).run g =
        .ok ((true, { s with
          poses := (front ++ moved).map Dial.pose
          counts := (front ++ moved).map Dial.digit }), g') := by
  rcases happly : (dial.loop.transformation.apply pool dial.pose).run g with ⟨next, g₁⟩
  rcases hprime : (Odometer.prime pool next (back.map Dial.loop)).run g₁ with ⟨primed, g₂⟩
  have hmoved : (Odometer.advance pool (dial :: back)).run g =
      (some (⟨dial.loop, dial.count + 1, next⟩ :: primed), g₂) := by
    simp only [Odometer.advance_cons, hback, if_pos hc, happly, hprime]
  have hreach : (reachFrom pool dial.pose front.length (dial.loop :: back.map Dial.loop)
      s.poses).run g =
        .ok ((front ++ ⟨dial.loop, dial.count + 1, next⟩ :: primed).map Dial.pose, g₂) := by
    have hreached := run_reachFrom pool dial.pose (dial.loop :: back.map Dial.loop)
      (front.map Dial.pose) (dial.pose :: back.map Dial.pose) (by simp) g
    rw [List.length_map, reach_cons, happly] at hreached
    dsimp only at hreached
    rw [run_reach, hprime] at hreached
    rw [hposes, List.map_append, List.map_append]
    exact hreached
  have hset : s.counts.set front.length (dial.digit + 1) =
      (front ++ ⟨dial.loop, dial.count + 1, next⟩ :: primed).map Dial.digit := by
    have hzeros := Odometer.map_digit_prime pool next (back.map Dial.loop) g₁
    rw [hprime, List.map_map] at hzeros
    rw [hcounts, List.map_append, List.map_cons, hzeros, Dial.digit, ← UInt32.ofNat_one,
      ← UInt32.ofNat_add, List.set_append_right _ _ (by simp), List.length_map, Nat.sub_self]
    rfl
  have hcount : s.counts[front.length]? = some dial.digit := by simp [hcounts]
  have hpose : s.poses[front.length]? = some dial.pose := by simp [hposes]
  have hloop : ((front ++ dial :: back).map Dial.loop)[front.length]? = some dial.loop := by simp
  have hdrop : ((front ++ dial :: back).map Dial.loop).drop front.length =
      dial.loop :: back.map Dial.loop := by simp
  refine ⟨_, g₂, hmoved, ?_⟩
  rw [Slate.advance]
  simp only [hcount, hloop]
  rw [if_neg hdial.toNat_digit_succ_ne, if_pos (hdial.digit_succ_lt_iff.2 hc)]
  simp only [hpose, hdrop, StateT.run_bind, hreach, hset]
  rfl

/-- The dial at `front.length` has come round with all behind it, and the one before it is asked. -/
theorem run_advance_round {front back : List (Dial M)} {dial : Dial M} {s : Slate M}
    (hdial : dial.InRange) (hc : ¬dial.count + 1 < dial.loop.repetitions.toNat)
    (hcounts : s.counts = front.map Dial.digit ++ dial.digit :: back.map fun _ => 0) :
    s.advance pool ((front ++ dial :: back).map Dial.loop) (front.length + 1) =
      { s with counts := front.map Dial.digit ++ 0 :: back.map fun _ => 0 }.advance pool
        ((front ++ dial :: back).map Dial.loop) front.length := by
  have hcount : s.counts[front.length]? = some dial.digit := by simp [hcounts]
  have hloop : ((front ++ dial :: back).map Dial.loop)[front.length]? = some dial.loop := by simp
  have hset : s.counts.set front.length 0 = front.map Dial.digit ++ 0 :: back.map fun _ => 0 := by
    simp [hcounts]
  rw [Slate.advance]
  simp only [hcount, hloop]
  rw [if_neg hdial.toNat_digit_succ_ne, if_neg (hdial.digit_succ_lt_iff.not.2 hc), hset]

/-- The dials of `front` are still to be asked, those of `back` have no repetition left. -/
theorem run_advance (pool : Pool) (front back : List (Dial M)) {s : Slate M} {g : Generator}
    (hback : (Odometer.advance pool back).run g = (none, g))
    (hfront : ∀ dial ∈ front, dial.InRange) (hposes : s.poses = (front ++ back).map Dial.pose)
    (hcounts : s.counts = front.map Dial.digit ++ back.map fun _ => 0) :
    (∃ moved g', (Odometer.advance pool (front ++ back)).run g = (some moved, g') ∧
      (s.advance pool ((front ++ back).map Dial.loop) front.length).run g =
        .ok ((true, { s with
          poses := moved.map Dial.pose
          counts := moved.map Dial.digit }), g')) ∨
    ((Odometer.advance pool (front ++ back)).run g = (none, g) ∧
      ∃ counts, (s.advance pool ((front ++ back).map Dial.loop) front.length).run g =
        .ok ((false, { s with counts }), g)) := by
  -- the dial in front that is asked next is the last of them
  induction front using List.reverseRecOn generalizing back s with
  | nil => exact .inr ⟨hback, s.counts, rfl⟩
  | append_singleton front dial ih =>
    rw [List.forall_mem_append, List.forall_mem_singleton] at hfront
    obtain ⟨hfront, hdial⟩ := hfront
    rw [List.map_append, List.map_singleton] at hcounts
    rw [List.length_append, List.length_singleton]
    simp only [List.append_assoc, List.singleton_append] at hposes hcounts ⊢
    by_cases hc : dial.count + 1 < dial.loop.repetitions.toNat
    · obtain ⟨moved, g', hmoved, hslate⟩ := run_advance_turn hback hdial hc hposes hcounts
      exact .inl ⟨front ++ moved, g', Odometer.advance_append hmoved front, hslate⟩
    · have hnone : (Odometer.advance pool (dial :: back)).run g = (none, g) := by
        simp only [Odometer.advance_cons, hback, if_neg hc]
      rw [run_advance_round hdial hc hcounts]
      exact ih (dial :: back) (s := { s with counts := _ }) hnone hfront hposes rfl

end Slate

/-! ## Frames on slates -/

namespace Frame
variable {M : Type}

/-- The frame is at an action of its rule or behind the last, and its dials are those of the
action, none of them counted beyond its loop. -/
structure Tidy (f : Frame M) : Prop where
  index_le : f.index ≤ f.rule.actions.length
  loops : f.dials.map Dial.loop = loopsAt f.rule f.index
  inRange : ∀ dial ∈ f.dials, dial.InRange

theorem loopsAt_of_action {f : Frame M} {action : Action M} (ha : f.action? = some action) :
    loopsAt f.rule f.index = action.loops := by
  rw [action?] at ha
  rw [loopsAt, ha]
  rfl

variable [Mul M]

theorem proceed_of_bare {f : Frame M} (h : f.dials = []) (pool : Pool) :
    f.proceed pool = f.skip pool := by
  rw [proceed, h]
  rfl

theorem tidy_enter (pool : Pool) {rule : Rule M} {index : Nat} (h : index ≤ rule.actions.length)
    (input : Pose M) (g : Generator) : ((enter pool rule input index).run g).1.Tidy :=
  ⟨h, Odometer.map_loop_prime pool input _ g, Odometer.inRange_prime pool input _ g⟩

theorem tidy_skip (pool : Pool) {f : Frame M} (ha : f.action?.isSome) (g : Generator) :
    ((f.skip pool).run g).1.Tidy := by
  have hlt : f.index < f.rule.actions.length := by simpa [action?] using ha
  exact tidy_enter pool hlt f.input g

theorem invariant_tidy (p : Program M) : Invariant p Tidy where
  enter _ pool input g := tidy_enter pool (Nat.zero_le _) input g
  skip ha _ pool g := tidy_skip pool ha g
  proceed {f} ha hf pool g := by
    rw [run_proceed]
    rcases hadvance : (Odometer.advance pool f.dials).run g with ⟨_ | dials, g'⟩
    · exact tidy_skip pool ha g'
    · have hloops : dials.map Dial.loop = f.dials.map Dial.loop :=
        (Odometer.advance_lowers (congrArg Prod.fst hadvance)).1
      exact ⟨hf.index_le, hloops.trans hf.loops, Odometer.inRange_advance hadvance hf.inRange⟩

end Frame

namespace Slate
variable {M : Type}

/-- The frame can be read from the slate. Without dials it does not matter what is there. -/
structure Shows (s : Slate M) (f : Frame M) : Prop where
  rule : s.rule = f.rule
  index : s.index = f.index
  input : s.input = f.input
  poses : f.dials ≠ [] → s.poses = f.dials.map Dial.pose
  counts : f.dials ≠ [] → s.counts = f.dials.map Dial.digit

theorem Shows.action? {s : Slate M} {f : Frame M} (h : s.Shows f) : s.action? = f.action? := by
  rw [Slate.action?, Frame.action?, h.rule, h.index]

variable [Mul M] {pool : Pool}

theorem shows_enter (pool : Pool) (s : Slate M) (index : Nat) (g : Generator) :
    ((s.enter pool index).run g).1.Shows ((Frame.enter pool s.rule s.input index).run g).1 ∧
      ((s.enter pool index).run g).2 = ((Frame.enter pool s.rule s.input index).run g).2 := by
  rw [Frame.run_enter, enter]
  by_cases hloops : Frame.loopsAt s.rule index = []
  · rw [hloops]
    exact ⟨⟨rfl, rfl, rfl, fun h => absurd rfl h, fun h => absurd rfl h⟩, rfl⟩
  · have hempty : (Frame.loopsAt s.rule index).isEmpty = false := by simpa using hloops
    simp only [hempty, Bool.false_eq_true, if_false, StateT.run_bind, run_reach]
    exact ⟨⟨rfl, rfl, rfl, fun _ => rfl,
      fun _ => (Odometer.map_digit_prime pool s.input _ g).symm⟩, rfl⟩

/-- The slate gets to what the draw of a frame gets to, and takes as much chance. -/
def Follows (risk : Risk (Slate M)) (draw : Draw (Frame M)) (g : Generator) : Prop :=
  ∃ s, risk.run g = .ok (s, (draw.run g).2) ∧ s.Shows (draw.run g).1

theorem follows_enter (pool : Pool) {s : Slate M} {rule : Rule M} {input : Pose M}
    (hrule : s.rule = rule) (hinput : s.input = input) (index : Nat) (g : Generator) :
    Follows (.ofDraw (s.enter pool index)) (Frame.enter pool rule input index) g := by
  subst hrule hinput
  obtain ⟨hshows, hdrawn⟩ := shows_enter pool s index g
  refine ⟨_, ?_, hshows⟩
  rw [← hdrawn]
  rfl

theorem follows_skip {s : Slate M} {f : Frame M} (hrule : s.rule = f.rule)
    (hindex : s.index = f.index) (hinput : s.input = f.input) (g : Generator) :
    Follows (s.skip pool) (f.skip pool) g := by
  rw [Slate.skip, Frame.skip, hindex]
  exact follows_enter pool hrule hinput (f.index + 1) g

theorem Shows.skip {s : Slate M} {f : Frame M} (h : s.Shows f) (g : Generator) :
    Follows (s.skip pool) (f.skip pool) g :=
  follows_skip h.rule h.index h.input g

theorem Shows.proceed {s : Slate M} {f : Frame M} (h : s.Shows f) (hf : f.Tidy)
    {action : Action M} (ha : f.action? = some action) (g : Generator) :
    Follows (s.proceed pool action.loops) (f.proceed pool) g := by
  have hloops : f.dials.map Dial.loop = action.loops := hf.loops.trans (Frame.loopsAt_of_action ha)
  by_cases hdials : f.dials = []
  · rw [Frame.proceed_of_bare hdials, ← hloops, hdials]
    exact h.skip g
  · rw [Follows, Frame.run_proceed, Slate.proceed, StateT.run_bind, ← hloops, List.length_map]
    obtain ⟨moved, g', hmoved, hslate⟩ | ⟨hnone, counts, hslate⟩ :=
      run_advance pool f.dials [] (s := s) (g := g) rfl hf.inRange
        (by rw [List.append_nil, h.poses hdials]) (by simp [h.counts hdials])
    · rw [List.append_nil] at hmoved hslate
      rw [hmoved, hslate]
      exact ⟨_, rfl, h.rule, h.index, h.input, fun _ => rfl, fun _ => rfl⟩
    · rw [List.append_nil] at hnone hslate
      rw [hnone, hslate]
      exact follows_skip (s := { s with counts }) h.rule h.index h.input g

end Slate

end SceneGrammar

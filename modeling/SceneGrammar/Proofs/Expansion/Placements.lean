import SceneGrammar.Proofs.Expansion.Reachable

/-!
# The placements that rules inherit

A rule inherits the unit placement or the pose of a turn of the rule that invokes it. So what holds
of the unit and is kept by multiplying on the placement of any loop of the program holds of every
placement that a rule inherits.
-/

namespace SceneGrammar

namespace Odometer
variable {M : Type} [Mul M]

/-- The dials turn some of these loops and have come to placements in `S`. -/
def Within (loops : List (Loop M)) (S : M → Prop) (dials : List (Dial M)) : Prop :=
  ∀ dial ∈ dials, dial.loop ∈ loops ∧ S dial.pose.placement

def KeptBy (S : M → Prop) (loops : List (Loop M)) : Prop :=
  ∀ placement, S placement → ∀ loop ∈ loops, S (placement * loop.transformation.placement)

variable {S : M → Prop} {all : List (Loop M)}

theorem within_prime (hS : KeptBy S all) {loops : List (Loop M)} (hl : ∀ loop ∈ loops, loop ∈ all)
    (pool : Pool) {input : Pose M} (hinput : S input.placement) (g : Generator) :
    Within all S ((prime pool input loops).run g).1 := by
  induction loops generalizing input g with
  | nil => exact fun _ h => nomatch h
  | cons loop loops ih =>
    rw [List.forall_mem_cons] at hl
    have hpose : S (input.placement * loop.transformation.placement) := hS _ hinput loop hl.1
    exact List.forall_mem_cons.2 ⟨⟨hl.1, hpose⟩, ih hl.2 hpose _⟩

theorem within_advance (hS : KeptBy S all) {dials moved : List (Dial M)} {pool : Pool}
    {g g' : Generator} (h : (advance pool dials).run g = (some moved, g'))
    (hd : Within all S dials) : Within all S moved := by
  induction dials generalizing moved g g' with
  | nil => cases h
  | cons dial dials ih =>
    rw [Within, List.forall_mem_cons] at hd
    rw [advance_cons] at h
    split at h
    · rename_i inner g₁ hinner
      cases h
      exact List.forall_mem_cons.2 ⟨hd.1, ih hinner hd.2⟩
    · split at h
      · cases h
        have hpose : S (dial.pose.placement * dial.loop.transformation.placement) :=
          hS _ hd.1.2 _ hd.1.1
        refine List.forall_mem_cons.2 ⟨⟨hd.1.1, hpose⟩, within_prime hS ?_ pool hpose _⟩
        intro loop hloop
        obtain ⟨other, hother, rfl⟩ := List.mem_map.1 hloop
        exact (hd.2 other hother).1
      · cases h

end Odometer

namespace Program
variable {M : Type}

def loops (p : Program M) : List (Loop M) :=
  p.rules.flatMap fun rule => rule.actions.flatMap Action.loops

theorem mem_loops_of_loopsAt {p : Program M} {rule : Rule M} (hr : rule ∈ p.rules) {index : Nat} :
    ∀ loop ∈ Frame.loopsAt rule index, loop ∈ p.loops := by
  intro loop hloop
  rw [Frame.loopsAt] at hloop
  cases ha : rule.actions[index]? with
  | none =>
    rw [ha] at hloop
    cases hloop
  | some action =>
    rw [ha] at hloop
    exact List.mem_flatMap.2
      ⟨rule, hr, List.mem_flatMap.2 ⟨action, List.mem_of_getElem? ha, hloop⟩⟩

end Program

namespace Frame
variable {M : Type}

theorem pose_of_within {f : Frame M} {loops : List (Loop M)} {S : M → Prop}
    (hd : Odometer.Within loops S f.dials) (hinput : S f.input.placement) :
    S f.pose.placement := by
  rw [pose]
  cases hlast : f.dials.getLast? with
  | none => exact hinput
  | some dial => exact (hd dial (List.mem_of_getLast? hlast)).2

variable [Mul M]

/-- The rule is of the program, and if the inherited placement is in `S`, so are those the dials
have come to. -/
theorem invariant_within (p : Program M) {S : M → Prop} (hS : Odometer.KeptBy S p.loops) :
    Invariant p fun f =>
      f.rule ∈ p.rules ∧ (S f.input.placement → Odometer.Within p.loops S f.dials) where
  enter hr pool input g :=
    ⟨hr, fun hinput => Odometer.within_prime hS (Program.mem_loops_of_loopsAt hr) pool hinput g⟩
  skip _ hf pool g :=
    ⟨hf.1, fun hinput =>
      Odometer.within_prime hS (Program.mem_loops_of_loopsAt hf.1) pool hinput g⟩
  proceed {f} _ hf pool g := by
    rw [run_proceed]
    rcases hadvance : (Odometer.advance pool f.dials).run g with ⟨_ | dials, g'⟩
    · exact ⟨hf.1, fun hinput =>
        Odometer.within_prime hS (Program.mem_loops_of_loopsAt hf.1) pool hinput g'⟩
    · exact ⟨hf.1, fun hinput => Odometer.within_advance hS hadvance (hf.2 hinput)⟩

theorem input_proceed (pool : Pool) (f : Frame M) (g : Generator) :
    ((f.proceed pool).run g).1.input = f.input := by
  rw [run_proceed]
  rcases (Odometer.advance pool f.dials).run g with ⟨_ | dials, g'⟩ <;> rfl

end Frame

namespace Machine
variable {M : Type} [Mul M]

theorem Move.forall_inputs {p : Program M} {m after : Machine M} {frame : Frame M}
    {below : List (Frame M)} {deed : Deed M} {Q : Pose M → Prop}
    (h : Move p m frame below deed after) (hinput : Q frame.input) (hpose : Q frame.pose)
    (hb : ∀ f ∈ below, Q f.input) : ∀ f ∈ after.stack, Q f.input := by
  have hproceed (m : Machine M) : ∀ f ∈ (m.proceed frame below).stack, Q f.input := by
    rw [stack_proceed, List.forall_mem_cons, Frame.input_proceed]
    exact ⟨hinput, hb⟩
  cases h with
  | leave ha => exact hb
  | draw ha he => exact hproceed _
  | change ha he => exact hproceed _
  | prune ha he hd =>
    rw [stack_skip, List.forall_mem_cons]
    exact ⟨hinput, hb⟩
  | enter ha he hd hp =>
    rw [stack_call, List.forall_mem_cons]
    exact ⟨hpose, hproceed _⟩

variable [One M]

theorem Reachable.forall_inputs {p : Program M} {P : Frame M → Prop} (inv : Frame.Invariant p P)
    {Q : Pose M → Prop} (hone : Q ⟨1, .pureRed⟩) (hpose : ∀ f, P f → Q f.input → Q f.pose)
    {m : Machine M} (h : Reachable p m) : ∀ f ∈ m.stack, Q f.input := by
  induction h with
  | start streams => exact fun _ hf => nomatch hf
  | @push m rule h hs hr ih => exact List.forall_mem_cons.2 ⟨hone, ih⟩
  | @step m after frame below deed h hs hm ih =>
    have hframe := h.forall_frames inv frame (hs ▸ .head _)
    rw [hs, List.forall_mem_cons] at ih
    exact (step_eq_ok_iff.1 hm).forall_inputs ih.1 (hpose frame hframe ih.1) ih.2
  | spend h hb ih => exact fun _ hf => nomatch hf

theorem Reachable.placement_input {p : Program M} {S : M → Prop} (hone : S 1)
    (hS : Odometer.KeptBy S p.loops) {m : Machine M} (h : Reachable p m) :
    ∀ f ∈ m.stack, S f.input.placement := by
  refine h.forall_inputs (Frame.invariant_within p hS) (Q := fun pose => S pose.placement) hone ?_
  intro f hf hinput
  exact Frame.pose_of_within (hf.2 hinput) hinput

end Machine

end SceneGrammar

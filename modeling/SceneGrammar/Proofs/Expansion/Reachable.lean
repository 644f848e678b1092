import SceneGrammar.Program.Operation
import SceneGrammar.Proofs.Expansion.Moves

/-!
# Reachable machines

The machines an expansion can come to, whatever the streams are and whenever the budget on objects
runs out. An invariant of frames that every rule of the program starts with, and that every turn
keeps, holds all over the stack of a reachable machine.
-/

namespace SceneGrammar

namespace Frame
variable {M : Type} [Mul M]

theorem run_enter (pool : Pool) (rule : Rule M) (input : Pose M) (index : Nat) (g : Generator) :
    (enter pool rule input index).run g =
      let (dials, g) := (Odometer.prime pool input (loopsAt rule index)).run g
      (⟨rule, index, input, dials⟩, g) := rfl

theorem run_proceed (pool : Pool) (f : Frame M) (g : Generator) :
    (f.proceed pool).run g =
      match (Odometer.advance pool f.dials).run g with
      | (some dials, g') => ({ f with dials }, g')
      | (none, g') => (f.skip pool).run g' := by
  rw [proceed, StateT.run_bind]
  rcases (Odometer.advance pool f.dials).run g with ⟨_ | dials, g'⟩ <;> rfl

theorem rule_proceed (pool : Pool) (f : Frame M) (g : Generator) :
    ((f.proceed pool).run g).1.rule = f.rule := by
  rw [run_proceed]
  rcases (Odometer.advance pool f.dials).run g with ⟨_ | dials, g'⟩ <;> rfl

structure Invariant (p : Program M) (P : Frame M → Prop) : Prop where
  enter {rule : Rule M} (hr : rule ∈ p.rules) (pool : Pool) (input : Pose M) (g : Generator) :
    P ((Frame.enter pool rule input 0).run g).1
  skip {f : Frame M} (ha : f.action?.isSome) (hf : P f) (pool : Pool) (g : Generator) :
    P ((f.skip pool).run g).1
  proceed {f : Frame M} (ha : f.action?.isSome) (hf : P f) (pool : Pool) (g : Generator) :
    P ((f.proceed pool).run g).1

theorem invariant_rule_mem (p : Program M) : Invariant p fun f => f.rule ∈ p.rules where
  enter hr _ _ _ := hr
  skip _ hf _ _ := hf
  proceed _ hf pool g := by rwa [rule_proceed]

end Frame

namespace Machine
variable {M : Type} [Mul M]

theorem stack_proceed (m : Machine M) (frame : Frame M) (below : List (Frame M)) :
    (m.proceed frame below).stack =
      ((frame.proceed m.settings.pool).run m.streams.color).1 :: below := rfl

theorem stack_skip (m : Machine M) (frame : Frame M) (below : List (Frame M)) :
    (m.skip frame below).stack =
      ((frame.skip m.settings.pool).run m.streams.color).1 :: below := rfl

theorem stack_call (m : Machine M) (rule : Rule M) (frame : Frame M) (below : List (Frame M)) :
    (m.call rule frame below).stack =
      ((Frame.enter m.settings.pool rule frame.pose 0).run m.streams.color).1 ::
        ((m.begin rule frame.pose).2.proceed frame below).stack := rfl

theorem Move.forall_frames {p : Program M} {m after : Machine M} {frame : Frame M}
    {below : List (Frame M)} {deed : Deed M} {P : Frame M → Prop}
    (h : Move p m frame below deed after) (inv : Frame.Invariant p P) (hf : P frame)
    (hb : ∀ f ∈ below, P f) : ∀ f ∈ after.stack, P f := by
  cases h with
  | leave ha => exact hb
  | draw ha he =>
    rw [stack_proceed, List.forall_mem_cons]
    exact ⟨inv.proceed (by simp [ha]) hf _ _, hb⟩
  | change ha he =>
    rw [stack_proceed, List.forall_mem_cons]
    exact ⟨inv.proceed (by simp [ha]) hf _ _, hb⟩
  | prune ha he hd =>
    rw [stack_skip, List.forall_mem_cons]
    exact ⟨inv.skip (by simp [ha]) hf _ _, hb⟩
  | enter ha he hd hp =>
    have hv := Program.mem_variants_of_pick (congrArg Prod.fst hp)
    have hr := List.mem_append_right p.initial hv
    rw [stack_call, stack_proceed, List.forall_mem_cons, List.forall_mem_cons]
    exact ⟨inv.enter hr _ _ _, inv.proceed (by simp [ha]) hf _ _, hb⟩

theorem Move.settings_eq {p : Program M} {m after : Machine M} {frame : Frame M}
    {below : List (Frame M)} {deed : Deed M} (h : Move p m frame below deed after) :
    after.settings = m.settings ∨ ∃ action setting, frame.action? = some action ∧
      action.effect = .set setting ∧ after.settings = m.settings.apply setting := by
  cases h with
  | change ha he => exact .inr ⟨_, _, ha, he, rfl⟩
  | enter ha he hd hp =>
    obtain rfl := congrArg Prod.snd hp
    exact .inl rfl
  | _ => exact .inl rfl

variable [One M]

inductive Reachable (p : Program M) : Machine M → Prop
  | start (streams : Streams) : Reachable p (.start p streams)
  | push {m : Machine M} {rule : Rule M} (h : Reachable p m) (hs : m.stack = [])
      (hr : rule ∈ p.initial) : Reachable p (m.push rule ⟨1, .pureRed⟩)
  | step {m after : Machine M} {frame : Frame M} {below : List (Frame M)} {deed : Deed M}
      (h : Reachable p m) (hs : m.stack = frame :: below)
      (hm : m.step p frame below = .ok (deed, after)) : Reachable p after
  | spend {m : Machine M} (h : Reachable p m) (hb : m.isSpent = true) :
      Reachable p (m.withStack [])

theorem Reachable.forall_frames {p : Program M} {m : Machine M} {P : Frame M → Prop}
    (h : Reachable p m) (inv : Frame.Invariant p P) : ∀ f ∈ m.stack, P f := by
  induction h with
  | start streams => exact fun _ hf => nomatch hf
  | @push m rule h hs hr ih =>
    intro f hf
    have hf' : f ∈ ((Frame.enter m.settings.pool rule ⟨1, .pureRed⟩ 0).run
      m.streams.color).1 :: m.stack := hf
    rw [hs, List.mem_singleton] at hf'
    exact hf' ▸ inv.enter (List.mem_append_left _ hr) _ _ _
  | step h hs hm ih =>
    rw [hs, List.forall_mem_cons] at ih
    exact (step_eq_ok_iff.1 hm).forall_frames inv ih.1 ih.2
  | spend h hb ih => exact fun _ hf => nomatch hf

theorem Reachable.rule_mem {p : Program M} {m : Machine M} {frame : Frame M}
    {below : List (Frame M)} (h : Reachable p m) (hs : m.stack = frame :: below) :
    frame.rule ∈ p.rules :=
  h.forall_frames (Frame.invariant_rule_mem p) frame (hs ▸ .head _)

theorem Reachable.of_drain {σ ε : Type} {p : Program M} {observe : Observer M σ ε}
    {m after : Machine M} {s s' : σ} (h : Reachable p m)
    (hrun : (drain p observe m).run s = .ok after s') : Reachable p after ∧ after.stack = [] := by
  refine drain_induction (R := fun m after => Reachable p m → Reachable p after ∧ after.stack = [])
    ?_ ?_ ?_ hrun h
  · intro m hs h
    exact ⟨h, hs⟩
  · intro m hb h
    exact ⟨h.spend hb, rfl⟩
  · intro m next after frame below deed hs _ hm ih h
    exact ih (h.step hs hm.step_eq)

end Machine

/-- Two ways up; every step draws two rows of three boxes and goes on to two more steps, in a depth
that the steps set themselves. -/
def Program.staircase : Program Matrix where
  settings := .initial
  initial := [⟨none, none, [⟨[⟨2, .ofOperations [.move .y 1]⟩], .invoke "step", 1⟩]⟩]
  groups := [("step", Roulette.empty.add 1 ⟨some "step", none, [
    ⟨[], .set (.maxDepth 6), 2⟩,
    ⟨[⟨2, .ofOperations [.move .x 1]⟩, ⟨3, .ofOperations [.hue 20]⟩], .draw .box, 3⟩,
    ⟨[⟨2, .ofOperations [.move .z 1]⟩], .invoke "step", 4⟩]⟩)]

end SceneGrammar

import SceneGrammar.Proofs.Expansion.Reachable

/-!
# Expansion by recursion

The same expansion without a stack: an invocation is a recursive call that keeps its frame to itself,
and the calls share only the settings, the streams and the counts. A call is made after the caller
has come to its next turn, and the caller goes on with whatever the call has left of what is shared.
-/

namespace SceneGrammar

/-- What is handed on from one turn to the next, of whichever rule. -/
structure Course where
  settings : Settings
  streams : Streams
  objects : Nat

namespace Course
variable {M : Type}

def start (p : Program M) (streams : Streams) : Course := ⟨p.settings, streams, 0⟩

def isSpent (c : Course) : Bool := c.settings.maxObjects.any (· ≤ c.objects)

def Admits (c : Course) (height : Nat) : Prop := height < c.settings.maxDepth.toNat - 1

instance (c : Course) (height : Nat) : Decidable (c.Admits height) :=
  inferInstanceAs (Decidable (_ < _))

def drew (c : Course) : Course := { c with objects := c.objects + 1 }

def change (p : Program M) (c : Course) (setting : Setting) : Course :=
  let streams := match setting with
    | .seed seed => .ofSeed seed
    | .initialSeed => p.streams
    | _ => c.streams
  { c with settings := c.settings.apply setting, streams }

def choose (p : Program M) (c : Course) (name : String) (line : Nat) :
    Except Diagnostic (Nat × Rule M) × Course :=
  let drawn := (p.pick name (some line) Draw.unit).run c.streams.geometry
  (drawn.1, { c with streams := { c.streams with geometry := drawn.2 } })

def drawColor {α : Type} (c : Course) (draw : Draw α) : α × Course :=
  let drawn := draw.run c.streams.color
  (drawn.1, { c with streams := { c.streams with color := drawn.2 } })

end Course

/-- All of a machine but its stack. -/
structure Shared extends Course where
  steps : Nat
  maxStack : Nat
  pruned : Nat

namespace Shared
variable {M : Type}

def start (p : Program M) (streams : Streams) : Shared := ⟨.start p streams, 0, 0, 0⟩

def stats (c : Shared) : Stats := ⟨c.objects, c.steps, c.maxStack, c.pruned⟩

def stepped (c : Shared) : Shared := { c with steps := c.steps + 1 }
def prune (c : Shared) : Shared := { c with pruned := c.pruned + 1 }
def drew (c : Shared) : Shared := { c with toCourse := c.toCourse.drew }

def change (p : Program M) (c : Shared) (setting : Setting) : Shared :=
  { c with toCourse := c.toCourse.change p setting }

def choose (p : Program M) (c : Shared) (name : String) (line : Nat) :
    Except Diagnostic (Nat × Rule M) × Shared :=
  let chosen := c.toCourse.choose p name line
  (chosen.1, { c with toCourse := chosen.2 })

def drawColor {α : Type} (c : Shared) (draw : Draw α) : α × Shared :=
  let drawn := c.toCourse.drawColor draw
  (drawn.1, { c with toCourse := drawn.2 })

variable [Mul M]

def enter (c : Shared) (height : Nat) (rule : Rule M) (input : Pose M) : Frame M × Shared :=
  let entered := c.drawColor (Frame.enter c.settings.pool rule input 0)
  (entered.1, { entered.2 with maxStack := max entered.2.maxStack height })

def proceed (c : Shared) (frame : Frame M) : Frame M × Shared :=
  c.drawColor (frame.proceed c.settings.pool)

def skip (c : Shared) (frame : Frame M) : Frame M × Shared :=
  c.drawColor (frame.skip c.settings.pool)

end Shared

namespace Recursive
open Machine (heightLimit)
variable {M σ ε : Type} [Mul M]

/-- A rule from the present turn of its frame to its end. -/
def expand (p : Program M) (scene : Scene M σ ε) (height : Nat) (frame : Frame M) (c : Shared) :
    EStateM (BuildError ε) σ Shared :=
  if c.isSpent then pure c
  else
    match _ : frame.action? with
    | none => pure c.stepped
    | some action =>
      match action.effect with
      | .draw solid => do
        (scene (.draw ⟨solid, frame.pose⟩)).adaptExcept .scene
        let next := c.stepped.drew.proceed frame
        expand p scene height next.1 next.2
      | .set setting =>
        let next := (c.stepped.change p setting).proceed frame
        expand p scene height next.1 next.2
      | .invoke name =>
        if _ : c.Admits height then
          match c.stepped.choose p name action.line with
          | (.error unknownRule, _) => throw (.rule unknownRule)
          | (.ok (_, rule), chosen) => do
            let callee := chosen.enter (height + 1) rule frame.pose
            let caller := callee.2.proceed frame
            let left ← expand p scene (height + 1) callee.1 caller.2
            expand p scene height caller.1 left
        else
          let next := c.stepped.prune.skip frame
          expand p scene height next.1 next.2
termination_by (heightLimit - height, frame.turnsLeft)
decreasing_by
  · exact .right _ (Frame.turnsLeft_proceed_lt _ (by simp [‹frame.action? = some _›]) _)
  · exact .right _ (Frame.turnsLeft_proceed_lt _ (by simp [‹frame.action? = some _›]) _)
  · have hd : height < c.settings.maxDepth.toNat - 1 := ‹c.Admits height›
    have : c.settings.maxDepth.toNat < heightLimit := c.settings.maxDepth.toNat_lt_size
    exact .left _ _ (by omega)
  · exact .right _ (Frame.turnsLeft_proceed_lt _ (by simp [‹frame.action? = some _›]) _)
  · exact .right _ (Frame.turnsLeft_skip_lt _ (by simp [‹frame.action? = some _›]) _)

section
variable {p : Program M} {scene : Scene M σ ε} {height : Nat} {frame : Frame M} {c : Shared}
  {action : Action M}

theorem expand_spent (hb : c.isSpent = true) : expand p scene height frame c = pure c := by
  rw [expand, if_pos hb]

theorem expand_leave (hb : ¬c.isSpent = true) (ha : frame.action? = none) :
    expand p scene height frame c = pure c.stepped := by
  rw [expand, if_neg hb]
  split <;> simp_all

theorem expand_draw {solid : Primitive} (hb : ¬c.isSpent = true)
    (ha : frame.action? = some action) (he : action.effect = .draw solid) :
    expand p scene height frame c =
      (scene (.draw ⟨solid, frame.pose⟩)).adaptExcept .scene >>= fun _ =>
        expand p scene height (c.stepped.drew.proceed frame).1 (c.stepped.drew.proceed frame).2 := by
  rw [expand, if_neg hb]
  split <;> simp_all

theorem expand_change {setting : Setting} (hb : ¬c.isSpent = true)
    (ha : frame.action? = some action) (he : action.effect = .set setting) :
    expand p scene height frame c =
      expand p scene height ((c.stepped.change p setting).proceed frame).1
        ((c.stepped.change p setting).proceed frame).2 := by
  rw [expand, if_neg hb]
  split <;> simp_all

theorem expand_unknown {name : String} {unknownRule : Diagnostic} {chosen : Shared}
    (hb : ¬c.isSpent = true) (ha : frame.action? = some action)
    (he : action.effect = .invoke name) (hd : c.Admits height)
    (hp : c.stepped.choose p name action.line = (.error unknownRule, chosen)) :
    expand p scene height frame c = throw (.rule unknownRule) := by
  rw [expand, if_neg hb]
  split <;> simp_all

theorem expand_enter {name : String} {i : Nat} {rule : Rule M} {chosen : Shared}
    (hb : ¬c.isSpent = true) (ha : frame.action? = some action)
    (he : action.effect = .invoke name) (hd : c.Admits height)
    (hp : c.stepped.choose p name action.line = (.ok (i, rule), chosen)) :
    expand p scene height frame c =
      let callee := chosen.enter (height + 1) rule frame.pose
      let caller := callee.2.proceed frame
      expand p scene (height + 1) callee.1 caller.2 >>= expand p scene height caller.1 := by
  rw [expand, if_neg hb]
  split <;> simp_all

theorem expand_prune {name : String} (hb : ¬c.isSpent = true)
    (ha : frame.action? = some action) (he : action.effect = .invoke name)
    (hd : ¬c.Admits height) :
    expand p scene height frame c =
      expand p scene height (c.stepped.prune.skip frame).1 (c.stepped.prune.skip frame).2 := by
  rw [expand, if_neg hb]
  split <;> simp_all

end

variable [One M]

/-- Every anonymous rule starts at the unit placement in red, unless the budget is spent. -/
def expandAll (p : Program M) (scene : Scene M σ ε) :
    List (Rule M) → Shared → EStateM (BuildError ε) σ Shared
  | [], c => pure c
  | rule :: rules, c =>
    if c.isSpent then pure c
    else do
      let entered := c.enter 1 rule ⟨1, .pureRed⟩
      let c ← expand p scene 1 entered.1 entered.2
      expandAll p scene rules c

def expandFrom (p : Program M) (streams : Streams) (scene : Scene M σ ε) :
    EStateM (BuildError ε) σ Shared := do
  (scene (.background p.settings.background)).adaptExcept .scene
  (scene (.camera p.settings.camera)).adaptExcept .scene
  expandAll p scene p.initial (.start p streams)

end Recursive

namespace Shared
variable {M : Type}

def machine (c : Shared) (stack : List (Frame M)) : Machine M :=
  ⟨c.settings, c.streams, stack, c.stats⟩

section
variable {c : Shared} {frame : Frame M} {below : List (Frame M)}

theorem isSpent_machine (stack : List (Frame M)) : (c.machine stack).isSpent = c.isSpent := rfl

theorem isDeepest_machine (stack : List (Frame M)) :
    (c.machine stack).isDeepest = true ↔ ¬c.Admits stack.length := by
  rw [Machine.isDeepest, decide_eq_true_iff, Course.Admits, Nat.not_lt]
  rfl

theorem not_isDeepest_machine {stack : List (Frame M)} (h : c.Admits stack.length) :
    (c.machine stack).isDeepest = false :=
  Bool.eq_false_iff.2 fun hd => (isDeepest_machine stack).1 hd h

theorem choose_machine (p : Program M) (name : String) (line : Nat) (stack : List (Frame M)) :
    (c.machine stack).drawGeometry (p.pick name (some line) Draw.unit) =
      ((c.choose p name line).1, (c.choose p name line).2.machine stack) := rfl

variable [Mul M]

theorem call_machine (rule : Rule M) :
    (c.machine (frame :: below)).call rule frame below =
      let callee := c.enter (below.length + 2) rule frame.pose
      let caller := callee.2.proceed frame
      caller.2.machine (callee.1 :: caller.1 :: below) := rfl

theorem push_machine (rule : Rule M) (input : Pose M) :
    (c.machine []).push rule input =
      (c.enter 1 rule input).2.machine [(c.enter 1 rule input).1] := rfl

end

end Shared

namespace Machine
variable {M σ ε : Type} [Mul M]

section
variable {p : Program M} {scene : Scene M σ ε} {c : Shared} {frame : Frame M}
  {below : List (Frame M)} {deed : Deed M} {after : Machine M}

theorem drain_machine_of_move (hb : ¬c.isSpent = true)
    (h : Move p (c.machine (frame :: below)) frame below deed after) :
    drain p scene.observer (c.machine (frame :: below)) =
      (scene.observer (c.machine (frame :: below)) deed).adaptExcept .scene >>= fun _ =>
        drain p scene.observer after := by
  have hb' : (c.machine (frame :: below)).isSpent = false := Bool.eq_false_iff.2 hb
  exact drain_of_step rfl hb' h.step_eq

theorem drain_machine_of_quiet (hb : ¬c.isSpent = true)
    (h : Move p (c.machine (frame :: below)) frame below deed after)
    (hq : scene.observer (c.machine (frame :: below)) deed = pure ()) :
    drain p scene.observer (c.machine (frame :: below)) = drain p scene.observer after := by
  rw [drain_machine_of_move hb h, hq]
  rfl

end

/-- The frame on top is done as a call is, before those below are looked at. -/
theorem drain_machine (p : Program M) (scene : Scene M σ ε) (height : Nat) (frame : Frame M)
    (c : Shared) (below : List (Frame M)) (hh : below.length + 1 = height) :
    drain p scene.observer (c.machine (frame :: below)) =
      Recursive.expand p scene height frame c >>= fun left =>
        drain p scene.observer (left.machine below) := by
  induction height, frame, c using Recursive.expand.induct p generalizing below with
  | case1 height frame c hb =>
    have hb' (stack : List (Frame M)) : (c.machine stack).isSpent = true := hb
    rw [Recursive.expand_spent hb, pure_bind, drain_of_spent rfl (hb' _)]
    cases below with
    | nil => rw [drain_of_nil rfl]; rfl
    | cons next below => rw [drain_of_spent rfl (hb' _)]; rfl
  | case2 height frame c hb ha =>
    rw [Recursive.expand_leave hb ha, pure_bind, drain_machine_of_quiet hb (.leave ha) rfl]
    rfl
  | case3 height frame c hb action ha solid he ih =>
    rw [Recursive.expand_draw hb ha he, bind_assoc, drain_machine_of_move hb (.draw ha he)]
    congr 1
    funext _
    exact ih below hh
  | case4 height frame c hb action ha setting he next ih =>
    rw [Recursive.expand_change hb ha he, ← ih below hh,
      drain_machine_of_quiet hb (.change ha he) rfl]
    rfl
  | case5 height frame c hb action ha name he hd unknownRule chosen hp =>
    have hd' : (c.machine (frame :: below)).isDeepest = false :=
      Shared.not_isDeepest_machine (by rwa [List.length_cons, hh])
    have hm : (c.machine (frame :: below)).step p frame below = .error unknownRule :=
      step_eq_error_iff.2 ⟨action, name, ha, he, hd', congrArg Prod.fst hp⟩
    have hb' : (c.machine (frame :: below)).isSpent = false := Bool.eq_false_iff.2 hb
    rw [Recursive.expand_unknown hb ha he hd hp, drain_of_error rfl hb' hm]
    rfl
  | case6 height frame c hb action ha name he hd i rule chosen hp callee caller ihCallee ihCaller =>
    have hd' : (c.machine (frame :: below)).isDeepest = false :=
      Shared.not_isDeepest_machine (by rwa [List.length_cons, hh])
    have hp' : (c.machine (frame :: below)).stepped.drawGeometry
        (p.pick name (some action.line) Draw.unit) =
          (.ok (i, rule), chosen.machine (frame :: below)) := by
      change (c.stepped.machine (frame :: below)).drawGeometry _ = _
      rw [Shared.choose_machine, hp]
    rw [Recursive.expand_enter hb ha he hd hp, bind_assoc,
      drain_machine_of_quiet hb (.enter ha he hd' hp') rfl, Shared.call_machine]
    subst hh
    -- the callee is done above the caller's next turn, the caller above the frames below
    rw [ihCallee _ rfl]
    congr 1
    funext left
    exact ihCaller left below rfl
  | case7 height frame c hb action ha name he hd next ih =>
    have hd' : (c.machine (frame :: below)).isDeepest = true :=
      (Shared.isDeepest_machine _).2 (by rwa [List.length_cons, hh])
    rw [Recursive.expand_prune hb ha he hd, ← ih below hh,
      drain_machine_of_quiet hb (.prune ha he hd') rfl]
    rfl

variable [One M]

theorem drainAll_machine (p : Program M) (scene : Scene M σ ε) (rules : List (Rule M))
    (c : Shared) :
    drainAll p scene.observer (c.machine []) rules =
      (·.machine []) <$> Recursive.expandAll p scene rules c := by
  induction rules generalizing c with
  | nil => rfl
  | cons rule rules ih =>
    unfold drainAll Recursive.expandAll
    rw [Shared.isSpent_machine, Shared.push_machine]
    split
    · rfl
    · rw [map_bind, drain_machine p scene 1 _ _ [] rfl, bind_assoc]
      congr 1
      funext left
      rw [drain_of_nil rfl, pure_bind]
      exact ih left

theorem expandFrom_recursive (p : Program M) (streams : Streams) (scene : Scene M σ ε) :
    p.expandFrom streams scene = Shared.stats <$> Recursive.expandFrom p streams scene := by
  have hall := drainAll_machine p scene p.initial (.start p streams)
  have hstart : Machine.start p streams = (Shared.start p streams).machine [] := rfl
  unfold Program.expandFrom Recursive.expandFrom
  rw [hstart, hall]
  simp only [map_bind, bind_map_left]
  rfl

/-- The stack and the recursion come to the same machine, and to the same events and failure on the
way, for every scene. -/
theorem drainAll_eq_recursive (p : Program M) (streams : Streams) (scene : Scene M σ ε) :
    drainAll p scene.observer (.start p streams) p.initial =
        (·.machine []) <$> Recursive.expandAll p scene p.initial (.start p streams) ∧
      p.expandFrom streams scene = Shared.stats <$> Recursive.expandFrom p streams scene :=
  ⟨drainAll_machine p scene p.initial (.start p streams), expandFrom_recursive p streams scene⟩

end Machine

end SceneGrammar

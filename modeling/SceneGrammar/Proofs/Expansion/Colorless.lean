import SceneGrammar.Proofs.Expansion.Lockstep
import SceneGrammar.Proofs.Program.Bleach

/-!
# Machines without their colours

A machine and its bleached copy are in lockstep, whatever colours the copy draws from: only changes
of the seed disturb its stream of colours. So a program and its bleached copy draw the same solids
in the same places.
-/

namespace SceneGrammar

namespace Dial
variable {M : Type}

def bleach (dial : Dial M) : Dial M := ⟨dial.loop.bleach, dial.count, dial.pose.bleach⟩

theorem map_loop_bleach (dials : List (Dial M)) :
    (dials.map bleach).map loop = (dials.map loop).map Loop.bleach := by
  rw [List.map_map, List.map_map]
  rfl

end Dial

namespace Odometer
variable {M : Type} [Mul M]

theorem run_prime_bleach (pool pool' : Pool) (pose : Pose M) (loops : List (Loop M))
    (g g' : Generator) :
    (prime pool' pose.bleach (loops.map Loop.bleach)).run g' =
      (((prime pool pose loops).run g).1.map Dial.bleach, g') := by
  -- the copy draws no colour, so its generator is the same all along
  induction loops generalizing pose g with
  | nil => rfl
  | cons loop loops ih =>
    have happly := loop.transformation.run_apply_bleach pool pool' pose g g'
    rw [List.map_cons, prime_cons, Loop.bleach, happly]
    dsimp only
    rw [ih _ ((loop.transformation.apply pool pose).run g).2]
    rfl

theorem run_advance_bleach (pool pool' : Pool) (dials : List (Dial M)) (g g' : Generator) :
    (advance pool' (dials.map Dial.bleach)).run g' =
      (((advance pool dials).run g).1.map (List.map Dial.bleach), g') := by
  induction dials with
  | nil => rfl
  | cons dial dials ih =>
    rw [List.map_cons, advance_cons, advance_cons, ih]
    rcases (advance pool dials).run g with ⟨_ | moved, g₁⟩
    · have happly := dial.loop.transformation.run_apply_bleach pool pool' dial.pose g₁ g'
      simp only [Option.map_none, Dial.bleach, Loop.bleach, happly, Dial.map_loop_bleach]
      rcases (dial.loop.transformation.apply pool dial.pose).run g₁ with ⟨pose, g₂⟩
      have hprime := run_prime_bleach pool pool' pose (dials.map Dial.loop) g₂ g'
      by_cases hc : dial.count + 1 < dial.loop.repetitions.toNat
      · rw [if_pos hc, if_pos hc, hprime]
        rfl
      · rw [if_neg hc, if_neg hc]
        rfl
    · rfl

end Odometer

namespace Frame
variable {M : Type}

def bleach (f : Frame M) : Frame M :=
  ⟨f.rule.bleach, f.index, f.input.bleach, f.dials.map Dial.bleach⟩

theorem action?_bleach (f : Frame M) : f.bleach.action? = f.action?.map Action.bleach :=
  List.getElem?_map ..

theorem action?_bleach_of_some {f : Frame M} {action : Action M} (h : f.action? = some action) :
    f.bleach.action? = some action.bleach := by
  rw [action?_bleach, h, Option.map_some]

theorem pose_bleach (f : Frame M) : f.bleach.pose = f.pose.bleach := by
  simp only [pose, bleach, List.getLast?_map, Option.map_map]
  cases f.dials.getLast? <;> rfl

theorem loopsAt_bleach (rule : Rule M) (index : Nat) :
    loopsAt rule.bleach index = (loopsAt rule index).map Loop.bleach := by
  simp only [loopsAt, Rule.bleach, List.getElem?_map]
  cases rule.actions[index]? <;> rfl

variable [Mul M]

theorem run_enter_bleach (pool pool' : Pool) (rule : Rule M) (input : Pose M) (index : Nat)
    (g g' : Generator) :
    (enter pool' rule.bleach input.bleach index).run g' =
      (((enter pool rule input index).run g).1.bleach, g') := by
  rw [run_enter, loopsAt_bleach, Odometer.run_prime_bleach pool pool' input _ g g']
  rfl

theorem run_skip_bleach (pool pool' : Pool) (f : Frame M) (g g' : Generator) :
    (f.bleach.skip pool').run g' = (((f.skip pool).run g).1.bleach, g') :=
  run_enter_bleach pool pool' f.rule f.input (f.index + 1) g g'

theorem run_proceed_bleach (pool pool' : Pool) (f : Frame M) (g g' : Generator) :
    (f.bleach.proceed pool').run g' = (((f.proceed pool).run g).1.bleach, g') := by
  have hadvance := Odometer.run_advance_bleach pool pool' f.dials g g'
  rw [run_proceed, run_proceed, bleach, hadvance]
  rcases (Odometer.advance pool f.dials).run g with ⟨_ | dials, g₁⟩
  · exact run_skip_bleach pool pool' f g₁ g'
  · rfl

end Frame

namespace Drawing
variable {M : Type}

def bleach (drawing : Drawing M) : Drawing M := ⟨drawing.solid, drawing.pose.bleach⟩

end Drawing

namespace Machine
variable {M : Type}

/-- The bleached copy has colours of its own to draw from. -/
def bleach (m : Machine M) (color : Generator) : Machine M :=
  ⟨m.settings.bleach, ⟨m.streams.geometry, color⟩, m.stack.map Frame.bleach, m.stats⟩

theorem isDeepest_bleach (m : Machine M) (color : Generator) :
    (m.bleach color).isDeepest = m.isDeepest := by
  simp only [isDeepest, bleach, List.length_map]
  rfl

theorem exists_change_bleach (p : Program M) (m : Machine M) (setting : Setting)
    (color : Generator) :
    ∃ color', (m.bleach color).change p.bleach setting.bleach =
      (m.change p setting).bleach color' := by
  have hgeometry : ((m.bleach color).change p.bleach setting.bleach).streams.geometry =
      (m.change p setting).streams.geometry := by
    cases setting <;> rfl
  exact ⟨((m.bleach color).change p.bleach setting.bleach).streams.color,
    Machine.ext (m.settings.bleach_apply setting) (Streams.ext hgeometry rfl) rfl rfl⟩

theorem drawGeometry_pick_bleach (p : Program M) (m : Machine M) (name : String) (line : Option Nat)
    (color : Generator) :
    (m.bleach color).drawGeometry (p.bleach.pick name line Draw.unit) =
      let (choice, m) := m.drawGeometry (p.pick name line Draw.unit)
      (choice.map fun (i, rule) => (i, rule.bleach), m.bleach color) := by
  have hpick := p.run_pick_bleach name line Draw.unit m.streams.geometry
  simp only [drawGeometry, Streams.drawGeometry, bleach, hpick]
  rcases (p.pick name line Draw.unit).run m.streams.geometry with ⟨choice, g⟩
  rfl

theorem drawColor_bleach {α β : Type} {m : Machine M} {color : Generator} {draw : Draw α}
    {other : Draw β} {f : α → β}
    (h : other.run color = (f (draw.run m.streams.color).1, color)) :
    (m.bleach color).drawColor other =
      (f (m.drawColor draw).1, (m.drawColor draw).2.bleach color) := by
  simp only [drawColor, Streams.drawColor, bleach, h]
  rfl

variable [Mul M]

theorem proceed_bleach (m : Machine M) (frame : Frame M) (below : List (Frame M))
    (color : Generator) :
    (m.bleach color).proceed frame.bleach (below.map Frame.bleach) =
      (m.proceed frame below).bleach color := by
  have hrun := frame.run_proceed_bleach m.settings.pool .randomRgb m.streams.color color
  exact congrArg (fun drawn => drawn.2.withStack (drawn.1 :: below.map Frame.bleach))
    (drawColor_bleach hrun)

theorem skip_bleach (m : Machine M) (frame : Frame M) (below : List (Frame M))
    (color : Generator) :
    (m.bleach color).skip frame.bleach (below.map Frame.bleach) =
      (m.skip frame below).bleach color := by
  have hrun := frame.run_skip_bleach m.settings.pool .randomRgb m.streams.color color
  exact congrArg (fun drawn => drawn.2.withStack (drawn.1 :: below.map Frame.bleach))
    (drawColor_bleach hrun)

theorem begin_bleach (m : Machine M) (rule : Rule M) (input : Pose M) (color : Generator) :
    (m.bleach color).begin rule.bleach input.bleach =
      let (frame, m) := m.begin rule input
      (frame.bleach, m.bleach color) := by
  have hrun := Frame.run_enter_bleach m.settings.pool .randomRgb rule input 0 m.streams.color color
  have hpool : (m.bleach color).settings.pool = .randomRgb := rfl
  simp only [begin, hpool, drawColor_bleach hrun]
  simp only [bleach, tally, List.length_map]

theorem push_bleach [One M] (m : Machine M) (rule : Rule M) (color : Generator) :
    (m.bleach color).push rule.bleach ⟨1, .pureRed⟩ =
      (m.push rule ⟨1, .pureRed⟩).bleach color := by
  have hbegin := m.begin_bleach rule ⟨1, .pureRed⟩ color
  exact congrArg (fun begun => begun.2.withStack (begun.1 :: begun.2.stack)) hbegin

theorem call_bleach (m : Machine M) (rule : Rule M) (frame : Frame M) (below : List (Frame M))
    (color : Generator) :
    (m.bleach color).call rule.bleach frame.bleach (below.map Frame.bleach) =
      (m.call rule frame below).bleach color := by
  simp only [call, Frame.pose_bleach, begin_bleach, proceed_bleach]
  rfl

theorem Move.bleach {p : Program M} {m next : Machine M} {frame : Frame M}
    {below : List (Frame M)} {deed : Deed M} (h : Move p m frame below deed next)
    (color : Generator) :
    ∃ deed' color', Move p.bleach (m.bleach color) frame.bleach (below.map Frame.bleach) deed'
        (next.bleach color') ∧
      deed'.drawn = deed.drawn.map Drawing.bleach := by
  cases h with
  | leave ha =>
    have ha' : frame.bleach.action? = none := by rw [Frame.action?_bleach, ha, Option.map_none]
    exact ⟨_, color, .leave ha', rfl⟩
  | @draw action solid ha he =>
    have hpose := congrArg (fun pose => [Drawing.mk solid pose]) frame.pose_bleach
    have hnext := m.stepped.drew.proceed_bleach frame below color
    refine ⟨.draw ⟨solid, frame.bleach.pose⟩, color, ?_, hpose⟩
    rw [← hnext]
    exact .draw (Frame.action?_bleach_of_some ha) (congrArg Effect.bleach he)
  | @change action setting ha he =>
    -- a seed gives the copy new colours to draw from, so they are not those it had
    obtain ⟨color', hchange⟩ := exists_change_bleach p m.stepped setting color
    refine ⟨.change setting.bleach, color', ?_, rfl⟩
    rw [← proceed_bleach, ← hchange]
    exact .change (Frame.action?_bleach_of_some ha) (congrArg Effect.bleach he)
  | prune ha he hd =>
    refine ⟨.prune, color, ?_, rfl⟩
    rw [← m.isDeepest_bleach color] at hd
    rw [← skip_bleach]
    exact .prune (Frame.action?_bleach_of_some ha) (congrArg Effect.bleach he) hd
  | @enter action name i rule chosen ha he hd hp =>
    refine ⟨.enter rule.bleach, color, ?_, rfl⟩
    have hchosen := drawGeometry_pick_bleach p m.stepped name (some action.line) color
    rw [hp] at hchosen
    rw [← m.isDeepest_bleach color] at hd
    rw [← call_bleach]
    exact .enter (Frame.action?_bleach_of_some ha) (congrArg Effect.bleach he) hd hchosen

theorem step_bleach_of_error {p : Program M} {m : Machine M} {frame : Frame M}
    {below : List (Frame M)} {diagnostic : Diagnostic}
    (h : m.step p frame below = .error diagnostic) (color : Generator) :
    (m.bleach color).step p.bleach frame.bleach (below.map Frame.bleach) = .error diagnostic := by
  obtain ⟨action, name, ha, he, hd, hp⟩ := step_eq_error_iff.1 h
  refine step_eq_error_iff.2 ⟨action.bleach, name, Frame.action?_bleach_of_some ha,
    congrArg Effect.bleach he, ?_, ?_⟩
  · rw [isDeepest_bleach, hd]
  · have hchosen := drawGeometry_pick_bleach p m.stepped name (some action.line) color
    exact (congrArg Prod.fst hchosen).trans (congrArg (Except.map _) hp)

variable [One M]

theorem lockstep_bleach (p : Program M) :
    Lockstep p p.bleach Rule.bleach Drawing.bleach fun m n => ∃ color, n = m.bleach color where
  stats := by
    rintro m _ ⟨color, rfl⟩
    rfl
  isSpent := by
    rintro m _ ⟨color, rfl⟩
    rfl
  drop := by
    rintro m _ ⟨color, rfl⟩
    exact ⟨color, rfl⟩
  idle := by
    rintro m _ ⟨color, rfl⟩ hs
    exact congrArg (List.map Frame.bleach) hs
  push := by
    rintro m _ ⟨color, rfl⟩ rule
    exact ⟨color, m.push_bleach rule color⟩
  fail := by
    rintro m _ frame below diagnostic ⟨color, rfl⟩ hs hm
    exact ⟨frame.bleach, below.map Frame.bleach, congrArg (List.map Frame.bleach) hs,
      step_bleach_of_error hm color⟩
  move := by
    rintro m _ next frame below deed ⟨color, rfl⟩ hs hm
    obtain ⟨deed', color', hmove, hdrawn⟩ := hm.bleach color
    exact ⟨frame.bleach, below.map Frame.bleach, deed', next.bleach color',
      congrArg (List.map Frame.bleach) hs, hmove, hdrawn, color', rfl⟩

end Machine

/-- The solid of a drawing and its place. -/
def Event.placed? {M : Type} : Event M → Option (Primitive × M)
  | .draw drawing => some (drawing.solid, drawing.pose.placement)
  | _ => none

namespace Program
variable {M : Type} [Mul M] [One M]

theorem delivery_bleach (p : Program M) (streams : Streams) (color : Generator) :
    (p.bleach.delivery ⟨streams.geometry, color⟩).events.filterMap Event.placed? =
        (p.delivery streams).events.filterMap Event.placed? ∧
      (p.bleach.delivery ⟨streams.geometry, color⟩).result = (p.delivery streams).result := by
  have hstart : ∃ color', Machine.start p.bleach ⟨streams.geometry, color⟩ =
      (Machine.start p streams).bleach color' := ⟨color, rfl⟩
  obtain ⟨drawings, result, hall, hbleached⟩ := (Machine.lockstep_bleach p).delivery hstart rfl
  rw [hall, hbleached]
  refine ⟨?_, rfl⟩
  simp only [List.filterMap_append, List.filterMap_map, opening]
  rfl

end Program

end SceneGrammar

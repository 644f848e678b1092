import SceneGrammar.Proofs.Expansion.Delivery
import SceneGrammar.Proofs.Program.Renumber

/-!
# Line numbers have no say in an expansion

A machine of the renumbered program does in every step what a machine of the program itself does.
Only the report on a missing rule tells the two apart.
-/

namespace SceneGrammar

namespace Frame
variable {M : Type}

def renumber (f : Nat → Nat) (frame : Frame M) : Frame M :=
  { frame with rule := frame.rule.renumber f }

theorem action?_renumber (f : Nat → Nat) (frame : Frame M) :
    (frame.renumber f).action? = frame.action?.map (Action.renumber f) :=
  List.getElem?_map ..

theorem loopsAt_renumber (f : Nat → Nat) (rule : Rule M) (index : Nat) :
    loopsAt (rule.renumber f) index = loopsAt rule index := by
  simp only [loopsAt, Rule.renumber, List.getElem?_map, Option.map_map]
  rfl

variable [Mul M]

theorem run_enter_renumber (f : Nat → Nat) (pool : Pool) (rule : Rule M) (input : Pose M)
    (index : Nat) (g : Generator) :
    (enter pool (rule.renumber f) input index).run g =
      let (frame, g') := (enter pool rule input index).run g
      (frame.renumber f, g') := by
  rw [run_enter, loopsAt_renumber]
  rfl

theorem run_proceed_renumber (f : Nat → Nat) (pool : Pool) (frame : Frame M) (g : Generator) :
    ((frame.renumber f).proceed pool).run g =
      let (frame, g') := (frame.proceed pool).run g
      (frame.renumber f, g') := by
  have hdials : (frame.renumber f).dials = frame.dials := rfl
  rw [run_proceed, run_proceed, hdials]
  rcases (Odometer.advance pool frame.dials).run g with ⟨_ | dials, g'⟩
  · exact run_enter_renumber f pool frame.rule frame.input (frame.index + 1) g'
  · rfl

end Frame

namespace Deed
variable {M : Type}

def renumber (f : Nat → Nat) : Deed M → Deed M
  | .enter rule => .enter (rule.renumber f)
  | deed => deed

theorem drawn_renumber (f : Nat → Nat) (deed : Deed M) : (deed.renumber f).drawn = deed.drawn := by
  cases deed <;> rfl

end Deed

namespace Machine
variable {M : Type}

def renumber (f : Nat → Nat) (m : Machine M) : Machine M :=
  { m with stack := m.stack.map (Frame.renumber f) }

theorem isDeepest_renumber (f : Nat → Nat) (m : Machine M) :
    (m.renumber f).isDeepest = m.isDeepest := by
  simp only [isDeepest, renumber, List.length_map]

theorem drawGeometry_pick_renumber (f : Nat → Nat) (p : Program M) (m : Machine M) (name : String)
    (line : Nat) :
    (m.renumber f).drawGeometry ((p.renumber f).pick name (some (f line)) Draw.unit) =
      let (choice, m) := m.drawGeometry (p.pick name (some line) Draw.unit)
      ((choice.map fun (i, rule) => (i, rule.renumber f)).mapError (Diagnostic.renumber f),
        m.renumber f) := by
  have hpick := p.run_pick_renumber f name (some line) Draw.unit m.streams.geometry
  rw [Option.map_some] at hpick
  simp only [drawGeometry, Streams.drawGeometry, renumber, hpick]
  rfl

variable [Mul M]

theorem proceed_renumber (f : Nat → Nat) (m : Machine M) (frame : Frame M)
    (below : List (Frame M)) :
    (m.renumber f).proceed (frame.renumber f) (below.map (Frame.renumber f)) =
      (m.proceed frame below).renumber f := by
  have hrun := frame.run_proceed_renumber f m.settings.pool m.streams.color
  simp only [proceed, drawColor, Streams.drawColor, renumber, hrun]
  rfl

theorem skip_renumber (f : Nat → Nat) (m : Machine M) (frame : Frame M) (below : List (Frame M)) :
    (m.renumber f).skip (frame.renumber f) (below.map (Frame.renumber f)) =
      (m.skip frame below).renumber f := by
  have hrun := Frame.run_enter_renumber f m.settings.pool frame.rule frame.input (frame.index + 1)
    m.streams.color
  have hskip : ((frame.renumber f).skip m.settings.pool).run m.streams.color = _ := hrun
  simp only [skip, drawColor, Streams.drawColor, renumber, hskip]
  rfl

theorem begin_renumber (f : Nat → Nat) (m : Machine M) (rule : Rule M) (input : Pose M) :
    (m.renumber f).begin (rule.renumber f) input =
      let (frame, m) := m.begin rule input
      (frame.renumber f, m.renumber f) := by
  have hrun := Frame.run_enter_renumber f m.settings.pool rule input 0 m.streams.color
  simp only [begin, drawColor, Streams.drawColor, renumber, hrun, List.length_map]
  rfl

theorem push_renumber (f : Nat → Nat) (m : Machine M) (rule : Rule M) (input : Pose M) :
    (m.renumber f).push (rule.renumber f) input = (m.push rule input).renumber f := by
  rw [push, begin_renumber]
  rfl

theorem call_renumber (f : Nat → Nat) (m : Machine M) (rule : Rule M) (frame : Frame M)
    (below : List (Frame M)) :
    (m.renumber f).call (rule.renumber f) (frame.renumber f) (below.map (Frame.renumber f)) =
      (m.call rule frame below).renumber f := by
  have hpose : (frame.renumber f).pose = frame.pose := rfl
  simp only [call, hpose, begin_renumber, proceed_renumber]
  rfl

theorem invoke_renumber (f : Nat → Nat) (p : Program M) (m : Machine M) (name : String)
    (line : Nat) (frame : Frame M) (below : List (Frame M)) :
    (m.renumber f).invoke (p.renumber f) name (f line) (frame.renumber f)
        (below.map (Frame.renumber f)) =
      ((m.invoke p name line frame below).map fun (deed, next) =>
        (deed.renumber f, next.renumber f)).mapError (Diagnostic.renumber f) := by
  rw [invoke, invoke, isDeepest_renumber]
  split
  · exact congrArg (fun next => Except.ok (Deed.prune, next)) (m.pruned.skip_renumber f frame below)
  · rw [drawGeometry_pick_renumber]
    rcases m.drawGeometry (p.pick name (some line) Draw.unit) with ⟨_ | ⟨i, rule⟩, chosen⟩
    · rfl
    · exact congrArg (fun next => Except.ok (Deed.enter (rule.renumber f), next))
        (call_renumber f chosen rule frame below)

/-- A step with other line numbers. -/
theorem step_renumber (f : Nat → Nat) (p : Program M) (m : Machine M) (frame : Frame M)
    (below : List (Frame M)) :
    (m.renumber f).step (p.renumber f) (frame.renumber f) (below.map (Frame.renumber f)) =
      ((m.step p frame below).map fun (deed, next) =>
        (deed.renumber f, next.renumber f)).mapError (Diagnostic.renumber f) := by
  cases ha : frame.action? with
  | none =>
    have ha' : (frame.renumber f).action? = none := by
      rw [Frame.action?_renumber, ha, Option.map_none]
    simp only [step, ha, ha']
    rfl
  | some action =>
    have ha' : (frame.renumber f).action? = some (action.renumber f) := by
      rw [Frame.action?_renumber, ha, Option.map_some]
    have heffect : (action.renumber f).effect = action.effect := rfl
    rw [step_of_action ha, step_of_action ha', heffect]
    cases action.effect with
    | draw solid =>
      exact congrArg (fun next => Except.ok (Deed.draw ⟨solid, frame.pose⟩, next))
        (m.stepped.drew.proceed_renumber f frame below)
    | set setting =>
      exact congrArg (fun next => Except.ok (Deed.change setting, next))
        ((m.stepped.change p setting).proceed_renumber f frame below)
    | invoke name => exact m.stepped.invoke_renumber f p name action.line frame below

variable [One M]

theorem Expands.renumber {p : Program M} {m : Machine M} {rules : List (Rule M)}
    {drawings : List (Drawing M)} {ending : Except Diagnostic (Machine M)}
    (h : Expands p m rules drawings ending) (f : Nat → Nat) :
    Expands (p.renumber f) (m.renumber f) (rules.map (Rule.renumber f)) drawings
      ((ending.map (Machine.renumber f)).mapError (Diagnostic.renumber f)) := by
  have hstack {m : Machine M} {stack : List (Frame M)} (hs : m.stack = stack) :
      (m.renumber f).stack = stack.map (Frame.renumber f) :=
    congrArg (List.map (Frame.renumber f)) hs
  induction h with
  | done hs => exact .done (hstack hs)
  | spent hb => exact .spent hb
  | start hs hb _ ih =>
    rw [← push_renumber] at ih
    exact .start (hstack hs) hb ih
  | @fail m rules frame below diagnostic hs hb hm =>
    have hstep := m.step_renumber f p frame below
    rw [hm] at hstep
    exact .fail (hstack hs) hb hstep
  | @step m next rules frame below deed drawings ending hs hb hm _ ih =>
    have hstep := m.step_renumber f p frame below
    rw [hm] at hstep
    rw [← deed.drawn_renumber f]
    exact .step (hstack hs) hb hstep ih

end Machine

namespace Program
variable {M : Type} [Mul M] [One M]

theorem delivery_renumber (f : Nat → Nat) (p : Program M) (streams : Streams) :
    (p.renumber f).delivery streams =
      ⟨(p.delivery streams).events,
        (p.delivery streams).result.mapError (BuildError.renumber f)⟩ := by
  obtain ⟨drawings, ending, h⟩ := Machine.exists_expands p p.initial (.start p streams)
  have hrenumbered : Machine.Expands (p.renumber f) (.start (p.renumber f) streams)
      (p.renumber f).initial drawings _ := h.renumber f
  rw [delivery_eq h, delivery_eq hrenumbered]
  cases ending <;> rfl

end Program

end SceneGrammar

import SceneGrammar.Proofs.Expansion.Combinations
import SceneGrammar.Proofs.Expansion.Delivery
import SceneGrammar.Proofs.Expansion.Placements
import SceneGrammar.Proofs.Program.Padded

/-!
# A trivial loop changes nothing

An action that is given a trivial loop has one combination, whose pose is the inherited one if the
unit placement leaves that as it is. So a machine of a padded program does step by step what a
machine of the program itself does, in the middle of a run as at its start: it stands on the same
actions with the same poses, and its dials differ only at an action that was padded.
-/

namespace SceneGrammar

/-- The unit placement leaves every placement alone that some rule of the program inherits. -/
def Program.UnitKeepsInputs {M : Type} [Mul M] [One M] (p : Program M) : Prop :=
  ∀ m, Machine.Reachable p m → ∀ f ∈ m.stack, f.input.placement * 1 = f.input.placement

namespace Odometer
variable {M : Type} [Mul M] [One M]

theorem run_prime_once {input : Pose M} (h : input.placement * 1 = input.placement) (pool : Pool)
    (g : Generator) : (prime pool input [.once]).run g = ([⟨.once, 0, input⟩], g) := by
  have happly : ((Loop.once (M := M)).transformation.apply pool input).run g = (input, g) := by
    rw [Loop.once, Transformation.apply, Transformation.recolor_identity]
    exact congrArg (fun placement => (Pose.mk placement input.color, g)) h
  rw [prime_cons, happly]
  rfl

theorem run_advance_once (pool : Pool) (pose : Pose M) (g : Generator) :
    (advance pool [⟨.once, 0, pose⟩]).run g = (none, g) := by
  rw [advance_cons]
  rfl

end Odometer

namespace Frame
variable {M : Type} [One M]

structure Padded (f other : Frame M) : Prop where
  rule : f.rule.Padded other.rule
  index : other.index = f.index
  input : other.input = f.input
  dials : other.dials = f.dials ∨ f.dials = [] ∧ other.dials = [⟨.once, 0, f.input⟩]

theorem Padded.pose {f other : Frame M} (h : f.Padded other) : other.pose = f.pose := by
  rw [Frame.pose, Frame.pose, h.input]
  obtain hdials | ⟨hdials, hother⟩ := h.dials
  · rw [hdials]
  · rw [hdials, hother]
    rfl

theorem Padded.action? {f other : Frame M} (h : f.Padded other) :
    Option.Rel Action.Padded f.action? other.action? := by
  rw [Frame.action?, Frame.action?, h.index]
  exact rel_getElem?_of_forall₂ h.rule.2.2 f.index

theorem Padded.action?_eq_none {f other : Frame M} (h : f.Padded other) (ha : f.action? = none) :
    other.action? = none := by
  have haction := h.action?
  rw [ha] at haction
  generalize other.action? = found at haction
  cases haction
  rfl

theorem Padded.exists_action {f other : Frame M} (h : f.Padded other) {action : Action M}
    (ha : f.action? = some action) :
    ∃ action', other.action? = some action' ∧ action'.effect = action.effect ∧
      action'.line = action.line := by
  have haction := h.action?
  rw [ha] at haction
  generalize other.action? = found at haction
  cases haction with
  | some hpadded => exact ⟨_, rfl, hpadded.effect, hpadded.line⟩

/-- The loops of a rule and of the rule padded, at the same place. -/
theorem loopsAt_padded {rule other : Rule M} (h : rule.Padded other) (index : Nat) :
    loopsAt other index = loopsAt rule index ∨
      loopsAt rule index = [] ∧ loopsAt other index = [.once] := by
  have haction := rel_getElem?_of_forall₂ h.2.2 index
  rw [loopsAt, loopsAt]
  generalize rule.actions[index]? = found, other.actions[index]? = padded at haction
  cases haction with
  | none => exact .inl rfl
  | some hpadded =>
    obtain rfl | ⟨hloops, rfl⟩ := hpadded
    · exact .inl rfl
    · exact .inr ⟨hloops, rfl⟩

variable [Mul M]

/-- The other draw comes to the frame padded, and draws as much. -/
def DrawsPadded (draw other : Draw (Frame M)) (g : Generator) : Prop :=
  ∃ next, other.run g = (next, (draw.run g).2) ∧ (draw.run g).1.Padded next

theorem enter_padded {rule other : Rule M} (h : rule.Padded other) {input : Pose M}
    (hinput : input.placement * 1 = input.placement) (pool : Pool) (index : Nat) (g : Generator) :
    DrawsPadded (enter pool rule input index) (enter pool other input index) g := by
  rw [DrawsPadded, run_enter, run_enter]
  obtain hloops | ⟨hloops, hother⟩ := loopsAt_padded h index
  · rw [hloops]
    exact ⟨_, rfl, h, rfl, rfl, .inl rfl⟩
  · rw [hloops, hother, Odometer.run_prime_once hinput]
    exact ⟨_, rfl, h, rfl, rfl, .inr ⟨rfl, rfl⟩⟩

theorem skip_padded {f other : Frame M} (h : f.Padded other)
    (hinput : f.input.placement * 1 = f.input.placement) (pool : Pool) (g : Generator) :
    DrawsPadded (f.skip pool) (other.skip pool) g := by
  rw [skip, skip, h.index, h.input]
  exact enter_padded h.rule hinput pool (f.index + 1) g

theorem proceed_padded {f other : Frame M} (h : f.Padded other)
    (hinput : f.input.placement * 1 = f.input.placement) (pool : Pool) (g : Generator) :
    DrawsPadded (f.proceed pool) (other.proceed pool) g := by
  rw [DrawsPadded, run_proceed, run_proceed]
  obtain hdials | ⟨hdials, hother⟩ := h.dials
  · rw [hdials]
    rcases (Odometer.advance pool f.dials).run g with ⟨_ | dials, g'⟩
    · exact skip_padded h hinput pool g'
    · exact ⟨_, rfl, h.rule, h.index, h.input, .inl rfl⟩
  · -- neither has a next combination: the one has no loops and the other has done its only turn
    rw [hdials, hother, Odometer.run_advance_once]
    exact skip_padded h hinput pool g

end Frame

namespace Machine
variable {M : Type}

theorem drawColor_withStack {α : Type} {m : Machine M} {draw other : Draw α} {value : α}
    (h : other.run m.streams.color = (value, (draw.run m.streams.color).2))
    (stack : List (Frame M)) :
    (m.withStack stack).drawColor other = (value, (m.drawColor draw).2.withStack stack) := by
  simp only [drawColor, Streams.drawColor, withStack, h]
  rfl

theorem isDeepest_withStack {m : Machine M} {stack : List (Frame M)}
    (h : stack.length = m.stack.length) : (m.withStack stack).isDeepest = m.isDeepest :=
  congrArg (fun length => decide (m.settings.maxDepth.toNat - 1 ≤ length)) h

variable [One M]

/-- The machines differ in their frames alone, and those are padded. -/
def Padded (m n : Machine M) : Prop :=
  ∃ stack, n = m.withStack stack ∧ List.Forall₂ Frame.Padded m.stack stack

theorem change_padded {p q : Program M} (h : p.Padded q) (m : Machine M)
    (stack : List (Frame M)) (setting : Setting) :
    (m.withStack stack).change q setting = (m.change p setting).withStack stack := by
  have hstreams : q.streams = p.streams := by
    rw [Program.streams, Program.streams, Program.seed, Program.seed, h.1]
  cases setting with
  | initialSeed => exact Machine.ext rfl hstreams rfl rfl
  | _ => rfl

theorem drawGeometry_pick_padded {p q : Program M} (h : p.Padded q) (m : Machine M)
    (stack : List (Frame M)) (name : String) (line : Option Nat) :
    (∃ diagnostic, (m.drawGeometry (p.pick name line Draw.unit)).1 = .error diagnostic ∧
      ((m.withStack stack).drawGeometry (q.pick name line Draw.unit)).1 = .error diagnostic) ∨
    ∃ i rule other chosen,
      m.drawGeometry (p.pick name line Draw.unit) = (.ok (i, rule), chosen) ∧
      (m.withStack stack).drawGeometry (q.pick name line Draw.unit) =
        (.ok (i, other), chosen.withStack stack) ∧ rule.Padded other := by
  simp only [drawGeometry, Streams.drawGeometry, withStack]
  obtain ⟨diagnostic, g, hp, hq⟩ | ⟨i, rule, other, g, hp, hq, hrule⟩ :=
    h.run_pick name line Draw.unit m.streams.geometry
  · rw [hp, hq]
    exact .inl ⟨diagnostic, rfl, rfl⟩
  · rw [hp, hq]
    exact .inr ⟨i, rule, other, _, rfl, rfl, hrule⟩

/-- A padded frame is drawn onto the stack in place of the frame itself. -/
theorem drawFrame_padded {m : Machine M} {draw other : Draw (Frame M)}
    {below others : List (Frame M)} (h : Frame.DrawsPadded draw other m.streams.color)
    (hbelow : List.Forall₂ Frame.Padded below others) (stack : List (Frame M)) :
    ((m.drawColor draw).2.withStack ((m.drawColor draw).1 :: below)).Padded
      (((m.withStack stack).drawColor other).2.withStack
        (((m.withStack stack).drawColor other).1 :: others)) := by
  obtain ⟨next, hrun, hnext⟩ := h
  rw [drawColor_withStack hrun stack]
  exact ⟨next :: others, rfl, .cons hnext hbelow⟩

variable [Mul M]

theorem proceed_padded {frame other : Frame M} {below others : List (Frame M)}
    (h : frame.Padded other) (hbelow : List.Forall₂ Frame.Padded below others)
    (hinput : frame.input.placement * 1 = frame.input.placement) (m : Machine M)
    (stack : List (Frame M)) :
    (m.proceed frame below).Padded ((m.withStack stack).proceed other others) :=
  drawFrame_padded (Frame.proceed_padded h hinput m.settings.pool m.streams.color) hbelow stack

theorem skip_padded {frame other : Frame M} {below others : List (Frame M)}
    (h : frame.Padded other) (hbelow : List.Forall₂ Frame.Padded below others)
    (hinput : frame.input.placement * 1 = frame.input.placement) (m : Machine M)
    (stack : List (Frame M)) :
    (m.skip frame below).Padded ((m.withStack stack).skip other others) :=
  drawFrame_padded (Frame.skip_padded h hinput m.settings.pool m.streams.color) hbelow stack

theorem begin_padded {rule other : Rule M} (h : rule.Padded other) {input : Pose M}
    (hinput : input.placement * 1 = input.placement) {m : Machine M} {stack : List (Frame M)}
    (hstack : stack.length = m.stack.length) :
    ∃ next, (m.withStack stack).begin other input =
        (next, (m.begin rule input).2.withStack stack) ∧ (m.begin rule input).1.Padded next := by
  obtain ⟨next, hrun, hnext⟩ :=
    Frame.enter_padded h hinput m.settings.pool 0 m.streams.color
  have hpool : (m.withStack stack).settings.pool = m.settings.pool := rfl
  refine ⟨next, ?_, hnext⟩
  simp only [begin, hpool, drawColor_withStack hrun]
  simp only [tally, withStack, hstack]
  rfl

theorem push_padded {rule other : Rule M} (h : rule.Padded other) {input : Pose M}
    (hinput : input.placement * 1 = input.placement) {m n : Machine M} (hmn : m.Padded n) :
    (m.push rule input).Padded (n.push other input) := by
  obtain ⟨stack, rfl, hstack⟩ := hmn
  obtain ⟨next, hbegin, hnext⟩ := begin_padded h hinput (m := m) hstack.length_eq.symm
  refine ⟨next :: stack, ?_, .cons hnext hstack⟩
  exact congrArg (fun begun => begun.2.withStack (begun.1 :: begun.2.stack)) hbegin

theorem call_padded {rule other : Rule M} (h : rule.Padded other) {m : Machine M}
    {stack below others : List (Frame M)} {frame padded : Frame M}
    (hstack : stack.length = m.stack.length) (hframe : frame.Padded padded)
    (hbelow : List.Forall₂ Frame.Padded below others)
    (hinput : frame.input.placement * 1 = frame.input.placement)
    (hpose : frame.pose.placement * 1 = frame.pose.placement) :
    (m.call rule frame below).Padded ((m.withStack stack).call other padded others) := by
  obtain ⟨callee, hbegin, hcallee⟩ := begin_padded h hpose hstack
  obtain ⟨rest, hproceed, hrest⟩ :=
    proceed_padded hframe hbelow hinput (m.begin rule frame.pose).2 stack
  refine ⟨callee :: rest, ?_, .cons hcallee hrest⟩
  simp only [call, hframe.pose, hbegin, hproceed]
  rfl

section
variable {p q : Program M} {m : Machine M} {frame other : Frame M}
  {below others : List (Frame M)}

theorem Move.padded {next : Machine M} {deed : Deed M} (h : Move p m frame below deed next)
    (hpq : p.Padded q) (hs : m.stack = frame :: below) (hframe : frame.Padded other)
    (hbelow : List.Forall₂ Frame.Padded below others)
    (hinput : frame.input.placement * 1 = frame.input.placement)
    (hnext : ∀ f ∈ next.stack, f.input.placement * 1 = f.input.placement) :
    ∃ deed' next', Move q (m.withStack (other :: others)) other others deed' next' ∧
      deed'.drawn = deed.drawn ∧ next.Padded next' := by
  have hlength : (other :: others).length = m.stack.length := by
    rw [hs]
    exact (List.Forall₂.cons hframe hbelow).length_eq.symm
  cases h with
  | leave ha =>
    exact ⟨.leave, _, .leave (hframe.action?_eq_none ha), rfl, others, rfl, hbelow⟩
  | @draw action solid ha he =>
    obtain ⟨action', ha', heffect, -⟩ := hframe.exists_action ha
    refine ⟨_, _, .draw ha' (heffect.trans he), ?_,
      proceed_padded hframe hbelow hinput m.stepped.drew (other :: others)⟩
    rw [hframe.pose]
  | @change action setting ha he =>
    obtain ⟨action', ha', heffect, -⟩ := hframe.exists_action ha
    refine ⟨_, _, .change ha' (heffect.trans he), rfl, ?_⟩
    have hchange := change_padded hpq m.stepped (other :: others) setting
    have hproceed := proceed_padded hframe hbelow hinput (m.stepped.change p setting)
      (other :: others)
    rw [← hchange] at hproceed
    exact hproceed
  | prune ha he hd =>
    obtain ⟨action', ha', heffect, -⟩ := hframe.exists_action ha
    rw [← isDeepest_withStack hlength] at hd
    exact ⟨.prune, _, .prune ha' (heffect.trans he) hd, rfl,
      skip_padded hframe hbelow hinput m.stepped.pruned (other :: others)⟩
  | @enter action name i rule chosen ha he hd hp =>
    obtain ⟨action', ha', heffect, hline⟩ := hframe.exists_action ha
    rw [← isDeepest_withStack hlength] at hd
    obtain ⟨diagnostic, herror, -⟩ | ⟨j, rule₁, padded, chosen₁, hp₁, hq, hrule⟩ :=
      drawGeometry_pick_padded hpq m.stepped (other :: others) name (some action.line)
    · rw [hp] at herror
      cases herror
    · have hchosen : chosen.stack = m.stack := (congrArg (fun drawn => drawn.2.stack) hp).symm
      rw [hp] at hp₁
      cases hp₁
      rw [stack_call] at hnext
      have hpose : frame.pose.placement * 1 = frame.pose.placement :=
        (List.forall_mem_cons.1 hnext).1
      rw [← hline] at hq
      exact ⟨.enter padded, _, .enter ha' (heffect.trans he) hd hq, rfl,
        call_padded hrule (hlength.trans (congrArg List.length hchosen.symm)) hframe hbelow hinput
          hpose⟩

theorem step_padded_of_error {diagnostic : Diagnostic}
    (h : m.step p frame below = .error diagnostic) (hpq : p.Padded q)
    (hlength : (other :: others).length = m.stack.length) (hframe : frame.Padded other) :
    (m.withStack (other :: others)).step q other others = .error diagnostic := by
  obtain ⟨action, name, ha, he, hd, hp⟩ := step_eq_error_iff.1 h
  obtain ⟨action', ha', heffect, hline⟩ := hframe.exists_action ha
  rw [← isDeepest_withStack hlength] at hd
  refine step_eq_error_iff.2 ⟨action', name, ha', heffect.trans he, hd, ?_⟩
  rw [hline]
  obtain ⟨found, herror, hq⟩ | ⟨i, rule, padded, chosen, hp₁, -, -⟩ :=
    drawGeometry_pick_padded hpq m.stepped (other :: others) name (some action.line)
  · rw [hp] at herror
    cases herror
    exact hq
  · rw [hp₁] at hp
    cases hp

/-- What a machine of a program draws, and how it ends, a machine of the padded program draws and
ends as well. -/
theorem Expands.padded {rules : List (Rule M)} {drawings : List (Drawing M)}
    {ending : Except Diagnostic (Machine M)} (h : Expands p m rules drawings ending)
    (hpq : p.Padded q) (hunit : p.UnitKeepsInputs) (hr : Reachable p m)
    (hrules : ∀ rule ∈ rules, rule ∈ p.initial) {n : Machine M} (hmn : m.Padded n)
    {padded : List (Rule M)} (hpadded : List.Forall₂ Rule.Padded rules padded) :
    ∃ ending', Expands q n padded drawings ending' ∧
      ending'.map Machine.stats = ending.map Machine.stats := by
  induction h generalizing n padded with
  | done hs =>
    obtain ⟨stack, rfl, hstack⟩ := hmn
    rw [hs] at hstack
    cases hstack
    cases hpadded
    exact ⟨_, .done rfl, rfl⟩
  | spent hb =>
    obtain ⟨stack, rfl, -⟩ := hmn
    exact ⟨_, .spent hb, rfl⟩
  | @start m rule rules drawings ending hs hb later ih =>
    cases hpadded with
    | cons hrule hrest =>
      rw [List.forall_mem_cons] at hrules
      have hpush := hr.push hs hrules.1
      have hone : (1 : M) * 1 = 1 := hunit _ hpush _ (.head _)
      obtain ⟨ending', hlater, hstats⟩ :=
        ih hpush hrules.2 (push_padded hrule hone hmn) hrest
      obtain ⟨stack, rfl, hstack⟩ := hmn
      rw [hs] at hstack
      cases hstack
      exact ⟨ending', .start rfl hb hlater, hstats⟩
  | fail hs hb hm =>
    obtain ⟨stack, rfl, hstack⟩ := hmn
    have hlength := hstack.length_eq.symm
    rw [hs] at hstack
    cases hstack with
    | cons hframe hbelow =>
      exact ⟨_, .fail rfl hb (step_padded_of_error hm hpq hlength hframe), rfl⟩
  | @step m next rules frame below deed drawings ending hs hb hm later ih =>
    obtain ⟨stack, rfl, hstack⟩ := hmn
    rw [hs] at hstack
    cases hstack with
    | cons hframe hbelow =>
      have hnext := hr.step hs hm
      have hinput := hunit m hr frame (hs ▸ .head _)
      obtain ⟨deed', next', hmove, hdrawn, hpadded'⟩ :=
        (step_eq_ok_iff.1 hm).padded hpq hs hframe hbelow hinput (hunit next hnext)
      obtain ⟨ending', hlater, hstats⟩ := ih hnext hrules hpadded' hpadded
      rw [← hdrawn]
      exact ⟨ending', .step rfl hb hmove.step_eq hlater, hstats⟩

end

end Machine

namespace Program
variable {M : Type} [Mul M] [One M]

theorem unitKeepsInputs_of_keptBy {p : Program M} {S : M → Prop} (hone : S 1)
    (hS : Odometer.KeptBy S p.loops)
    (hunit : ∀ placement, S placement → placement * 1 = placement) : p.UnitKeepsInputs :=
  fun _ hm f hf => hunit _ (hm.placement_input hone hS f hf)

theorem unitKeepsInputs_of_mul_one (h : ∀ placement : M, placement * 1 = placement)
    (p : Program M) : p.UnitKeepsInputs :=
  fun _ _ _ _ => h _

/-- With trivial loops given to actions that had none, a program hands every scene the same events
and comes to the same end with the same counts, whatever the streams. -/
theorem expandFrom_padded {p q : Program M} (h : p.Padded q) (hunit : p.UnitKeepsInputs)
    (streams : Streams) {σ ε : Type} (scene : Scene M σ ε) :
    q.expandFrom streams scene = p.expandFrom streams scene := by
  obtain ⟨drawings, ending, hexpands⟩ := Machine.exists_expands p p.initial (.start p streams)
  have hstart : (Machine.start p streams).Padded (.start q streams) := by
    refine ⟨[], ?_, .nil⟩
    rw [Machine.start, Machine.start, h.1]
    rfl
  obtain ⟨ending', hexpands', hstats⟩ :=
    hexpands.padded h hunit (.start streams) (fun _ hr => hr) hstart h.2.1
  have hopening : q.opening = p.opening := by rw [opening, opening, h.1]
  rw [expandFrom_eq_give_of_expands hexpands, expandFrom_eq_give_of_expands hexpands', hopening,
    hstats]

end Program

/-- A picture and its mirror image; the placements are the unit and the reflection. -/
def mirrored : String := "2 * \x7b fx \x7d r box\nrule r \x7b box \x7d"

def mirroredPadded : String :=
  "2 * \x7b fx \x7d r \x7b \x7d box\nrule r \x7b \x7b \x7d box \x7d"

theorem mirrored_padded :
    (compile mirrored).toOption.map (fun p => (compile mirroredPadded).toOption.map fun q =>
      (decide (p.Padded q), p.loops.map fun loop => loop.transformation.placement)) =
      some (some (true, [.reflect .x])) := by
  decide +kernel

theorem reflect_mul_reflect : Matrix.reflect .x * Matrix.reflect .x = 1 ∧
    1 * Matrix.reflect .x = Matrix.reflect .x ∧ Matrix.reflect .x * 1 = Matrix.reflect .x ∧
      (1 : Matrix) * 1 = 1 := by
  decide +kernel

theorem expandFrom_mirroredPadded :
    ∃ p q : Program Matrix, compile mirrored = .ok p ∧ compile mirroredPadded = .ok q ∧
      p.Padded q ∧ p.UnitKeepsInputs ∧
      ∀ (streams : Streams) {σ ε : Type} (scene : Scene Matrix σ ε),
        q.expandFrom streams scene = p.expandFrom streams scene := by
  obtain ⟨p, hp, hfound⟩ := exists_compiled mirrored_padded
  obtain ⟨q, hq, hpair⟩ := exists_compiled hfound
  have hpq : p.Padded q := of_decide_eq_true (congrArg Prod.fst hpair)
  have hloops : p.loops.map (fun loop => loop.transformation.placement) = [.reflect .x] :=
    congrArg Prod.snd hpair
  obtain ⟨htwice, hleft, hright, hone⟩ := reflect_mul_reflect
  have hkept : Odometer.KeptBy (fun a => a = 1 ∨ a = Matrix.reflect .x) p.loops := by
    intro placement hplacement loop hloop
    have hreflect : loop.transformation.placement = .reflect .x := by
      have hmem := List.mem_map_of_mem (f := fun loop : Loop Matrix =>
        loop.transformation.placement) hloop
      rw [hloops] at hmem
      exact List.mem_singleton.1 hmem
    rw [hreflect]
    obtain rfl | rfl := hplacement
    · exact .inr hleft
    · exact .inl htwice
  have hunit : p.UnitKeepsInputs := by
    refine Program.unitKeepsInputs_of_keptBy (.inl rfl) hkept ?_
    rintro placement (rfl | rfl)
    · exact hone
    · exact hright
  exact ⟨p, q, hp, hq, hpq, hunit, Program.expandFrom_padded hpq hunit⟩

end SceneGrammar

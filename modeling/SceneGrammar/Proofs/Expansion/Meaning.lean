import SceneGrammar.Proofs.Expansion.Combinations
import SceneGrammar.Proofs.Expansion.Recursive

/-!
# What a program means

The meaning of a rule, told without frames and dials: its actions in order, each once for every index
tuple of its loops, and every rule it enters done to the end before the next turn. Where no random
colour is drawn this is what the machine does.
-/

namespace SceneGrammar

def Action.turns {M : Type} [Mul M] (action : Action M) (input : Pose M) :
    List (Action M × Pose M) :=
  (Loop.poses input action.loops).map (action, ·)

namespace Meaning
open Machine (heightLimit)
variable {M σ ε : Type} [Mul M]

def expand (p : Program M) (scene : Scene M σ ε) (height : Nat) (rule : Rule M) (input : Pose M)
    (c : Course) : EStateM (BuildError ε) σ Course :=
  rule.actions.foldlM (fun c action =>
    (Loop.poses input action.loops).foldlM (fun c pose =>
      if c.isSpent then pure c
      else
        match action.effect with
        | .draw solid => do
          (scene (.draw ⟨solid, pose⟩)).adaptExcept .scene
          return c.drew
        | .set setting => return c.change p setting
        | .invoke name =>
          if _ : c.Admits height then
            match c.choose p name action.line with
            | (.error unknownRule, _) => throw (.rule unknownRule)
            | (.ok (_, variant), chosen) => expand p scene (height + 1) variant pose chosen
          else pure c) c) c
termination_by heightLimit - height
decreasing_by
  have hd : height < c.settings.maxDepth.toNat - 1 := ‹c.Admits height›
  have : c.settings.maxDepth.toNat < heightLimit := c.settings.maxDepth.toNat_lt_size
  omega

def fire (p : Program M) (scene : Scene M σ ε) (height : Nat) (c : Course)
    (turn : Action M × Pose M) : EStateM (BuildError ε) σ Course :=
  if c.isSpent then pure c
  else
    match turn.1.effect with
    | .draw solid => do
      (scene (.draw ⟨solid, turn.2⟩)).adaptExcept .scene
      return c.drew
    | .set setting => return c.change p setting
    | .invoke name =>
      if c.Admits height then
        match c.choose p name turn.1.line with
        | (.error unknownRule, _) => throw (.rule unknownRule)
        | (.ok (_, variant), chosen) => expand p scene (height + 1) variant turn.2 chosen
      else pure c

theorem expand_eq_foldlM (p : Program M) (scene : Scene M σ ε) (height : Nat) (rule : Rule M)
    (input : Pose M) (c : Course) :
    expand p scene height rule input c =
      (rule.actions.flatMap fun action => action.turns input).foldlM (fire p scene height) c := by
  rw [expand]
  induction rule.actions generalizing c with
  | nil => rfl
  | cons action actions ih =>
    rw [List.foldlM_cons, List.flatMap_cons, List.foldlM_append, Action.turns, List.foldlM_map]
    congr 1
    funext left
    exact ih left

theorem fire_spent {p : Program M} {scene : Scene M σ ε} {height : Nat} {c : Course}
    (hb : c.isSpent = true) (turn : Action M × Pose M) :
    fire p scene height c turn = pure c := by
  rw [fire, if_pos hb]

theorem foldlM_fire_of_spent {p : Program M} {scene : Scene M σ ε} {height : Nat} {c : Course}
    (hb : c.isSpent = true) (turns : List (Action M × Pose M)) :
    turns.foldlM (fire p scene height) c = pure c := by
  induction turns with
  | nil => rfl
  | cons turn turns ih => rw [List.foldlM_cons, fire_spent hb, pure_bind, ih]

/-- At the greatest height no turn of an invocation does anything. -/
theorem foldlM_fire_of_pruned {p : Program M} {scene : Scene M σ ε} {height : Nat} {c : Course}
    {action : Action M} {name : String} (he : action.effect = .invoke name)
    (hd : ¬c.Admits height) (poses : List (Pose M)) :
    (poses.map (action, ·)).foldlM (fire p scene height) c = pure c := by
  induction poses with
  | nil => rfl
  | cons pose poses ih =>
    have hf : fire p scene height c (action, pose) = pure c := by
      simp only [fire, he, if_neg hd]
      split <;> rfl
    rw [List.map_cons, List.foldlM_cons, hf, pure_bind, ih]

end Meaning

namespace Rule
variable {M : Type}

def Plain (r : Rule M) : Prop := ∀ action ∈ r.actions, ∀ loop ∈ action.loops, loop.Plain

instance (r : Rule M) : Decidable r.Plain := inferInstanceAs (Decidable (∀ _ ∈ _, _))

end Rule

namespace Program
variable {M : Type}

def Plain (p : Program M) : Prop := ∀ rule ∈ p.rules, rule.Plain

instance (p : Program M) : Decidable p.Plain := inferInstanceAs (Decidable (∀ _ ∈ _, _))

end Program

namespace Frame
variable {M : Type}

/-- The dials are those of the action that the frame has come to. -/
structure Plain (f : Frame M) : Prop where
  rule : f.rule.Plain
  dials : f.dials.map Dial.loop = loopsAt f.rule f.index

theorem Plain.loops {f : Frame M} (hf : f.Plain) : ∀ dial ∈ f.dials, dial.loop.Plain := by
  intro dial hd
  have hm : dial.loop ∈ loopsAt f.rule f.index := hf.dials ▸ List.mem_map_of_mem hd
  unfold loopsAt at hm
  cases ha : f.rule.actions[f.index]? with
  | none => simp [ha] at hm
  | some action =>
    simp only [ha, Option.map_some, Option.getD_some] at hm
    exact hf.rule action (List.mem_of_getElem? ha) _ hm

theorem drop_of_action {f : Frame M} {action : Action M} (ha : f.action? = some action) :
    f.rule.actions.drop f.index = action :: f.rule.actions.drop (f.index + 1) := by
  obtain ⟨hi, he⟩ := List.getElem?_eq_some_iff.1 ha
  rw [List.drop_eq_getElem_cons hi, he]

variable [Mul M]

def agenda (f : Frame M) : List (Action M × Pose M) :=
  match f.rule.actions.drop f.index with
  | [] => []
  | action :: later =>
    (Odometer.posesLeft f.input f.dials).map (action, ·) ++
      later.flatMap fun action => action.turns f.input

theorem agenda_of_none {f : Frame M} (ha : f.action? = none) : f.agenda = [] := by
  have : f.rule.actions.drop f.index = [] :=
    List.drop_eq_nil_of_le (List.getElem?_eq_none_iff.1 ha)
  simp only [agenda, this]

theorem agenda_of_action {f : Frame M} {action : Action M} (ha : f.action? = some action) :
    f.agenda = (Odometer.posesLeft f.input f.dials).map (action, ·) ++
      (f.rule.actions.drop (f.index + 1)).flatMap fun action => action.turns f.input := by
  simp only [agenda, drop_of_action ha]

theorem run_enter_plain {rule : Rule M} (hr : rule.Plain) (pool : Pool) (input : Pose M)
    (index : Nat) (g : Generator) :
    ∃ f : Frame M, (enter pool rule input index).run g = (f, g) ∧ f.Plain ∧
      f.agenda = (rule.actions.drop index).flatMap fun action => action.turns input := by
  have hloops : ∀ loop ∈ loopsAt rule index, loop.Plain := by
    unfold loopsAt
    cases ha : rule.actions[index]? with
    | none => simp
    | some action => exact hr action (List.mem_of_getElem? ha)
  obtain ⟨dials, hrun, hmap, hleft⟩ := Odometer.run_prime_plain hloops pool input g
  refine ⟨⟨rule, index, input, dials⟩, ?_, ⟨hr, hmap⟩, ?_⟩
  · rw [run_enter, hrun]
  · cases ha : rule.actions[index]? with
    | none =>
      have hf : (⟨rule, index, input, dials⟩ : Frame M).action? = none := ha
      rw [agenda_of_none hf, List.drop_eq_nil_of_le (List.getElem?_eq_none_iff.1 ha)]
      rfl
    | some action =>
      have hl : loopsAt rule index = action.loops := by simp [loopsAt, ha]
      have hf : (⟨rule, index, input, dials⟩ : Frame M).action? = some action := ha
      rw [agenda_of_action hf, drop_of_action hf, hleft, hl]
      rfl

theorem run_skip_plain {f : Frame M} {action : Action M} (hf : f.Plain)
    (ha : f.action? = some action) (pool : Pool) (g : Generator) :
    ∃ next : Frame M, (f.skip pool).run g = (next, g) ∧ next.Plain ∧
      ∃ poses : List (Pose M), f.agenda = poses.map (action, ·) ++ next.agenda := by
  obtain ⟨next, hrun, hplain, hagenda⟩ := run_enter_plain hf.rule pool f.input (f.index + 1) g
  exact ⟨next, hrun, hplain, _, by rw [agenda_of_action ha, hagenda]⟩

theorem run_proceed_plain {f : Frame M} {action : Action M} (hf : f.Plain)
    (ha : f.action? = some action) (pool : Pool) (g : Generator) :
    ∃ next : Frame M, (f.proceed pool).run g = (next, g) ∧ next.Plain ∧
      f.agenda = (action, f.pose) :: next.agenda := by
  rw [run_proceed]
  rcases Odometer.run_advance_plain hf.loops pool f.input g with
    ⟨dials, hrun, hmap, hleft⟩ | ⟨hrun, hleft⟩
  · refine ⟨{ f with dials }, by rw [hrun], ⟨hf.rule, hmap.trans hf.dials⟩, ?_⟩
    have hnext : ({ f with dials } : Frame M).action? = some action := ha
    rw [agenda_of_action ha, agenda_of_action hnext, hleft]
    rfl
  · obtain ⟨next, hskip, hplain, hagenda⟩ :=
      run_enter_plain hf.rule pool f.input (f.index + 1) g
    refine ⟨next, by rw [hrun]; exact hskip, hplain, ?_⟩
    rw [agenda_of_action ha, hagenda, hleft]
    rfl

end Frame

namespace Shared
variable {M : Type} {c : Shared}

theorem drawColor_of_run {α : Type} {draw : Draw α} {value : α}
    (h : draw.run c.streams.color = (value, c.streams.color)) : c.drawColor draw = (value, c) := by
  simp only [drawColor, Course.drawColor, h]

theorem choose_toCourse {p : Program M} {name : String} {line : Nat}
    {choice : Except Diagnostic (Nat × Rule M)} {chosen : Shared}
    (h : c.choose p name line = (choice, chosen)) :
    c.toCourse.choose p name line = (choice, chosen.toCourse) := by
  have hchoice := congrArg Prod.fst h
  have hcourse := congrArg (fun drawn => drawn.2.toCourse) h
  exact Prod.ext hchoice hcourse

variable [Mul M]

theorem proceed_plain {frame : Frame M} {action : Action M} (hf : frame.Plain)
    (ha : frame.action? = some action) :
    ∃ next : Frame M, c.proceed frame = (next, c) ∧ next.Plain ∧
      frame.agenda = (action, frame.pose) :: next.agenda := by
  obtain ⟨next, hrun, hplain, hagenda⟩ :=
    Frame.run_proceed_plain hf ha c.settings.pool c.streams.color
  exact ⟨next, drawColor_of_run hrun, hplain, hagenda⟩

theorem skip_plain {frame : Frame M} {action : Action M} (hf : frame.Plain)
    (ha : frame.action? = some action) :
    ∃ next : Frame M, c.skip frame = (next, c) ∧ next.Plain ∧
      ∃ poses : List (Pose M), frame.agenda = poses.map (action, ·) ++ next.agenda := by
  obtain ⟨next, hrun, hplain, hagenda⟩ :=
    Frame.run_skip_plain hf ha c.settings.pool c.streams.color
  exact ⟨next, drawColor_of_run hrun, hplain, hagenda⟩

theorem enter_plain {rule : Rule M} (hr : rule.Plain) (height : Nat) (input : Pose M) :
    ∃ (f : Frame M) (entered : Shared), c.enter height rule input = (f, entered) ∧
      entered.toCourse = c.toCourse ∧ f.Plain ∧
      f.agenda = rule.actions.flatMap fun action => action.turns input := by
  obtain ⟨f, hrun, hplain, hagenda⟩ :=
    Frame.run_enter_plain hr c.settings.pool input 0 c.streams.color
  have hdraw : c.drawColor (Frame.enter c.settings.pool rule input 0) = (f, c) :=
    drawColor_of_run hrun
  refine ⟨f, { c with maxStack := max c.maxStack height }, ?_, rfl, hplain, hagenda⟩
  simp only [enter, hdraw]

end Shared

namespace Meaning
variable {M σ ε : Type} [Mul M]

theorem toCourse_expand {p : Program M} (hp : p.Plain) (scene : Scene M σ ε) (height : Nat)
    (frame : Frame M) (c : Shared) (hf : frame.Plain) :
    Shared.toCourse <$> Recursive.expand p scene height frame c =
      frame.agenda.foldlM (fire p scene height) c.toCourse := by
  induction height, frame, c using Recursive.expand.induct p with
  | case1 height frame c hb =>
    rw [Recursive.expand_spent hb, foldlM_fire_of_spent hb, map_pure]
  | case2 height frame c hb ha =>
    rw [Recursive.expand_leave hb ha, Frame.agenda_of_none ha, map_pure]
    rfl
  | case3 height frame c hb action ha solid he ih =>
    obtain ⟨next, hnext, hplain, hagenda⟩ := Shared.proceed_plain (c := c.stepped.drew) hf ha
    have hfire : fire p scene height c.toCourse (action, frame.pose) =
        (scene (.draw ⟨solid, frame.pose⟩)).adaptExcept .scene >>= fun _ =>
          pure c.toCourse.drew := by
      simp only [fire, if_neg hb, he]
    rw [Recursive.expand_draw hb ha he, hagenda, List.foldlM_cons, hfire, map_bind, bind_assoc]
    congr 1
    funext _
    rw [hnext] at ih ⊢
    rw [ih hplain, pure_bind]
    rfl
  | case4 height frame c hb action ha setting he next' ih =>
    obtain ⟨next, hnext, hplain, hagenda⟩ :=
      Shared.proceed_plain (c := c.stepped.change p setting) hf ha
    have hfire : fire p scene height c.toCourse (action, frame.pose) =
        pure (c.toCourse.change p setting) := by
      simp only [fire, if_neg hb, he]
    simp only [next', hnext] at ih
    rw [Recursive.expand_change hb ha he, hagenda, List.foldlM_cons, hfire, pure_bind, hnext]
    exact ih hplain
  | case5 height frame c hb action ha name he hd unknownRule chosen hc =>
    obtain ⟨next, -, -, hagenda⟩ := Shared.proceed_plain (c := c) hf ha
    have hc' : c.toCourse.choose p name action.line = (.error unknownRule, chosen.toCourse) :=
      Shared.choose_toCourse (c := c.stepped) hc
    have hfire : fire p scene height c.toCourse (action, frame.pose) =
        throw (.rule unknownRule) := by
      simp only [fire, if_neg hb, he, if_pos hd, hc']
    rw [Recursive.expand_unknown hb ha he hd hc, hagenda, List.foldlM_cons, hfire]
    rfl
  | case6 height frame c hb action ha name he hd i rule chosen hc callee caller ihCallee ihCaller =>
    have hv : rule ∈ p.variants := Program.mem_variants_of_pick (congrArg Prod.fst hc)
    obtain ⟨f, entered, henter, hcourse, hfplain, hfagenda⟩ := Shared.enter_plain (c := chosen)
      (hp rule (List.mem_append_right _ hv)) (height + 1) frame.pose
    obtain ⟨next, hnext, hplain, hagenda⟩ := Shared.proceed_plain (c := entered) hf ha
    have hc' : c.toCourse.choose p name action.line = (.ok (i, rule), chosen.toCourse) :=
      Shared.choose_toCourse (c := c.stepped) hc
    have hfire : fire p scene height c.toCourse (action, frame.pose) =
        expand p scene (height + 1) rule frame.pose chosen.toCourse := by
      simp only [fire, if_neg hb, he, if_pos hd, hc']
    simp only [caller, callee, henter, hnext] at ihCallee ihCaller
    rw [Recursive.expand_enter hb ha he hd hc, hagenda, List.foldlM_cons, hfire,
      expand_eq_foldlM, ← hfagenda, ← hcourse]
    simp only [henter, hnext]
    -- the callee's turns come before the rest of the caller's
    rw [← ihCallee hfplain, bind_map_left, map_bind]
    congr 1
    funext left
    exact ihCaller left hplain
  | case7 height frame c hb action ha name he hd next' ih =>
    obtain ⟨next, hnext, hplain, poses, hagenda⟩ := Shared.skip_plain (c := c.stepped.prune) hf ha
    simp only [next', hnext] at ih
    rw [Recursive.expand_prune hb ha he hd, hagenda, List.foldlM_append,
      foldlM_fire_of_pruned he hd, pure_bind, hnext]
    exact ih hplain

variable [One M]

/-- The anonymous rules in order, each at height one from the unit placement in red. -/
def expandFrom (p : Program M) (streams : Streams) (scene : Scene M σ ε) :
    EStateM (BuildError ε) σ Course := do
  (scene (.background p.settings.background)).adaptExcept .scene
  (scene (.camera p.settings.camera)).adaptExcept .scene
  p.initial.foldlM (fun c rule => expand p scene 1 rule ⟨1, .pureRed⟩ c) (.start p streams)

theorem toCourse_expandAll {p : Program M} (hp : p.Plain) (scene : Scene M σ ε)
    {rules : List (Rule M)} (hr : ∀ rule ∈ rules, rule ∈ p.initial) (c : Shared) :
    Shared.toCourse <$> Recursive.expandAll p scene rules c =
      rules.foldlM (fun c rule => expand p scene 1 rule ⟨1, .pureRed⟩ c) c.toCourse := by
  induction rules generalizing c with
  | nil => rfl
  | cons rule rules ih =>
    rw [List.forall_mem_cons] at hr
    have hplain : rule.Plain := hp rule (List.mem_append_left _ hr.1)
    obtain ⟨f, entered, henter, hcourse, hf, hagenda⟩ :=
      Shared.enter_plain (c := c) hplain 1 ⟨1, .pureRed⟩
    rw [List.foldlM_cons, expand_eq_foldlM, Recursive.expandAll]
    split
    · rename_i hb
      rw [foldlM_fire_of_spent hb, pure_bind, ← ih hr.2 c]
      cases rules with
      | nil => rfl
      | cons next rules => rw [Recursive.expandAll, if_pos hb]
    · rw [henter, ← hagenda, ← hcourse, ← toCourse_expand hp scene 1 f entered hf,
        bind_map_left, map_bind]
      congr 1
      funext left
      exact ih hr.2 left

/-- For every scene the machine delivers the events that the program means, and fails where it
means a failure. -/
theorem expandFrom_eq_meaning {p : Program M} (hp : p.Plain) (streams : Streams)
    (scene : Scene M σ ε) :
    Stats.objects <$> p.expandFrom streams scene =
      Course.objects <$> expandFrom p streams scene := by
  have hall := toCourse_expandAll hp scene (fun _ h => h) (.start p streams)
  have hstart : Course.start p streams = (Shared.start p streams).toCourse := rfl
  have hobjects (run : EStateM (BuildError ε) σ Shared) :
      (fun c => (Shared.stats c).objects) <$> run = Course.objects <$> Shared.toCourse <$> run := by
    rw [Functor.map_map]
    rfl
  rw [Machine.expandFrom_recursive, Functor.map_map, hobjects]
  unfold Recursive.expandFrom expandFrom
  rw [hstart, ← hall]
  simp only [map_bind]

theorem expandFrom_eq_meaning_staircase :
    Program.staircase.Plain ∧
      Stats.objects <$> Program.staircase.expandFrom (.ofSeed 7) (Scene.recorder (ε := Empty)) =
        Course.objects <$> expandFrom .staircase (.ofSeed 7) Scene.recorder := by
  have hp : Program.staircase.Plain := by decide
  exact ⟨hp, expandFrom_eq_meaning hp _ _⟩

end Meaning

end SceneGrammar

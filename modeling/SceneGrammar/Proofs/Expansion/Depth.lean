import Mathlib.Data.List.Flatten
import SceneGrammar.Proofs.Expansion.Budget
import SceneGrammar.Proofs.Expansion.Independence
import SceneGrammar.Proofs.Expansion.Meaning
import SceneGrammar.Proofs.Expansion.Placements
import SceneGrammar.Proofs.Grammar.Repetition

/-!
# Expansions of different depths

Where every name has a sole variant and no rule sets a limit, what a turn draws is settled by the
levels that are left above its rule. A greater depth gives every turn more levels, which put more
drawings between those that were there; where nothing was pruned there is nothing to put in.
-/

namespace SceneGrammar

def Rule.agenda {M : Type} [Mul M] (r : Rule M) (input : Pose M) : List (Action M × Pose M) :=
  r.actions.flatMap fun action => action.turns input

namespace Program
variable {M : Type}

/-- The variant that a name stands for if it has only one. -/
def sole? (p : Program M) (name : String) : Option (Rule M) :=
  (p.group? name).bind fun group => group.items[0]?

theorem Decided.sole?_eq {p : Program M} (h : p.Decided) {name : String} {line : Option Nat}
    {draw : Draw Float} {g : Generator} {i : Nat} {rule : Rule M}
    (hpick : ((p.pick name line draw).run g).1 = .ok (i, rule)) : p.sole? name = some rule := by
  rw [run_pick] at hpick
  cases hg : p.group? name with
  | none =>
    rw [hg] at hpick
    cases hpick
  | some group =>
    have hone : group.size = 1 := h (name, group) (mem_groups_of_group hg)
    have hrun : (group.spin draw).run g = (some 0, (draw.run g).2) := by
      rw [Roulette.spin_of_size_one hone]
      rfl
    simp only [hg, hrun] at hpick
    rw [sole?, hg, Option.bind_some]
    cases hitem : group.items[0]? with
    | none =>
      rw [hitem] at hpick
      cases hpick
    | some variant =>
      rw [hitem] at hpick
      cases hpick
      rfl

/-- The depths that the named rules set. -/
def depths (p : Program M) : List Nat := p.variants.flatMap Rule.depths

def withDepth (p : Program M) (depth : UInt32) : Program M :=
  { p with settings := { p.settings with maxDepth := depth } }

/-- Nothing but the depth has a say in what is drawn. -/
structure Steady (p : Program M) : Prop where
  plain : p.Plain
  closed : p.Closed
  decided : p.Decided
  depths : ∀ rule ∈ p.rules, rule.depths = []
  limits : ∀ rule ∈ p.rules, rule.limits = []

theorem Steady.apply_eq {p : Program M} (hp : p.Steady) {rule : Rule M} (hr : rule ∈ p.rules)
    {action : Action M} (ha : action ∈ rule.actions) {setting : Setting}
    (he : action.effect = .set setting) (s : Settings) :
    (s.apply setting).maxObjects = s.maxObjects ∧ (s.apply setting).maxDepth = s.maxDepth := by
  cases setting with
  | maxObjects count =>
    have hmem := Rule.mem_limits ha he
    rw [hp.limits rule hr] at hmem
    cases hmem
  | maxDepth depth =>
    have hmem := Rule.mem_depths ha he
    rw [hp.depths rule hr] at hmem
    cases hmem
  | _ => exact ⟨rfl, rfl⟩

variable [Mul M]

/-- What a turn draws with so many levels left above the rule it belongs to. -/
def drawn (p : Program M) (levels : Nat) (turn : Action M × Pose M) : List (Drawing M) :=
  match turn.1.effect with
  | .draw solid => [⟨solid, turn.2⟩]
  | .set _ => []
  | .invoke name =>
    match levels with
    | 0 => []
    | levels + 1 =>
      (p.sole? name).toList.flatMap fun rule =>
        (rule.agenda turn.2).flatMap fun turn => p.drawn levels turn

section
variable {p : Program M} {levels : Nat} {turn : Action M × Pose M}

theorem drawn_draw {solid : Primitive} (he : turn.1.effect = .draw solid) :
    p.drawn levels turn = [⟨solid, turn.2⟩] := by
  obtain ⟨⟨loops, effect, line⟩, pose⟩ := turn
  cases he
  cases levels <;> rfl

theorem drawn_set {setting : Setting} (he : turn.1.effect = .set setting) :
    p.drawn levels turn = [] := by
  obtain ⟨⟨loops, effect, line⟩, pose⟩ := turn
  cases he
  cases levels <;> rfl

theorem drawn_pruned {name : String} (he : turn.1.effect = .invoke name) :
    p.drawn 0 turn = [] := by
  obtain ⟨⟨loops, effect, line⟩, pose⟩ := turn
  cases he
  rfl

theorem drawn_invoke {name : String} (he : turn.1.effect = .invoke name) :
    p.drawn (levels + 1) turn =
      (p.sole? name).toList.flatMap fun rule => (rule.agenda turn.2).flatMap (p.drawn levels) := by
  obtain ⟨⟨loops, effect, line⟩, pose⟩ := turn
  cases he
  rfl

theorem drawn_sublist (p : Program M) {more : Nat} (h : levels ≤ more)
    (turn : Action M × Pose M) : (p.drawn levels turn).Sublist (p.drawn more turn) := by
  induction levels generalizing more turn with
  | zero =>
    cases he : turn.1.effect with
    | draw solid => rw [drawn_draw he, drawn_draw he]
    | set setting => rw [drawn_set he, drawn_set he]
    | invoke name =>
      rw [drawn_pruned he]
      exact List.nil_sublist _
  | succ levels ih =>
    obtain ⟨more, rfl⟩ : ∃ k, more = k + 1 := ⟨more - 1, by omega⟩
    cases he : turn.1.effect with
    | draw solid => rw [drawn_draw he, drawn_draw he]
    | set setting => rw [drawn_set he, drawn_set he]
    | invoke name =>
      rw [drawn_invoke he, drawn_invoke he]
      refine List.Sublist.flatMap_right _ fun rule _ => ?_
      exact List.Sublist.flatMap_right _ fun turn _ => ih (by omega) turn

theorem drawn_withDepth (p : Program M) (depth : UInt32) (levels : Nat)
    (turn : Action M × Pose M) : (p.withDepth depth).drawn levels turn = p.drawn levels turn := by
  induction levels generalizing turn with
  | zero =>
    unfold drawn
    rfl
  | succ levels ih =>
    have hih : (p.withDepth depth).drawn levels = p.drawn levels := funext ih
    cases he : turn.1.effect with
    | draw solid => rw [drawn_draw he, drawn_draw he]
    | set setting => rw [drawn_set he, drawn_set he]
    | invoke name =>
      rw [drawn_invoke he, drawn_invoke he, hih]
      rfl

end

end Program

theorem Shared.of_choose {M : Type} {p : Program M} {c chosen : Shared} {name : String}
    {line : Nat} {choice : Except Diagnostic (Nat × Rule M)}
    (h : c.choose p name line = (choice, chosen)) :
    ((p.pick name (some line) Draw.unit).run c.streams.geometry).1 = choice ∧
      chosen.settings = c.settings ∧ chosen.pruned = c.pruned :=
  ⟨congrArg Prod.fst h, congrArg (fun drawn => drawn.2.settings) h.symm,
    congrArg (fun drawn => drawn.2.pruned) h.symm⟩

namespace Frame
variable {M : Type}

/-- The frame stands at a turn of a rule of the program. -/
structure Sound (p : Program M) (f : Frame M) : Prop where
  plain : f.Plain
  rule_mem : f.rule ∈ p.rules

variable [Mul M] {p : Program M} {f : Frame M} {action : Action M} {c : Shared}

theorem Sound.proceed (hf : f.Sound p) (ha : f.action? = some action) :
    ∃ next : Frame M, c.proceed f = (next, c) ∧ next.Sound p ∧
      f.agenda = (action, f.pose) :: next.agenda := by
  obtain ⟨next, hnext, hplain, hagenda⟩ := Shared.proceed_plain (c := c) hf.plain ha
  have hrule : next.rule = f.rule := by
    rw [← rule_proceed c.settings.pool f c.streams.color]
    exact congrArg (fun drawn => drawn.1.rule) hnext.symm
  exact ⟨next, hnext, ⟨hplain, hrule ▸ hf.rule_mem⟩, hagenda⟩

theorem Sound.skip (hf : f.Sound p) (ha : f.action? = some action) :
    ∃ next : Frame M, c.skip f = (next, c) ∧ next.Sound p ∧
      ∃ poses : List (Pose M), f.agenda = poses.map (action, ·) ++ next.agenda := by
  obtain ⟨next, hnext, hplain, hagenda⟩ := Shared.skip_plain (c := c) hf.plain ha
  have hrule : next.rule = f.rule := congrArg (fun drawn => drawn.1.rule) hnext.symm
  exact ⟨next, hnext, ⟨hplain, hrule ▸ hf.rule_mem⟩, hagenda⟩

theorem Sound.enter (hp : p.Plain) {rule : Rule M} (hr : rule ∈ p.rules) (height : Nat)
    (input : Pose M) :
    ∃ (f : Frame M) (entered : Shared), c.enter height rule input = (f, entered) ∧
      entered.settings = c.settings ∧ entered.pruned = c.pruned ∧ f.Sound p ∧
      f.agenda = rule.agenda input := by
  obtain ⟨f, entered, henter, -, hplain, hagenda⟩ :=
    Shared.enter_plain (c := c) (hp rule hr) height input
  have hsettings : entered.settings = c.settings :=
    congrArg (fun drawn => drawn.2.settings) henter.symm
  have hpruned : entered.pruned = c.pruned := congrArg (fun drawn => drawn.2.pruned) henter.symm
  have hrule : f.rule = rule := congrArg (fun drawn => drawn.1.rule) henter.symm
  exact ⟨f, entered, henter, hsettings, hpruned, ⟨hplain, hrule ▸ hr⟩, hagenda⟩

end Frame

namespace Recursive
variable {M σ ε : Type} [Mul M]

/-- A run that draws what these turns draw and then stops; if it pruned nothing, more levels would
have made no difference. -/
structure Draws (p : Program M) (scene : Scene M σ ε) (levels : Nat)
    (turns : List (Action M × Pose M)) (c left : Shared)
    (run : EStateM (BuildError ε) σ Shared) : Prop where
  run_eq : run =
    scene.feed ((turns.flatMap (p.drawn levels)).map .draw) >>= fun _ => pure left
  maxObjects : left.settings.maxObjects = c.settings.maxObjects
  maxDepth : left.settings.maxDepth = c.settings.maxDepth
  pruned_le : c.pruned ≤ left.pruned
  uncut : left.pruned = c.pruned → ∀ more, levels ≤ more →
    turns.flatMap (p.drawn more) = turns.flatMap (p.drawn levels)

namespace Draws
variable {p : Program M} {scene : Scene M σ ε} {levels : Nat}
  {turns later : List (Action M × Pose M)} {c middle left : Shared}

theorem bind {run : EStateM (BuildError ε) σ Shared}
    {go : Shared → EStateM (BuildError ε) σ Shared}
    (h : Draws p scene levels turns c middle run)
    (hlater : Draws p scene levels later middle left (go middle)) :
    Draws p scene levels (turns ++ later) c left (run >>= go) where
  run_eq := by
    rw [h.run_eq, bind_assoc, List.flatMap_append, List.map_append, Scene.feed_append, bind_assoc]
    congr 1
    funext _
    rw [pure_bind, hlater.run_eq]
  maxObjects := hlater.maxObjects.trans h.maxObjects
  maxDepth := hlater.maxDepth.trans h.maxDepth
  pruned_le := Nat.le_trans h.pruned_le hlater.pruned_le
  uncut heq more hle := by
    have hle₁ := h.pruned_le
    have hle₂ := hlater.pruned_le
    rw [List.flatMap_append, List.flatMap_append, h.uncut (by omega) more hle,
      hlater.uncut (by omega) more hle]

/-- Turns that draw nothing whatever the levels are. -/
theorem silent (hnone : ∀ levels, turns.flatMap (p.drawn levels) = [])
    (hobjects : left.settings.maxObjects = c.settings.maxObjects)
    (hdepth : left.settings.maxDepth = c.settings.maxDepth) (hpruned : left.pruned = c.pruned) :
    Draws p scene levels turns c left (pure left) where
  run_eq := by
    rw [hnone]
    rfl
  maxObjects := hobjects
  maxDepth := hdepth
  pruned_le := Nat.le_of_eq hpruned.symm
  uncut _ more _ := by rw [hnone, hnone]

theorem of_start {c' : Shared} {run : EStateM (BuildError ε) σ Shared}
    (h : Draws p scene levels turns c left run) (hs : c.settings = c'.settings)
    (hp : c.pruned = c'.pruned) : Draws p scene levels turns c' left run where
  run_eq := h.run_eq
  maxObjects := hs ▸ h.maxObjects
  maxDepth := hs ▸ h.maxDepth
  pruned_le := hp ▸ h.pruned_le
  uncut heq := h.uncut (heq.trans hp.symm)

theorem draw {action : Action M} {pose : Pose M} {solid : Primitive}
    (he : action.effect = .draw solid) :
    Draws p scene levels [(action, pose)] c c.stepped.drew
      ((scene (.draw ⟨solid, pose⟩)).adaptExcept .scene >>= fun _ => pure c.stepped.drew) where
  run_eq := by
    rw [List.flatMap_singleton, Program.drawn_draw he, List.map_singleton, Scene.feed, Scene.feed,
      bind_pure_unit]
  maxObjects := rfl
  maxDepth := rfl
  pruned_le := Nat.le_refl _
  uncut _ more _ := by
    rw [List.flatMap_singleton, List.flatMap_singleton, Program.drawn_draw he,
      Program.drawn_draw he]

/-- What the turns of a callee draw, the turn of the invocation draws on the level below. -/
theorem call {action : Action M} {pose : Pose M} {name : String} {rule : Rule M}
    {run : EStateM (BuildError ε) σ Shared} (he : action.effect = .invoke name)
    (hsole : p.sole? name = some rule) (h : Draws p scene levels (rule.agenda pose) c left run) :
    Draws p scene (levels + 1) [(action, pose)] c left run := by
  have hdrawn (n : Nat) : [(action, pose)].flatMap (p.drawn (n + 1)) =
      (rule.agenda pose).flatMap (p.drawn n) := by
    rw [List.flatMap_singleton, Program.drawn_invoke he, hsole]
    exact List.flatMap_singleton _ _
  refine ⟨by rw [hdrawn, h.run_eq], h.maxObjects, h.maxDepth, h.pruned_le, fun heq more hle => ?_⟩
  obtain ⟨more, rfl⟩ : ∃ k, more = k + 1 := ⟨more - 1, by omega⟩
  rw [hdrawn, hdrawn, h.uncut heq more (by omega)]

theorem prune {action : Action M} {name : String} (he : action.effect = .invoke name)
    (poses : List (Pose M)) :
    Draws p scene 0 (poses.map (action, ·)) c c.stepped.prune (pure c.stepped.prune) where
  run_eq := by
    have hnone : (poses.map (action, ·)).flatMap (p.drawn 0) = [] := by
      rw [List.flatMap_eq_nil_iff]
      rintro turn hturn
      obtain ⟨pose, -, rfl⟩ := List.mem_map.1 hturn
      exact Program.drawn_pruned he
    rw [hnone]
    rfl
  maxObjects := rfl
  maxDepth := rfl
  pruned_le := Nat.le_succ _
  uncut heq := absurd heq (Nat.succ_ne_self _)

end Draws

/-- The steps of a steady program, in the order of the recursion. -/
theorem expand_draws {p : Program M} (hp : p.Steady) (scene : Scene M σ ε) (height : Nat)
    (frame : Frame M) (c : Shared) (hf : frame.Sound p) (hc : c.settings.maxObjects = none) :
    ∃ left, Draws p scene (c.settings.maxDepth.toNat - 1 - height) frame.agenda c left
      (expand p scene height frame c) := by
  induction height, frame, c using expand.induct p with
  | case1 height frame c hb =>
    rw [Course.isSpent, hc] at hb
    cases hb
  | case2 height frame c hb ha =>
    rw [expand_leave hb ha, Frame.agenda_of_none ha]
    exact ⟨_, .silent (fun _ => rfl) rfl rfl rfl⟩
  | case3 height frame c hb action ha solid he ih =>
    obtain ⟨next, hnext, hsound, hagenda⟩ := hf.proceed (c := c.stepped.drew) ha
    rw [hnext] at ih
    obtain ⟨left, hleft⟩ := ih hsound hc
    have hfirst : Draws p scene (c.settings.maxDepth.toNat - 1 - height) [(action, frame.pose)] c
        c.stepped.drew ((scene (.draw ⟨solid, frame.pose⟩)).adaptExcept .scene >>=
          fun _ => pure c.stepped.drew) := .draw he
    have hall := hfirst.bind hleft
    rw [bind_assoc] at hall
    rw [expand_draw hb ha he, hagenda, hnext]
    exact ⟨left, hall⟩
  | case4 height frame c hb action ha setting he moved ih =>
    obtain ⟨next, hnext, hsound, hagenda⟩ := hf.proceed (c := c.stepped.change p setting) ha
    obtain ⟨hobjects, hdepth⟩ := hp.apply_eq hf.rule_mem (List.mem_of_getElem? ha) he c.settings
    simp only [moved, hnext] at ih
    obtain ⟨left, hleft⟩ := ih hsound (hobjects.trans hc)
    have hlevels : (c.stepped.change p setting).settings.maxDepth = c.settings.maxDepth := hdepth
    rw [hlevels] at hleft
    have hfirst : Draws p scene (c.settings.maxDepth.toNat - 1 - height) [(action, frame.pose)] c
        (c.stepped.change p setting) (pure (c.stepped.change p setting)) :=
      .silent (fun _ => by rw [List.flatMap_singleton, Program.drawn_set he]) hobjects hdepth rfl
    have hall := hfirst.bind hleft
    rw [pure_bind] at hall
    rw [expand_change hb ha he, hagenda, hnext]
    exact ⟨left, hall⟩
  | case5 height frame c hb action ha name he hd unknownRule chosen hchoose =>
    have hdefines := hp.closed _ hf.rule_mem name (Rule.mem_invoked (List.mem_of_getElem? ha) he)
    obtain ⟨i, rule, -, hrun⟩ := Program.run_pick_of_defines hdefines (some action.line) Draw.unit
      c.streams.geometry
    obtain ⟨hpick, -, -⟩ := Shared.of_choose hchoose
    change ((p.pick name (some action.line) Draw.unit).run c.streams.geometry).1 = _ at hpick
    rw [hrun] at hpick
    cases hpick
  | case6 height frame c hb action ha name he hd i rule chosen hchoose callee caller ihCallee
      ihCaller =>
    obtain ⟨hpick, hchosen⟩ := Shared.of_choose hchoose
    have hrule : rule ∈ p.rules := List.mem_append_right _ (Program.mem_variants_of_pick hpick)
    obtain ⟨f, entered, henter, hsettings, hpruned, hfsound, hfagenda⟩ :=
      Frame.Sound.enter (c := chosen) hp.plain hrule (height + 1) frame.pose
    obtain ⟨next, hnext, hsound, hagenda⟩ := hf.proceed (c := entered) ha
    simp only [caller, callee, henter, hnext] at ihCallee ihCaller
    replace hsettings := hsettings.trans hchosen.1
    replace hpruned := hpruned.trans hchosen.2
    change entered.settings = c.settings at hsettings
    obtain ⟨middle, hmiddle⟩ := ihCallee hfsound (by rw [hsettings, hc])
    obtain ⟨left, hleft⟩ := ihCaller middle hsound (by rw [hmiddle.maxObjects, hsettings, hc])
    rw [hsettings, hfagenda] at hmiddle
    rw [hmiddle.maxDepth, hsettings] at hleft
    have hadmits : height < c.settings.maxDepth.toNat - 1 := hd
    have hlevels : c.settings.maxDepth.toNat - 1 - height =
        c.settings.maxDepth.toNat - 1 - (height + 1) + 1 := by omega
    have hcall := (hmiddle.call he (hp.decided.sole?_eq hpick)).of_start hsettings hpruned
    rw [← hlevels] at hcall
    have hall := hcall.bind hleft
    rw [expand_enter hb ha he hd hchoose, hagenda]
    simp only [henter, hnext]
    exact ⟨left, hall⟩
  | case7 height frame c hb action ha name he hd moved ih =>
    obtain ⟨next, hnext, hsound, poses, hagenda⟩ := hf.skip (c := c.stepped.prune) ha
    simp only [moved, hnext] at ih
    obtain ⟨left, hleft⟩ := ih hsound hc
    have hdeep : ¬height < c.settings.maxDepth.toNat - 1 := hd
    have hlevels : c.settings.maxDepth.toNat - 1 - height = 0 := by omega
    have hsettings : c.stepped.prune.settings = c.settings := rfl
    rw [hsettings, hlevels] at hleft
    have hall := (Draws.prune (c := c) he poses).bind hleft
    rw [pure_bind] at hall
    rw [expand_prune hb ha he hd, hagenda, hnext, hlevels]
    exact ⟨left, hall⟩

variable [One M]

theorem expandAll_draws {p : Program M} (hp : p.Steady) (scene : Scene M σ ε)
    {rules : List (Rule M)} (hr : ∀ rule ∈ rules, rule ∈ p.rules) (c : Shared)
    (hc : c.settings.maxObjects = none) :
    ∃ left, Draws p scene (c.settings.maxDepth.toNat - 1 - 1)
      (rules.flatMap fun rule => rule.agenda ⟨1, .pureRed⟩) c left
      (expandAll p scene rules c) := by
  induction rules generalizing c with
  | nil => exact ⟨c, .silent (fun _ => rfl) rfl rfl rfl⟩
  | cons rule rules ih =>
    rw [List.forall_mem_cons] at hr
    have hb : ¬c.isSpent = true := by simp [Course.isSpent, hc]
    obtain ⟨f, entered, henter, hsettings, hpruned, hsound, hagenda⟩ :=
      Frame.Sound.enter (c := c) hp.plain hr.1 1 ⟨1, .pureRed⟩
    obtain ⟨middle, hmiddle⟩ := expand_draws hp scene 1 f entered hsound (by rw [hsettings, hc])
    obtain ⟨left, hleft⟩ := ih hr.2 middle (by rw [hmiddle.maxObjects, hsettings, hc])
    rw [hmiddle.maxDepth, hsettings] at hleft
    rw [hsettings, hagenda] at hmiddle
    have hall := (hmiddle.of_start hsettings hpruned).bind hleft
    rw [List.flatMap_cons, expandAll, if_neg hb, henter]
    exact ⟨left, hall⟩

end Recursive

namespace Program
variable {M : Type} [Mul M] [One M]

def drawings (p : Program M) (depth : UInt32) : List (Drawing M) :=
  (p.initial.flatMap fun rule => rule.agenda ⟨1, .pureRed⟩).flatMap (p.drawn (depth.toNat - 1 - 1))

theorem drawings_sublist (p : Program M) {depth deeper : UInt32} (h : depth ≤ deeper) :
    (p.drawings depth).Sublist (p.drawings deeper) := by
  have hle := UInt32.le_iff_toNat_le.1 h
  exact List.Sublist.flatMap_right _ fun turn _ => p.drawn_sublist (by omega) turn

theorem drawings_withDepth (p : Program M) (depth deeper : UInt32) :
    (p.withDepth depth).drawings deeper = p.drawings deeper := by
  have hdrawn := funext (p.drawn_withDepth depth (deeper.toNat - 1 - 1))
  rw [drawings, hdrawn]
  rfl

theorem Steady.delivery_eq {p : Program M} (hp : p.Steady)
    (hbudget : p.settings.maxObjects = none) (streams : Streams) :
    ∃ stats, p.delivery streams =
        ⟨p.opening ++ (p.drawings p.settings.maxDepth).map .draw, .ok stats⟩ ∧
      (stats.pruned = 0 → ∀ deeper, p.settings.maxDepth ≤ deeper →
        p.drawings deeper = p.drawings p.settings.maxDepth) := by
  obtain ⟨left, hdraws⟩ := Recursive.expandAll_draws hp (Scene.recorder (ε := Empty))
    (fun _ => List.mem_append_left _) (.start p streams) hbudget
  have hrun : p.expandFrom streams (Scene.recorder (ε := Empty)) =
      (Delivery.mk (p.opening ++ (p.drawings p.settings.maxDepth).map .draw)
        (.ok left.stats)).give Scene.recorder := by
    rw [Machine.expandFrom_recursive, Recursive.expandFrom, hdraws.run_eq, Delivery.give_append]
    simp only [map_bind, map_pure]
    simp only [opening, Scene.feed, bind_assoc, pure_bind]
    rfl
  refine ⟨left.stats, ?_, fun hpruned deeper hle => ?_⟩
  · rw [delivery, hrun, Delivery.ofRun_give]
  · have hmore : p.settings.maxDepth.toNat - 1 - 1 ≤ deeper.toNat - 1 - 1 := by
      have := UInt32.le_iff_toNat_le.1 hle
      omega
    exact hdraws.uncut hpruned _ hmore

end Program

theorem Rule.KeepsSettings.depths_eq_nil {M : Type} {r : Rule M} (h : r.KeepsSettings) :
    r.depths = [] := by
  rw [Rule.depths, List.filterMap_eq_nil_iff]
  intro action ha
  cases he : action.effect with
  | set setting => exact absurd he (h action ha setting)
  | _ => rfl

section
variable {source : String} {p : Program Matrix}

theorem Program.steady_of_compile (hc : compile source = .ok p)
    (hcolor : ∀ loop ∈ p.loops, loop.transformation.drawsColor = false) (hdepths : p.depths = [])
    (hlimits : p.limits = []) (hd : p.Decided) (depth : UInt32) : (p.withDepth depth).Steady where
  plain rule hr action ha loop hloop := by
    have hmem : loop ∈ p.loops :=
      List.mem_flatMap.2 ⟨rule, hr, List.mem_flatMap.2 ⟨action, ha, hloop⟩⟩
    exact ⟨hcolor loop hmem, Program.repeats_of_compile hc rule hr action ha loop hloop⟩
  closed := show p.Closed from Program.closed_of_compile hc
  decided := hd
  depths rule hr := by
    rcases List.mem_append.1 hr with hr | hr
    · exact (Program.anonymousKeepSettings_of_compile hc rule hr).depths_eq_nil
    · exact List.flatMap_eq_nil_iff.1 hdepths rule hr
  limits rule hr := by
    rcases List.mem_append.1 hr with hr | hr
    · exact (Program.anonymousKeepSettings_of_compile hc rule hr).limits_eq_nil
    · exact List.flatMap_eq_nil_iff.1 hlimits rule hr

/-- A deeper expansion draws all that a shallower one draws, in the same order, and nothing more if
that one pruned nothing. -/
theorem drawings_sublist_of_depth_le (hc : compile source = .ok p)
    (hcolor : ∀ loop ∈ p.loops, loop.transformation.drawsColor = false) (hdepths : p.depths = [])
    (hlimits : p.limits = []) (hbudget : p.settings.maxObjects = none) (hd : p.Decided)
    {depth deeper : UInt32} (hle : depth ≤ deeper) (streams : Streams) :
    ∃ (drawings more : List (Drawing Matrix)) (stats statsDeeper : Stats),
      (p.withDepth depth).delivery streams =
        ⟨.background p.settings.background :: .camera p.settings.camera :: drawings.map .draw,
          .ok stats⟩ ∧
      (p.withDepth deeper).delivery streams =
        ⟨.background p.settings.background :: .camera p.settings.camera :: more.map .draw,
          .ok statsDeeper⟩ ∧
      drawings.Sublist more ∧ (stats.pruned = 0 → drawings = more) ∧
      ∀ {σ ε : Type} (scene : Scene Matrix σ ε) (depth : UInt32),
        (p.withDepth depth).expandFrom streams scene =
          ((p.withDepth depth).delivery streams).give scene := by
  have hsteady := Program.steady_of_compile hc hcolor hdepths hlimits hd
  obtain ⟨stats, hdelivery, huncut⟩ := (hsteady depth).delivery_eq hbudget streams
  obtain ⟨statsDeeper, hdeliveryDeeper, -⟩ := (hsteady deeper).delivery_eq hbudget streams
  rw [Program.drawings_withDepth] at hdelivery hdeliveryDeeper
  refine ⟨p.drawings depth, p.drawings deeper, stats, statsDeeper, hdelivery, hdeliveryDeeper,
    p.drawings_sublist hle, fun hpruned => ?_, fun scene depth => ?_⟩
  · have heq := huncut hpruned deeper hle
    rw [Program.drawings_withDepth, Program.drawings_withDepth] at heq
    exact heq.symm
  · exact Program.expandFrom_eq_give _ streams scene

end

/-- Every rung bears two more, as far as the depth goes. -/
def ladder : String := "rung\nrule rung \x7b box 2 * \x7b z 1 \x7d rung \x7d"

theorem ladder_compiled :
    (compile ladder).toOption.map (fun p =>
      (p.loops.all fun loop => !loop.transformation.drawsColor, p.depths, p.limits,
        p.settings.maxObjects, p.groups.all fun entry => entry.2.size == 1)) =
      some (true, [], [], none, true) := by
  decide +kernel

theorem drawings_sublist_of_depth_le_ladder :
    ∃ p, compile ladder = .ok p ∧
      ∃ (drawings more : List (Drawing Matrix)) (stats statsDeeper : Stats),
        (p.withDepth 3).delivery p.streams =
          ⟨.background p.settings.background :: .camera p.settings.camera :: drawings.map .draw,
            .ok stats⟩ ∧
        (p.withDepth 5).delivery p.streams =
          ⟨.background p.settings.background :: .camera p.settings.camera :: more.map .draw,
            .ok statsDeeper⟩ ∧
        drawings.Sublist more ∧ (stats.pruned = 0 → drawings = more) := by
  obtain ⟨p, hc, hfacts⟩ := exists_compiled ladder_compiled
  simp only [Prod.mk.injEq, List.all_eq_true, Bool.not_eq_true', beq_iff_eq] at hfacts
  obtain ⟨hcolor, hdepths, hlimits, hbudget, hd⟩ := hfacts
  obtain ⟨drawings, more, stats, statsDeeper, hshallow, hdeep, hsublist, huncut, -⟩ :=
    drawings_sublist_of_depth_le hc hcolor hdepths hlimits hbudget hd
      (show (3 : UInt32) ≤ 5 by decide) p.streams
  exact ⟨p, hc, drawings, more, stats, statsDeeper, hshallow, hdeep, hsublist, huncut⟩

end SceneGrammar

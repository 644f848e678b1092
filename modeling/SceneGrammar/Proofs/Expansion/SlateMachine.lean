import SceneGrammar.Proofs.Expansion.Recursive
import SceneGrammar.Proofs.Expansion.Slates

/-!
# The machine on slates

The stack of an expansion on a row of slates, of which those below the height are in use. A rule
that is entered takes the next slate above: either one that an earlier rule has left, on which only
the rule, the index and the pose are written anew, or a blank one. It does not matter which: where
the slates show the frames of a stack, nothing is missing for the next step of the stack, and behind
it they show the frames again.
-/

namespace SceneGrammar

/-- Whether slates that go out of use are kept and taken again, or thrown away. -/
inductive Supply
  | kept
  | fresh
  deriving DecidableEq

def Supply.lay {M : Type} (supply : Supply) (slates : List (Slate M)) (height : Nat)
    (rule : Rule M) (input : Pose M) : List (Slate M) :=
  match supply with
  | .kept =>
    match slates[height]? with
    | some slate => slates.set height { slate with rule, index := 0, input }
    | none => slates ++ [.blank rule input]
  | .fresh => slates.take height ++ [.blank rule input]

/-- The stack is on the slates below `height`, the top frame last. -/
structure SlateMachine (M : Type) where
  shared : Shared
  slates : List (Slate M)
  height : Nat

/-- Why a run on slates stops early: something is missing, or it fails and leaves the scene so. -/
inductive Stop (σ ε : Type)
  | lapse (lapse : Lapse)
  | failed (failure : BuildError ε) (s : σ)

/-- The result of a run to which nothing is missing. -/
def Stop.outcome {σ ε α : Type} : EStateM.Result (BuildError ε) σ α → Except (Stop σ ε) (α × σ)
  | .ok a s => .ok (a, s)
  | .error failure s => .error (.failed failure s)

def Effect.isInvoke : Effect → Bool
  | .invoke _ => true
  | _ => false

/-- How a step ends. It passes if it finds an action with loops and no pose for it. -/
inductive Turn (M : Type)
  | took (deed : Deed M) (next : SlateMachine M)
  | passed (next : SlateMachine M)
  | failed (diagnostic : Diagnostic)

namespace SlateMachine
variable {M : Type}

def start (p : Program M) (streams : Streams) : SlateMachine M := ⟨.start p streams, [], 0⟩

/-- Does something to the slate at a place, at the cost of the color stream. -/
def onSlate (m : SlateMachine M) (place : Nat) (act : Pool → Slate M → Risk (Slate M)) :
    Except Lapse (SlateMachine M) :=
  match m.slates[place]? with
  | none => throw .noSlate
  | some slate => do
    let (slate, color) ← (act m.shared.settings.pool slate).run m.shared.streams.color
    return { m with
      shared := { m.shared with streams := { m.shared.streams with color } }
      slates := m.slates.set place slate }

section
variable [Mul M]

def push (supply : Supply) (m : SlateMachine M) (rule : Rule M) (input : Pose M) :
    Except Lapse (SlateMachine M) :=
  let height := m.height + 1
  let shared := { m.shared with maxStack := max m.shared.maxStack height }
  let slates := supply.lay m.slates m.height rule input
  onSlate ⟨shared, slates, height⟩ (height - 1) fun pool slate => .ofDraw (slate.enter pool 0)

/-- The effect of an action in a pose. The frame that it belongs to has not moved on yet. -/
def perform (supply : Supply) (p : Program M) (m : SlateMachine M) (action : Action M)
    (pose : Pose M) : Except Lapse (Except Diagnostic (Deed M × SlateMachine M)) :=
  match action.effect with
  | .draw solid => return .ok (.draw ⟨solid, pose⟩, { m with shared := m.shared.drew })
  | .set setting => return .ok (.change setting, { m with shared := m.shared.change p setting })
  | .invoke name =>
    if m.shared.Admits m.height then
      match m.shared.choose p name action.line with
      | (.error unknownRule, _) => return .error unknownRule
      | (.ok (_, rule), shared) => do
        let next ← push supply { m with shared } rule pose
        return .ok (.enter rule, next)
    else return .ok (.prune, { m with shared := m.shared.prune })

/-- An effect, and then the frame at `place` moves on. -/
def performThen (supply : Supply) (p : Program M) (m : SlateMachine M) (action : Action M)
    (pose : Pose M) (place : Nat) (move : Pool → Slate M → Risk (Slate M)) :
    Except Lapse (Turn M) := do
  match ← m.perform supply p action pose with
  | .error diagnostic => return .failed diagnostic
  | .ok (deed, m) => return .took deed (← m.onSlate place move)

def step (supply : Supply) (p : Program M) (m : SlateMachine M) : Except Lapse (Turn M) :=
  match m.height with
  | 0 => throw .emptyStack
  | top + 1 =>
    match m.slates[top]? with
    | none => throw .noSlate
    | some slate =>
      let m := { m with shared := m.shared.stepped }
      match slate.action? with
      | none => return .took .leave { m with height := top }
      | some action =>
        if action.loops.isEmpty then
          m.performThen supply p action slate.input top Slate.skip
        else if action.effect.isInvoke ∧ ¬m.shared.Admits m.height then do
          let m := { m with shared := m.shared.prune }
          return .took .prune (← m.onSlate top Slate.skip)
        else
          match slate.poses.getLast? with
          | none => return .passed (← m.onSlate top Slate.skip)
          | some pose =>
            m.performThen supply p action pose top fun pool => Slate.proceed pool action.loops

variable {σ ε : Type}

def tell (scene : Scene M σ ε) : Deed M → EStateM ε σ Unit
  | .draw drawing => scene (.draw drawing)
  | _ => pure ()

/-- A step, of which the scene is told. -/
def tick (supply : Supply) (p : Program M) (scene : Scene M σ ε) (m : SlateMachine M) (s : σ) :
    Except (Stop σ ε) (SlateMachine M × σ) :=
  match m.step supply p with
  | .error lapse => .error (.lapse lapse)
  | .ok (.failed diagnostic) => .error (.failed (.rule diagnostic) s)
  | .ok (.passed next) => .ok (next, s)
  | .ok (.took deed next) =>
    match (tell scene deed).run s with
    | .error failure s => .error (.failed (.scene failure) s)
    | .ok _ s => .ok (next, s)

/-- Steps until the stack is empty or the budget is spent; no result without enough moves. -/
def drainFor (supply : Supply) (p : Program M) (scene : Scene M σ ε) :
    Nat → SlateMachine M → σ → ExceptT (Stop σ ε) Option (SlateMachine M × σ)
  | 0, _, _ => ExceptT.mk none
  | moves + 1, m, s =>
    if m.height = 0 then pure (m, s)
    else if m.shared.isSpent then pure ({ m with height := 0 }, s)
    else do
      let (m, s) ← ExceptT.mk (some (m.tick supply p scene s))
      drainFor supply p scene moves m s

variable [One M]

def drainAllFor (supply : Supply) (p : Program M) (scene : Scene M σ ε) (moves : Nat) :
    List (Rule M) → SlateMachine M → σ → ExceptT (Stop σ ε) Option (SlateMachine M × σ)
  | [], m, s => pure (m, s)
  | rule :: rules, m, s =>
    if m.shared.isSpent then pure (m, s)
    else do
      let m ← ExceptT.mk (some ((m.push supply rule ⟨1, .pureRed⟩).mapError .lapse))
      let (m, s) ← drainFor supply p scene moves m s
      drainAllFor supply p scene moves rules m s

/-- The background, the camera, and then the anonymous rules in order. -/
def expandFor (supply : Supply) (moves : Nat) (p : Program M) (streams : Streams)
    (scene : Scene M σ ε) (s : σ) : ExceptT (Stop σ ε) Option (Stats × σ) := do
  let opening : EStateM ε σ Unit := do
    scene (.background p.settings.background)
    scene (.camera p.settings.camera)
  match opening.run s with
  | .error failure s => throw (.failed (.scene failure) s)
  | .ok _ s =>
    let (m, s) ← drainAllFor supply p scene moves p.initial (.start p streams) s
    return (m.shared.stats, s)

end

end SlateMachine

/-! ## The ways of a step -/

namespace SlateMachine
variable {M : Type}

theorem onSlate_at {m : SlateMachine M} {front back : List (Slate M)} {slate next : Slate M}
    {act : Pool → Slate M → Risk (Slate M)} {color : Generator}
    (hslates : m.slates = front ++ slate :: back)
    (hact : (act m.shared.settings.pool slate).run m.shared.streams.color = .ok (next, color)) :
    m.onSlate front.length act = .ok { m with
      shared := { m.shared with streams := { m.shared.streams with color } }
      slates := front ++ next :: back } := by
  have hat : m.slates[front.length]? = some slate := by simp [hslates]
  simp only [onSlate, hat, hact]
  simp [hslates]

section
variable [Mul M] {supply : Supply} {p : Program M} {m mid next : SlateMachine M} {slate : Slate M}
  {action : Action M} {pose : Pose M} {deed : Deed M} {name : String} {diagnostic : Diagnostic}
  {move : Pool → Slate M → Risk (Slate M)} {top place : Nat}

theorem performThen_ok (hp : m.perform supply p action pose = .ok (.ok (deed, mid)))
    (hm : mid.onSlate place move = .ok next) :
    m.performThen supply p action pose place move = .ok (.took deed next) := by
  rw [performThen, hp]
  change (mid.onSlate place move >>= fun m => pure (Turn.took deed m)) = _
  rw [hm]
  rfl

theorem performThen_error (hp : m.perform supply p action pose = .ok (.error diagnostic)) :
    m.performThen supply p action pose place move = .ok (.failed diagnostic) := by
  rw [performThen, hp]
  rfl

theorem step_of_empty (hm : m.height = 0) : m.step supply p = .error .emptyStack := by
  obtain ⟨shared, slates, height⟩ := m
  subst hm
  rfl

theorem height_pos_of_step {turn : Turn M} (h : m.step supply p = .ok turn) :
    0 < m.height := by
  refine Nat.pos_of_ne_zero fun hm => ?_
  rw [step_of_empty hm] at h
  cases h

theorem step_leave (hheight : m.height = top + 1) (hslate : m.slates[top]? = some slate)
    (ha : slate.action? = none) :
    m.step supply p = .ok (.took .leave { m with shared := m.shared.stepped, height := top }) := by
  simp only [step, hheight, hslate, ha]
  rfl

theorem step_bare (hheight : m.height = top + 1) (hslate : m.slates[top]? = some slate)
    (ha : slate.action? = some action) (hl : action.loops = []) :
    m.step supply p = performThen supply p { m with shared := m.shared.stepped } action slate.input
      top Slate.skip := by
  obtain ⟨shared, slates, height⟩ := m
  subst hheight
  simp only [step, hslate, ha, hl]
  rfl

theorem step_pruned (hheight : m.height = top + 1) (hslate : m.slates[top]? = some slate)
    (ha : slate.action? = some action) (hl : action.loops ≠ [])
    (hd : action.effect.isInvoke ∧ ¬m.shared.Admits m.height)
    (hm : onSlate { m with shared := m.shared.stepped.prune } top Slate.skip = .ok next) :
    m.step supply p = .ok (.took .prune next) := by
  obtain ⟨shared, slates, height⟩ := m
  subst hheight
  have hd' : action.effect.isInvoke ∧ ¬shared.stepped.Admits (top + 1) := hd
  simp only [step, hslate, ha]
  rw [if_neg (by simpa using hl), if_pos hd', hm]
  rfl

theorem step_looped (hheight : m.height = top + 1) (hslate : m.slates[top]? = some slate)
    (ha : slate.action? = some action) (hl : action.loops ≠ [])
    (hd : ¬(action.effect.isInvoke ∧ ¬m.shared.Admits m.height))
    (hpose : slate.poses.getLast? = some pose) :
    m.step supply p = performThen supply p { m with shared := m.shared.stepped } action pose top
      fun pool => Slate.proceed pool action.loops := by
  obtain ⟨shared, slates, height⟩ := m
  subst hheight
  have hd' : ¬(action.effect.isInvoke ∧ ¬shared.stepped.Admits (top + 1)) := hd
  simp only [step, hslate, ha]
  rw [if_neg (by simpa using hl), if_neg hd', hpose]

theorem perform_draw {solid : Primitive} (he : action.effect = .draw solid) :
    m.perform supply p action pose =
      .ok (.ok (.draw ⟨solid, pose⟩, { m with shared := m.shared.drew })) := by
  rw [perform, he]
  rfl

theorem perform_set {setting : Setting} (he : action.effect = .set setting) :
    m.perform supply p action pose =
      .ok (.ok (.change setting, { m with shared := m.shared.change p setting })) := by
  rw [perform, he]
  rfl

theorem perform_prune (he : action.effect = .invoke name) (hd : ¬m.shared.Admits m.height) :
    m.perform supply p action pose = .ok (.ok (.prune, { m with shared := m.shared.prune })) := by
  simp only [perform, he, if_neg hd]
  rfl

theorem perform_enter {i : Nat} {rule : Rule M} {shared : Shared}
    (he : action.effect = .invoke name) (hd : m.shared.Admits m.height)
    (hp : m.shared.choose p name action.line = (.ok (i, rule), shared))
    (hm : push supply { m with shared } rule pose = .ok next) :
    m.perform supply p action pose = .ok (.ok (.enter rule, next)) := by
  simp only [perform, he, if_pos hd, hp, hm]
  rfl

theorem perform_error (he : action.effect = .invoke name) (hd : m.shared.Admits m.height)
    (hp : (m.shared.choose p name action.line).1 = .error diagnostic) :
    m.perform supply p action pose = .ok (.error diagnostic) := by
  rcases hc : m.shared.choose p name action.line with ⟨chosen, shared⟩
  rw [hc] at hp
  subst hp
  simp only [perform, he, if_pos hd, hc]
  rfl

end

end SlateMachine

/-! ## Slates that show a stack -/

theorem exists_append_of_forall₂ {α β : Type} {R : α → β → Prop} {as : List α} {front back : List β}
    (h : List.Forall₂ R as (front ++ back)) :
    ∃ left right, as = left ++ right ∧ List.Forall₂ R left front ∧ List.Forall₂ R right back :=
  ⟨as.take front.length, as.drop front.length, (List.take_append_drop _ _).symm,
    List.forall₂_take_append as front back h, List.forall₂_drop_append as front back h⟩

/-- Only the first slate above those in use is written on. -/
theorem Supply.exists_lay {M : Type} (supply : Supply) (used spare : List (Slate M))
    (rule : Rule M) (input : Pose M) :
    ∃ slate left, supply.lay (used ++ spare) used.length rule input = used ++ slate :: left ∧
      slate.rule = rule ∧ slate.input = input := by
  cases supply with
  | kept =>
    cases spare with
    | nil => exact ⟨.blank rule input, [], by simp [lay], rfl, rfl⟩
    | cons slate spare =>
      exact ⟨{ slate with rule, index := 0, input }, spare, by simp [lay], rfl, rfl⟩
  | fresh => exact ⟨.blank rule input, [], by simp [lay], rfl, rfl⟩

namespace SlateMachine
variable {M : Type}

/-- The frames of a stack can be read from the slates in use, from the bottom up. -/
def Shows (m : SlateMachine M) (stack : List (Frame M)) : Prop :=
  ∃ used spare, m.slates = used ++ spare ∧ m.height = used.length ∧
    List.Forall₂ Slate.Shows used stack.reverse

theorem shows_nil (shared : Shared) (slates : List (Slate M)) : Shows ⟨shared, slates, 0⟩ [] :=
  ⟨[], slates, rfl, rfl, .nil⟩

namespace Shows
variable {m : SlateMachine M} {stack below : List (Frame M)} {frame : Frame M}

theorem height_eq (h : m.Shows stack) : m.height = stack.length := by
  obtain ⟨used, spare, -, hheight, hshows⟩ := h
  rw [hheight, hshows.length_eq, List.length_reverse]

theorem height_le (h : m.Shows stack) : m.height ≤ m.slates.length := by
  obtain ⟨used, spare, hslates, hheight, -⟩ := h
  simp [hslates, hheight]

theorem exists_frame (h : m.Shows stack) :
    ∀ slate ∈ m.slates.take m.height, ∃ frame ∈ stack, slate.Shows frame := by
  obtain ⟨used, spare, hslates, hheight, hshows⟩ := h
  intro slate hslate
  rw [hslates, hheight, List.take_left] at hslate
  obtain ⟨before, after, rfl⟩ := List.append_of_mem hslate
  obtain ⟨left, right, hstack, -, hright⟩ := exists_append_of_forall₂ hshows.flip
  cases hright with
  | cons hframe _ =>
    refine ⟨_, List.mem_reverse.1 ?_, hframe⟩
    rw [hstack]
    exact List.mem_append_right left (.head _)

theorem isDeepest_iff (h : m.Shows stack) :
    (m.shared.machine stack).isDeepest = true ↔ ¬m.shared.Admits m.height := by
  rw [Shared.isDeepest_machine, h.height_eq]

theorem admits (h : m.Shows stack) (hd : (m.shared.machine stack).isDeepest = false) :
    m.shared.Admits m.height := by
  by_contra hn
  exact Bool.false_ne_true (hd.symm.trans (h.isDeepest_iff.2 hn))

/-- A frame with the frames of calls above it is on a slate, and what is shown there can be
exchanged. -/
theorem split (calls : List (Frame M)) (h : m.Shows (calls ++ frame :: below)) :
    ∃ front slate back, m.slates = front ++ slate :: back ∧ front.length = below.length ∧
      slate.Shows frame ∧
      ∀ {next : Slate M} {after : Frame M} (shared : Shared), next.Shows after →
        Shows ⟨shared, front ++ next :: back, m.height⟩ (calls ++ after :: below) := by
  obtain ⟨used, spare, hslates, hheight, hshows⟩ := h
  rw [List.reverse_append, List.reverse_cons, List.append_assoc] at hshows
  obtain ⟨front, rest, rfl, hfront, hrest⟩ := exists_append_of_forall₂ hshows
  cases hrest with
  | @cons slate _ above _ hslate habove =>
    refine ⟨front, slate, above ++ spare, by simpa using hslates, by simpa using hfront.length_eq,
      hslate, ?_⟩
    intro next after shared hnext
    refine ⟨front ++ next :: above, spare, by simp, by simpa using hheight, ?_⟩
    rw [List.reverse_append, List.reverse_cons, List.append_assoc]
    exact List.rel_append hfront (.cons hnext habove)

theorem top (h : m.Shows (frame :: below)) :
    m.height = below.length + 1 ∧
      ∃ slate, m.slates[below.length]? = some slate ∧ slate.Shows frame := by
  obtain ⟨front, slate, back, hslates, hfront, hslate, -⟩ := h.split []
  exact ⟨h.height_eq, slate, by simp [hslates, ← hfront], hslate⟩

theorem pop (h : m.Shows (frame :: below)) (shared : Shared) :
    Shows ⟨shared, m.slates, below.length⟩ below := by
  obtain ⟨used, spare, hslates, -, hshows⟩ := h
  rw [List.reverse_cons] at hshows
  obtain ⟨front, rest, rfl, hfront, -⟩ := exists_append_of_forall₂ hshows
  exact ⟨front, rest ++ spare, by rw [hslates, List.append_assoc],
    by simpa using hfront.length_eq.symm, hfront⟩

theorem onSlate (calls : List (Frame M)) {act : Pool → Slate M → Risk (Slate M)}
    {draw : Draw (Frame M)} (h : m.Shows (calls ++ frame :: below))
    (hact : ∀ slate : Slate M, slate.Shows frame →
      Slate.Follows (act m.shared.settings.pool slate) draw m.shared.streams.color) :
    ∃ next, m.onSlate below.length act = .ok next ∧ next.shared = (m.shared.drawColor draw).2 ∧
      next.Shows (calls ++ (m.shared.drawColor draw).1 :: below) := by
  obtain ⟨front, slate, back, hslates, hfront, hslate, hset⟩ := h.split calls
  obtain ⟨next, hnext, hshows⟩ := hact slate hslate
  rw [← hfront]
  exact ⟨_, onSlate_at hslates hnext, rfl, hset _ hshows⟩

variable [Mul M]

theorem push (h : m.Shows stack) (supply : Supply) (rule : Rule M) (input : Pose M) :
    ∃ next, m.push supply rule input = .ok next ∧
      next.shared = (m.shared.enter (stack.length + 1) rule input).2 ∧
      next.Shows ((m.shared.enter (stack.length + 1) rule input).1 :: stack) := by
  have hstack := h.height_eq
  obtain ⟨used, spare, hslates, hheight, hshows⟩ := h
  obtain ⟨slate, left, hlay, hrule, hinput⟩ := supply.exists_lay used spare rule input
  obtain ⟨next, hnext, hframe⟩ :=
    Slate.follows_enter m.shared.settings.pool hrule hinput 0 m.shared.streams.color
  have hlaid : supply.lay m.slates m.height rule input = used ++ slate :: left := by
    rw [hslates, hheight, hlay]
  refine ⟨⟨(m.shared.enter (stack.length + 1) rule input).2, used ++ next :: left, m.height + 1⟩,
    ?_, rfl, used ++ [next], left, by simp, by simp [hheight], ?_⟩
  · rw [SlateMachine.push, hlaid, Nat.add_sub_cancel, hheight, onSlate_at rfl hnext, ← hheight,
      hstack]
    rfl
  · rw [List.reverse_cons]
    exact List.rel_append hshows (.cons hframe .nil)

theorem push_first (h : m.Shows []) (supply : Supply) (rule : Rule M) (input : Pose M) :
    ∃ next stack, m.push supply rule input = .ok next ∧
      (m.shared.machine []).push rule input = next.shared.machine stack ∧ next.Shows stack := by
  obtain ⟨next, hnext, hshared, hshows⟩ := h.push supply rule input
  exact ⟨next, _, hnext, hshared ▸ rfl, hshows⟩

section
variable {p : Program M} {action : Action M} {name : String}

/-- An action is done in the pose of its frame, and then the slate takes the next turn. -/
theorem step_of_action (h : m.Shows (frame :: below)) (supply : Supply) (p : Program M)
    (hf : frame.Tidy) (ha : frame.action? = some action)
    (hd : action.effect.isInvoke → m.shared.Admits m.height) :
    ∃ move, (∀ pool (slate : Slate M) g, slate.Shows frame →
        Slate.Follows (move pool slate) (frame.proceed pool) g) ∧
      m.step supply p = performThen supply p { m with shared := m.shared.stepped } action frame.pose
        below.length move := by
  obtain ⟨hheight, slate, hslate, hshows⟩ := h.top
  have hloops : frame.dials.map Dial.loop = action.loops :=
    hf.loops.trans (Frame.loopsAt_of_action ha)
  have hstep : slate.action? = some action := hshows.action?.trans ha
  by_cases hdials : frame.dials = []
  · -- whatever stands on the slate about loops is not looked at
    have hpose : slate.input = frame.pose := by simp [Frame.pose, hdials, hshows.input]
    refine ⟨Slate.skip, fun pool slate g h => ?_, ?_⟩
    · rw [Frame.proceed_of_bare hdials]
      exact h.skip g
    · rw [step_bare hheight hslate hstep (by simp [← hloops, hdials]), hpose]
  · have hpose : slate.poses.getLast? = some frame.pose := by
      rw [hshows.poses hdials, List.getLast?_map, Frame.pose, List.getLast?_eq_some_getLast hdials]
      rfl
    exact ⟨fun pool => Slate.proceed pool action.loops,
      fun pool slate g h => h.proceed hf ha g,
      step_looped hheight hslate hstep (by simpa [← hloops] using hdials)
        (fun hn => hn.2 (hd hn.1)) hpose⟩

/-- An effect that puts nothing on the stack. -/
theorem step_in_place (h : m.Shows (frame :: below)) (hf : frame.Tidy)
    (ha : frame.action? = some action) (hd : action.effect.isInvoke → m.shared.Admits m.height)
    {supply : Supply} {deed : Deed M} {shared : Shared}
    (hp : perform supply p { m with shared := m.shared.stepped } action frame.pose =
      .ok (.ok (deed, { m with shared }))) :
    ∃ next, m.step supply p = .ok (.took deed next) ∧
      next.shared = (shared.proceed frame).2 ∧ next.Shows ((shared.proceed frame).1 :: below) := by
  obtain ⟨move, hmove, hstep⟩ := h.step_of_action supply p hf ha hd
  obtain ⟨next, hnext, hshared, hafter⟩ :=
    onSlate (m := { m with shared }) [] h fun slate => hmove _ slate _
  exact ⟨next, hstep.trans (performThen_ok hp hnext), hshared, hafter⟩

/-- With or without loops, an invocation that is too deep is passed over as a whole. -/
theorem step_of_deepest (h : m.Shows (frame :: below)) (supply : Supply) (p : Program M)
    (ha : frame.action? = some action) (he : action.effect = .invoke name)
    (hd : ¬m.shared.Admits m.height) :
    ∃ next, m.step supply p = .ok (.took .prune next) ∧
      next.shared = (m.shared.stepped.prune.skip frame).2 ∧
      next.Shows ((m.shared.stepped.prune.skip frame).1 :: below) := by
  obtain ⟨hheight, slate, hslate, hshows⟩ := h.top
  have hstep : slate.action? = some action := hshows.action?.trans ha
  obtain ⟨next, hnext, hshared, hafter⟩ :=
    onSlate (m := { m with shared := m.shared.stepped.prune }) [] h
      fun slate hslate => hslate.skip m.shared.streams.color
  refine ⟨next, ?_, hshared, hafter⟩
  by_cases hl : action.loops = []
  · rw [step_bare hheight hslate hstep hl]
    exact performThen_ok (perform_prune he hd) hnext
  · exact step_pruned hheight hslate hstep hl ⟨by rw [he]; rfl, hd⟩ hnext

/-- Every move of the stack is made on the slates, and shown there. -/
theorem step_ok (h : m.Shows (frame :: below)) (supply : Supply) (hf : frame.Tidy) {deed : Deed M}
    {after : Machine M}
    (hm : Machine.Move p (m.shared.machine (frame :: below)) frame below deed after) :
    ∃ next stack, m.step supply p = .ok (.took deed next) ∧ after = next.shared.machine stack ∧
      next.Shows stack := by
  cases hm with
  | leave ha =>
    obtain ⟨hheight, slate, hslate, hshows⟩ := h.top
    exact ⟨_, below, step_leave hheight hslate (hshows.action?.trans ha), rfl, h.pop _⟩
  | draw ha he =>
    obtain ⟨next, hnext, hshared, hafter⟩ := h.step_in_place hf ha
      (by rw [he]; exact fun h => nomatch h) (perform_draw he)
    exact ⟨next, _, hnext, hshared ▸ rfl, hafter⟩
  | change ha he =>
    obtain ⟨next, hnext, hshared, hafter⟩ := h.step_in_place hf ha
      (by rw [he]; exact fun h => nomatch h) (perform_set he)
    exact ⟨next, _, hnext, hshared ▸ rfl, hafter⟩
  | prune ha he hd =>
    obtain ⟨next, hnext, hshared, hafter⟩ := h.step_of_deepest supply p ha he (h.isDeepest_iff.1 hd)
    exact ⟨next, _, hnext, hshared ▸ rfl, hafter⟩
  | @enter action name i rule chosen ha he hd hp =>
    have hadmits := h.admits hd
    obtain ⟨move, hmove, hstep⟩ := h.step_of_action supply p hf ha fun _ => hadmits
    rcases hc : m.shared.stepped.choose p name action.line with ⟨picked, shared⟩
    have hchosen : (picked, shared.machine (frame :: below)) = (.ok (i, rule), chosen) := by
      rw [← hp]
      exact congrArg (fun drawn => (drawn.1, drawn.2.machine (frame :: below))) hc.symm
    cases hchosen
    -- the slate of the callee comes above, and the caller moves on below it
    obtain ⟨called, hcall, hshared, hcalled⟩ :=
      push (m := { m with shared }) h supply rule frame.pose
    obtain ⟨next, hnext, hdrawn, hafter⟩ := onSlate [_] hcalled fun slate => hmove _ slate _
    rw [Shared.call_machine]
    refine ⟨next, _, hstep.trans (performThen_ok (perform_enter he hadmits hc hcall) hnext), ?_,
      hafter⟩
    rw [hdrawn, hshared]
    rfl

theorem step_error (h : m.Shows (frame :: below)) (supply : Supply) (hf : frame.Tidy)
    {diagnostic : Diagnostic}
    (hm : (m.shared.machine (frame :: below)).step p frame below = .error diagnostic) :
    m.step supply p = .ok (.failed diagnostic) := by
  obtain ⟨action, name, ha, he, hd, hp⟩ := Machine.step_eq_error_iff.1 hm
  have hadmits := h.admits hd
  obtain ⟨move, -, hstep⟩ := h.step_of_action supply p hf ha fun _ => hadmits
  exact hstep.trans (performThen_error (perform_error he hadmits hp))

end

end Shows

end SlateMachine

end SceneGrammar

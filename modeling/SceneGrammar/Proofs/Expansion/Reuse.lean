import SceneGrammar.Proofs.Expansion.SlateMachine

/-!
# Slates used again

The machine on slates goes where the machine with a stack goes, so its run ends without a lapse and
with the same events, counts and failure, whether slates are used again or not. Every machine it can
come to has a sound slate for each frame of the stack, and no step from there finds anything
missing: what an earlier rule has left on a slate is written over before it is looked at.
-/

namespace SceneGrammar

/-- From some number of moves on, this is the result. -/
def Settles {α : Type} (run : Nat → α) (result : α) : Prop :=
  ∃ enough, ∀ moves, enough ≤ moves → run moves = result

namespace Settles
variable {ρ α β : Type}

theorem of_const {run : Nat → α} {result : α} (h : ∀ moves, run moves = result) :
    Settles run result := ⟨0, fun moves _ => h moves⟩

theorem of_succ {run rest : Nat → α} {result : α} (h : Settles rest result)
    (hrun : ∀ moves, run (moves + 1) = rest moves) : Settles run result := by
  obtain ⟨enough, hrest⟩ := h
  refine ⟨enough + 1, fun moves hmoves => ?_⟩
  obtain ⟨more, rfl⟩ := Nat.exists_eq_add_of_le' hmoves
  exact (hrun (more + enough)).trans (hrest _ (Nat.le_add_left _ _))

theorem bind_pure {run : Nat → ExceptT ρ Option α} {go : Nat → α → ExceptT ρ Option β} {a : α}
    {result : ExceptT ρ Option β} (h : Settles run (pure a))
    (hgo : Settles (fun moves => go moves a) result) :
    Settles (fun moves => run moves >>= go moves) result := by
  obtain ⟨enough, hrun⟩ := h
  obtain ⟨later, hresult⟩ := hgo
  refine ⟨max enough later, fun moves hmoves => ?_⟩
  change run moves >>= go moves = result
  rw [hrun moves (by omega), pure_bind]
  exact hresult moves (by omega)

theorem bind_throw {run : Nat → ExceptT ρ Option α} {go : Nat → α → ExceptT ρ Option β} {e : ρ}
    (h : Settles run (throw e)) : Settles (fun moves => run moves >>= go moves) (throw e) := by
  obtain ⟨enough, hrun⟩ := h
  refine ⟨enough, fun moves hmoves => ?_⟩
  change run moves >>= go moves = throw e
  rw [hrun moves hmoves]
  rfl

end Settles

namespace SlateMachine
variable {M σ ε : Type}

theorem observer_eq_tell (scene : Scene M σ ε) (m : Machine M) (deed : Deed M) :
    scene.observer m deed = tell scene deed := by
  cases deed <;> rfl

/-- Without a lapse, and like a run with a stack that is left empty. -/
inductive Ends : ExceptT (Stop σ ε) Option (SlateMachine M × σ) →
    EStateM.Result (BuildError ε) σ (Machine M) → Prop
  | ok {m : SlateMachine M} {s : σ} (h : m.Shows []) :
      Ends (pure (m, s)) (.ok (m.shared.machine []) s)
  | error {failure : BuildError ε} {s : σ} :
      Ends (throw (.failed failure s)) (.error failure s)

variable [Mul M] {p : Program M} {m next : SlateMachine M} {supply : Supply} {scene : Scene M σ ε}
  {s s' : σ}

theorem drainFor_of_empty (hm : m.height = 0) (moves : Nat) :
    drainFor supply p scene (moves + 1) m s = pure (m, s) := by
  rw [drainFor, if_pos hm]

theorem drainFor_of_spent (hm : m.height ≠ 0) (hb : m.shared.isSpent = true) (moves : Nat) :
    drainFor supply p scene (moves + 1) m s = pure ({ m with height := 0 }, s) := by
  rw [drainFor, if_neg hm, if_pos hb]

theorem drainFor_of_tick (hm : m.height ≠ 0) (hb : m.shared.isSpent = false)
    (ht : m.tick supply p scene s = .ok (next, s')) (moves : Nat) :
    drainFor supply p scene (moves + 1) m s = drainFor supply p scene moves next s' := by
  rw [drainFor, if_neg hm, if_neg (Bool.eq_false_iff.1 hb), ht]
  rfl

theorem drainFor_of_stop {stop : Stop σ ε} (hm : m.height ≠ 0) (hb : m.shared.isSpent = false)
    (ht : m.tick supply p scene s = .error stop) (moves : Nat) :
    drainFor supply p scene (moves + 1) m s = throw stop := by
  rw [drainFor, if_neg hm, if_neg (Bool.eq_false_iff.1 hb), ht]
  rfl

variable [One M]

theorem Shows.exists_drain {stack : List (Frame M)} (h : m.Shows stack) (supply : Supply)
    (scene : Scene M σ ε) (hr : Machine.Reachable p (m.shared.machine stack)) (s : σ) :
    ∃ ended, Ends ended ((Machine.drain p scene.observer (m.shared.machine stack)).run s) ∧
      Settles (fun moves => drainFor supply p scene moves m s) ended := by
  generalize hm : m.shared.machine stack = machine at hr
  induction machine using Machine.step_induction p generalizing m stack s with
  | step machine ih =>
    subst hm
    have hheight := h.height_eq
    cases stack with
    | nil =>
      rw [Machine.drain_of_nil rfl]
      exact ⟨_, .ok h, .of_succ (.of_const fun _ => rfl) (drainFor_of_empty hheight)⟩
    | cons frame below =>
      have hpos : m.height ≠ 0 := by rw [hheight]; exact Nat.succ_ne_zero _
      cases hb : m.shared.isSpent with
      | true =>
        have hb' : (m.shared.machine (frame :: below)).isSpent = true := hb
        rw [Machine.drain_of_spent rfl hb']
        exact ⟨_, .ok (m := { m with height := 0 }) (shows_nil m.shared m.slates),
          .of_succ (.of_const fun _ => rfl) (drainFor_of_spent hpos hb)⟩
      | false =>
        have hb' : (m.shared.machine (frame :: below)).isSpent = false := hb
        have hf : frame.Tidy := hr.forall_frames (Frame.invariant_tidy p) _ (.head _)
        cases hstep : (m.shared.machine (frame :: below)).step p frame below with
        | error diagnostic =>
          have ht : m.tick supply p scene s = .error (.failed (.rule diagnostic) s) := by
            rw [tick, h.step_error supply hf hstep]
          rw [Machine.drain_of_error rfl hb' hstep]
          exact ⟨_, .error, .of_succ (.of_const fun _ => rfl) (drainFor_of_stop hpos hb ht)⟩
        | ok moved =>
          obtain ⟨deed, after⟩ := moved
          obtain ⟨next, stack, hnext, rfl, hshows⟩ :=
            h.step_ok supply hf (Machine.step_eq_ok_iff.1 hstep)
          rw [Machine.drain_of_step rfl hb' hstep, run_adaptExcept_bind, observer_eq_tell]
          cases htell : (tell scene deed).run s with
          | ok _ s' =>
            have ht : m.tick supply p scene s = .ok (next, s') := by
              simp only [tick, hnext, htell]
            obtain ⟨ended, hends, hended⟩ := ih rfl hstep hshows s' rfl (hr.step rfl hstep)
            exact ⟨ended, hends, hended.of_succ (drainFor_of_tick hpos hb ht)⟩
          | error failure s' =>
            have ht : m.tick supply p scene s = .error (.failed (.scene failure) s') := by
              simp only [tick, hnext, htell]
            exact ⟨_, .error, .of_succ (.of_const fun _ => rfl) (drainFor_of_stop hpos hb ht)⟩

theorem Shows.exists_drainAll (h : m.Shows []) (supply : Supply) (scene : Scene M σ ε)
    (hr : Machine.Reachable p (m.shared.machine [])) {rules : List (Rule M)}
    (hrules : ∀ rule ∈ rules, rule ∈ p.initial) (s : σ) :
    ∃ ended, Ends ended ((Machine.drainAll p scene.observer (m.shared.machine []) rules).run s) ∧
      Settles (fun moves => drainAllFor supply p scene moves rules m s) ended := by
  induction rules generalizing m s with
  | nil => exact ⟨_, .ok h, .of_const fun _ => rfl⟩
  | cons rule rules ih =>
    rw [List.forall_mem_cons] at hrules
    rw [Machine.drainAll, Shared.isSpent_machine]
    split
    · next hb => exact ⟨_, .ok h, .of_const fun _ => if_pos hb⟩
    · next hb =>
      obtain ⟨entered, stack, hpush, hmachine, hshows⟩ := h.push_first supply rule ⟨1, .pureRed⟩
      have hentered := hr.push rfl hrules.1
      rw [hmachine] at hentered
      obtain ⟨ended, hends, hended⟩ := hshows.exists_drain supply scene hentered s
      have hall : (fun moves => drainAllFor supply p scene moves (rule :: rules) m s) =
          fun moves => drainFor supply p scene moves entered s >>= fun ended =>
            drainAllFor supply p scene moves rules ended.1 ended.2 := by
        funext moves
        rw [drainAllFor, if_neg hb, hpush]
        rfl
      rw [hall, hmachine, EStateM.run_bind]
      generalize hrun : (Machine.drain p scene.observer (entered.shared.machine stack)).run s = run
        at hends
      cases hends with
      | ok hdone =>
        obtain ⟨last, hlast, hrest⟩ := ih hdone (hentered.of_drain hrun).1 hrules.2 _
        exact ⟨last, hlast, hended.bind_pure hrest⟩
      | error => exact ⟨_, .error, hended.bind_throw⟩

theorem expandFor_settles (supply : Supply) (p : Program M) (streams : Streams)
    (scene : Scene M σ ε) (s : σ) :
    Settles (fun moves => expandFor supply moves p streams scene s)
      (some (Stop.outcome ((p.expandFrom streams scene).run s))) := by
  simp only [expandFor]
  rw [Program.expandFrom, run_adaptExcept_bind, EStateM.run_bind]
  cases (scene (.background p.settings.background)).run s with
  | error failure s => exact .of_const fun _ => rfl
  | ok _ s =>
    dsimp only
    rw [run_adaptExcept_bind]
    cases (scene (.camera p.settings.camera)).run s with
    | error failure s => exact .of_const fun _ => rfl
    | ok _ s =>
      obtain ⟨ended, hends, hended⟩ : ∃ ended,
          Ends ended ((Machine.drainAll p scene.observer (.start p streams) p.initial).run s) ∧
            Settles (fun moves => drainAllFor supply p scene moves p.initial (.start p streams) s)
              ended :=
        (shows_nil (.start p streams) []).exists_drainAll supply scene (.start streams)
          (fun _ h => h) s
      dsimp only
      rw [EStateM.run_bind]
      generalize (Machine.drainAll p scene.observer (.start p streams) p.initial).run s = run
        at hends
      cases hends with
      | ok => exact hended.bind_pure (.of_const fun _ => rfl)
      | error => exact hended.bind_throw

/-! ## Machines a run can come to -/

/-- The slates show a stack that can be reached. -/
def Stands (p : Program M) (m : SlateMachine M) : Prop :=
  ∃ stack, Machine.Reachable p (m.shared.machine stack) ∧ m.Shows stack

theorem Stands.push (h : m.Stands p) (hm : m.height = 0) (supply : Supply) {rule : Rule M}
    (hr : rule ∈ p.initial) :
    ∃ next, m.push supply rule ⟨1, .pureRed⟩ = .ok next ∧ next.Stands p := by
  obtain ⟨stack, hreach, hshows⟩ := h
  obtain rfl : stack = [] := List.length_eq_zero_iff.1 (hshows.height_eq ▸ hm)
  obtain ⟨next, stack, hpush, hmachine, hafter⟩ := hshows.push_first supply rule ⟨1, .pureRed⟩
  exact ⟨next, hpush, stack, hmachine ▸ hreach.push rfl hr, hafter⟩

theorem Stands.step (h : m.Stands p) (hm : 0 < m.height) (supply : Supply) :
    (∃ diagnostic, m.step supply p = .ok (.failed diagnostic)) ∨
      ∃ deed next, m.step supply p = .ok (.took deed next) ∧ next.Stands p := by
  obtain ⟨stack, hreach, hshows⟩ := h
  cases stack with
  | nil => exact absurd hshows.height_eq (Nat.ne_of_gt hm)
  | cons frame below =>
    have hf : frame.Tidy := hreach.forall_frames (Frame.invariant_tidy p) _ (.head _)
    cases hstep : (m.shared.machine (frame :: below)).step p frame below with
    | error diagnostic => exact .inl ⟨diagnostic, hshows.step_error supply hf hstep⟩
    | ok moved =>
      obtain ⟨deed, after⟩ := moved
      obtain ⟨next, stack, hnext, rfl, hafter⟩ :=
        hshows.step_ok supply hf (Machine.step_eq_ok_iff.1 hstep)
      exact .inr ⟨deed, next, hnext, stack, hreach.step rfl hstep, hafter⟩

/-- What a run can come to, whatever the streams are and whenever the budget is spent. -/
inductive Reachable (supply : Supply) (p : Program M) : SlateMachine M → Prop
  | start (streams : Streams) : Reachable supply p (.start p streams)
  | push {m next : SlateMachine M} {rule : Rule M} (h : Reachable supply p m) (hm : m.height = 0)
      (hr : rule ∈ p.initial) (hp : m.push supply rule ⟨1, .pureRed⟩ = .ok next) :
      Reachable supply p next
  | step {m next : SlateMachine M} {deed : Deed M} (h : Reachable supply p m)
      (hm : m.step supply p = .ok (.took deed next)) : Reachable supply p next
  | pass {m next : SlateMachine M} (h : Reachable supply p m)
      (hm : m.step supply p = .ok (.passed next)) : Reachable supply p next
  | spend {m : SlateMachine M} (h : Reachable supply p m) (hb : m.shared.isSpent = true) :
      Reachable supply p { m with height := 0 }

theorem Reachable.stands {supply : Supply} (h : Reachable supply p m) : m.Stands p := by
  induction h with
  | start streams => exact ⟨[], .start streams, shows_nil _ _⟩
  | push _ hm hr hp ih =>
    obtain ⟨next, hpush, hnext⟩ := ih.push hm supply hr
    cases hp.symm.trans hpush
    exact hnext
  | step _ hm ih =>
    obtain ⟨_, hfailed⟩ | ⟨_, next, htook, hnext⟩ := ih.step (height_pos_of_step hm) supply
    · cases hm.symm.trans hfailed
    · cases hm.symm.trans htook
      exact hnext
  | pass _ hm ih =>
    obtain ⟨_, hfailed⟩ | ⟨_, _, htook, -⟩ := ih.step (height_pos_of_step hm) supply
    · cases hm.symm.trans hfailed
    · cases hm.symm.trans htook
  | spend _ hb ih =>
    obtain ⟨stack, hreach, hshows⟩ := ih
    exact ⟨[], hreach.spend hb, shows_nil _ _⟩

end SlateMachine

/-! ## What can be relied on -/

structure Slate.Sound {M : Type} (p : Program M) (s : Slate M) : Prop where
  rule_mem : s.rule ∈ p.rules
  index_le : s.index ≤ s.rule.actions.length
  poses {action : Action M} (ha : s.action? = some action) (hl : action.loops ≠ []) :
    s.poses.length = action.loops.length
  counts {action : Action M} (ha : s.action? = some action) (hl : action.loops ≠ []) :
    List.Forall₂ (fun count loop => count.toNat < max 1 loop.repetitions.toNat) s.counts
      action.loops

theorem Slate.Shows.sound {M : Type} {p : Program M} {s : Slate M} {f : Frame M} (h : s.Shows f)
    (hr : f.rule ∈ p.rules) (hf : f.Tidy) : s.Sound p := by
  have hdials {action : Action M} (ha : s.action? = some action) (hl : action.loops ≠ []) :
      f.dials ≠ [] ∧ f.dials.map Dial.loop = action.loops := by
    have hloops := hf.loops.trans (Frame.loopsAt_of_action (h.action?.symm.trans ha))
    refine ⟨fun hn => hl ?_, hloops⟩
    rw [← hloops, hn, List.map_nil]
  refine ⟨h.rule ▸ hr, ?_, fun ha hl => ?_, fun ha hl => ?_⟩
  · rw [h.index, h.rule]
    exact hf.index_le
  · obtain ⟨hne, hloops⟩ := hdials ha hl
    rw [h.poses hne, ← hloops, List.length_map, List.length_map]
  · obtain ⟨hne, hloops⟩ := hdials ha hl
    rw [h.counts hne, ← hloops, List.forall₂_map_left_iff, List.forall₂_map_right_iff,
      List.forall₂_same]
    intro dial hdial
    rw [(hf.inRange dial hdial).toNat_digit]
    exact hf.inRange dial hdial

namespace SlateMachine
variable {M : Type}

structure Sound (p : Program M) (m : SlateMachine M) : Prop where
  height_le : m.height ≤ m.slates.length
  slates : ∀ slate ∈ m.slates.take m.height, slate.Sound p

variable [Mul M] [One M]

theorem Stands.sound {p : Program M} {m : SlateMachine M} (h : m.Stands p) : m.Sound p := by
  obtain ⟨stack, hreach, hshows⟩ := h
  refine ⟨hshows.height_le, fun slate hslate => ?_⟩
  obtain ⟨frame, hframe, hslate⟩ := hshows.exists_frame slate hslate
  exact hslate.sound (hreach.forall_frames (Frame.invariant_rule_mem p) frame hframe)
    (hreach.forall_frames (Frame.invariant_tidy p) frame hframe)

/-- What an earlier rule has left on a slate is never read: slates in use are sound, nothing is
missing, and a run ends like one with a stack, whether slates are used again or not. -/
theorem leftovers_never_read (p : Program M) :
    (∀ (supply : Supply) (m : SlateMachine M), Reachable supply p m →
      m.Sound p ∧
      (0 < m.height → ∃ turn, m.step supply p = .ok turn ∧ ∀ next, turn ≠ .passed next) ∧
      (m.height = 0 → ∀ rule ∈ p.initial, ∃ next, m.push supply rule ⟨1, .pureRed⟩ = .ok next)) ∧
    ∀ {σ ε : Type} (supply : Supply) (streams : Streams) (scene : Scene M σ ε) (s : σ),
      Settles (fun moves => expandFor supply moves p streams scene s)
        (some (Stop.outcome ((p.expandFrom streams scene).run s))) := by
  refine ⟨fun supply m hreach => ⟨hreach.stands.sound, fun hm => ?_, fun hm rule hr => ?_⟩,
    fun supply => expandFor_settles supply p⟩
  · obtain ⟨diagnostic, hfailed⟩ | ⟨deed, next, htook, -⟩ := hreach.stands.step hm supply
    · exact ⟨_, hfailed, fun _ h => nomatch h⟩
    · exact ⟨_, htook, fun _ h => nomatch h⟩
  · obtain ⟨next, hnext, -⟩ := hreach.stands.push hm supply hr
    exact ⟨next, hnext⟩

end SlateMachine

/-- Two loops, one of them never to be repeated, and then nothing to be repeated at all. -/
def Program.rowThenDot : Program Matrix where
  settings := .initial
  initial := [
    ⟨none, none, [
      ⟨[⟨0, .ofOperations [.move .y 1]⟩, ⟨2, .ofOperations [.move .x 1]⟩], .draw .box, 1⟩]⟩,
    ⟨none, none, [⟨[], .draw .sphere, 2⟩]⟩]
  groups := []

namespace SlateMachine

/-- The dot is drawn from the slate of the row, on which the counts of two loops still stand. -/
theorem leftovers_never_read_rowThenDot :
    ∃ row dot, Reachable .kept Program.rowThenDot row ∧ row.height = 0 ∧
      (∃ next, ∃ rule ∈ Program.rowThenDot.initial,
        row.push .kept rule ⟨1, .pureRed⟩ = .ok next) ∧
      Reachable .kept Program.rowThenDot dot ∧ dot.height = 1 ∧
      (dot.slates.map fun slate => slate.action?.map fun action => action.loops.length) = [some 0] ∧
      (dot.slates.map fun slate => slate.counts.length) = [2] ∧
      dot.Sound Program.rowThenDot ∧
      ∃ turn, dot.step .kept Program.rowThenDot = .ok turn ∧ ∀ next, turn ≠ .passed next := by
  have entered : Reachable .kept Program.rowThenDot _ :=
    .push (.start (.ofSeed 0)) rfl (.head _) rfl
  have row := ((entered.step rfl).step rfl).step rfl
  have dot := row.push rfl (.tail _ (.head _)) rfl
  obtain ⟨-, -, hpush⟩ := (leftovers_never_read Program.rowThenDot).1 .kept _ row
  obtain ⟨next, hnext⟩ := hpush rfl _ (.tail _ (.head _))
  obtain ⟨hsound, hstep, -⟩ := (leftovers_never_read Program.rowThenDot).1 .kept _ dot
  exact ⟨_, _, row, rfl, ⟨next, _, .tail _ (.head _), hnext⟩, dot, rfl, rfl, rfl, hsound,
    hstep Nat.one_pos⟩

end SlateMachine

end SceneGrammar

import SceneGrammar.Build
import SceneGrammar.Proofs.Expansion.Reachable

/-!
# Compiled programs do not fail

A program is closed if all its rules invoke only names with variants. Validation accepts just the
closed programs, normalized weights and options keep them closed, and a reachable machine of a closed
program can always take a step. So a build of a compiled program fails only where its scene does.
-/

namespace SceneGrammar

theorem Rule.mem_invoked {M : Type} {r : Rule M} {action : Action M} {name : String}
    (ha : action ∈ r.actions) (he : action.effect = .invoke name) : name ∈ r.invoked := by
  simp only [invoked, List.mem_filterMap]
  exact ⟨action, ha, by simp [he]⟩

namespace Program
variable {M : Type}

def Closed (p : Program M) : Prop :=
  ∀ rule ∈ p.rules, ∀ name ∈ rule.invoked, p.Defines name = true

theorem dangling_eq_nil_iff {p : Program M} {rules : List (Rule M)} :
    p.dangling rules = [] ↔ ∀ rule ∈ rules, ∀ name ∈ rule.invoked, p.Defines name = true := by
  simp only [dangling, List.filter_eq_nil_iff, List.mem_flatMap, Bool.not_eq_true,
    Bool.not_eq_false', forall_exists_index, and_imp]
  exact ⟨fun h rule hr name hn => h name rule hr hn, fun h name rule hr hn => h rule hr name hn⟩

theorem validate_eq_nil_iff {p : Program M} : p.validate = [] ↔ p.Closed := by
  have hsort : (p.dangling p.variants).mergeSort (fun a b => decide (a ≤ b)) = [] ↔
      p.dangling p.variants = [] := by
    rw [← List.length_eq_zero_iff, List.length_mergeSort, List.length_eq_zero_iff]
  rw [validate, List.map_eq_nil_iff, List.append_eq_nil_iff, hsort, dangling_eq_nil_iff,
    dangling_eq_nil_iff]
  simp only [Closed, rules, List.mem_append, or_imp, forall_and]

theorem variants_normalize (p : Program M) : p.normalize.variants = p.variants := by
  simp only [variants, normalize, List.flatMap_map, Roulette.items_normalize]

theorem group?_normalize (p : Program M) (name : String) :
    p.normalize.group? name = (p.group? name).map Roulette.normalize := by
  simp only [group?, normalize]
  induction p.groups with
  | nil => rfl
  | cons entry groups ih =>
    obtain ⟨other, group⟩ := entry
    simp only [List.map_cons, List.lookup_cons]
    cases name == other with
    | false => exact ih
    | true => rfl

theorem defines_normalize (p : Program M) (name : String) :
    p.normalize.Defines name = p.Defines name := by
  simp only [Defines, group?_normalize, Option.any_map]
  congr 1
  funext group
  exact congrArg (!·) group.isEmpty_normalize

theorem closed_normalize {p : Program M} : p.normalize.Closed ↔ p.Closed := by
  simp only [Closed, rules, variants_normalize, defines_normalize]
  exact Iff.rfl

theorem closed_apply {p : Program M} (options : Options) :
    (options.apply p).Closed ↔ p.Closed := Iff.rfl

theorem closed_of_compile {source : String} {p : Program Matrix} (h : compile source = .ok p) :
    p.Closed := by
  unfold compile ParsedSource.compile at h
  split at h
  · rename_i hf
    cases h
    rw [List.isEmpty_iff, ParsedSource.faults, List.append_eq_nil_iff] at hf
    cases hs : (parseSource source).failure with
    | some e => rw [hs] at hf; cases hf.2
    | none =>
      rw [hs] at hf
      exact closed_normalize.2 (validate_eq_nil_iff.1 hf.2)
  · cases h

end Program

def Scene.NeverFails {M σ ε : Type} (scene : Scene M σ ε) : Prop :=
  ∀ event s, ∃ s', (scene event).run s = .ok () s'

theorem Scene.neverFails_recorder {M ε : Type} :
    (Scene.recorder : Scene M (Array (Event M)) ε).NeverFails := by
  intro event events
  exact ⟨events.push event, rfl⟩

theorem Scene.NeverFails.observer {M σ ε : Type} {scene : Scene M σ ε} (h : scene.NeverFails)
    (m : Machine M) (deed : Deed M) (s : σ) :
    ∃ s', (scene.observer m deed).run s = .ok () s' := by
  cases deed with
  | draw drawing => exact h _ s
  | _ => exact ⟨s, rfl⟩

namespace Machine
variable {M σ ε : Type} [Mul M] [One M] {p : Program M} {m : Machine M}

/-- The invocation that the machine has come to finds a variant. -/
theorem Reachable.step_ok (h : Reachable p m) (hc : p.Closed) {frame : Frame M}
    {below : List (Frame M)} (hs : m.stack = frame :: below) :
    ∃ deed after, m.step p frame below = .ok (deed, after) := by
  cases hm : m.step p frame below with
  | ok next => exact ⟨next.1, next.2, rfl⟩
  | error diagnostic =>
    exfalso
    obtain ⟨action, name, ha, he, hd, hp⟩ := step_eq_error_iff.1 hm
    have hn : name ∈ frame.rule.invoked := Rule.mem_invoked (List.mem_of_getElem? ha) he
    have hdef := hc _ (h.rule_mem hs) name hn
    obtain ⟨i, rule, hv, hrun⟩ := Program.run_pick_of_defines hdef (some action.line) Draw.unit
      m.stepped.streams.geometry
    change ((p.pick name (some action.line) Draw.unit).run m.stepped.streams.geometry).1 = _ at hp
    rw [hrun] at hp
    cases hp

theorem Reachable.drain_ok {scene : Scene M σ ε} (h : Reachable p m) (hc : p.Closed)
    (hn : scene.NeverFails) (s : σ) :
    ∃ after s', (drain p scene.observer m).run s = .ok after s' := by
  induction m using step_induction p generalizing s with
  | step m ih =>
    cases hs : m.stack with
    | nil =>
      rw [drain_of_nil hs]
      exact ⟨m, s, rfl⟩
    | cons frame below =>
      cases hb : m.isSpent with
      | true =>
        rw [drain_of_spent hs hb]
        exact ⟨_, s, rfl⟩
      | false =>
        obtain ⟨deed, after, hm⟩ := h.step_ok hc hs
        obtain ⟨s', htell⟩ := hn.observer m deed s
        rw [drain_of_step hs hb hm, run_adaptExcept_bind, htell]
        exact ih hs hm (h.step hs hm) s'

theorem Reachable.drainAll_ok {scene : Scene M σ ε} (h : Reachable p m) (hs : m.stack = [])
    (hc : p.Closed) (hn : scene.NeverFails) {rules : List (Rule M)}
    (hr : ∀ rule ∈ rules, rule ∈ p.initial) (s : σ) :
    ∃ after s', (drainAll p scene.observer m rules).run s = .ok after s' := by
  induction rules generalizing m s with
  | nil => exact ⟨m, s, rfl⟩
  | cons rule rules ih =>
    rw [List.forall_mem_cons] at hr
    rw [drainAll]
    split
    · exact ⟨m, s, rfl⟩
    · obtain ⟨after, s', hd⟩ := (h.push hs hr.1).drain_ok hc hn s
      obtain ⟨ha, he⟩ := (h.push hs hr.1).of_drain hd
      rw [EStateM.run_bind, hd]
      exact ih ha he hr.2 s'

end Machine

theorem Program.Closed.expandFrom_ok {M σ ε : Type} [Mul M] [One M] {p : Program M}
    {scene : Scene M σ ε} (hc : p.Closed) (hn : scene.NeverFails) (streams : Streams) (s : σ) :
    ∃ stats s', (p.expandFrom streams scene).run s = .ok stats s' := by
  obtain ⟨s₁, h₁⟩ := hn (.background p.settings.background) s
  obtain ⟨s₂, h₂⟩ := hn (.camera p.settings.camera) s₁
  obtain ⟨m, s₃, h₃⟩ := (Machine.Reachable.start streams).drainAll_ok rfl hc hn
    (fun _ h => h) s₂
  rw [expandFrom, run_adaptExcept_bind, h₁]
  dsimp only
  rw [run_adaptExcept_bind, h₂]
  dsimp only
  rw [EStateM.run_bind, h₃]
  exact ⟨_, _, rfl⟩

/-- Whatever the options, the streams and the scene: nothing is missing at run time. -/
theorem build_ok {σ ε : Type} {source : String} {p : Program Matrix}
    (hc : compile source = .ok p) (options : Options) {scene : Scene Matrix σ ε}
    (hn : scene.NeverFails) (s : σ) :
    (∃ stats s', (build source options scene).run s = .ok stats s') ∧
      ∀ {m : Machine Matrix} {frame : Frame Matrix} {below : List (Frame Matrix)},
        Machine.Reachable (options.apply p) m → m.stack = frame :: below →
          ∃ deed after, m.step (options.apply p) frame below = .ok (deed, after) := by
  have hclosed : (options.apply p).Closed :=
    (Program.closed_apply options).2 (Program.closed_of_compile hc)
  constructor
  · simp only [build, compileWith, hc]
    exact hclosed.expandFrom_ok hn _ s
  · intro m frame below hr hs
    exact hr.step_ok hclosed hs

/-- Two variants of different weights, one of which goes on until the depth is spent. -/
def towers : String :=
  "2 * \x7b x 3 \x7d tower\n" ++ "rule tower w 3 \x7b box \x7b z 1 \x7d tower \x7d\n" ++
    "rule tower \x7b sphere \x7d"

theorem towers_compiles : (compile towers).toOption.isSome = true := by decide +kernel

theorem build_ok_towers :
    ∃ p, compile towers = .ok p ∧
      (Scene.recorder : Scene Matrix (Array (Event Matrix)) Empty).NeverFails ∧
      (∃ stats events, (build towers ⟨some 5, some 40⟩ (Scene.recorder (ε := Empty))).run #[] =
        .ok stats events) ∧
      ∀ {m : Machine Matrix} {frame : Frame Matrix} {below : List (Frame Matrix)},
        Machine.Reachable (Options.apply ⟨some 5, some 40⟩ p) m → m.stack = frame :: below →
          ∃ deed after, m.step (Options.apply ⟨some 5, some 40⟩ p) frame below =
            .ok (deed, after) := by
  have hsome := towers_compiles
  cases hc : compile towers with
  | error diagnostics => rw [hc] at hsome; cases hsome
  | ok p => exact ⟨p, rfl, Scene.neverFails_recorder, build_ok hc _ Scene.neverFails_recorder #[]⟩

end SceneGrammar

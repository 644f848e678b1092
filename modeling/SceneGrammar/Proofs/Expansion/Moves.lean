import SceneGrammar.Expansion.Run

/-!
# The moves of the expansion machine

A machine with a frame on top either leaves it, draws, changes a setting, prunes an invocation or
enters a variant; the only way to fail is an invocation that nothing answers to. Whatever holds of a
frame at its first action and is kept by taking the next turn holds of every frame of the stack.
-/

namespace SceneGrammar

attribute [ext] Streams Machine

namespace Program
variable {M : Type}

def rules (p : Program M) : List (Rule M) := p.initial ++ p.variants

theorem mem_groups_of_group {p : Program M} {name : String} {group : Variants M}
    (hg : p.group? name = some group) : (name, group) ∈ p.groups := by
  rw [group?, List.lookup_eq_some_iff] at hg
  obtain ⟨before, after, he, -⟩ := hg
  rw [he]
  exact List.mem_append_right before List.mem_cons_self

theorem mem_variants_of_group {p : Program M} {name : String} {group : Variants M} {rule : Rule M}
    (hg : p.group? name = some group) (hr : rule ∈ group.items) : rule ∈ p.variants :=
  List.mem_flatMap.2 ⟨(name, group), mem_groups_of_group hg, hr⟩

theorem run_pick (p : Program M) (name : String) (line : Option Nat) (draw : Draw Float)
    (g : Generator) :
    (p.pick name line draw).run g =
      match p.group? name with
      | none => (.error (.unknownRule name line), g)
      | some group =>
        match (group.spin draw).run g with
        | (none, g) => (.error (.unknownRule name line), g)
        | (some i, g) =>
          match group.items[i]? with
          | none => (.error (.unknownRule name line), g)
          | some rule => (.ok (i, rule), g) := by
  unfold pick
  cases p.group? name with
  | none => rfl
  | some group =>
    simp only [StateT.run_bind]
    rcases (group.spin draw).run g with ⟨_ | i, g'⟩
    · rfl
    · dsimp only
      change StateT.run (match group.items[i]? with | none => _ | some rule => _) g' = _
      cases group.items[i]? <;> rfl

theorem run_pick_of_not_defines {p : Program M} {name : String} (h : p.Defines name = false)
    (line : Option Nat) (draw : Draw Float) (g : Generator) :
    (p.pick name line draw).run g = (.error (.unknownRule name line), g) := by
  rw [run_pick]
  cases hg : p.group? name with
  | none => rfl
  | some group =>
    have he : group.isEmpty = true := by simpa [Defines, hg] using h
    simp only [Roulette.spin, he, if_true]
    rfl

theorem run_pick_of_defines {p : Program M} {name : String} (h : p.Defines name = true)
    (line : Option Nat) (draw : Draw Float) (g : Generator) :
    ∃ i rule, rule ∈ p.variants ∧
      (p.pick name line draw).run g = (.ok (i, rule), (draw.run g).2) := by
  cases hg : p.group? name with
  | none => simp [Defines, hg] at h
  | some group =>
    have he : group.isEmpty = false := by simpa [Defines, hg] using h
    obtain ⟨i, hi⟩ : ∃ i, group.pick (draw.run g).1 = some i :=
      Option.ne_none_iff_exists'.1 fun hn => by simp [Roulette.pick_eq_none_iff.1 hn] at he
    have hlt : i < group.items.length := by
      simpa [Roulette.items, Roulette.size] using Roulette.pick_lt_size hi
    refine ⟨i, group.items[i], mem_variants_of_group hg (List.getElem_mem hlt), ?_⟩
    have hspin : (group.spin draw).run g = (some i, (draw.run g).2) := by
      simp only [Roulette.spin, he, Bool.false_eq_true, if_false, StateT.run_map]
      exact Prod.ext hi rfl
    rw [run_pick, hg]
    simp only [hspin, List.getElem?_eq_getElem hlt]

theorem mem_variants_of_pick {p : Program M} {name : String} {line : Option Nat}
    {draw : Draw Float} {g : Generator} {i : Nat} {rule : Rule M}
    (h : ((p.pick name line draw).run g).1 = .ok (i, rule)) : rule ∈ p.variants := by
  cases hd : p.Defines name with
  | false => rw [run_pick_of_not_defines hd] at h; cases h
  | true =>
    obtain ⟨j, found, hv, he⟩ := run_pick_of_defines hd line draw g
    rw [he] at h
    cases h
    exact hv

end Program

section
variable {α β σ ε : Type} {s s' : σ}

theorem exists_ok_of_bind {x : EStateM ε σ α} {go : α → EStateM ε σ β} {b : β}
    (h : (x >>= go).run s = .ok b s') :
    ∃ a s₁, x.run s = .ok a s₁ ∧ (go a).run s₁ = .ok b s' := by
  rw [EStateM.run_bind] at h
  cases hx : x.run s with
  | error e s₁ => rw [hx] at h; cases h
  | ok a s₁ =>
    rw [hx] at h
    exact ⟨a, s₁, rfl, h⟩

theorem run_adaptExcept_bind (tell : EStateM ε σ Unit)
    (go : Unit → EStateM (BuildError ε) σ α) (s : σ) :
    (EStateM.adaptExcept .scene tell >>= go).run s =
      match tell.run s with
      | .ok _ s' => (go ()).run s'
      | .error failure s' => .error (.scene failure) s' := by
  change EStateM.bind (EStateM.adaptExcept _ tell) go s = _
  unfold EStateM.bind EStateM.adaptExcept EStateM.run
  cases tell s <;> rfl

end

namespace Machine
variable {M : Type}

def stepped (m : Machine M) : Machine M := m.tally fun s => { s with steps := s.steps + 1 }
def drew (m : Machine M) : Machine M := m.tally fun s => { s with objects := s.objects + 1 }
def pruned (m : Machine M) : Machine M := m.tally fun s => { s with pruned := s.pruned + 1 }

variable [Mul M]

inductive Move (p : Program M) (m : Machine M) (frame : Frame M) (below : List (Frame M)) :
    Deed M → Machine M → Prop
  | leave (ha : frame.action? = none) :
      Move p m frame below .leave (m.stepped.withStack below)
  | draw {action : Action M} {solid : Primitive} (ha : frame.action? = some action)
      (he : action.effect = .draw solid) :
      Move p m frame below (.draw ⟨solid, frame.pose⟩) (m.stepped.drew.proceed frame below)
  | change {action : Action M} {setting : Setting} (ha : frame.action? = some action)
      (he : action.effect = .set setting) :
      Move p m frame below (.change setting) ((m.stepped.change p setting).proceed frame below)
  | prune {action : Action M} {name : String} (ha : frame.action? = some action)
      (he : action.effect = .invoke name) (hd : m.isDeepest = true) :
      Move p m frame below .prune (m.stepped.pruned.skip frame below)
  | enter {action : Action M} {name : String} {i : Nat} {rule : Rule M} {chosen : Machine M}
      (ha : frame.action? = some action) (he : action.effect = .invoke name)
      (hd : m.isDeepest = false)
      (hp : m.stepped.drawGeometry (p.pick name (some action.line) Draw.unit) =
        (.ok (i, rule), chosen)) :
      Move p m frame below (.enter rule) (chosen.call rule frame below)

theorem step_of_action {p : Program M} {m : Machine M} {frame : Frame M} {below : List (Frame M)}
    {action : Action M} (ha : frame.action? = some action) :
    m.step p frame below =
      match action.effect with
      | .draw solid => .ok (.draw ⟨solid, frame.pose⟩, m.stepped.drew.proceed frame below)
      | .set setting => .ok (.change setting, (m.stepped.change p setting).proceed frame below)
      | .invoke name => m.stepped.invoke p name action.line frame below := by
  unfold step
  simp only [ha]
  rfl

theorem Move.step_eq {p : Program M} {m after : Machine M} {frame : Frame M}
    {below : List (Frame M)} {deed : Deed M} (h : Move p m frame below deed after) :
    m.step p frame below = .ok (deed, after) := by
  cases h with
  | leave ha => simp only [step, ha]; rfl
  | draw ha he => simp only [step_of_action ha, he]
  | change ha he => simp only [step_of_action ha, he]
  | prune ha he hd =>
    have hd' : m.stepped.isDeepest = true := hd
    simp only [step_of_action ha, he, invoke, hd', if_true]
    rfl
  | enter ha he hd hp =>
    have hd' : m.stepped.isDeepest = false := hd
    simp only [step_of_action ha, he, invoke, hd', hp]
    rfl

theorem step_eq_ok_iff {p : Program M} {m after : Machine M} {frame : Frame M}
    {below : List (Frame M)} {deed : Deed M} :
    m.step p frame below = .ok (deed, after) ↔ Move p m frame below deed after := by
  refine ⟨fun h => ?_, Move.step_eq⟩
  cases ha : frame.action? with
  | none =>
    simp only [step, ha] at h
    cases h
    exact .leave ha
  | some action =>
    rw [step_of_action ha] at h
    cases he : action.effect with
    | draw solid =>
      simp only [he] at h
      cases h
      exact .draw ha he
    | set setting =>
      simp only [he] at h
      cases h
      exact .change ha he
    | invoke name =>
      simp only [he, invoke] at h
      split at h
      · rename_i hd
        cases h
        exact .prune ha he hd
      · rename_i hd
        split at h
        · cases h
        · rename_i hp
          cases h
          exact .enter ha he (Bool.eq_false_iff.2 hd) hp

theorem Move.steps_eq {p : Program M} {m after : Machine M} {frame : Frame M}
    {below : List (Frame M)} {deed : Deed M} (h : Move p m frame below deed after) :
    after.stats.steps = m.stats.steps + 1 := by
  cases h with
  | enter ha he hd hp =>
    obtain rfl := congrArg Prod.snd hp
    rfl
  | _ => rfl

/-- Nothing but an invocation fails, and only where a rule might be entered. -/
theorem step_eq_error_iff {p : Program M} {m : Machine M} {frame : Frame M}
    {below : List (Frame M)} {diagnostic : Diagnostic} :
    m.step p frame below = .error diagnostic ↔
      ∃ action name, frame.action? = some action ∧ action.effect = .invoke name ∧
        m.isDeepest = false ∧
        (m.stepped.drawGeometry (p.pick name (some action.line) Draw.unit)).1 =
          .error diagnostic := by
  constructor
  · intro h
    cases ha : frame.action? with
    | none => simp only [step, ha] at h; cases h
    | some action =>
      rw [step_of_action ha] at h
      cases he : action.effect with
      | draw solid => simp only [he] at h; cases h
      | set setting => simp only [he] at h; cases h
      | invoke name =>
        refine ⟨action, name, rfl, he, ?_⟩
        simp only [he, invoke] at h
        split at h
        · cases h
        · rename_i hd
          split at h
          · rename_i hp
            cases h
            exact ⟨Bool.eq_false_iff.2 hd, congrArg Prod.fst hp⟩
          · cases h
  · rintro ⟨action, name, ha, he, hd, hp⟩
    have hd' : m.stepped.isDeepest = false := hd
    rcases hg : m.stepped.drawGeometry (p.pick name (some action.line) Draw.unit) with
      ⟨chosen, after⟩
    rw [hg] at hp
    subst hp
    simp only [step_of_action ha, he, invoke, hd', hg]
    rfl

section
variable {M σ ε : Type} [Mul M] {p : Program M} {observe : Observer M σ ε} {m after : Machine M}
  {frame : Frame M} {below : List (Frame M)} {deed : Deed M}

theorem drain_of_stack (hs : m.stack = frame :: below) :
    drain p observe m =
      if m.isSpent then pure (m.withStack [])
      else
        match m.step p frame below with
        | .error diagnostic => throw (.rule diagnostic)
        | .ok (deed, next) =>
          (observe m deed).adaptExcept .scene >>= fun _ => drain p observe next := by
  rw [drain]
  split
  · rename_i hn
    rw [hs] at hn
    cases hn
  · rename_i frame' below' hc
    rw [hs] at hc
    cases hc
    split
    · rfl
    · split
      · rename_i he
        simp only [he]
      · rename_i he
        simp only [he]

theorem drain_of_nil (hs : m.stack = []) : drain p observe m = pure m := by
  rw [drain]
  split
  · rfl
  · rename_i hc
    rw [hs] at hc
    cases hc

theorem drain_of_spent (hs : m.stack = frame :: below) (hb : m.isSpent = true) :
    drain p observe m = pure (m.withStack []) := by
  rw [drain_of_stack hs, if_pos hb]

theorem drain_of_step (hs : m.stack = frame :: below) (hb : m.isSpent = false)
    (hm : m.step p frame below = .ok (deed, after)) :
    drain p observe m =
      (observe m deed).adaptExcept .scene >>= fun _ => drain p observe after := by
  rw [drain_of_stack hs, hb, hm]
  rfl

theorem drain_of_error {diagnostic : Diagnostic} (hs : m.stack = frame :: below)
    (hb : m.isSpent = false) (hm : m.step p frame below = .error diagnostic) :
    drain p observe m = throw (.rule diagnostic) := by
  rw [drain_of_stack hs, hb, hm]
  rfl

theorem step_induction (p : Program M) {P : Machine M → Prop}
    (step : ∀ m, (∀ {frame below deed after}, m.stack = frame :: below →
      m.step p frame below = .ok (deed, after) → P after) → P m) (m : Machine M) : P m :=
  (InvImage.wf turnsLeft (Descends.wellFounded heightLimit)).induction m
    fun m ih => step m fun hs hm => ih _ (step_descends hs hm)

/-- What holds where a run stands still, and is handed back over every move, holds of a whole run
that ends well. -/
theorem drain_induction {R : Machine M → Machine M → Prop} (nil : ∀ {m}, m.stack = [] → R m m)
    (spent : ∀ {m}, m.isSpent = true → R m (m.withStack []))
    (step : ∀ {m next after frame below deed}, m.stack = frame :: below → m.isSpent = false →
      Move p m frame below deed next → R next after → R m after)
    {s s' : σ} (hrun : (drain p observe m).run s = .ok after s') :
    R m after := by
  induction m using step_induction p generalizing s with
  | step m ih =>
    cases hs : m.stack with
    | nil =>
      rw [drain_of_nil hs] at hrun
      cases hrun
      exact nil hs
    | cons frame below =>
      cases hb : m.isSpent with
      | true =>
        rw [drain_of_spent hs hb] at hrun
        cases hrun
        exact spent hb
      | false =>
        cases hm : m.step p frame below with
        | error diagnostic =>
          rw [drain_of_error hs hb hm] at hrun
          cases hrun
        | ok moved =>
          rw [drain_of_step hs hb hm] at hrun
          obtain ⟨-, s₁, -, hrest⟩ := exists_ok_of_bind hrun
          exact step hs hb (step_eq_ok_iff.1 hm) (ih hs hm hrest)

end

end Machine

end SceneGrammar

import SceneGrammar.Proofs.Expansion.Colorless

/-!
# Colours and choices

Two programs that differ in their colours only draw the same solids in the same places. The other
way round, where there is never more than one variant to choose, a machine is in lockstep with
itself on another stream of choices, and even the colours agree.
-/

namespace SceneGrammar

namespace Roulette
variable {κ α : Type} [Scalar κ]

theorem pick_of_size_one {wheel : Roulette κ α} (h : wheel.size = 1) (u : κ) :
    wheel.pick u = some 0 := by
  cases hp : wheel.pick u with
  | none =>
    have hempty := pick_eq_none_iff.1 hp
    rw [isEmpty, List.isEmpty_iff] at hempty
    rw [size, hempty] at h
    cases h
  | some i =>
    have hlt := pick_lt_size hp
    have hi : i = 0 := by omega
    rw [hi]

theorem spin_of_size_one {m : Type → Type} [Monad m] {wheel : Roulette κ α} (h : wheel.size = 1)
    (draw : m κ) : wheel.spin draw = (fun _ => some 0) <$> draw := by
  have hempty : wheel.isEmpty = false := by
    rw [isEmpty, List.isEmpty_eq_false_iff, ← List.length_pos_iff]
    exact Nat.lt_of_lt_of_eq Nat.one_pos h.symm
  have hpick : wheel.pick = fun _ => some 0 := funext (pick_of_size_one h)
  rw [spin, hempty, hpick]
  rfl

end Roulette

namespace Program
variable {M : Type}

/-- Is there never more than one variant to choose? -/
def Decided (p : Program M) : Prop := ∀ entry ∈ p.groups, entry.2.size = 1

instance (p : Program M) : Decidable p.Decided :=
  inferInstanceAs (Decidable (∀ entry ∈ p.groups, entry.2.size = 1))

theorem Decided.pick_eq {p : Program M} (h : p.Decided) (name : String) (line : Option Nat)
    (draw : Draw Float) (g g' : Generator) :
    ((p.pick name line draw).run g').1 = ((p.pick name line draw).run g).1 := by
  rw [run_pick, run_pick]
  cases hg : p.group? name with
  | none => rfl
  | some group =>
    have hone : group.size = 1 := h (name, group) (mem_groups_of_group hg)
    have hrun (g : Generator) : (group.spin draw).run g = (some 0, (draw.run g).2) := by
      rw [Roulette.spin_of_size_one hone]
      rfl
    simp only [hrun]
    cases group.items[0]? <;> rfl

end Program

namespace Machine
variable {M : Type}

/-- The same machine with other choices before it. -/
def withGeometry (m : Machine M) (geometry : Generator) : Machine M :=
  ⟨m.settings, ⟨geometry, m.streams.color⟩, m.stack, m.stats⟩

theorem exists_change_withGeometry (p : Program M) (m : Machine M) (setting : Setting)
    (geometry : Generator) :
    ∃ geometry', (m.withGeometry geometry).change p setting =
      (m.change p setting).withGeometry geometry' := by
  have hcolor : ((m.withGeometry geometry).change p setting).streams.color =
      (m.change p setting).streams.color := by
    cases setting <;> rfl
  exact ⟨((m.withGeometry geometry).change p setting).streams.geometry,
    Machine.ext rfl (Streams.ext rfl hcolor) rfl rfl⟩

theorem exists_pick_withGeometry {p : Program M} (hd : p.Decided) (m : Machine M) (name : String)
    (line : Option Nat) (geometry : Generator) :
    ∃ geometry', (m.withGeometry geometry).drawGeometry (p.pick name line Draw.unit) =
      let (choice, m) := m.drawGeometry (p.pick name line Draw.unit)
      (choice, m.withGeometry geometry') := by
  have hpick := hd.pick_eq name line Draw.unit m.streams.geometry geometry
  exact ⟨((p.pick name line Draw.unit).run geometry).2, congrArg (·, _) hpick⟩

variable [Mul M]

theorem Move.withGeometry {p : Program M} (hd : p.Decided) {m next : Machine M} {frame : Frame M}
    {below : List (Frame M)} {deed : Deed M} (h : Move p m frame below deed next)
    (geometry : Generator) :
    ∃ geometry', Move p (m.withGeometry geometry) frame below deed
      (next.withGeometry geometry') := by
  cases h with
  | leave ha => exact ⟨geometry, .leave ha⟩
  | draw ha he => exact ⟨geometry, .draw ha he⟩
  | @change action setting ha he =>
    obtain ⟨geometry', hchange⟩ := exists_change_withGeometry p m.stepped setting geometry
    have hproceed : ((m.stepped.change p setting).proceed frame below).withGeometry geometry' =
        ((m.stepped.change p setting).withGeometry geometry').proceed frame below := rfl
    refine ⟨geometry', ?_⟩
    rw [hproceed, ← hchange]
    exact .change ha he
  | prune ha he hd => exact ⟨geometry, .prune ha he hd⟩
  | @enter action name i rule chosen ha he hdeep hp =>
    obtain ⟨geometry', hchosen⟩ :=
      exists_pick_withGeometry hd m.stepped name (some action.line) geometry
    rw [hp] at hchosen
    refine ⟨geometry', ?_⟩
    exact Move.enter (m := m.withGeometry geometry) ha he hdeep hchosen

theorem step_withGeometry_of_error {p : Program M} (hd : p.Decided) {m : Machine M}
    {frame : Frame M} {below : List (Frame M)} {diagnostic : Diagnostic}
    (h : m.step p frame below = .error diagnostic) (geometry : Generator) :
    (m.withGeometry geometry).step p frame below = .error diagnostic := by
  obtain ⟨action, name, ha, he, hdeep, hp⟩ := step_eq_error_iff.1 h
  obtain ⟨geometry', hchosen⟩ :=
    exists_pick_withGeometry hd m.stepped name (some action.line) geometry
  exact step_eq_error_iff.2 ⟨action, name, ha, he, hdeep, (congrArg Prod.fst hchosen).trans hp⟩

variable [One M]

theorem lockstep_withGeometry {p : Program M} (hd : p.Decided) :
    Lockstep p p id id fun m n => ∃ geometry, n = m.withGeometry geometry where
  stats := by
    rintro m _ ⟨geometry, rfl⟩
    rfl
  isSpent := by
    rintro m _ ⟨geometry, rfl⟩
    rfl
  drop := by
    rintro m _ ⟨geometry, rfl⟩
    exact ⟨geometry, rfl⟩
  idle := by
    rintro m _ ⟨geometry, rfl⟩ hs
    exact hs
  push := by
    rintro m _ ⟨geometry, rfl⟩ rule
    exact ⟨geometry, rfl⟩
  fail := by
    rintro m _ frame below diagnostic ⟨geometry, rfl⟩ hs hm
    exact ⟨frame, below, hs, step_withGeometry_of_error hd hm geometry⟩
  move := by
    rintro m _ next frame below deed ⟨geometry, rfl⟩ hs hm
    obtain ⟨geometry', hmove⟩ := hm.withGeometry hd geometry
    exact ⟨frame, below, deed, next.withGeometry geometry', hs, hmove, (List.map_id _).symm,
      geometry', rfl⟩

end Machine

namespace Program
variable {M : Type} [Mul M] [One M]

theorem Decided.delivery_eq {p : Program M} (hd : p.Decided) (streams : Streams)
    (geometry : Generator) : p.delivery ⟨geometry, streams.color⟩ = p.delivery streams := by
  have hstart : ∃ geometry', Machine.start p ⟨geometry, streams.color⟩ =
      (Machine.start p streams).withGeometry geometry' := ⟨geometry, rfl⟩
  obtain ⟨drawings, result, hall, hother⟩ :=
    (Machine.lockstep_withGeometry hd).delivery hstart (List.map_id _).symm
  rw [hall, hother, List.map_id]

/-- The colours have no say in what is drawn and where, nor the choice of a sole variant in the
colours. -/
theorem colors_apart_from_choices :
    (∀ {p q : Program M} {streams streams' : Streams}, p.bleach = q.bleach →
      streams.geometry = streams'.geometry →
      (p.delivery streams).events.filterMap Event.placed? =
          (q.delivery streams').events.filterMap Event.placed? ∧
        (p.delivery streams).result = (q.delivery streams').result) ∧
    (∀ {p : Program M}, p.Decided → ∀ (streams : Streams) (geometry : Generator),
      p.delivery ⟨geometry, streams.color⟩ = p.delivery streams) ∧
    ∀ (p : Program M) (streams : Streams) {σ ε : Type} {scene : Scene M σ ε}, scene.NeverFails →
      ∀ s, ∃ s', scene.Accepts s (p.delivery streams).events s' ∧
        (p.expandFrom streams scene).run s =
          (Delivery.finish (p.delivery streams).result).run s' := by
  refine ⟨?_, Decided.delivery_eq, ?_⟩
  · intro p q streams streams' hpq hgeometry
    obtain ⟨hplaced, hresult⟩ := p.delivery_bleach streams streams.color
    obtain ⟨hplaced', hresult'⟩ := q.delivery_bleach streams' streams.color
    rw [← hplaced, ← hplaced', ← hresult, ← hresult', hpq, hgeometry]
    exact ⟨rfl, rfl⟩
  · intro p streams σ ε scene hn s
    rw [expandFrom_eq_give]
    exact hn.run_give (p.delivery streams) s

/-- The staircase before another background, in random greys. -/
def greyStaircase : Program Matrix where
  settings := { Settings.initial with background := .pureRed, pool := .greyscale }
  initial := [⟨none, none, [⟨[⟨2, .ofOperations [.move .y 1, .random]⟩], .invoke "step", 1⟩]⟩]
  groups := [("step", Roulette.empty.add 1 ⟨some "step", none, [
    ⟨[], .set (.maxDepth 6), 2⟩,
    ⟨[⟨2, .ofOperations [.move .x 1, .random]⟩, ⟨3, .ofOperations [.alpha 2]⟩], .draw .box, 3⟩,
    ⟨[⟨2, .ofOperations [.move .z 1]⟩], .invoke "step", 4⟩]⟩)]

theorem colors_apart_from_choices_staircase :
    staircase.bleach = greyStaircase.bleach ∧
      staircase.settings.background ≠ greyStaircase.settings.background ∧
      ((staircase.delivery ⟨.ofSeed 7, .ofSeed 8⟩).events.filterMap Event.placed? =
          (greyStaircase.delivery ⟨.ofSeed 7, .ofSeed 9⟩).events.filterMap Event.placed? ∧
        (staircase.delivery ⟨.ofSeed 7, .ofSeed 8⟩).result =
          (greyStaircase.delivery ⟨.ofSeed 7, .ofSeed 9⟩).result) ∧
      greyStaircase.delivery ⟨.ofSeed 6, .ofSeed 9⟩ =
        greyStaircase.delivery ⟨.ofSeed 7, .ofSeed 9⟩ := by
  have hbleach : staircase.bleach = greyStaircase.bleach := rfl
  have hdecided : greyStaircase.Decided := by decide
  obtain ⟨hsame, hdelivery, -⟩ := colors_apart_from_choices (M := Matrix)
  refine ⟨hbleach, by decide, hsame hbleach rfl, ?_⟩
  exact hdelivery hdecided ⟨.ofSeed 7, .ofSeed 9⟩ (.ofSeed 6)

end Program

end SceneGrammar

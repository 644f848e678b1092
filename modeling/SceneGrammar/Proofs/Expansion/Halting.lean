import SceneGrammar.Proofs.Expansion.Reachable

/-!
# Every expansion halts

The depths a program may set bound the height of the stack, its loops bound the turns of a frame.
Charging every turn of a frame with all the steps of the rule it may enter gives a workload that each
step takes something from, so that one bound, read off the program, holds for all streams and scenes,
and so does one for the steps of an expansion from its first rule to its last.
-/

namespace SceneGrammar

namespace Rule
variable {M : Type}

def turns (r : Rule M) : Nat := Odometer.turnsOf r.actions

def depths (r : Rule M) : List Nat :=
  r.actions.filterMap fun action =>
    match action.effect with
    | .set (.maxDepth depth) => some depth.toNat
    | _ => none

theorem mem_depths {r : Rule M} {action : Action M} {depth : UInt32} (ha : action ∈ r.actions)
    (he : action.effect = .set (.maxDepth depth)) : depth.toNat ∈ r.depths := by
  simp only [depths, List.mem_filterMap]
  exact ⟨action, ha, by simp [he]⟩

end Rule

theorem le_foldr_max {n : Nat} {ns : List Nat} (h : n ∈ ns) : n ≤ ns.foldr max 0 := by
  induction ns with
  | nil => cases h
  | cons k ns ih =>
    simp only [List.foldr_cons]
    rcases List.mem_cons.1 h with rfl | h
    · omega
    · have := ih h
      omega

namespace Program
variable {M : Type}

def mostTurns (p : Program M) : Nat := (p.rules.map Rule.turns).foldr max 0

/-- The greatest depth that may ever be in effect. -/
def greatestDepth (p : Program M) : Nat :=
  (p.settings.maxDepth.toNat :: p.rules.flatMap Rule.depths).foldr max 0

/-- An anonymous rule is entered whatever the depth is. -/
def greatestHeight (p : Program M) : Nat := max 1 (p.greatestDepth - 1)

theorem turns_le_mostTurns {p : Program M} {rule : Rule M} (h : rule ∈ p.rules) :
    rule.turns ≤ p.mostTurns :=
  le_foldr_max (List.mem_map_of_mem h)

theorem depth_le_greatestDepth {p : Program M} {rule : Rule M} {action : Action M}
    {depth : UInt32} (hr : rule ∈ p.rules) (ha : action ∈ rule.actions)
    (he : action.effect = .set (.maxDepth depth)) : depth.toNat ≤ p.greatestDepth :=
  le_foldr_max (.tail _ (List.mem_flatMap.2 ⟨rule, hr, Rule.mem_depths ha he⟩))

end Program

/-- The steps of a rule with so many turns, where so many levels are left, its own included. -/
def workload (turns : Nat) : Nat → Nat
  | 0 => 0
  | levels + 1 => turns * (1 + workload turns levels) + 1

/-- The steps of a stack that may grow to `height`, given the turns left in its frames. -/
def stackload (turns height : Nat) : List Nat → Nat
  | [] => 0
  | left :: below =>
    left * (1 + workload turns (height - (below.length + 1))) + 1 + stackload turns height below

section
variable {turns height fewer left callee : Nat} {below : List Nat}

theorem stackload_leave : stackload turns height below < stackload turns height (left :: below) := by
  simp only [stackload]
  omega

theorem stackload_take (h : fewer < left) :
    stackload turns height (fewer :: below) < stackload turns height (left :: below) := by
  have hw : 0 < 1 + workload turns (height - (below.length + 1)) := by omega
  have := Nat.mul_lt_mul_of_pos_right h hw
  simp only [stackload]
  omega

theorem stackload_call (h : fewer < left) (hc : callee ≤ turns)
    (room : below.length + 1 < height) :
    stackload turns height (callee :: fewer :: below) <
      stackload turns height (left :: below) := by
  obtain ⟨levels, hl⟩ : ∃ levels, height - (below.length + 1) = levels + 1 :=
    ⟨height - (below.length + 2), by omega⟩
  have hl' : height - (below.length + 1 + 1) = levels := by omega
  have hcallee : callee * (1 + workload turns levels) ≤ turns * (1 + workload turns levels) :=
    Nat.mul_le_mul_right _ hc
  have hcaller : (fewer + 1) * (1 + workload turns (levels + 1)) ≤
      left * (1 + workload turns (levels + 1)) := Nat.mul_le_mul_right _ h
  have hw : workload turns (levels + 1) = turns * (1 + workload turns levels) + 1 := rfl
  rw [Nat.add_mul, Nat.one_mul] at hcaller
  simp only [stackload, List.length_cons, hl, hl']
  omega

theorem stackload_single (h : left ≤ turns) (hh : 1 ≤ height) :
    stackload turns height [left] ≤ workload turns height := by
  obtain ⟨levels, rfl⟩ : ∃ levels, height = levels + 1 := ⟨height - 1, by omega⟩
  have := Nat.mul_le_mul_right (1 + workload turns levels) h
  simp only [stackload, workload, List.length_nil, Nat.zero_add, Nat.add_sub_cancel]
  omega

end

namespace Frame
variable {M : Type} [Mul M]

theorem invariant_turnsLeft_le (p : Program M) :
    Invariant p fun f => f.turnsLeft ≤ p.mostTurns where
  enter {rule} hr pool input g := by
    rw [turnsLeft_enter]
    exact Program.turns_le_mostTurns hr
  skip {f} ha hf pool g := by
    have := turnsLeft_skip_lt pool ha g
    omega
  proceed {f} ha hf pool g := by
    have := turnsLeft_proceed_lt pool ha g
    omega

end Frame

namespace Machine
variable {M σ ε : Type} [Mul M]

/-- At most so many steps, unless the stack is empty before. -/
def stepTimes (p : Program M) (observe : Observer M σ ε) :
    Nat → Machine M → EStateM (BuildError ε) σ (Machine M)
  | 0, m => pure m
  | n + 1, m =>
    match m.stack with
    | [] => pure m
    | frame :: below =>
      match m.step p frame below with
      | .error diagnostic => throw (.rule diagnostic)
      | .ok (deed, next) => do
        (observe m deed).adaptExcept .scene
        stepTimes p observe n next

def load (p : Program M) (m : Machine M) : Nat :=
  stackload p.mostTurns p.greatestHeight m.turnsLeft

variable [One M]

theorem Reachable.maxDepth_le {p : Program M} {m : Machine M} (h : Reachable p m) :
    m.settings.maxDepth.toNat ≤ p.greatestDepth := by
  induction h with
  | start streams => exact le_foldr_max (.head _)
  | push h hs hr ih => exact ih
  | spend h hb ih => exact ih
  | @step m after frame below deed h hs hm ih =>
    rcases (step_eq_ok_iff.1 hm).settings_eq with he | ⟨action, setting, ha, he, hset⟩
    · exact he ▸ ih
    · rw [hset]
      cases setting with
      | maxDepth depth =>
        exact Program.depth_le_greatestDepth (h.rule_mem hs) (List.mem_of_getElem? ha) he
      | _ => exact ih

theorem Reachable.lt_greatestHeight {p : Program M} {m : Machine M} (h : Reachable p m)
    (hd : m.isDeepest = false) : m.stack.length < p.greatestHeight := by
  have hm := h.maxDepth_le
  simp only [isDeepest, decide_eq_false_iff_not] at hd
  rw [Program.greatestHeight]
  omega

theorem Reachable.load_lt {p : Program M} {m after : Machine M} {frame : Frame M}
    {below : List (Frame M)} {deed : Deed M} (h : Reachable p m) (hs : m.stack = frame :: below)
    (hm : Move p m frame below deed after) : after.load p < m.load p := by
  have ht : m.turnsLeft = frame.turnsLeft :: below.map Frame.turnsLeft := by
    simp [turnsLeft, hs]
  rw [load, load, ht]
  cases hm with
  | leave ha => exact stackload_leave
  | draw ha he =>
    obtain ⟨fewer, hlt, hf⟩ := turnsLeft_proceed m.stepped.drew frame below (by simp [ha])
    exact hf ▸ stackload_take hlt
  | @change action setting ha he =>
    obtain ⟨fewer, hlt, hf⟩ :=
      turnsLeft_proceed (m.stepped.change p setting) frame below (by simp [ha])
    exact hf ▸ stackload_take hlt
  | prune ha he hd =>
    obtain ⟨fewer, hlt, hf⟩ := turnsLeft_skip m.stepped.pruned frame below (by simp [ha])
    exact hf ▸ stackload_take hlt
  | @enter action name i rule chosen ha he hd hp =>
    obtain ⟨fewer, hlt, hf⟩ :=
      turnsLeft_proceed (chosen.begin rule frame.pose).2 frame below (by simp [ha])
    have hr : rule ∈ p.rules :=
      List.mem_append_right _ (Program.mem_variants_of_pick (congrArg Prod.fst hp))
    have hc := (Frame.invariant_turnsLeft_le p).enter hr chosen.settings.pool frame.pose
      chosen.streams.color
    have hcall : (chosen.call rule frame below).turnsLeft =
        (chosen.begin rule frame.pose).1.turnsLeft :: fewer :: below.map Frame.turnsLeft :=
      congrArg (_ :: ·) hf
    have room := h.lt_greatestHeight hd
    rw [hs] at room
    exact hcall ▸ stackload_call hlt hc (by simpa using room)

theorem Reachable.load_le {p : Program M} {m : Machine M} (h : Reachable p m) :
    m.load p ≤ workload p.mostTurns p.greatestHeight := by
  induction h with
  | start streams => exact Nat.zero_le _
  | spend h hb ih => exact Nat.zero_le _
  | @push m rule h hs hr ih =>
    have hc := (Frame.invariant_turnsLeft_le p).enter (List.mem_append_left _ hr)
      m.settings.pool ⟨1, .pureRed⟩ m.streams.color
    have ht : (m.push rule ⟨1, .pureRed⟩).turnsLeft =
        [((Frame.enter m.settings.pool rule ⟨1, .pureRed⟩ 0).run m.streams.color).1.turnsLeft] := by
      change _ :: m.stack.map _ = _
      rw [hs]
      rfl
    rw [load, ht]
    exact stackload_single hc (Nat.le_max_left 1 _)
  | step h hs hm ih =>
    have := h.load_lt hs (step_eq_ok_iff.1 hm)
    omega

inductive Settled : EStateM.Result (BuildError ε) σ (Machine M) → Prop
  | empty {m : Machine M} (s : σ) (hs : m.stack = []) : Settled (.ok m s)
  | failed (e : BuildError ε) (s : σ) : Settled (.error e s)

theorem Reachable.settled_of_load_le {p : Program M} (observe : Observer M σ ε) {n : Nat}
    {m : Machine M} (h : Reachable p m) (hn : m.load p ≤ n) (s : σ) :
    Settled ((m.stepTimes p observe n).run s) := by
  induction n generalizing m s with
  | zero =>
    refine .empty s ?_
    cases hs : m.stack with
    | nil => rfl
    | cons frame below =>
      simp only [load, turnsLeft, hs, List.map_cons, stackload] at hn
      omega
  | succ n ih =>
    rw [stepTimes]
    split
    · rename_i hs
      exact .empty s hs
    · rename_i frame below hs
      split
      · exact .failed _ s
      · rename_i deed next hm
        have hlt := h.load_lt hs (step_eq_ok_iff.1 hm)
        have hnext := ih (h.step hs hm) (by omega)
        rw [run_adaptExcept_bind]
        cases (observe m deed).run s with
        | ok _ s' => exact hnext s'
        | error failure s' => exact .failed _ s'

theorem Reachable.steps_drain_le {p : Program M} {observe : Observer M σ ε} {m after : Machine M}
    {s s' : σ} (h : Reachable p m) (hrun : (drain p observe m).run s = .ok after s') :
    after.stats.steps ≤ m.stats.steps + m.load p := by
  refine drain_induction
    (R := fun m after => Reachable p m → after.stats.steps ≤ m.stats.steps + m.load p)
    ?_ ?_ ?_ hrun h
  · intro m _ _
    omega
  · intro m _ _
    exact Nat.le_add_right _ _
  · intro m next after frame below deed hs _ hm ih h
    have hload := h.load_lt hs hm
    have hsteps := hm.steps_eq
    have := ih (h.step hs hm.step_eq)
    omega

theorem Reachable.steps_drainAll_le {p : Program M} {observe : Observer M σ ε}
    {rules : List (Rule M)} (hr : ∀ rule ∈ rules, rule ∈ p.initial) {m after : Machine M} {s s' : σ}
    (h : Reachable p m) (hs : m.stack = [])
    (hrun : (drainAll p observe m rules).run s = .ok after s') :
    after.stats.steps ≤
      m.stats.steps + rules.length * workload p.mostTurns p.greatestHeight := by
  induction rules generalizing m s with
  | nil =>
    cases hrun
    omega
  | cons rule rules ih =>
    rw [List.forall_mem_cons] at hr
    rw [drainAll] at hrun
    split at hrun
    · cases hrun
      exact Nat.le_add_right _ _
    · have hpush := h.push hs hr.1
      obtain ⟨drained, s₁, hd, hrest⟩ := exists_ok_of_bind hrun
      obtain ⟨hreach, hempty⟩ := hpush.of_drain hd
      have hdrain := hpush.steps_drain_le hd
      have hload := hpush.load_le
      have hlater := ih hr.2 hreach hempty hrest
      have hsteps : (m.push rule ⟨1, .pureRed⟩).stats.steps = m.stats.steps := rfl
      rw [List.length_cons, Nat.add_mul, Nat.one_mul]
      omega

theorem steps_expandFrom_le {p : Program M} {streams : Streams} {scene : Scene M σ ε}
    {stats : Stats} {s s' : σ} (hrun : (p.expandFrom streams scene).run s = .ok stats s') :
    stats.steps ≤ p.initial.length * workload p.mostTurns p.greatestHeight := by
  obtain ⟨-, s₁, -, hcamera⟩ := exists_ok_of_bind hrun
  obtain ⟨-, s₂, -, hrules⟩ := exists_ok_of_bind hcamera
  obtain ⟨m, s₃, hall, hstats⟩ := exists_ok_of_bind hrules
  have hle := (Reachable.start streams).steps_drainAll_le (fun _ h => h) rfl hall
  have hzero : (start p streams).stats.steps = 0 := rfl
  cases hstats
  omega

/-- Whatever is drawn or delivered, so many steps are enough, and no budget is needed. -/
theorem stepTimes_settled {p : Program M} {m : Machine M} (h : Reachable p m)
    (observe : Observer M σ ε) (s : σ) :
    Settled ((m.stepTimes p observe (workload p.mostTurns p.greatestHeight)).run s) :=
  h.settled_of_load_le observe h.load_le s

theorem stepTimes_settled_staircase :
    ∃ m : Machine Matrix, Reachable .staircase m ∧ m.stack.length = 1 ∧
      Settled ((m.stepTimes .staircase (Scene.observer (ε := Empty) Scene.recorder)
        (workload Program.staircase.mostTurns Program.staircase.greatestHeight)).run #[]) := by
  have hr : Reachable .staircase ((start .staircase (.ofSeed 7)).push
      (Program.staircase.initial.head (by decide)) ⟨1, .pureRed⟩) :=
    .push (.start _) rfl (List.head_mem _)
  have hsettled := stepTimes_settled hr (Scene.observer (ε := Empty) Scene.recorder) #[]
  exact ⟨_, hr, rfl, hsettled⟩

end Machine

end SceneGrammar

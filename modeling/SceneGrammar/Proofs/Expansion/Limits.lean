import SceneGrammar.Proofs.Expansion.Budget
import SceneGrammar.Proofs.Expansion.Tally

/-!
# Limits that change on the way

A rule sets the depth and the limit on objects anew while frames begun under the old ones are still
on the stack. So the stack is bounded by the greatest depth so far, and not by the one in force. The
limit on objects is compared with all that is drawn before every step and before every anonymous
rule, and nothing is done any more once it is reached.
-/

namespace SceneGrammar

namespace Machine
variable {M : Type}

theorem lt_of_isDeepest {m : Machine M} (h : m.isDeepest = false) :
    m.stack.length < m.settings.maxDepth.toNat - 1 := by
  simpa only [isDeepest, decide_eq_false_iff_not, Nat.not_le] using h

/-- The stack is not and was not higher. -/
structure NoHigher (m : Machine M) (height : Nat) : Prop where
  stack : m.stack.length ≤ height
  maxStack : m.stats.maxStack ≤ height

theorem NoHigher.push [Mul M] {m : Machine M} {height : Nat} (hm : m.NoHigher height)
    (hs : m.stack = []) (hone : 1 ≤ height) (rule : Rule M) (input : Pose M) :
    (m.push rule input).NoHigher height := by
  have hstack : (m.push rule input).stack.length = m.stack.length + 1 := rfl
  have hmax : (m.push rule input).stats.maxStack = max m.stats.maxStack (m.stack.length + 1) := rfl
  rw [hs, List.length_nil] at hstack hmax
  have hbefore := hm.maxStack
  exact ⟨by omega, by omega⟩

variable [Mul M] {p : Program M} {m after : Machine M} {frame : Frame M} {below : List (Frame M)}
  {deed : Deed M}

theorem Move.lt_of_enter (h : Move p m frame below deed after) (hk : deed.kind = .enter) :
    m.stack.length < m.settings.maxDepth.toNat - 1 := by
  cases h with
  | enter ha he hd hp => exact lt_of_isDeepest hd
  | _ => cases hk

theorem Move.maxStack_le (h : Move p m frame below deed after) (hs : m.stack = frame :: below) :
    after.stats.maxStack ≤ max m.stats.maxStack after.stack.length := by
  cases h with
  | enter ha he hd hp =>
    obtain rfl := congrArg Prod.snd hp
    change max m.stats.maxStack (m.stack.length + 1) ≤ max m.stats.maxStack (below.length + 1 + 1)
    exact Nat.le_of_eq (by rw [hs, List.length_cons])
  | _ => exact Nat.le_max_left _ _

theorem Move.noHigher (h : Move p m frame below deed after) (hs : m.stack = frame :: below)
    {height : Nat} (hd : m.settings.maxDepth.toNat - 1 ≤ height) (hm : m.NoHigher height) :
    after.NoHigher height := by
  have hbooks := (h.books hs).height
  have hstack : after.stack.length ≤ height := by
    by_cases hk : deed.kind = .enter
    · have hlt := h.lt_of_enter hk
      have hcount : deed.count .enter = 1 := if_pos hk
      omega
    · have hcount : deed.count .enter = 0 := if_neg hk
      have hle := hm.stack
      omega
  have hmax := h.maxStack_le hs
  have hbefore := hm.maxStack
  exact ⟨hstack, by omega⟩

end Machine

/-- The greatest depth that was in force up to this stage. -/
def Stage.deepest {M : Type} (entries : List (Entry M)) (stage : Stage M) : Nat :=
  (stage.machine.settings.maxDepth.toNat ::
    entries.map fun entry => entry.before.settings.maxDepth.toNat).foldr max 0

section
variable {M : Type} [Mul M] [One M] {p : Program M} {first stage next last : Stage M}
  {entry : Entry M} {entries : List (Entry M)} {height : Nat}

theorem Stage.Next.noHigher (hn : stage.Next p entry next) (hone : 1 ≤ height)
    (hd : entry.before.settings.maxDepth.toNat - 1 ≤ height)
    (hm : stage.machine.NoHigher height) : next.machine.NoHigher height := by
  rw [hn.before_eq] at hd
  cases hn with
  | begin hs hb => exact hm.push hs hone _ _
  | step hs hb hstep => exact (Machine.step_eq_ok_iff.1 hstep).noHigher hs hd hm

theorem Chronicle.noHigher (h : Chronicle p first entries last) (hone : 1 ≤ height)
    (hd : ∀ entry ∈ entries, entry.before.settings.maxDepth.toNat - 1 ≤ height)
    (hm : first.machine.NoHigher height) : last.machine.NoHigher height := by
  induction h with
  | nil => exact hm
  | cons hn later ih =>
    rw [List.forall_mem_cons] at hd
    exact ih hd.2 (hn.noHigher hone hd.1 hm)

/-- The machine has counted what is drawn in the chronicle. -/
theorem Chronicle.objects_eq {streams : Streams} (h : Chronicle p (.start p streams) entries last) :
    last.machine.stats.objects = (entries.flatMap Entry.drawn).length := by
  rw [h.balanced.objects, Entry.length_flatMap_drawn]
  exact Nat.zero_add _

theorem Chronicle.lt_limit {streams : Streams} {back : List (Entry M)} {limit : Nat}
    (h : Chronicle p (.start p streams) (entries ++ entry :: back) last)
    (hlimit : entry.before.settings.maxObjects = some limit) :
    (entries.flatMap Entry.drawn).length < limit := by
  obtain ⟨stage, next, hfront, hn⟩ := h.exists_next
  rw [hn.before_eq] at hlimit
  rw [← hfront.objects_eq]
  exact Machine.objects_lt_of_isSpent hlimit hn.isSpent_eq

/-- Whatever is set when: the height of the stack, the drawings and the end of the run keep to the
limits. The chronicle may break off anywhere. -/
theorem limits_hold {streams : Streams} (h : Chronicle p (.start p streams) entries stage) :
    (∀ {σ ε : Type} (observe : Observer M σ ε),
      Machine.drainAll p observe (.start p streams) p.initial =
        forM entries (Entry.tell observe) >>= fun _ => stage.rest p observe) ∧
    (∃ later last ending, Chronicle p stage later last ∧ last.Ends p ending) ∧
    (∀ {m after rule}, .step m (.enter rule) after ∈ entries →
      m.stack.length < m.settings.maxDepth.toNat - 1 ∧
        after.stack.length = m.stack.length + 1) ∧
    stage.machine.stack.length ≤ max 1 (stage.deepest entries - 1) ∧
    stage.machine.stats.maxStack ≤ max 1 (stage.deepest entries - 1) ∧
    (∀ {front back m drawing after}, entries = front ++ .step m (.draw drawing) after :: back →
      ∀ limit, m.settings.maxObjects = some limit →
        (front.flatMap Entry.drawn).length < limit) ∧
    (∀ limit, stage.machine.settings.maxObjects = some limit →
      limit ≤ (entries.flatMap Entry.drawn).length →
        (∀ {later last}, Chronicle p stage later last → later = []) ∧
        ∀ {σ ε : Type} (observe : Observer M σ ε),
          stage.rest p observe = pure (stage.machine.withStack [])) := by
  have hheight : stage.machine.NoHigher (max 1 (stage.deepest entries - 1)) := by
    refine h.noHigher (Nat.le_max_left _ _) (fun entry he => ?_) ⟨Nat.zero_le _, Nat.zero_le _⟩
    have hmem := List.mem_map_of_mem (f := fun entry => entry.before.settings.maxDepth.toNat) he
    have hle : entry.before.settings.maxDepth.toNat ≤ stage.deepest entries :=
      le_foldr_max (.tail _ hmem)
    omega
  refine ⟨fun observe => ?_, stage.exists_chronicle p, fun he => ?_, hheight.stack,
    hheight.maxStack, fun he limit hlimit => ?_, fun limit hlimit hle => ?_⟩
  · rw [← Stage.rest_start, h.rest_eq]
  · obtain ⟨frame, below, hs, hmove, hbooks⟩ := h.exists_books he
    exact ⟨hmove.lt_of_enter rfl, hbooks.height⟩
  · subst he
    exact h.lt_limit hlimit
  · have hspent : stage.machine.isSpent = true := by
      rw [← h.objects_eq] at hle
      simpa [Machine.isSpent, hlimit] using hle
    exact ⟨fun hlater => (hlater.of_spent hspent).1, Stage.rest_of_spent hspent⟩

end

theorem raised_outcome_spent :
    (Machine.expandFor (.raised 3) 20 (.start (.raised 3) (Program.raised 3).streams)
      (Program.raised 3).initial).map (fun outcome =>
        (outcome.1.length, outcome.2.settings.maxObjects, outcome.2.stats)) =
      some (3, some 3, ⟨3, 11, 4, 1⟩) := by
  decide +kernel

theorem limits_hold_raised :
    ∃ (entries : List (Entry Matrix)) (stage : Stage Matrix),
      Chronicle (.raised 3) (.start (.raised 3) (Program.raised 3).streams) entries stage ∧
      4 ≤ max 1 (stage.deepest entries - 1) ∧
      ∀ {σ ε : Type} (observe : Observer Matrix σ ε),
        stage.rest (.raised 3) observe = pure (stage.machine.withStack []) := by
  obtain ⟨⟨drawings, after⟩, hexpands, houtcome⟩ := Option.map_eq_some_iff.1 raised_outcome_spent
  obtain ⟨entries, stage, hchronicle, hdrawn, hends⟩ :=
    (Machine.expands_of_expandFor hexpands).exists_chronicle
  obtain rfl := hends.ended_eq
  have hlength : drawings.length = 3 := congrArg Prod.fst houtcome
  have hlimit : stage.machine.settings.maxObjects = some 3 :=
    congrArg (fun outcome => outcome.2.1) houtcome
  have hstats : stage.machine.stats = ⟨3, 11, 4, 1⟩ :=
    congrArg (fun outcome => outcome.2.2) houtcome
  obtain ⟨-, -, -, -, hmax, -, hspent⟩ := limits_hold hchronicle
  rw [hstats] at hmax
  have hle : 3 ≤ (entries.flatMap Entry.drawn).length := by
    rw [hdrawn]
    exact Nat.le_of_eq hlength.symm
  exact ⟨entries, stage, hchronicle, hmax, (hspent 3 hlimit hle).2⟩

end SceneGrammar

import SceneGrammar.Proofs.Expansion.Delivery

/-!
# The chronicle of an expansion

What an expansion does is written down in order: every anonymous rule that it begins and every step
that it takes. A chronicle may break off behind any entry, so what holds of all chronicles holds at
every moment of every run. An observer is told of the steps in it, and of no others.
-/

namespace SceneGrammar

/-- A machine between two steps, and the anonymous rules that it has not begun. -/
structure Stage (M : Type) where
  machine : Machine M
  rules : List (Rule M)

inductive Entry (M : Type)
  | begin (before : Machine M) (rule : Rule M)
  | step (before : Machine M) (deed : Deed M) (after : Machine M)

namespace Entry
variable {M σ ε : Type}

def before : Entry M → Machine M
  | .begin before _ => before
  | .step before _ _ => before

def drawn : Entry M → List (Drawing M)
  | .begin _ _ => []
  | .step _ deed _ => deed.drawn

def tell (observe : Observer M σ ε) : Entry M → EStateM (BuildError ε) σ Unit
  | .begin _ _ => pure ()
  | .step before deed _ => (observe before deed).adaptExcept .scene

end Entry

namespace Stage
variable {M σ ε : Type}

def start (p : Program M) (streams : Streams) : Stage M := ⟨.start p streams, p.initial⟩

variable [Mul M]

/-- Nothing comes next: all is done, or the budget is spent and the stack dropped, or an invocation
fails. -/
inductive Ends (p : Program M) : Stage M → Except Diagnostic (Machine M) → Prop
  | done {m : Machine M} (hs : m.stack = []) : Ends p ⟨m, []⟩ (.ok m)
  | spent {m : Machine M} {rules : List (Rule M)} (hb : m.isSpent = true) :
      Ends p ⟨m, rules⟩ (.ok (m.withStack []))
  | fail {m : Machine M} {rules : List (Rule M)} {frame : Frame M} {below : List (Frame M)}
      {diagnostic : Diagnostic} (hs : m.stack = frame :: below) (hb : m.isSpent = false)
      (hm : m.step p frame below = .error diagnostic) : Ends p ⟨m, rules⟩ (.error diagnostic)

theorem Ends.ended_eq {p : Program M} {stage : Stage M} {ended : Machine M}
    (h : stage.Ends p (.ok ended)) : ended = stage.machine.withStack [] := by
  cases h with
  | done hs => rw [Machine.withStack, ← hs]
  | spent hb => rfl

theorem Ends.finished {p : Program M} {stage : Stage M} {ended : Machine M}
    (h : stage.Ends p (.ok ended)) (hb : stage.machine.isSpent = false) :
    stage.machine.stack = [] ∧ stage.rules = [] := by
  cases h with
  | done hs => exact ⟨hs, rfl⟩
  | spent hspent =>
    rw [hb] at hspent
    cases hspent

variable [One M]

inductive Next (p : Program M) : Stage M → Entry M → Stage M → Prop
  | begin {m : Machine M} {rule : Rule M} {rules : List (Rule M)} (hs : m.stack = [])
      (hb : m.isSpent = false) :
      Next p ⟨m, rule :: rules⟩ (.begin m rule) ⟨m.push rule ⟨1, .pureRed⟩, rules⟩
  | step {m next : Machine M} {rules : List (Rule M)} {frame : Frame M} {below : List (Frame M)}
      {deed : Deed M} (hs : m.stack = frame :: below) (hb : m.isSpent = false)
      (hm : m.step p frame below = .ok (deed, next)) :
      Next p ⟨m, rules⟩ (.step m deed next) ⟨next, rules⟩

/-- What is left of a run from here on. -/
def rest (p : Program M) (observe : Observer M σ ε) (stage : Stage M) :
    EStateM (BuildError ε) σ (Machine M) := do
  let m ← Machine.drain p observe stage.machine
  Machine.drainAll p observe m stage.rules

variable {p : Program M} {stage next : Stage M} {entry : Entry M}

theorem rest_start (p : Program M) (streams : Streams) (observe : Observer M σ ε) :
    (start p streams).rest p observe =
      Machine.drainAll p observe (.start p streams) p.initial := by
  rw [rest, start, Machine.drain_of_nil rfl, pure_bind]

theorem rest_of_spent (h : stage.machine.isSpent = true) (observe : Observer M σ ε) :
    stage.rest p observe = pure (stage.machine.withStack []) :=
  Machine.drain_drainAll_of_spent h stage.rules

theorem Ends.rest_eq {ending : Except Diagnostic (Machine M)} (h : stage.Ends p ending)
    (observe : Observer M σ ε) :
    stage.rest p observe = Delivery.finish (ending.mapError .rule) := by
  cases h with
  | done hs =>
    rw [rest, Machine.drain_of_nil hs]
    rfl
  | spent hb => exact Machine.drain_drainAll_of_spent hb _
  | fail hs hb hm =>
    rw [rest, Machine.drain_of_error hs hb hm]
    rfl

theorem Next.before_eq (h : Next p stage entry next) : entry.before = stage.machine := by
  cases h <;> rfl

theorem Next.isSpent_eq (h : Next p stage entry next) : stage.machine.isSpent = false := by
  cases h with
  | begin hs hb => exact hb
  | step hs hb hm => exact hb

theorem Next.rest_eq (h : Next p stage entry next) (observe : Observer M σ ε) :
    stage.rest p observe = entry.tell observe >>= fun _ => next.rest p observe := by
  cases h with
  | begin hs hb =>
    rw [rest, Machine.drain_of_nil hs, pure_bind, Machine.drainAll, hb]
    rfl
  | step hs hb hm =>
    rw [rest, Machine.drain_of_step hs hb hm, bind_assoc]
    rfl

end Stage

/-- The entries lead from one stage to another. -/
inductive Chronicle {M : Type} [Mul M] [One M] (p : Program M) :
    Stage M → List (Entry M) → Stage M → Prop
  | nil (stage : Stage M) : Chronicle p stage [] stage
  | cons {first next last : Stage M} {entry : Entry M} {entries : List (Entry M)}
      (hn : first.Next p entry next) (later : Chronicle p next entries last) :
      Chronicle p first (entry :: entries) last

namespace Chronicle
variable {M σ ε : Type} [Mul M] [One M] {p : Program M} {first last : Stage M}
  {front back entries : List (Entry M)}

theorem split (h : Chronicle p first (front ++ back) last) :
    ∃ middle, Chronicle p first front middle ∧ Chronicle p middle back last := by
  induction front generalizing first with
  | nil => exact ⟨first, .nil first, h⟩
  | cons entry front ih =>
    cases h with
    | cons hn later =>
      obtain ⟨middle, hfront, hback⟩ := ih later
      exact ⟨middle, .cons hn hfront, hback⟩

theorem exists_next {entry : Entry M} (h : Chronicle p first (front ++ entry :: back) last) :
    ∃ stage next, Chronicle p first front stage ∧ stage.Next p entry next := by
  obtain ⟨stage, hfront, hback⟩ := h.split
  cases hback with
  | cons hn later => exact ⟨stage, _, hfront, hn⟩

theorem exists_next_of_mem {entry : Entry M} (h : Chronicle p first entries last)
    (he : entry ∈ entries) : ∃ stage next : Stage M, stage.Next p entry next := by
  obtain ⟨front, back, rfl⟩ := List.append_of_mem he
  obtain ⟨stage, next, -, hn⟩ := h.exists_next
  exact ⟨stage, next, hn⟩

/-- Nothing is done any more once the budget is spent. -/
theorem of_spent (h : Chronicle p first entries last) (hb : first.machine.isSpent = true) :
    entries = [] ∧ last = first := by
  cases h with
  | nil => exact ⟨rfl, rfl⟩
  | cons hn later =>
    rw [hn.isSpent_eq] at hb
    cases hb

theorem rest_eq (h : Chronicle p first entries last) (observe : Observer M σ ε) :
    first.rest p observe =
      forM entries (Entry.tell observe) >>= fun _ => last.rest p observe := by
  induction h with
  | nil => rfl
  | cons hn later ih => rw [hn.rest_eq, ih, List.forM_cons, bind_assoc]

end Chronicle

namespace Machine
variable {M : Type} [Mul M] [One M]

theorem Expands.exists_chronicle {p : Program M} {m : Machine M} {rules : List (Rule M)}
    {drawings : List (Drawing M)} {ending : Except Diagnostic (Machine M)}
    (h : Expands p m rules drawings ending) :
    ∃ entries last, Chronicle p ⟨m, rules⟩ entries last ∧
      entries.flatMap Entry.drawn = drawings ∧ last.Ends p ending := by
  induction h with
  | done hs => exact ⟨[], _, .nil _, rfl, .done hs⟩
  | spent hb => exact ⟨[], _, .nil _, rfl, .spent hb⟩
  | fail hs hb hm => exact ⟨[], _, .nil _, rfl, .fail hs hb hm⟩
  | start hs hb later ih =>
    obtain ⟨entries, last, hchronicle, hdrawn, hends⟩ := ih
    exact ⟨_, last, .cons (.begin hs hb) hchronicle, hdrawn, hends⟩
  | step hs hb hm later ih =>
    obtain ⟨entries, last, hchronicle, hdrawn, hends⟩ := ih
    refine ⟨_, last, .cons (.step hs hb hm) hchronicle, ?_, hends⟩
    rw [List.flatMap_cons, hdrawn]
    rfl

end Machine

/-- A chronicle that reaches an end is the whole run. -/
theorem Chronicle.drainAll_eq {M σ ε : Type} [Mul M] [One M] {p : Program M} {streams : Streams}
    {entries : List (Entry M)} {last : Stage M} {ending : Except Diagnostic (Machine M)}
    (h : Chronicle p (.start p streams) entries last) (hends : last.Ends p ending)
    (observe : Observer M σ ε) :
    Machine.drainAll p observe (.start p streams) p.initial =
      forM entries (Entry.tell observe) >>= fun _ =>
        Delivery.finish (ending.mapError .rule) := by
  rw [← Stage.rest_start, h.rest_eq, hends.rest_eq]

/-- Every chronicle can be carried on to the end of the run. -/
theorem Stage.exists_chronicle {M : Type} [Mul M] [One M] (p : Program M) (stage : Stage M) :
    ∃ entries last ending, Chronicle p stage entries last ∧ last.Ends p ending := by
  obtain ⟨drawings, ending, hexpands⟩ := Machine.exists_expands p stage.rules stage.machine
  obtain ⟨entries, last, hchronicle, -, hends⟩ := hexpands.exists_chronicle
  exact ⟨entries, last, ending, hchronicle, hends⟩

end SceneGrammar

import SceneGrammar.Proofs.Expansion.Chronicle

/-!
# The statistics of an expansion

A step pops an exhausted frame, draws, enters a rule, changes a setting or prunes, and which of the
five it was shows in the statistics and in the height of the stack. Added up along a chronicle, the
statistics count the steps of each kind, and every frame on the stack was begun and not popped.
-/

namespace SceneGrammar

inductive Kind
  | leave
  | draw
  | enter
  | change
  | prune
  deriving DecidableEq

namespace Deed
variable {M : Type}

def kind : Deed M → Kind
  | .leave => .leave
  | .draw _ => .draw
  | .enter _ => .enter
  | .change _ => .change
  | .prune => .prune

/-- One for a deed of this kind, and nothing for any other. -/
def count (kind : Kind) (deed : Deed M) : Nat := if deed.kind = kind then 1 else 0

theorem count_eq_one (deed : Deed M) :
    deed.count .leave + deed.count .draw + deed.count .enter + deed.count .change +
      deed.count .prune = 1 := by
  cases deed <;> rfl

theorem length_drawn (deed : Deed M) : deed.drawn.length = deed.count .draw := by
  cases deed <;> rfl

end Deed

namespace Machine
variable {M : Type} [Mul M] {p : Program M} {m after : Machine M} {frame : Frame M}
  {below : List (Frame M)} {deed : Deed M}

/-- What the five kinds of steps come to in the statistics, in the settings and on the stack. -/
structure Books (m : Machine M) (frame : Frame M) (below : List (Frame M)) (deed : Deed M)
    (after : Machine M) : Prop where
  steps : after.stats.steps = m.stats.steps + 1
  objects : after.stats.objects = m.stats.objects + deed.count .draw
  pruned : after.stats.pruned = m.stats.pruned + deed.count .prune
  height : after.stack.length + deed.count .leave = m.stack.length + deed.count .enter
  settings : after.settings =
    match deed with
    | .change setting => m.settings.apply setting
    | _ => m.settings
  leave_iff : deed.kind = .leave ↔ frame.action? = none
  prune_iff : deed.kind = .prune ↔ m.isDeepest = true ∧
    ∃ action name, frame.action? = some action ∧ action.effect = .invoke name
  /-- A pruned action is left behind with all the combinations that its loops still had. -/
  skipped : deed.kind = .prune → ∃ next : Frame M, after.stack = next :: below ∧
    next.rule = frame.rule ∧ next.index = frame.index + 1 ∧ next.input = frame.input

theorem Move.books (h : Move p m frame below deed after) (hs : m.stack = frame :: below) :
    Books m frame below deed after := by
  have hheight : m.stack.length = below.length + 1 := by rw [hs, List.length_cons]
  cases h with
  | leave ha =>
    exact ⟨rfl, rfl, rfl, hheight.symm, rfl, iff_of_true rfl ha, by simp [Deed.kind, ha], nofun⟩
  | draw ha he =>
    exact ⟨rfl, rfl, rfl, hheight.symm, rfl, by simp [Deed.kind, ha], by simp [Deed.kind, ha, he],
      nofun⟩
  | change ha he =>
    exact ⟨rfl, rfl, rfl, hheight.symm, rfl, by simp [Deed.kind, ha], by simp [Deed.kind, ha, he],
      nofun⟩
  | prune ha he hd =>
    exact ⟨rfl, rfl, rfl, hheight.symm, rfl, by simp [Deed.kind, ha],
      iff_of_true rfl ⟨hd, _, _, ha, he⟩, fun _ => ⟨_, rfl, rfl, rfl, rfl⟩⟩
  | enter ha he hd hp =>
    obtain rfl := congrArg Prod.snd hp
    refine ⟨rfl, rfl, rfl, ?_, rfl, by simp [Deed.kind, ha], by simp [Deed.kind, hd], nofun⟩
    rw [hheight]
    rfl

end Machine

namespace Entry
variable {M : Type}

def count (kind : Kind) : Entry M → Nat
  | .begin _ _ => 0
  | .step _ deed _ => deed.count kind

def begins : Entry M → Nat
  | .begin _ _ => 1
  | .step _ _ _ => 0

/-- The steps of this kind. -/
def total (kind : Kind) : List (Entry M) → Nat
  | [] => 0
  | entry :: entries => entry.count kind + total kind entries

/-- The anonymous rules that are begun. -/
def begun : List (Entry M) → Nat
  | [] => 0
  | entry :: entries => entry.begins + begun entries

theorem length_drawn (entry : Entry M) : entry.drawn.length = entry.count .draw := by
  cases entry with
  | begin m rule => rfl
  | step m deed after => exact deed.length_drawn

theorem length_flatMap_drawn (entries : List (Entry M)) :
    (entries.flatMap drawn).length = total .draw entries := by
  induction entries with
  | nil => rfl
  | cons entry entries ih =>
    rw [List.flatMap_cons, List.length_append, length_drawn, ih, total]

end Entry

/-- The entries account for the way from the first stage to the last. -/
structure Stage.Balanced {M : Type} (first : Stage M) (entries : List (Entry M))
    (last : Stage M) : Prop where
  steps : last.machine.stats.steps = first.machine.stats.steps + Entry.total .leave entries +
    Entry.total .draw entries + Entry.total .enter entries + Entry.total .change entries +
    Entry.total .prune entries
  objects : last.machine.stats.objects = first.machine.stats.objects + Entry.total .draw entries
  pruned : last.machine.stats.pruned = first.machine.stats.pruned + Entry.total .prune entries
  height : last.machine.stack.length + Entry.total .leave entries =
    first.machine.stack.length + Entry.begun entries + Entry.total .enter entries
  rules : Entry.begun entries + last.rules.length = first.rules.length

section
variable {M : Type} {first next last : Stage M} {entry : Entry M} {entries : List (Entry M)}

theorem Stage.Balanced.cons (hn : first.Balanced [entry] next)
    (later : next.Balanced entries last) : first.Balanced (entry :: entries) last := by
  obtain ⟨hsteps, hobjects, hpruned, hheight, hrules⟩ := later
  obtain ⟨hsteps', hobjects', hpruned', hheight', hrules'⟩ := hn
  have htotal (kind : Kind) : Entry.total kind [entry] = entry.count kind := rfl
  have hbegun : Entry.begun [entry] = entry.begins := rfl
  simp only [htotal, hbegun] at *
  constructor <;> simp only [Entry.total, Entry.begun] <;> omega

variable [Mul M] [One M] {p : Program M}

theorem Stage.Next.balanced (hn : first.Next p entry next) : first.Balanced [entry] next := by
  cases hn with
  | begin hs hb => exact ⟨rfl, rfl, rfl, rfl, Nat.add_comm _ _⟩
  | @step m after rules frame below deed hs hb hm =>
    have hbooks := (Machine.step_eq_ok_iff.1 hm).books hs
    have hone := deed.count_eq_one
    have htotal (kind : Kind) : Entry.total kind [.step m deed after] = deed.count kind := rfl
    constructor
    · simp only [htotal, hbooks.steps]
      omega
    · exact hbooks.objects
    · exact hbooks.pruned
    · exact hbooks.height
    · exact Nat.zero_add _

theorem Chronicle.balanced (h : Chronicle p first entries last) :
    first.Balanced entries last := by
  induction h with
  | nil => exact ⟨rfl, rfl, rfl, rfl, Nat.zero_add _⟩
  | cons hn later ih => exact hn.balanced.cons ih

theorem Chronicle.exists_books {m after : Machine M} {deed : Deed M}
    (h : Chronicle p first entries last) (he : .step m deed after ∈ entries) :
    ∃ frame below, m.stack = frame :: below ∧ Machine.Move p m frame below deed after ∧
      Machine.Books m frame below deed after := by
  obtain ⟨stage, next, hn⟩ := h.exists_next_of_mem he
  cases hn with
  | @step _ _ _ frame below _ hs hb hm =>
    have hmove := Machine.step_eq_ok_iff.1 hm
    exact ⟨frame, below, hs, hmove, hmove.books hs⟩

end

/-- The statistics of a run that ends well, added up from its chronicle. The budget is never spent
if it is not spent at the end. -/
theorem stats_add_up {M σ ε : Type} [Mul M] [One M] {p : Program M} {streams : Streams}
    {scene : Scene M σ ε} {stats : Stats} {s s' : σ}
    (hrun : (p.expandFrom streams scene).run s = .ok stats s') :
    ∃ (entries : List (Entry M)) (last : Stage M) (ended : Machine M),
      Chronicle p (.start p streams) entries last ∧ last.Ends p (.ok ended) ∧
      ended.stats = stats ∧
      (∀ {τ δ : Type} (observe : Observer M τ δ),
        Machine.drainAll p observe (.start p streams) p.initial =
          forM entries (Entry.tell observe) >>= fun _ => pure ended) ∧
      scene.Accepts s (p.opening ++ (entries.flatMap Entry.drawn).map .draw) s' ∧
      (∀ {m after deed}, .step m deed after ∈ entries → ∃ frame below,
        m.stack = frame :: below ∧ Machine.Move p m frame below deed after ∧
          Machine.Books m frame below deed after) ∧
      stats.objects = (entries.flatMap Entry.drawn).length ∧
      stats.objects = Entry.total .draw entries ∧
      stats.pruned = Entry.total .prune entries ∧
      stats.steps = Entry.total .leave entries + stats.objects + Entry.total .enter entries +
        Entry.total .change entries + stats.pruned ∧
      Entry.total .leave entries + last.machine.stack.length =
        Entry.begun entries + Entry.total .enter entries ∧
      Entry.begun entries + last.rules.length = p.initial.length ∧
      (last.machine.isSpent = false →
        Entry.total .leave entries = Entry.begun entries + Entry.total .enter entries ∧
          Entry.begun entries = p.initial.length) := by
  obtain ⟨drawings, ending, hexpands⟩ := Machine.exists_expands p p.initial (.start p streams)
  obtain ⟨entries, last, hchronicle, rfl, hends⟩ := hexpands.exists_chronicle
  rw [Program.expandFrom_eq_give_of_expands hexpands] at hrun
  obtain ⟨haccepts, hresult⟩ := Delivery.accepts_of_run_give hrun
  cases ending with
  | error diagnostic => cases hresult
  | ok ended =>
    obtain rfl : ended.stats = stats := Except.ok.inj hresult
    have hbalanced := hchronicle.balanced
    have hstats : ended.stats = last.machine.stats := by rw [hends.ended_eq, Machine.withStack]
    have hobjects : ended.stats.objects = Entry.total .draw entries := by
      rw [hstats, hbalanced.objects]
      exact Nat.zero_add _
    have hpruned : ended.stats.pruned = Entry.total .prune entries := by
      rw [hstats, hbalanced.pruned]
      exact Nat.zero_add _
    have hsteps : ended.stats.steps = 0 + Entry.total .leave entries + Entry.total .draw entries +
        Entry.total .enter entries + Entry.total .change entries + Entry.total .prune entries := by
      rw [hstats, hbalanced.steps]
      rfl
    have hheight : last.machine.stack.length + Entry.total .leave entries =
        0 + Entry.begun entries + Entry.total .enter entries := hbalanced.height
    have hrules : Entry.begun entries + last.rules.length = p.initial.length := hbalanced.rules
    refine ⟨entries, last, ended, hchronicle, hends, rfl, hchronicle.drainAll_eq hends, haccepts,
      hchronicle.exists_books, ?_, hobjects, hpruned, by omega, by omega, hrules, fun hb => ?_⟩
    · rw [hobjects, Entry.length_flatMap_drawn]
    · obtain ⟨hstack, hnone⟩ := hends.finished hb
      rw [hstack, List.length_nil] at hheight
      rw [hnone, List.length_nil] at hrules
      exact ⟨by omega, hrules⟩

/-- A tower that raises the depth it is built in, and limits the objects when a storey is done. -/
def Program.raised (limit : Nat) : Program Matrix where
  settings := { Settings.initial with maxDepth := 3 }
  initial := [⟨none, none, [⟨[], .invoke "tower", 1⟩]⟩, ⟨none, none, [⟨[], .draw .sphere, 2⟩]⟩]
  groups := [("tower", Roulette.empty.add 1 ⟨some "tower", none, [
    ⟨[], .draw .box, 3⟩,
    ⟨[], .set (.maxDepth 5), 4⟩,
    ⟨[⟨2, .ofOperations [.move .z 1]⟩], .invoke "tower", 5⟩,
    ⟨[], .set (.maxObjects limit), 6⟩]⟩)]

theorem raised_outcome :
    (Machine.expandFor (.raised 10) 60 (.start (.raised 10) (Program.raised 10).streams)
      (Program.raised 10).initial).map (fun outcome => outcome.2.stats) = some ⟨8, 42, 4, 4⟩ := by
  decide +kernel

theorem stats_add_up_raised :
    ∃ (events : Array (Event Matrix)) (entries : List (Entry Matrix)) (last : Stage Matrix),
      ((Program.raised 10).expandFrom (Program.raised 10).streams
        (Scene.recorder (ε := Empty))).run #[] = .ok ⟨8, 42, 4, 4⟩ events ∧
      Chronicle (.raised 10) (.start (.raised 10) (Program.raised 10).streams) entries last ∧
      (entries.flatMap Entry.drawn).length = 8 ∧ Entry.total .prune entries = 4 ∧
      42 = Entry.total .leave entries + 8 + Entry.total .enter entries +
        Entry.total .change entries + 4 ∧
      Entry.total .leave entries + last.machine.stack.length =
        Entry.begun entries + Entry.total .enter entries := by
  obtain ⟨⟨drawings, after⟩, hexpands, hstats⟩ := Option.map_eq_some_iff.1 raised_outcome
  have hrun := Program.run_recorder_of_expands (ε := Empty) (Machine.expands_of_expandFor hexpands)
  have hstats : after.stats = ⟨8, 42, 4, 4⟩ := hstats
  rw [hstats] at hrun
  obtain ⟨entries, last, -, hchronicle, -, -, -, -, -, hdrawn, -, hpruned, hsteps, hheight, -⟩ :=
    stats_add_up hrun
  exact ⟨_, entries, last, hrun, hchronicle, hdrawn.symm, hpruned.symm, hsteps, hheight⟩

end SceneGrammar

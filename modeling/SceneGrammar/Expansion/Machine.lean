import SceneGrammar.Expansion.Descent
import SceneGrammar.Expansion.Frame
import SceneGrammar.Program.Basic
import SceneGrammar.Scene

/-!
Expansion as a machine with a stack of frames, the top frame first. Each step does one thing and
comes to the next turn: the frame on top moves on before the rule it has invoked begins.
-/

namespace SceneGrammar

structure Stats where
  objects : Nat
  steps : Nat
  maxStack : Nat
  pruned : Nat
  deriving DecidableEq, Repr

def Stats.zero : Stats := ⟨0, 0, 0, 0⟩

structure Machine (M : Type) where
  settings : Settings
  streams : Streams
  stack : List (Frame M)
  stats : Stats

inductive Deed (M : Type)
  | leave
  | draw (drawing : Drawing M)
  | enter (rule : Rule M)
  | change (setting : Setting)
  | prune

namespace Machine
variable {M : Type}

def start (p : Program M) (streams : Streams) : Machine M := ⟨p.settings, streams, [], .zero⟩

/-- Are as many objects drawn as the settings allow now? -/
def isSpent (m : Machine M) : Bool := m.settings.maxObjects.any (· ≤ m.stats.objects)

/-- May no rule be entered, by the settings as they are now? -/
def isDeepest (m : Machine M) : Bool := m.settings.maxDepth.toNat - 1 ≤ m.stack.length

def drawColor {α : Type} (m : Machine M) (draw : Draw α) : α × Machine M :=
  let (value, streams) := m.streams.drawColor draw
  (value, { m with streams })

def drawGeometry {α : Type} (m : Machine M) (draw : Draw α) : α × Machine M :=
  let (value, streams) := m.streams.drawGeometry draw
  (value, { m with streams })

/-- A seed restarts both streams; the initial seed is that of the program. -/
def change (p : Program M) (m : Machine M) (setting : Setting) : Machine M :=
  let streams := match setting with
    | .seed seed => .ofSeed seed
    | .initialSeed => p.streams
    | _ => m.streams
  { m with settings := m.settings.apply setting, streams }

def tally (m : Machine M) (f : Stats → Stats) : Machine M := { m with stats := f m.stats }

def withStack (m : Machine M) (stack : List (Frame M)) : Machine M := { m with stack }

section
variable [Mul M]

/-- The frame takes its next turn on top of those below. -/
def proceed (m : Machine M) (frame : Frame M) (below : List (Frame M)) : Machine M :=
  let (frame, m) := m.drawColor (frame.proceed m.settings.pool)
  m.withStack (frame :: below)

def skip (m : Machine M) (frame : Frame M) (below : List (Frame M)) : Machine M :=
  let (frame, m) := m.drawColor (frame.skip m.settings.pool)
  m.withStack (frame :: below)

/-- A frame for `rule` at its first action, counted in the greatest height of the stack. -/
def begin (m : Machine M) (rule : Rule M) (input : Pose M) : Frame M × Machine M :=
  let (frame, m) := m.drawColor (Frame.enter m.settings.pool rule input 0)
  (frame, m.tally fun s => { s with maxStack := max s.maxStack (m.stack.length + 1) })

def push (m : Machine M) (rule : Rule M) (input : Pose M) : Machine M :=
  let (frame, m) := m.begin rule input
  m.withStack (frame :: m.stack)

def call (m : Machine M) (rule : Rule M) (frame : Frame M) (below : List (Frame M)) : Machine M :=
  let (callee, m) := m.begin rule frame.pose
  let m := m.proceed frame below
  m.withStack (callee :: m.stack)

def invoke (p : Program M) (m : Machine M) (name : String) (line : Nat) (frame : Frame M)
    (below : List (Frame M)) : Except Diagnostic (Deed M × Machine M) :=
  if m.isDeepest then
    let m := m.tally fun s => { s with pruned := s.pruned + 1 }
    .ok (.prune, m.skip frame below)
  else
    match m.drawGeometry (p.pick name (some line) Draw.unit) with
    | (.error unknownRule, _) => .error unknownRule
    | (.ok (_, rule), m) => .ok (.enter rule, m.call rule frame below)

def step (p : Program M) (m : Machine M) (frame : Frame M) (below : List (Frame M)) :
    Except Diagnostic (Deed M × Machine M) :=
  let m := m.tally fun s => { s with steps := s.steps + 1 }
  match frame.action? with
  | none => .ok (.leave, m.withStack below)
  | some action =>
    match action.effect with
    | .draw solid =>
      let m := m.tally fun s => { s with objects := s.objects + 1 }
      .ok (.draw ⟨solid, frame.pose⟩, m.proceed frame below)
    | .set setting => .ok (.change setting, (m.change p setting).proceed frame below)
    | .invoke name => m.invoke p name action.line frame below

end

def turnsLeft (m : Machine M) : List Nat := m.stack.map Frame.turnsLeft

/-- The stack stays below this height whatever depth is set. -/
def heightLimit : Nat := UInt32.size

theorem length_stack_lt {m : Machine M} (h : m.isDeepest = false) :
    m.stack.length < heightLimit := by
  have : m.settings.maxDepth.toNat < heightLimit := m.settings.maxDepth.toNat_lt_size
  simp only [isDeepest, decide_eq_false_iff_not] at h
  omega

section
variable [Mul M]

theorem turnsLeft_proceed (m : Machine M) (frame : Frame M) (below : List (Frame M))
    (h : frame.action?.isSome) :
    ∃ fewer, fewer < frame.turnsLeft ∧
      (m.proceed frame below).turnsLeft = fewer :: below.map Frame.turnsLeft :=
  ⟨_, Frame.turnsLeft_proceed_lt m.settings.pool h m.streams.color, rfl⟩

theorem turnsLeft_skip (m : Machine M) (frame : Frame M) (below : List (Frame M))
    (h : frame.action?.isSome) :
    ∃ fewer, fewer < frame.turnsLeft ∧
      (m.skip frame below).turnsLeft = fewer :: below.map Frame.turnsLeft :=
  ⟨_, Frame.turnsLeft_skip_lt m.settings.pool h m.streams.color, rfl⟩

theorem step_descends {p : Program M} {m after : Machine M} {frame : Frame M}
    {below : List (Frame M)} {deed : Deed M} (hs : m.stack = frame :: below)
    (h : m.step p frame below = .ok (deed, after)) :
    Descends heightLimit after.turnsLeft m.turnsLeft := by
  have hm : m.turnsLeft = frame.turnsLeft :: below.map Frame.turnsLeft := by simp [turnsLeft, hs]
  rw [hm]
  unfold step at h
  dsimp only at h
  split at h
  · cases h
    exact .leave _ _
  · rename_i action ha
    have ha : frame.action?.isSome := by simp [ha]
    split at h
    · cases h
      obtain ⟨fewer, hlt, he⟩ := turnsLeft_proceed _ frame below ha
      exact he ▸ .take _ hlt
    · cases h
      obtain ⟨fewer, hlt, he⟩ := turnsLeft_proceed _ frame below ha
      exact he ▸ .take _ hlt
    · unfold invoke at h
      split at h
      · cases h
        obtain ⟨fewer, hlt, he⟩ := turnsLeft_skip _ frame below ha
        exact he ▸ .take _ hlt
      · rename_i hd
        have room : below.length + 1 < heightLimit := by
          have := length_stack_lt (Bool.eq_false_iff.2 hd)
          simpa [tally, hs] using this
        split at h
        · cases h
        · rename_i rule m' hp
          cases h
          obtain ⟨fewer, hlt, he⟩ := turnsLeft_proceed (m'.begin rule frame.pose).2 frame below ha
          have : (m'.call rule frame below).turnsLeft =
              (m'.begin rule frame.pose).1.turnsLeft :: fewer :: below.map Frame.turnsLeft :=
            congrArg (_ :: ·) he
          exact this ▸ .call _ _ hlt (by simpa using room)

end

end Machine

end SceneGrammar

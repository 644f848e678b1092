import SceneGrammar.Proofs.Expansion.Safety

/-!
# What an expansion delivers

What a program draws and how it ends is settled without any scene. A scene is handed the events one
after another and has no say but to refuse one, which ends the run there and then.
-/

namespace SceneGrammar

namespace Scene
variable {M σ ε α : Type}

/-- Hands over the events in order, up to the first that is refused. -/
def feed (scene : Scene M σ ε) : List (Event M) → EStateM (BuildError ε) σ Unit
  | [] => pure ()
  | event :: events => do
    (scene event).adaptExcept .scene
    feed scene events

theorem feed_append (scene : Scene M σ ε) (before after : List (Event M)) :
    scene.feed (before ++ after) = scene.feed before >>= fun _ => scene.feed after := by
  induction before with
  | nil => rfl
  | cons event before ih => simp only [List.cons_append, feed, ih, bind_assoc]

/-- The scene takes all these events and goes from one state to another. -/
inductive Accepts (scene : Scene M σ ε) : σ → List (Event M) → σ → Prop
  | nil (s : σ) : Accepts scene s [] s
  | cons {s s₁ s₂ : σ} {event : Event M} {events : List (Event M)}
      (h : (scene event).run s = .ok () s₁) (later : Accepts scene s₁ events s₂) :
      Accepts scene s (event :: events) s₂

theorem Accepts.append {scene : Scene M σ ε} {s s₁ s₂ : σ} {before after : List (Event M)}
    (h : scene.Accepts s before s₁) (later : scene.Accepts s₁ after s₂) :
    scene.Accepts s (before ++ after) s₂ := by
  induction h with
  | nil s => exact later
  | cons he _ ih => exact .cons he (ih later)

theorem Accepts.run_feed_bind {scene : Scene M σ ε} {s s' : σ} {events : List (Event M)}
    (h : scene.Accepts s events s') (go : Unit → EStateM (BuildError ε) σ α) :
    (scene.feed events >>= go).run s = (go ()).run s' := by
  induction h with
  | nil s => rfl
  | cons he _ ih =>
    rw [feed, bind_assoc, run_adaptExcept_bind, he]
    exact ih

theorem exists_accepts_of_run_feed_bind {scene : Scene M σ ε} {events : List (Event M)}
    {go : Unit → EStateM (BuildError ε) σ α} {a : α} {s s' : σ}
    (h : (scene.feed events >>= go).run s = .ok a s') :
    ∃ s₁, scene.Accepts s events s₁ ∧ (go ()).run s₁ = .ok a s' := by
  induction events generalizing s with
  | nil => exact ⟨s, .nil s, h⟩
  | cons event events ih =>
    rw [feed, bind_assoc, run_adaptExcept_bind] at h
    cases he : (scene event).run s with
    | error failure s₁ =>
      rw [he] at h
      cases h
    | ok _ s₁ =>
      rw [he] at h
      obtain ⟨s₂, haccepts, hgo⟩ := ih h
      exact ⟨s₂, .cons he haccepts, hgo⟩

theorem NeverFails.accepts {scene : Scene M σ ε} (h : scene.NeverFails)
    (events : List (Event M)) (s : σ) : ∃ s', scene.Accepts s events s' := by
  induction events generalizing s with
  | nil => exact ⟨s, .nil s⟩
  | cons event events ih =>
    obtain ⟨s₁, he⟩ := h event s
    obtain ⟨s', hlater⟩ := ih s₁
    exact ⟨s', .cons he hlater⟩

theorem accepts_recorder {ε : Type} (events : List (Event M)) (kept : Array (Event M)) :
    (recorder (ε := ε)).Accepts kept events (kept ++ events.toArray) := by
  induction events generalizing kept with
  | nil =>
    rw [Array.append_empty]
    exact .nil kept
  | cons event events ih =>
    have hkept : kept ++ (event :: events).toArray = kept.push event ++ events.toArray := by
      simp
    rw [hkept]
    exact .cons rfl (ih (kept.push event))

end Scene

/-- A failure in which no scene has a part. -/
def BuildError.sceneless {ε : Type} : BuildError Empty → BuildError ε
  | .rejected diagnostics => .rejected diagnostics
  | .unreadable => .unreadable
  | .rule diagnostic => .rule diagnostic

theorem BuildError.sceneless_self (e : BuildError Empty) : e.sceneless = e := by
  cases e with
  | scene failure => exact failure.elim
  | _ => rfl

/-- Some events, and the end that a run comes to when they are all accepted. -/
structure Delivery (M α : Type) where
  events : List (Event M)
  result : Except (BuildError Empty) α

namespace Delivery
variable {M σ ε α : Type}

def finish : Except (BuildError Empty) α → EStateM (BuildError ε) σ α
  | .ok value => pure value
  | .error e => throw e.sceneless

def give (d : Delivery M α) (scene : Scene M σ ε) : EStateM (BuildError ε) σ α := do
  scene.feed d.events
  finish d.result

/-- What a run hands to a scene that refuses nothing. -/
def ofRun (run : EStateM (BuildError Empty) (Array (Event M)) α) : Delivery M α :=
  match run.run #[] with
  | .ok value events => ⟨events.toList, .ok value⟩
  | .error e events => ⟨events.toList, .error e⟩

theorem accepts_of_run_give {d : Delivery M α} {scene : Scene M σ ε} {value : α} {s s' : σ}
    (h : (d.give scene).run s = .ok value s') :
    scene.Accepts s d.events s' ∧ d.result = .ok value := by
  obtain ⟨s₁, haccepts, hfinish⟩ := Scene.exists_accepts_of_run_feed_bind h
  cases hresult : d.result with
  | error e =>
    rw [hresult] at hfinish
    cases hfinish
  | ok done =>
    rw [hresult] at hfinish
    cases hfinish
    exact ⟨haccepts, rfl⟩

theorem ofRun_give (d : Delivery M α) : ofRun (d.give Scene.recorder) = d := by
  obtain ⟨events, result⟩ := d
  have hkept : (#[] ++ events.toArray).toList = events := by simp
  rw [ofRun, give, (Scene.accepts_recorder events #[]).run_feed_bind]
  cases result with
  | ok value =>
    change Delivery.mk (#[] ++ events.toArray).toList _ = _
    rw [hkept]
  | error e =>
    change Delivery.mk (#[] ++ events.toArray).toList (.error e.sceneless) = _
    rw [hkept, BuildError.sceneless_self]

theorem give_append (before after : List (Event M)) (result : Except (BuildError Empty) α)
    (scene : Scene M σ ε) :
    (Delivery.mk (before ++ after) result).give scene =
      scene.feed before >>= fun _ => (Delivery.mk after result).give scene := by
  rw [give, Scene.feed_append, bind_assoc]
  rfl

end Delivery

theorem Scene.NeverFails.run_give {M σ ε α : Type} {scene : Scene M σ ε} (h : scene.NeverFails)
    (d : Delivery M α) (s : σ) :
    ∃ s', scene.Accepts s d.events s' ∧
      (d.give scene).run s = (Delivery.finish d.result).run s' := by
  obtain ⟨s', haccepts⟩ := h.accepts d.events s
  exact ⟨s', haccepts, haccepts.run_feed_bind _⟩

namespace Deed
variable {M : Type}

def drawn : Deed M → List (Drawing M)
  | .draw drawing => [drawing]
  | _ => []

theorem feed_drawn {σ ε : Type} (scene : Scene M σ ε) (m : Machine M) (deed : Deed M) :
    scene.feed (deed.drawn.map .draw) = (scene.observer m deed).adaptExcept .scene := by
  cases deed with
  | draw drawing => exact bind_pure_unit
  | _ => rfl

end Deed

namespace Machine
variable {M σ ε : Type} [Mul M]

theorem Move.objects_eq {p : Program M} {m after : Machine M} {frame : Frame M}
    {below : List (Frame M)} {deed : Deed M} (h : Move p m frame below deed after) :
    after.stats.objects = m.stats.objects + deed.drawn.length := by
  cases h with
  | enter ha he hd hp =>
    obtain rfl := congrArg Prod.snd hp
    rfl
  | _ => rfl

variable [One M]

/-- What a machine draws, with rules of its program still to begin, and how it ends. -/
inductive Expands (p : Program M) :
    Machine M → List (Rule M) → List (Drawing M) → Except Diagnostic (Machine M) → Prop
  | done {m : Machine M} (hs : m.stack = []) : Expands p m [] [] (.ok m)
  | spent {m : Machine M} {rules : List (Rule M)} (hb : m.isSpent = true) :
      Expands p m rules [] (.ok (m.withStack []))
  | start {m : Machine M} {rule : Rule M} {rules : List (Rule M)} {drawings : List (Drawing M)}
      {ending : Except Diagnostic (Machine M)} (hs : m.stack = []) (hb : m.isSpent = false)
      (later : Expands p (m.push rule ⟨1, .pureRed⟩) rules drawings ending) :
      Expands p m (rule :: rules) drawings ending
  | fail {m : Machine M} {rules : List (Rule M)} {frame : Frame M} {below : List (Frame M)}
      {diagnostic : Diagnostic} (hs : m.stack = frame :: below) (hb : m.isSpent = false)
      (hm : m.step p frame below = .error diagnostic) : Expands p m rules [] (.error diagnostic)
  | step {m next : Machine M} {rules : List (Rule M)} {frame : Frame M} {below : List (Frame M)}
      {deed : Deed M} {drawings : List (Drawing M)} {ending : Except Diagnostic (Machine M)}
      (hs : m.stack = frame :: below) (hb : m.isSpent = false)
      (hm : m.step p frame below = .ok (deed, next))
      (later : Expands p next rules drawings ending) :
      Expands p m rules (deed.drawn ++ drawings) ending

theorem exists_expands_of_stack {p : Program M} {rules : List (Rule M)}
    (hstart : ∀ m : Machine M, m.stack = [] → m.isSpent = false →
      ∃ drawings ending, Expands p m rules drawings ending) (m : Machine M) :
    ∃ drawings ending, Expands p m rules drawings ending := by
  induction m using step_induction p with
  | step m ih =>
    cases hb : m.isSpent with
    | true => exact ⟨[], _, .spent hb⟩
    | false =>
      cases hs : m.stack with
      | nil => exact hstart m hs hb
      | cons frame below =>
        cases hm : m.step p frame below with
        | error diagnostic => exact ⟨[], _, .fail hs hb hm⟩
        | ok moved =>
          obtain ⟨drawings, ending, hlater⟩ := ih hs hm
          exact ⟨_, ending, .step hs hb hm hlater⟩

theorem exists_expands (p : Program M) (rules : List (Rule M)) (m : Machine M) :
    ∃ drawings ending, Expands p m rules drawings ending := by
  -- between two rules the machine has an empty stack and goes on with the next
  induction rules generalizing m with
  | nil => exact exists_expands_of_stack (fun m hs _ => ⟨[], .ok m, .done hs⟩) m
  | cons rule rules ih =>
    refine exists_expands_of_stack (fun m hs hb => ?_) m
    obtain ⟨drawings, ending, hlater⟩ := ih (m.push rule ⟨1, .pureRed⟩)
    exact ⟨drawings, ending, .start hs hb hlater⟩

/-- The same by computation, for so many moves at most. -/
def expandFor (p : Program M) :
    Nat → Machine M → List (Rule M) → Option (List (Drawing M) × Machine M)
  | 0, _, _ => none
  | moves + 1, m, rules =>
    if m.isSpent then some ([], m.withStack [])
    else
      match m.stack, rules with
      | [], [] => some ([], m)
      | [], rule :: rules => expandFor p moves (m.push rule ⟨1, .pureRed⟩) rules
      | frame :: below, rules =>
        match m.step p frame below with
        | .error _ => none
        | .ok (deed, next) =>
          (expandFor p moves next rules).map fun (drawings, after) =>
            (deed.drawn ++ drawings, after)

theorem expands_of_expandFor {p : Program M} {moves : Nat} {m after : Machine M}
    {rules : List (Rule M)} {drawings : List (Drawing M)}
    (h : expandFor p moves m rules = some (drawings, after)) :
    Expands p m rules drawings (.ok after) := by
  induction moves generalizing m rules drawings with
  | zero => cases h
  | succ moves ih =>
    cases hb : m.isSpent with
    | true =>
      unfold expandFor at h
      rw [if_pos hb] at h
      cases h
      exact .spent hb
    | false =>
      cases hs : m.stack with
      | nil =>
        cases rules with
        | nil =>
          simp only [expandFor, hb, hs] at h
          cases h
          exact .done hs
        | cons rule rules =>
          simp only [expandFor, hb, hs] at h
          exact .start hs hb (ih h)
      | cons frame below =>
        cases hm : m.step p frame below with
        | error diagnostic =>
          simp only [expandFor, hb, hs, hm] at h
          cases h
        | ok moved =>
          simp only [expandFor, hb, hs, hm] at h
          obtain ⟨⟨later, last⟩, hlater, heq⟩ := Option.map_eq_some_iff.1 h
          cases heq
          exact .step hs hb hm (ih hlater)

/-- The rules that are left are not begun, for the budget stays spent. -/
theorem drain_drainAll_of_spent {p : Program M} {observe : Observer M σ ε} {m : Machine M}
    (hb : m.isSpent = true) (rules : List (Rule M)) :
    (drain p observe m >>= fun m => drainAll p observe m rules) = pure (m.withStack []) := by
  have hdrain : drain p observe m = pure (m.withStack []) := by
    cases hs : m.stack with
    | nil => rw [drain_of_nil hs, withStack, ← hs]
    | cons frame below => exact drain_of_spent hs hb
  have hstop : drainAll p observe (m.withStack []) rules = pure (m.withStack []) := by
    cases rules with
    | nil => rfl
    | cons rule rules =>
      have hb' : (m.withStack []).isSpent = true := hb
      rw [drainAll, if_pos hb']
  rw [hdrain, pure_bind, hstop]

theorem Expands.run_eq {p : Program M} {m : Machine M} {rules : List (Rule M)}
    {drawings : List (Drawing M)} {ending : Except Diagnostic (Machine M)}
    (h : Expands p m rules drawings ending) (scene : Scene M σ ε) :
    (drain p scene.observer m >>= fun m => drainAll p scene.observer m rules) =
      (Delivery.mk (drawings.map .draw) (ending.mapError .rule)).give scene := by
  induction h with
  | done hs =>
    rw [drain_of_nil hs]
    rfl
  | @spent m rules hb =>
    rw [drain_drainAll_of_spent hb]
    rfl
  | start hs hb later ih =>
    rw [drain_of_nil hs, pure_bind, drainAll, hb]
    exact ih
  | fail hs hb hm =>
    rw [drain_of_error hs hb hm]
    rfl
  | @step m next rules frame below deed drawings ending hs hb hm later ih =>
    rw [drain_of_step hs hb hm, List.map_append, Delivery.give_append, Deed.feed_drawn scene m,
      bind_assoc, ih]

theorem Expands.objects_eq {p : Program M} {m after : Machine M} {rules : List (Rule M)}
    {drawings : List (Drawing M)} {ending : Except Diagnostic (Machine M)}
    (h : Expands p m rules drawings ending) (he : ending = .ok after) :
    after.stats.objects = m.stats.objects + drawings.length := by
  induction h with
  | done hs =>
    cases he
    rfl
  | spent hb =>
    cases he
    rfl
  | start hs hb later ih => exact ih he
  | fail hs hb hm => cases he
  | step hs hb hm later ih =>
    have hdrawn := (step_eq_ok_iff.1 hm).objects_eq
    have hlater := ih he
    rw [List.length_append]
    omega

end Machine

namespace Program
variable {M σ ε : Type} [Mul M] [One M]

def opening (p : Program M) : List (Event M) :=
  [.background p.settings.background, .camera p.settings.camera]

def delivery (p : Program M) (streams : Streams) : Delivery M Stats :=
  .ofRun (p.expandFrom streams Scene.recorder)

theorem expandFrom_eq_give_of_expands {p : Program M} {streams : Streams}
    {drawings : List (Drawing M)} {ending : Except Diagnostic (Machine M)}
    (h : Machine.Expands p (.start p streams) p.initial drawings ending) (scene : Scene M σ ε) :
    p.expandFrom streams scene =
      (Delivery.mk (p.opening ++ drawings.map .draw)
        ((ending.map Machine.stats).mapError .rule)).give scene := by
  have hrun := h.run_eq scene
  rw [Machine.drain_of_nil rfl, pure_bind] at hrun
  rw [Delivery.give_append, expandFrom, hrun, opening]
  simp only [Scene.feed, bind_assoc, pure_bind, Delivery.give]
  cases ending <;> rfl

theorem delivery_eq {p : Program M} {streams : Streams}
    {drawings : List (Drawing M)} {ending : Except Diagnostic (Machine M)}
    (h : Machine.Expands p (.start p streams) p.initial drawings ending) :
    p.delivery streams =
      ⟨p.opening ++ drawings.map .draw, (ending.map Machine.stats).mapError .rule⟩ := by
  rw [delivery, expandFrom_eq_give_of_expands h, Delivery.ofRun_give]

theorem run_recorder_of_expands {p : Program M} {streams : Streams}
    {drawings : List (Drawing M)} {after : Machine M}
    (h : Machine.Expands p (.start p streams) p.initial drawings (.ok after)) :
    (p.expandFrom streams (Scene.recorder (ε := ε))).run #[] =
      .ok after.stats (#[] ++ (p.opening ++ drawings.map Event.draw).toArray) := by
  rw [expandFrom_eq_give_of_expands h, Delivery.give,
    (Scene.accepts_recorder _ #[]).run_feed_bind]
  rfl

/-- No scene changes what it is handed. -/
theorem expandFrom_eq_give (p : Program M) (streams : Streams) (scene : Scene M σ ε) :
    p.expandFrom streams scene = (p.delivery streams).give scene := by
  obtain ⟨drawings, ending, h⟩ := Machine.exists_expands p p.initial (.start p streams)
  rw [delivery_eq h, expandFrom_eq_give_of_expands h]

theorem Closed.exists_expands_ok {p : Program M} (hc : p.Closed) (streams : Streams) :
    ∃ drawings after,
      Machine.Expands p (.start p streams) p.initial drawings (.ok after) := by
  obtain ⟨drawings, ending, h⟩ := Machine.exists_expands p p.initial (.start p streams)
  obtain ⟨stats, events, hrun⟩ :=
    hc.expandFrom_ok (Scene.neverFails_recorder (ε := Empty)) streams #[]
  cases ending with
  | ok after => exact ⟨drawings, after, h⟩
  | error diagnostic =>
    have haccepts := Scene.accepts_recorder (ε := Empty) (p.opening ++ drawings.map .draw) #[]
    rw [expandFrom_eq_give_of_expands h, Delivery.give, haccepts.run_feed_bind] at hrun
    cases hrun

end Program

def delivered (source : String) (options : Options) : Delivery Matrix Stats :=
  .ofRun (build source options Scene.recorder)

section
variable {source : String}

/-- What is found out about a compiled program by computation. -/
theorem exists_compiled {α : Type} {f : Program Matrix → α} {a : α}
    (h : (compile source).toOption.map f = some a) : ∃ p, compile source = .ok p ∧ f p = a := by
  cases hc : compile source with
  | error faults =>
    rw [hc] at h
    cases h
  | ok p =>
    rw [hc] at h
    exact ⟨p, rfl, Option.some.inj h⟩

theorem build_of_error {σ ε : Type} {faults : List Diagnostic}
    (h : compile source = .error faults) (options : Options) (scene : Scene Matrix σ ε) :
    build source options scene = throw (.rejected faults) := by
  simp only [build, compileWith, h]

theorem run_build_of_error {σ ε : Type} {faults : List Diagnostic}
    (h : compile source = .error faults) (options : Options) (scene : Scene Matrix σ ε) (s : σ) :
    (build source options scene).run s = .error (.rejected faults) s := by
  rw [build_of_error h]
  rfl

theorem delivered_of_error {faults : List Diagnostic} (h : compile source = .error faults)
    (options : Options) : delivered source options = ⟨[], .error (.rejected faults)⟩ := by
  rw [delivered, build_of_error h]
  rfl

theorem build_of_compile {σ ε : Type} {p : Program Matrix} (h : compile source = .ok p)
    (options : Options) (scene : Scene Matrix σ ε) :
    build source options scene = (options.apply p).expand scene := by
  simp only [build, compileWith, h]

theorem delivered_of_compile {p : Program Matrix} (h : compile source = .ok p)
    (options : Options) :
    delivered source options = (options.apply p).delivery (options.apply p).streams := by
  rw [delivered, build_of_compile h, Program.expand, Program.delivery]

theorem build_eq_give {σ ε : Type} (source : String) (options : Options)
    (scene : Scene Matrix σ ε) :
    build source options scene = (delivered source options).give scene := by
  cases h : compile source with
  | error faults =>
    rw [delivered_of_error h, build_of_error h]
    rfl
  | ok p =>
    rw [build_of_compile h, delivered_of_compile h, Program.expand, Program.expandFrom_eq_give]

/-- The machine that a build starts from. -/
def startWith (options : Options) (p : Program Matrix) : Machine Matrix :=
  .start (options.apply p) (options.apply p).streams

theorem delivered_of_expands {p : Program Matrix} (h : compile source = .ok p) {options : Options}
    {drawings : List (Drawing Matrix)} {after : Machine Matrix}
    (hexpands : Machine.Expands (options.apply p) (startWith options p) p.initial drawings
      (.ok after)) :
    delivered source options = ⟨p.opening ++ drawings.map .draw, .ok after.stats⟩ ∧
      after.stats.objects = drawings.length := by
  constructor
  · rw [delivered_of_compile h, Program.delivery_eq hexpands]
    rfl
  · have hobjects := hexpands.objects_eq rfl
    have hzero : (startWith options p).stats.objects = 0 := rfl
    omega

theorem exists_expands_of_compile {p : Program Matrix} (h : compile source = .ok p)
    (options : Options) :
    ∃ drawings after, Machine.Expands (options.apply p) (startWith options p) p.initial drawings
      (.ok after) := by
  have hclosed : (options.apply p).Closed :=
    (Program.closed_apply options).2 (Program.closed_of_compile h)
  exact hclosed.exists_expands_ok (options.apply p).streams

end

end SceneGrammar

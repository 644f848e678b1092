import SceneGrammar.Proofs.Expansion.Delivery

/-!
# Machines in lockstep

Two machines, perhaps of two programs, that draw alike and fail alike in every step come to the same
end by the same count of steps.
-/

namespace SceneGrammar

namespace Machine
variable {M : Type} [Mul M] [One M]

/-- A relation of machines that holds on, whatever they do next. The rules that the second begins
and the drawings it makes are those of the first, changed by `onRule` and `onDrawing`. -/
structure Lockstep (p q : Program M) (onRule : Rule M → Rule M) (onDrawing : Drawing M → Drawing M)
    (Alike : Machine M → Machine M → Prop) : Prop where
  stats {m n : Machine M} (h : Alike m n) : n.stats = m.stats
  isSpent {m n : Machine M} (h : Alike m n) : n.isSpent = m.isSpent
  drop {m n : Machine M} (h : Alike m n) : Alike (m.withStack []) (n.withStack [])
  idle {m n : Machine M} (h : Alike m n) (hs : m.stack = []) : n.stack = []
  push {m n : Machine M} (h : Alike m n) (rule : Rule M) :
    Alike (m.push rule ⟨1, .pureRed⟩) (n.push (onRule rule) ⟨1, .pureRed⟩)
  fail {m n : Machine M} {frame : Frame M} {below : List (Frame M)} {diagnostic : Diagnostic}
    (h : Alike m n) (hs : m.stack = frame :: below)
    (hm : m.step p frame below = .error diagnostic) :
    ∃ frame' below', n.stack = frame' :: below' ∧ n.step q frame' below' = .error diagnostic
  move {m n next : Machine M} {frame : Frame M} {below : List (Frame M)} {deed : Deed M}
    (h : Alike m n) (hs : m.stack = frame :: below) (hm : Move p m frame below deed next) :
    ∃ frame' below' deed' next', n.stack = frame' :: below' ∧
      Move q n frame' below' deed' next' ∧ deed'.drawn = deed.drawn.map onDrawing ∧
      Alike next next'

variable {p q : Program M} {onRule : Rule M → Rule M} {onDrawing : Drawing M → Drawing M}
  {Alike : Machine M → Machine M → Prop}

theorem Lockstep.expands (hl : Lockstep p q onRule onDrawing Alike) {m n : Machine M}
    {rules : List (Rule M)} {drawings : List (Drawing M)} {ending : Except Diagnostic (Machine M)}
    (h : Expands p m rules drawings ending) (ha : Alike m n) :
    ∃ ending', Expands q n (rules.map onRule) (drawings.map onDrawing) ending' ∧
      ending'.map Machine.stats = ending.map Machine.stats := by
  induction h generalizing n with
  | done hs => exact ⟨.ok n, .done (hl.idle ha hs), congrArg Except.ok (hl.stats ha)⟩
  | spent hb =>
    rw [← hl.isSpent ha] at hb
    exact ⟨_, .spent hb, congrArg Except.ok (hl.stats (hl.drop ha))⟩
  | start hs hb later ih =>
    rw [← hl.isSpent ha] at hb
    obtain ⟨ending', hlater, hstats⟩ := ih (hl.push ha _)
    exact ⟨ending', .start (hl.idle ha hs) hb hlater, hstats⟩
  | fail hs hb hm =>
    rw [← hl.isSpent ha] at hb
    obtain ⟨frame', below', hs', hm'⟩ := hl.fail ha hs hm
    exact ⟨_, .fail hs' hb hm', rfl⟩
  | step hs hb hm later ih =>
    rw [← hl.isSpent ha] at hb
    obtain ⟨frame', below', deed', next', hs', hmove, hdrawn, halike⟩ :=
      hl.move ha hs (step_eq_ok_iff.1 hm)
    obtain ⟨ending', hlater, hstats⟩ := ih halike
    rw [List.map_append, ← hdrawn]
    exact ⟨ending', .step hs' hb hmove.step_eq hlater, hstats⟩

theorem Lockstep.delivery (hl : Lockstep p q onRule onDrawing Alike) {streams streams' : Streams}
    (hstart : Alike (.start p streams) (.start q streams'))
    (hinitial : q.initial = p.initial.map onRule) :
    ∃ (drawings : List (Drawing M)) (result : Except (BuildError Empty) Stats),
      p.delivery streams = ⟨p.opening ++ drawings.map .draw, result⟩ ∧
      q.delivery streams' = ⟨q.opening ++ (drawings.map onDrawing).map .draw, result⟩ := by
  obtain ⟨drawings, ending, hexpands⟩ := exists_expands p p.initial (.start p streams)
  obtain ⟨ending', hexpands', hstats⟩ := hl.expands hexpands hstart
  rw [← hinitial] at hexpands'
  refine ⟨drawings, _, Program.delivery_eq hexpands, ?_⟩
  rw [Program.delivery_eq hexpands', hstats]

end Machine

end SceneGrammar

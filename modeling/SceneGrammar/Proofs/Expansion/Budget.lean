import SceneGrammar.Proofs.Expansion.Delivery
import SceneGrammar.Proofs.Expansion.Halting
import SceneGrammar.Proofs.Grammar.Anonymous

/-!
# Limits on the objects

The caller's limit and the program's own are merged before the first step; a rule that sets a limit
while it is being done replaces both. So the objects stay within the caller's limit or the greatest
that a rule sets. Where no rule sets one, the limit does nothing but cut the drawings short.
-/

namespace SceneGrammar

namespace Rule
variable {M : Type}

/-- The limits on objects that its actions set. -/
def limits (r : Rule M) : List Nat :=
  r.actions.filterMap fun action =>
    match action.effect with
    | .set (.maxObjects count) => some count
    | _ => none

theorem mem_limits {r : Rule M} {action : Action M} {count : Nat} (ha : action ∈ r.actions)
    (he : action.effect = .set (.maxObjects count)) : count ∈ r.limits := by
  simp only [limits, List.mem_filterMap]
  exact ⟨action, ha, by simp [he]⟩

theorem KeepsSettings.limits_eq_nil {r : Rule M} (h : r.KeepsSettings) : r.limits = [] := by
  rw [limits, List.filterMap_eq_nil_iff]
  intro action ha
  cases he : action.effect with
  | set setting => exact absurd he (h action ha setting)
  | _ => rfl

end Rule

namespace Program
variable {M : Type}

/-- The limits on objects that the named rules set. -/
def limits (p : Program M) : List Nat := p.variants.flatMap Rule.limits

def greatestLimit (p : Program M) : Nat := p.limits.foldr max 0

theorem mem_limits_of_rule {p : Program M} (hk : p.AnonymousKeepSettings) {rule : Rule M}
    (hr : rule ∈ p.rules) {count : Nat} (hc : count ∈ rule.limits) : count ∈ p.limits := by
  rcases List.mem_append.1 hr with hr | hr
  · rw [(hk rule hr).limits_eq_nil] at hc
    cases hc
  · exact List.mem_flatMap.2 ⟨rule, hr, hc⟩

end Program

namespace Options

theorem exists_tighter_le (current : Option Nat) (limit : Nat) :
    ∃ count ≤ limit, tighter current (some limit) = some count := by
  cases current with
  | none => exact ⟨limit, Nat.le_refl _, rfl⟩
  | some count => exact ⟨min count limit, Nat.min_le_right _ _, rfl⟩

end Options

theorem Deed.length_drawn_le {M : Type} (deed : Deed M) : deed.drawn.length ≤ 1 := by
  cases deed <;> simp [drawn]

namespace Machine
variable {M : Type}

theorem objects_lt_of_isSpent {m : Machine M} {count : Nat}
    (hm : m.settings.maxObjects = some count) (hb : m.isSpent = false) :
    m.stats.objects < count := by
  simpa [isSpent, hm] using hb

/-- Neither the objects drawn nor those allowed are more than `bound`. -/
structure Within (m : Machine M) (bound : Nat) : Prop where
  limit : ∃ count ≤ bound, m.settings.maxObjects = some count
  objects : m.stats.objects ≤ bound

variable [Mul M]

theorem Move.within {p : Program M} {m after : Machine M} {frame : Frame M}
    {below : List (Frame M)} {deed : Deed M} {bound : Nat}
    (h : Move p m frame below deed after) (hw : m.Within bound) (hb : m.isSpent = false)
    (hset : ∀ count ∈ frame.rule.limits, count ≤ bound) : after.Within bound := by
  obtain ⟨⟨count, hle, hm⟩, -⟩ := hw
  have hlt := objects_lt_of_isSpent hm hb
  have hobjects := h.objects_eq
  have hdrawn := deed.length_drawn_le
  refine ⟨?_, by omega⟩
  rcases h.settings_eq with he | ⟨action, setting, ha, he, hsettings⟩
  · exact ⟨count, hle, by rw [he, hm]⟩
  · rw [hsettings]
    cases setting with
    | maxObjects count =>
      exact ⟨count, hset count (Rule.mem_limits (List.mem_of_getElem? ha) he), rfl⟩
    | _ => exact ⟨count, hle, hm⟩

variable [One M]

theorem Expands.within {p : Program M} {m after : Machine M} {rules : List (Rule M)}
    {drawings : List (Drawing M)} {ending : Except Diagnostic (Machine M)} {bound : Nat}
    (h : Expands p m rules drawings ending) (hr : Reachable p m)
    (hrules : ∀ rule ∈ rules, rule ∈ p.initial)
    (hset : ∀ rule ∈ p.rules, ∀ count ∈ rule.limits, count ≤ bound) (hw : m.Within bound)
    (he : ending = .ok after) : after.Within bound := by
  induction h with
  | done hs =>
    cases he
    exact hw
  | spent hb =>
    cases he
    exact ⟨hw.limit, hw.objects⟩
  | start hs hb later ih =>
    rw [List.forall_mem_cons] at hrules
    exact ih (hr.push hs hrules.1) hrules.2 ⟨hw.limit, hw.objects⟩ he
  | fail hs hb hm => cases he
  | step hs hb hm later ih =>
    have hmove := step_eq_ok_iff.1 hm
    have hwithin := hmove.within hw hb (hset _ (hr.rule_mem hs))
    exact ih (hr.step hs hm) hrules hwithin he

end Machine

/-- A limit of the caller holds as far as no rule sets a greater one. -/
theorem objects_le_of_limit {source : String} {p : Program Matrix} (hc : compile source = .ok p)
    (seed : Option Int64) (limit : Nat) :
    ∃ (drawings : List (Drawing Matrix)) (stats : Stats),
      delivered source ⟨seed, some limit⟩ =
        ⟨.background p.settings.background :: .camera p.settings.camera :: drawings.map .draw,
          .ok stats⟩ ∧
      stats.objects = drawings.length ∧ stats.objects ≤ max limit p.greatestLimit ∧
      ∀ {σ ε : Type} {scene : Scene Matrix σ ε}, scene.NeverFails → ∀ s, ∃ s',
        scene.Accepts s (delivered source ⟨seed, some limit⟩).events s' ∧
          (build source ⟨seed, some limit⟩ scene).run s = .ok stats s' := by
  obtain ⟨drawings, after, hexpands⟩ := exists_expands_of_compile hc ⟨seed, some limit⟩
  obtain ⟨hall, hobjects⟩ := delivered_of_expands hc hexpands
  have hset : ∀ rule ∈ (Options.apply ⟨seed, some limit⟩ p).rules, ∀ count ∈ rule.limits,
      count ≤ max limit p.greatestLimit := by
    intro rule hr count hcount
    have hmem := Program.mem_limits_of_rule (Program.anonymousKeepSettings_of_compile hc) hr hcount
    exact Nat.le_trans (le_foldr_max hmem) (Nat.le_max_right _ _)
  obtain ⟨count, hle, htighter⟩ := Options.exists_tighter_le p.settings.maxObjects limit
  have hstart : (startWith ⟨seed, some limit⟩ p).Within (max limit p.greatestLimit) :=
    ⟨⟨count, Nat.le_trans hle (Nat.le_max_left _ _), htighter⟩, Nat.zero_le _⟩
  have hwithin := hexpands.within (.start _) (fun _ h => h) hset hstart rfl
  refine ⟨drawings, after.stats, hall, hobjects, hwithin.objects, ?_⟩
  intro σ ε scene hn s
  obtain ⟨s', haccepts, hrun⟩ := hn.run_give (delivered source ⟨seed, some limit⟩) s
  refine ⟨s', haccepts, ?_⟩
  rw [build_eq_give, hrun, hall]
  rfl

/-- A rule that sets a limit of its own. -/
def selfLimited : String := "r\nrule r \x7b set maxobjects 2 box box \x7d"

theorem selfLimited_outcome :
    (compile selfLimited).toOption.map (fun p =>
      (p.greatestLimit, (Machine.expandFor (Options.apply ⟨none, some 1⟩ p) 8
        (startWith ⟨none, some 1⟩ p) p.initial).map (·.1.length))) = some (2, some 2) := by
  decide +kernel

theorem objects_le_of_limit_selfLimited :
    ∃ p, compile selfLimited = .ok p ∧ ∃ (drawings : List (Drawing Matrix)) (stats : Stats),
      delivered selfLimited ⟨none, some 1⟩ =
        ⟨.background p.settings.background :: .camera p.settings.camera :: drawings.map .draw,
          .ok stats⟩ ∧
      stats.objects = drawings.length ∧ stats.objects ≤ 2 := by
  obtain ⟨p, hc, houtcome⟩ := exists_compiled selfLimited_outcome
  have hgreatest : p.greatestLimit = 2 := congrArg Prod.fst houtcome
  obtain ⟨drawings, stats, hall, hobjects, hle, -⟩ := objects_le_of_limit hc none 1
  rw [hgreatest] at hle
  exact ⟨p, hc, drawings, stats, hall, hobjects, hle⟩

theorem objects_beyond_limit :
    ∃ p, compile selfLimited = .ok p ∧ ∃ (drawings : List (Drawing Matrix)) (stats : Stats),
      delivered selfLimited ⟨none, some 1⟩ =
        ⟨.background p.settings.background :: .camera p.settings.camera :: drawings.map .draw,
          .ok stats⟩ ∧
      drawings.length = 2 ∧ stats.objects = 2 := by
  obtain ⟨p, hc, houtcome⟩ := exists_compiled selfLimited_outcome
  obtain ⟨⟨drawings, after⟩, hexpands, hlength⟩ :=
    Option.map_eq_some_iff.1 (congrArg Prod.snd houtcome)
  obtain ⟨hall, hobjects⟩ := delivered_of_expands hc (Machine.expands_of_expandFor hexpands)
  exact ⟨p, hc, drawings, after.stats, hall, hlength, hobjects.trans hlength⟩

def Settings.tighten (s : Settings) (limit : Nat) : Settings :=
  { s with maxObjects := Options.tighter s.maxObjects (some limit) }

theorem Settings.tighten_apply {s : Settings} {setting : Setting}
    (h : ∀ count, setting ≠ .maxObjects count) (limit : Nat) :
    (s.tighten limit).apply setting = (s.apply setting).tighten limit := by
  cases setting with
  | maxObjects count => exact absurd rfl (h count)
  | _ => rfl

def Program.tighten {M : Type} (p : Program M) (limit : Nat) : Program M :=
  { p with settings := p.settings.tighten limit }

theorem Options.apply_limit {M : Type} (p : Program M) (seed : Option Int64) (limit : Nat) :
    Options.apply ⟨seed, some limit⟩ p = (Options.apply ⟨seed, .none⟩ p).tighten limit := by
  have htighter : tighter p.settings.maxObjects .none = p.settings.maxObjects := by
    cases p.settings.maxObjects <;> rfl
  simp only [Options.apply, Program.tighten, Settings.tighten, htighter]

namespace Machine
variable {M : Type}

def tighten (m : Machine M) (limit : Nat) : Machine M :=
  { m with settings := m.settings.tighten limit }

theorem isSpent_tighten (m : Machine M) (limit : Nat) :
    (m.tighten limit).isSpent = (m.isSpent || decide (limit ≤ m.stats.objects)) := by
  unfold isSpent tighten Settings.tighten
  cases m.settings.maxObjects with
  | none => rfl
  | some count =>
    change decide (min count limit ≤ m.stats.objects) =
      (decide (count ≤ m.stats.objects) || decide (limit ≤ m.stats.objects))
    rw [← Bool.decide_or, decide_eq_decide]
    omega

theorem isSpent_tighten_of_lt {m : Machine M} {limit : Nat} (hb : m.isSpent = false)
    (hlt : m.stats.objects < limit) : (m.tighten limit).isSpent = false := by
  rw [isSpent_tighten, hb, Bool.false_or, decide_eq_false_iff_not]
  omega

theorem change_tighten {p : Program M} {m : Machine M} {setting : Setting}
    (h : ∀ count, setting ≠ .maxObjects count) (limit : Nat) :
    (m.tighten limit).change (p.tighten limit) setting = (m.change p setting).tighten limit := by
  have hstreams : ((m.tighten limit).change (p.tighten limit) setting).streams =
      (m.change p setting).streams := by
    cases setting <;> rfl
  exact Machine.ext (Settings.tighten_apply h limit) hstreams rfl rfl

variable [Mul M]

theorem proceed_tighten (m : Machine M) (frame : Frame M) (below : List (Frame M)) (limit : Nat) :
    (m.tighten limit).proceed frame below = (m.proceed frame below).tighten limit := rfl

theorem Move.tighten {p : Program M} {m after : Machine M} {frame : Frame M}
    {below : List (Frame M)} {deed : Deed M} (h : Move p m frame below deed after)
    (hset : frame.rule.limits = []) (limit : Nat) :
    Move (p.tighten limit) (m.tighten limit) frame below deed (after.tighten limit) := by
  cases h with
  | leave ha => exact .leave ha
  | draw ha he => exact .draw ha he
  | @change action setting ha he =>
    have hother : ∀ count, setting ≠ .maxObjects count := by
      rintro count rfl
      have hmem := Rule.mem_limits (List.mem_of_getElem? ha) he
      rw [hset] at hmem
      cases hmem
    have hchange : (m.tighten limit).stepped.change (p.tighten limit) setting =
        (m.stepped.change p setting).tighten limit :=
      change_tighten (p := p) (m := m.stepped) hother limit
    rw [← proceed_tighten, ← hchange]
    exact .change ha he
  | prune ha he hd =>
    have hd' : (m.tighten limit).isDeepest = true := hd
    exact .prune ha he hd'
  | @enter action name i rule chosen ha he hd hp =>
    have hp' : (m.tighten limit).stepped.drawGeometry
        ((p.tighten limit).pick name (some action.line) Draw.unit) =
          (.ok (i, rule), chosen.tighten limit) :=
      congrArg (fun drawn => (drawn.1, drawn.2.tighten limit)) hp
    have hd' : (m.tighten limit).isDeepest = false := hd
    exact .enter ha he hd' hp'

variable [One M]

theorem exists_expands_tighten_of_le {p : Program M} {m : Machine M} {limit : Nat}
    (h : limit ≤ m.stats.objects) (rules : List (Rule M)) (drawings : List (Drawing M)) :
    ∃ after, Expands (p.tighten limit) (m.tighten limit) rules
      (drawings.take (limit - m.stats.objects)) (.ok after) := by
  rw [Nat.sub_eq_zero_of_le h, List.take_zero]
  exact ⟨_, .spent (by rw [isSpent_tighten, decide_eq_true h, Bool.or_true])⟩

/-- The tightened machine goes the same way until it has drawn as much as it may. -/
theorem Expands.tighten {p : Program M} {m after : Machine M} {rules : List (Rule M)}
    {drawings : List (Drawing M)} {ending : Except Diagnostic (Machine M)}
    (h : Expands p m rules drawings ending) (hr : Reachable p m)
    (hrules : ∀ rule ∈ rules, rule ∈ p.initial) (hset : ∀ rule ∈ p.rules, rule.limits = [])
    (he : ending = .ok after) (limit : Nat) :
    ∃ after', Expands (p.tighten limit) (m.tighten limit) rules
      (drawings.take (limit - m.stats.objects)) (.ok after') := by
  induction h with
  | done hs =>
    rw [List.take_nil]
    exact ⟨_, .done hs⟩
  | @spent m rules hb =>
    rw [List.take_nil]
    exact ⟨_, .spent (by rw [isSpent_tighten, hb, Bool.true_or])⟩
  | @start m rule rules drawings ending hs hb later ih =>
    rw [List.forall_mem_cons] at hrules
    rcases Nat.lt_or_ge m.stats.objects limit with hlt | hge
    · obtain ⟨after', hlater⟩ := ih (hr.push hs hrules.1) hrules.2 he
      exact ⟨after', .start hs (isSpent_tighten_of_lt hb hlt) hlater⟩
    · exact exists_expands_tighten_of_le hge _ _
  | fail hs hb hm => cases he
  | @step m next rules frame below deed drawings ending hs hb hm later ih =>
    rcases Nat.lt_or_ge m.stats.objects limit with hlt | hge
    · have hmove := step_eq_ok_iff.1 hm
      have hobjects := hmove.objects_eq
      have hdrawn := deed.length_drawn_le
      have htake : (deed.drawn ++ drawings).take (limit - m.stats.objects) =
          deed.drawn ++ drawings.take (limit - next.stats.objects) := by
        rw [List.take_append, List.take_of_length_le (by omega), hobjects, Nat.sub_sub]
      have hstep := (hmove.tighten (hset _ (hr.rule_mem hs)) limit).step_eq
      obtain ⟨after', hlater⟩ := ih (hr.step hs hm) hrules he
      rw [htake]
      exact ⟨after', .step hs (isSpent_tighten_of_lt hb hlt) hstep hlater⟩
    · exact exists_expands_tighten_of_le hge _ _

end Machine

/-- Where no rule sets a limit, the caller's only cuts the drawings short. -/
theorem drawings_take_of_limit {source : String} {p : Program Matrix}
    (hc : compile source = .ok p) (hset : p.limits = []) (seed : Option Int64) (limit : Nat) :
    ∃ (drawings : List (Drawing Matrix)) (stats statsWithin : Stats),
      delivered source ⟨seed, none⟩ =
        ⟨.background p.settings.background :: .camera p.settings.camera :: drawings.map .draw,
          .ok stats⟩ ∧
      delivered source ⟨seed, some limit⟩ =
        ⟨.background p.settings.background :: .camera p.settings.camera ::
          (drawings.take limit).map .draw, .ok statsWithin⟩ ∧
      stats.objects = drawings.length ∧ statsWithin.objects = min limit stats.objects ∧
      ∀ {σ ε : Type} (scene : Scene Matrix σ ε) (options : Options),
        build source options scene = (delivered source options).give scene := by
  obtain ⟨drawings, after, hexpands⟩ := exists_expands_of_compile hc ⟨seed, none⟩
  have hrules : ∀ rule ∈ (Options.apply ⟨seed, none⟩ p).rules, rule.limits = [] := by
    intro rule hr
    refine List.eq_nil_iff_forall_not_mem.2 fun count hcount => ?_
    have hmem := Program.mem_limits_of_rule (Program.anonymousKeepSettings_of_compile hc) hr hcount
    rw [hset] at hmem
    cases hmem
  obtain ⟨within, htake⟩ := hexpands.tighten (.start _) (fun _ h => h) hrules rfl limit
  have hstart : (startWith ⟨seed, none⟩ p).tighten limit = startWith ⟨seed, some limit⟩ p := by
    rw [startWith, startWith, Options.apply_limit]
    rfl
  rw [hstart, ← Options.apply_limit] at htake
  obtain ⟨hall, hobjects⟩ := delivered_of_expands hc hexpands
  obtain ⟨hcut, hwithin⟩ := delivered_of_expands hc htake
  refine ⟨drawings, after.stats, within.stats, hall, hcut, hobjects, ?_, fun scene options => ?_⟩
  · have hzero : (startWith ⟨seed, none⟩ p).stats.objects = 0 := rfl
    rw [hwithin, List.length_take, hobjects, hzero, Nat.sub_zero]
  · exact build_eq_give source options scene

theorem towers_limits : (compile towers).toOption.map Program.limits = some [] := by
  decide +kernel

theorem drawings_take_of_limit_towers :
    ∃ p, compile towers = .ok p ∧ p.limits = [] ∧
      ∃ (drawings : List (Drawing Matrix)) (stats statsWithin : Stats),
        delivered towers ⟨some 5, none⟩ =
          ⟨.background p.settings.background :: .camera p.settings.camera :: drawings.map .draw,
            .ok stats⟩ ∧
        delivered towers ⟨some 5, some 40⟩ =
          ⟨.background p.settings.background :: .camera p.settings.camera ::
            (drawings.take 40).map .draw, .ok statsWithin⟩ ∧
        statsWithin.objects = min 40 stats.objects := by
  obtain ⟨p, hc, hlimits⟩ := exists_compiled towers_limits
  obtain ⟨drawings, stats, statsWithin, hall, hcut, -, hobjects, -⟩ :=
    drawings_take_of_limit hc hlimits (some 5) 40
  exact ⟨p, hc, hlimits, drawings, stats, statsWithin, hall, hcut, hobjects⟩

end SceneGrammar

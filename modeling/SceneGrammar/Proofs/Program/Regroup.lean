import SceneGrammar.Proofs.Expansion.Delivery
import SceneGrammar.Proofs.Program.Groups
import SceneGrammar.Proofs.Program.Renumber

/-!
# Groups in another order

A group is looked up by its name. So two programs with the same groups, be it in another order,
report the same invocations, choose the same variants and deliver the same.
-/

namespace SceneGrammar

namespace Program
variable {M : Type} {p q : Program M}

/-- The same program but for the order of its groups. -/
structure Regroups (p q : Program M) : Prop where
  settings : p.settings = q.settings
  initial : p.initial = q.initial
  group : ∀ name, p.group? name = q.group? name
  rules : p.rules.Perm q.rules

namespace Regroups

theorem refl (p : Program M) : p.Regroups p := ⟨rfl, rfl, fun _ => rfl, .refl _⟩

theorem defines_eq (h : p.Regroups q) (name : String) : p.Defines name = q.Defines name := by
  rw [Defines, Defines, h.group]

theorem perm_dangling (h : p.Regroups q) {rules rules' : List (Rule M)} (hr : rules.Perm rules') :
    (p.dangling rules).Perm (q.dangling rules') := by
  have hdefines : (!p.Defines ·) = (!q.Defines ·) :=
    funext fun name => congrArg (!·) (h.defines_eq name)
  rw [dangling, dangling, hdefines]
  exact (hr.flatMap_right _).filter _

end Regroups

theorem perm_validate (p : Program M) :
    p.validate.Perm ((p.dangling p.rules).map (Diagnostic.unknownRule · none)) := by
  rw [validate, rules]
  refine List.Perm.map _ ?_
  rw [dangling, dangling, dangling, List.flatMap_append, List.filter_append]
  exact (List.mergeSort_perm _ _).append_left _

theorem rules_normalize (p : Program M) : p.normalize.rules = p.rules := by
  rw [rules, variants_normalize]
  rfl

theorem rules_mapRules (f : Rule M → Rule M) (p : Program M) :
    (p.mapRules f).rules = p.rules.map f := by
  rw [rules, variants_mapRules, rules, List.map_append]
  rfl

namespace Regroups

theorem perm_validate (h : p.Regroups q) : p.validate.Perm q.validate :=
  (p.perm_validate.trans ((h.perm_dangling h.rules).map _)).trans q.perm_validate.symm

theorem normalize (h : p.Regroups q) : p.normalize.Regroups q.normalize where
  settings := h.settings
  initial := h.initial
  group name := by rw [group?_normalize, group?_normalize, h.group]
  rules := by rw [rules_normalize, rules_normalize]; exact h.rules

theorem mapRules (h : p.Regroups q) (f : Rule M → Rule M) :
    (p.mapRules f).Regroups (q.mapRules f) where
  settings := h.settings
  initial := congrArg (List.map f) h.initial
  group name := by rw [group?_mapRules, group?_mapRules, h.group]
  rules := by rw [rules_mapRules, rules_mapRules]; exact h.rules.map f

theorem renumber (h : p.Regroups q) (f : Nat → Nat) : (p.renumber f).Regroups (q.renumber f) :=
  h.mapRules _

theorem apply (h : p.Regroups q) (options : Options) :
    (options.apply p).Regroups (options.apply q) where
  settings := by rw [Options.apply, Options.apply, h.settings]
  initial := h.initial
  group := h.group
  rules := h.rules

theorem withSettings (h : p.Regroups q) (change : Settings → Settings) :
    ({ p with settings := change p.settings } : Program M).Regroups
      { q with settings := change q.settings } where
  settings := congrArg change h.settings
  initial := h.initial
  group := h.group
  rules := h.rules

theorem addRule (h : p.Regroups q) (weight : Float) (rule : Rule M) :
    (p.addRule weight rule).Regroups (q.addRule weight rule) where
  settings := by
    rw [Program.addRule, Program.addRule]
    cases rule.name <;> exact h.settings
  initial := by
    rw [Program.addRule, Program.addRule]
    cases rule.name with
    | none => exact congrArg (· ++ [rule]) h.initial
    | some name => exact h.initial
  group name := by rw [group?_addRule, group?_addRule, h.group]
  rules := (p.perm_rules_addRule weight rule).trans
    ((h.rules.cons rule).trans (q.perm_rules_addRule weight rule).symm)

theorem pick_eq (h : p.Regroups q) (name : String) (line : Option Nat) (draw : Draw Float) :
    p.pick name line draw = q.pick name line draw := by
  rw [pick, pick, h.group]

theorem streams_eq (h : p.Regroups q) : p.streams = q.streams := by
  rw [streams, streams, seed, seed, h.settings]

end Regroups

/-- Rules of different names go to different groups. -/
theorem regroups_addRule_comm (p : Program M) {weight weight' : Float} {rule rule' : Rule M}
    (hrule : rule.name ≠ none) (hrule' : rule'.name ≠ none) (hne : rule.name ≠ rule'.name) :
    ((p.addRule weight rule).addRule weight' rule').Regroups
      ((p.addRule weight' rule').addRule weight rule) := by
  obtain ⟨name, hname⟩ := Option.ne_none_iff_exists'.1 hrule
  obtain ⟨name', hname'⟩ := Option.ne_none_iff_exists'.1 hrule'
  refine ⟨?_, ?_, fun other => ?_, ?_⟩
  · simp only [addRule, hname, hname']
  · simp only [addRule, hname, hname']
  · simp only [group?_addRule]
    by_cases hother : rule.name = some other
    · have hother' : rule'.name ≠ some other := fun he => hne (hother.trans he.symm)
      simp only [if_pos hother, if_neg hother']
    · simp only [if_neg hother]
  · have hadd := (p.perm_rules_addRule weight rule).cons rule'
    have hadd' := (p.perm_rules_addRule weight' rule').cons rule
    exact ((perm_rules_addRule _ weight' rule').trans hadd).trans
      ((List.Perm.swap _ _ _).trans (hadd'.symm.trans (perm_rules_addRule _ weight rule).symm))

end Program

namespace Machine
variable {M : Type} [Mul M] {p q : Program M}

omit [Mul M] in
theorem change_eq_of_regroups (h : p.Regroups q) (m : Machine M) (setting : Setting) :
    m.change p setting = m.change q setting := by
  cases setting with
  | initialSeed => exact congrArg (Machine.mk _ · m.stack m.stats) h.streams_eq
  | _ => rfl

theorem invoke_eq_of_regroups (h : p.Regroups q) (m : Machine M) (name : String) (line : Nat)
    (frame : Frame M) (below : List (Frame M)) :
    m.invoke p name line frame below = m.invoke q name line frame below := by
  rw [invoke, invoke, h.pick_eq]

theorem step_eq_of_regroups (h : p.Regroups q) (m : Machine M) (frame : Frame M)
    (below : List (Frame M)) : m.step p frame below = m.step q frame below := by
  cases ha : frame.action? with
  | none => rw [step, step, ha]
  | some action =>
    rw [step_of_action ha, step_of_action ha]
    cases action.effect with
    | draw => rfl
    | set setting =>
      have hchange := change_eq_of_regroups h m.stepped setting
      exact congrArg (fun next => Except.ok (Deed.change setting, next.proceed frame below)) hchange
    | invoke name => exact invoke_eq_of_regroups h m.stepped name action.line frame below

variable [One M]

theorem Expands.of_regroups {m : Machine M} {rules : List (Rule M)} {drawings : List (Drawing M)}
    {ending : Except Diagnostic (Machine M)} (h : p.Regroups q)
    (hexpands : Expands p m rules drawings ending) : Expands q m rules drawings ending := by
  induction hexpands with
  | done hs => exact .done hs
  | spent hb => exact .spent hb
  | start hs hb _ ih => exact .start hs hb ih
  | fail hs hb hm => exact .fail hs hb ((step_eq_of_regroups h _ _ _).symm.trans hm)
  | step hs hb hm _ ih => exact .step hs hb ((step_eq_of_regroups h _ _ _).symm.trans hm) ih

end Machine

theorem Program.Regroups.delivery_eq {M : Type} [Mul M] [One M] {p q : Program M}
    (h : p.Regroups q) (streams : Streams) : p.delivery streams = q.delivery streams := by
  obtain ⟨drawings, ending, hexpands⟩ := Machine.exists_expands p p.initial (.start p streams)
  have hexpands' := hexpands.of_regroups h
  have hstart : Machine.start p streams = .start q streams := by
    rw [Machine.start, Machine.start, h.settings]
  rw [hstart, h.initial] at hexpands'
  rw [Program.delivery_eq hexpands, Program.delivery_eq hexpands', Program.opening,
    Program.opening, h.settings]

end SceneGrammar

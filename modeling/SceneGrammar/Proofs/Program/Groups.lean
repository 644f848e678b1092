import SceneGrammar.Grammar.Construct
import SceneGrammar.Proofs.Expansion.Moves

/-!
# Groups of variants

Every rule with a name is filed in the group of that name, which is made for it if need be. So in a
program that was read a name has variants just if one of the rules bears it.
-/

namespace SceneGrammar

namespace Program
variable {M : Type}

theorem group?_addRule (p : Program M) (weight : Float) (rule : Rule M) (name : String) :
    (p.addRule weight rule).group? name =
      if rule.name = some name then some (((p.group? name).getD .empty).add weight rule)
      else p.group? name := by
  rw [addRule]
  cases hname : rule.name with
  | none => rfl
  | some other =>
    by_cases heq : other = name
    · subst heq
      rw [if_pos rfl]
      exact lookup_addTo_self other weight rule p.groups
    · rw [if_neg fun hsome => heq (Option.some.inj hsome)]
      exact lookup_addTo_of_ne (Ne.symm heq) weight rule p.groups

theorem perm_items_addTo (name : String) (weight : Float) (rule : Rule M)
    (groups : List (String × Variants M)) :
    ((addTo name weight rule groups).flatMap fun entry => entry.2.items).Perm
      (rule :: groups.flatMap fun entry => entry.2.items) := by
  induction groups with
  | nil => exact .refl _
  | cons entry groups ih =>
    obtain ⟨first, group⟩ := entry
    rw [addTo]
    split
    · rw [List.flatMap_cons, List.flatMap_cons, Roulette.items_add, List.append_assoc]
      exact List.perm_middle
    · rw [List.flatMap_cons, List.flatMap_cons]
      exact (ih.append_left _).trans List.perm_middle

theorem perm_rules_addRule (p : Program M) (weight : Float) (rule : Rule M) :
    (p.addRule weight rule).rules.Perm (rule :: p.rules) := by
  cases hname : rule.name with
  | none =>
    simp only [rules, addRule, hname, List.append_assoc]
    exact List.perm_middle
  | some name =>
    simp only [rules, addRule, hname]
    exact ((perm_items_addTo name weight rule p.groups).append_left _).trans List.perm_middle

/-- The group is not empty, and its variants bear its name. -/
structure FiledGroup (entry : String × Variants M) : Prop where
  nonempty : entry.2.items ≠ []
  named : ∀ rule ∈ entry.2.items, rule.name = some entry.1

def Filed (p : Program M) : Prop := ∀ entry ∈ p.groups, FiledGroup entry

theorem FiledGroup.add {name : String} {group : Variants M} (h : FiledGroup (name, group))
    {rule : Rule M} (hname : rule.name = some name) (weight : Float) :
    FiledGroup (name, group.add weight rule) where
  nonempty := by
    rw [Roulette.items_add]
    exact List.append_ne_nil_of_right_ne_nil _ (List.cons_ne_nil _ _)
  named other hother := by
    rw [Roulette.items_add] at hother
    rcases List.mem_append.1 hother with hother | hother
    · exact h.named other hother
    · rwa [List.mem_singleton.1 hother]

theorem filed_addTo {name : String} {rule : Rule M} (hname : rule.name = some name)
    (weight : Float) {groups : List (String × Variants M)}
    (h : ∀ entry ∈ groups, FiledGroup entry) :
    ∀ entry ∈ addTo name weight rule groups, FiledGroup entry := by
  induction groups with
  | nil =>
    intro entry hentry
    rw [List.mem_singleton.1 hentry]
    exact ⟨List.cons_ne_nil _ _, fun other hother => by rwa [List.mem_singleton.1 hother]⟩
  | cons first groups ih =>
    obtain ⟨other, group⟩ := first
    rw [List.forall_mem_cons] at h
    rw [addTo]
    split
    · rename_i heq
      subst heq
      exact List.forall_mem_cons.2 ⟨h.1.add hname weight, h.2⟩
    · exact List.forall_mem_cons.2 ⟨h.1, ih h.2⟩

theorem Filed.addRule {p : Program M} (h : p.Filed) (weight : Float) (rule : Rule M) :
    (p.addRule weight rule).Filed := by
  cases hname : rule.name with
  | none =>
    simp only [Program.addRule, hname]
    exact h
  | some name =>
    simp only [Program.addRule, hname]
    exact filed_addTo hname weight h

theorem Filed.defines_iff {p : Program M} (h : p.Filed) {name : String} :
    p.Defines name = true ↔ ∃ rule ∈ p.variants, rule.name = some name := by
  constructor
  · intro hdefines
    cases hgroup : p.group? name with
    | none =>
      rw [Defines, hgroup] at hdefines
      cases hdefines
    | some group =>
      have hfiled := h _ (mem_groups_of_group hgroup)
      obtain ⟨rule, hrule⟩ := List.exists_mem_of_ne_nil _ hfiled.nonempty
      exact ⟨rule, mem_variants_of_group hgroup hrule, hfiled.named rule hrule⟩
  · rintro ⟨rule, hrule, hname⟩
    obtain ⟨⟨other, group⟩, hentry, hrule⟩ := List.mem_flatMap.1 hrule
    have hother : other = name := Option.some.inj (((h _ hentry).named rule hrule).symm.trans hname)
    subst hother
    cases hfound : p.group? other with
    | none =>
      have hne := List.lookup_eq_none_iff.1 hfound _ hentry
      simp at hne
    | some found =>
      have hnonempty := (h _ (mem_groups_of_group hfound)).nonempty
      simpa [Defines, hfound, Roulette.isEmpty, Roulette.items] using hnonempty

theorem Filed.add {draft : Draft} (h : draft.program.Filed) (construct : Construct) :
    (draft.add construct).program.Filed := by
  cases construct with
  | directive => exact h
  | define => exact h
  | rule weight rule => exact h.addRule weight rule

end Program

end SceneGrammar

import SceneGrammar.Proofs.Build.Layout
import SceneGrammar.Proofs.Program.Groups
import SceneGrammar.Proofs.Scan.Recovery

/-!
# What is reported about a text

Reports come in the order of the phases: what could not be scanned, at most one report a line; then
what ended parsing, on the line of some token; or else every invocation that no variant answers to.
A text is accepted just if there is nothing to report.
-/

namespace SceneGrammar

/-! ## Scanning -/

namespace Piece

def fault? (p : Piece) : Option LexicalFault :=
  match p.content with
  | .fault cause => some cause
  | _ => none

theorem diagnostic?_eq (p : Piece) (number : Nat) :
    p.diagnostic? number =
      p.fault?.map fun cause => ⟨.lexical, cause.message, some number⟩ := by
  obtain ⟨text, content⟩ := p
  cases content <;> rfl

end Piece

/-- The faults in the lines, each with the number of its line. -/
def faultsFrom (first : Nat) : List (List Piece) → List (Nat × LexicalFault)
  | [] => []
  | row :: rows => (row.filterMap Piece.fault?).map (first, ·) ++ faultsFrom (first + 1) rows

theorem diagnostics_eq_faultsFrom (first : Nat) (rows : List (List Piece)) :
    (Scan.ofLines first rows).diagnostics =
      (faultsFrom first rows).map fun report =>
        ⟨.lexical, report.2.message, some report.1⟩ := by
  induction rows generalizing first with
  | nil => rfl
  | cons row rows ih =>
    have hrow : row.filterMap (Piece.diagnostic? first) = (row.filterMap Piece.fault?).map
        fun cause => ⟨.lexical, cause.message, some first⟩ := by
      rw [List.map_filterMap]
      exact List.filterMap_congr fun p _ => p.diagnostic?_eq first
    have hsplit : (Scan.ofLines first (row :: rows)).diagnostics =
        row.filterMap (Piece.diagnostic? first) ++
          (Scan.ofLines (first + 1) rows).diagnostics := rfl
    rw [hsplit, hrow, ih, faultsFrom, List.map_append, List.map_map]
    rfl

namespace Program
variable {M : Type}

/-- The names invoked in all rules, one for each time, that no named rule bears. -/
def unanswered (p : Program M) : List String :=
  ((p.initial ++ p.variants).flatMap Rule.invoked).filter fun name =>
    p.variants.all fun rule => rule.name ≠ some name

theorem Filed.unanswered_eq {p : Program M} (h : p.Filed) :
    p.unanswered = p.dangling p.initial ++ p.dangling p.variants := by
  have hanswered (name : String) :
      (p.variants.all fun rule => rule.name ≠ some name) = !p.Defines name := by
    cases hdefines : p.Defines name with
    | true =>
      obtain ⟨rule, hrule, hname⟩ := h.defines_iff.1 hdefines
      exact List.all_eq_false.2 ⟨rule, hrule, by simp [hname]⟩
    | false =>
      refine List.all_eq_true.2 fun rule hrule => decide_eq_true fun hname => ?_
      rw [h.defines_iff.2 ⟨rule, hrule, hname⟩] at hdefines
      cases hdefines
  simp only [unanswered, dangling, hanswered, List.flatMap_append, List.filter_append]

theorem Filed.perm_validate {p : Program M} (h : p.Filed) :
    p.validate.Perm
      (p.unanswered.map fun name => ⟨.semantic, "Undefined rule: " ++ name, none⟩) := by
  rw [validate, h.unanswered_eq]
  exact ((List.mergeSort_perm _ _).append_left _).map _

end Program

end SceneGrammar

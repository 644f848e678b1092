import SceneGrammar.Proofs.Expansion.Safety
import SceneGrammar.Proofs.Program.Groups
import SceneGrammar.Proofs.Roulette.Selection

/-!
# The odds between two variants

Normalizing divides all weights that are there by one number, and so leaves the odds between them as
they are. But a variant that comes in later has its weight undivided: between it and one that was
there before, the odds are off by what the weights were divided by in the meantime.
-/

namespace SceneGrammar

namespace Roulette
variable {κ α : Type}

inductive Change (κ α : Type)
  | add (weight : κ) (item : α)
  | normalize

namespace Change

def weight? : Change κ α → Option κ
  | .add weight _ => some weight
  | .normalize => none

def apply [Scalar κ] (wheel : Roulette κ α) : Change κ α → Roulette κ α
  | .add weight item => wheel.add weight item
  | .normalize => wheel.normalize

def divisor (wheel : Roulette Rat α) : Change Rat α → Rat
  | .add _ _ => 1
  | .normalize => wheel.divisor

theorem divisor_pos (wheel : Roulette Rat α) (change : Change Rat α) :
    0 < change.divisor wheel := by
  cases change with
  | add => exact one_pos
  | normalize => exact wheel.divisor_pos

theorem weights_apply (wheel : Roulette Rat α) (change : Change Rat α) :
    (change.apply wheel).weights =
      wheel.weights.map (· / change.divisor wheel) ++ change.weight?.toList := by
  cases change with
  | add weight item =>
    have hkept : wheel.weights.map (· / (1 : Rat)) = wheel.weights := by
      simp only [div_one, List.map_id']
    exact (weights_add wheel weight item).trans (congrArg (· ++ [weight]) hkept.symm)
  | normalize => exact (weights_normalize wheel).trans (List.append_nil _).symm

end Change

/-- The wheel after a history of changes. -/
def after [Scalar κ] (wheel : Roulette κ α) (history : List (Change κ α)) : Roulette κ α :=
  history.foldl Change.apply wheel

/-- What the weights on the wheel are divided by in the course of a history. -/
def divided (wheel : Roulette Rat α) : List (Change Rat α) → Rat
  | [] => 1
  | change :: history => change.divisor wheel * (change.apply wheel).divided history

theorem after_append [Scalar κ] (wheel : Roulette κ α) (history more : List (Change κ α)) :
    wheel.after (history ++ more) = (wheel.after history).after more :=
  List.foldl_append

theorem divided_pos (wheel : Roulette Rat α) (history : List (Change Rat α)) :
    0 < wheel.divided history := by
  induction history generalizing wheel with
  | nil => exact one_pos
  | cons change history ih => exact mul_pos (change.divisor_pos wheel) (ih _)

theorem divided_append (wheel : Roulette Rat α) (history more : List (Change Rat α)) :
    wheel.divided (history ++ more) = wheel.divided history * (wheel.after history).divided more := by
  induction history generalizing wheel with
  | nil => exact (one_mul _).symm
  | cons change history ih =>
    rw [List.cons_append, divided, divided, ih, mul_assoc]
    rfl

theorem divided_of_additions {wheel : Roulette Rat α} {history : List (Change Rat α)}
    (h : .normalize ∉ history) : wheel.divided history = 1 := by
  induction history generalizing wheel with
  | nil => rfl
  | cons change history ih =>
    rw [List.mem_cons, not_or] at h
    cases change with
    | add weight item => exact (one_mul _).trans (ih h.2)
    | normalize => exact absurd rfl h.1

/-- A history divides every weight that is there at its beginning by the same number. -/
theorem weights_after {wheel : Roulette Rat α} {i : Nat} {weight : Rat}
    (h : wheel.weights[i]? = some weight) (history : List (Change Rat α)) :
    (wheel.after history).weights[i]? = some (weight / wheel.divided history) := by
  induction history generalizing wheel weight with
  | nil => rw [divided, div_one]; exact h
  | cons change history ih =>
    have hstep : (change.apply wheel).weights[i]? = some (weight / change.divisor wheel) := by
      rw [change.weights_apply, List.getElem?_append_left, List.getElem?_map, h, Option.map_some]
      rw [List.length_map]
      exact (List.getElem?_eq_some_iff.1 h).1
    rw [divided, ← div_div]
    exact ih hstep

theorem weights_add_last (wheel : Roulette κ α) (weight : κ) (item : α) :
    (wheel.add weight item).weights[wheel.size]? = some weight := by
  have hsize : wheel.weights.length = wheel.size := List.length_map ..
  rw [weights_add, ← hsize, List.getElem?_concat_length]

theorem weights_after_add (before later : List (Change Rat α)) (weight : Rat) (item : α) :
    (empty.after (before ++ .add weight item :: later)).weights[(empty.after before).size]? =
      some (weight / ((empty.after before).add weight item).divided later) := by
  rw [after_append]
  exact weights_after (weights_add_last _ weight item) later

end Roulette

namespace Program
variable {M : Type}

/-- A change of a program as a whole. -/
inductive Revision (M : Type)
  | add (weight : Float) (rule : Rule M)
  | normalize

namespace Revision

def apply (p : Program M) : Revision M → Program M
  | .add weight rule => p.addRule weight rule
  | .normalize => p.normalize

/-- What a revision does to the group of this name. -/
def within (name : String) : Revision M → List (Roulette.Change Float (Rule M))
  | .add weight rule => if rule.name = some name then [.add weight rule] else []
  | .normalize => [.normalize]

end Revision

def revise (p : Program M) (revisions : List (Revision M)) : Program M :=
  revisions.foldl Revision.apply p

/-- The group that a wheel is to a program, which has no groups without variants. -/
def kept (wheel : Variants M) : Option (Variants M) :=
  if wheel.isEmpty then none else some wheel

theorem kept_normalize (wheel : Variants M) :
    kept wheel.normalize = (kept wheel).map Roulette.normalize := by
  rw [kept, kept, wheel.isEmpty_normalize]
  cases wheel.isEmpty with
  | true => rfl
  | false => rfl

theorem kept_add (wheel : Variants M) (weight : Float) (rule : Rule M) :
    kept (wheel.add weight rule) = some (((kept wheel).getD .empty).add weight rule) := by
  have hadded : (wheel.add weight rule).isEmpty = false :=
    List.isEmpty_eq_false_iff.2 (List.concat_ne_nil _ wheel.slots)
  rw [kept, hadded, if_neg Bool.false_ne_true, kept]
  cases hempty : wheel.isEmpty with
  | true =>
    have hslots : wheel.slots = [] := List.isEmpty_iff.1 hempty
    rw [if_pos rfl, Option.getD_none, Roulette.add, hslots]
    rfl
  | false => rfl

theorem group?_apply {p : Program M} {name : String} {wheel : Variants M}
    (h : p.group? name = kept wheel) (revision : Revision M) :
    (revision.apply p).group? name = kept (wheel.after (revision.within name)) := by
  cases revision with
  | normalize => exact (group?_normalize p name).trans (h ▸ (kept_normalize wheel).symm)
  | add weight rule =>
    rw [Revision.apply, group?_addRule, Revision.within, h]
    split
    · exact (kept_add wheel weight rule).symm
    · rfl

theorem group?_revise (revisions : List (Revision M)) (name : String) :
    ((empty : Program M).revise revisions).group? name =
      kept (Roulette.empty.after (revisions.flatMap (·.within name))) := by
  induction revisions using List.reverseRecOn with
  | nil => rfl
  | append_singleton revisions revision ih =>
    rw [revise, List.foldl_append, List.flatMap_append, Roulette.after_append,
      List.flatMap_singleton]
    exact group?_apply ih revision

end Program

namespace Roulette

/-- How the weights of two variants are related after a history of additions and normalizations, to
which the history of a program comes down in each group. The odds are those of the weights that were
added just if what was on the wheel between the two additions was divided by `1` in all, as it is
when nothing was normalized there. -/
theorem odds_of_history {α M : Type} {a b : Rat} (ha : 0 < a) (hb : 0 < b) (x y : α)
    (before between later : List (Change Rat α)) :
    (∃ w v : Rat,
      let wheel := empty.after (before ++ .add a x :: (between ++ .add b y :: later))
      let divided := ((empty.after before).add a x).divided between
      wheel.weights[(empty.after before).size]? = some w ∧
      wheel.weights[(empty.after (before ++ .add a x :: between)).size]? = some v ∧
      w * b * divided = v * a ∧ (w * b = v * a ↔ divided = 1) ∧
      (.normalize ∉ between → w * b = v * a)) ∧
    ∀ (revisions : List (Program.Revision M)) (name : String),
      (Program.empty.revise revisions).group? name =
        Program.kept (empty.after (revisions.flatMap (·.within name))) := by
  set wheel := (empty.after before).add a x with hwheel
  set D := wheel.divided between
  set L := ((wheel.after between).add b y).divided later
  have hD : 0 < D := divided_pos wheel between
  have hL : 0 < L := divided_pos _ later
  have hbetween : empty.after (before ++ .add a x :: between) = wheel.after between :=
    after_append ..
  have hw : (empty.after (before ++ .add a x :: (between ++ .add b y :: later))).weights[
      (empty.after before).size]? = some (a / (D * L)) := by
    rw [weights_after_add, divided_append]
    exact congrArg (fun divisor => some (a / (D * divisor))) (one_mul L)
  have hv : (empty.after (before ++ .add a x :: (between ++ .add b y :: later))).weights[
      (empty.after (before ++ .add a x :: between)).size]? = some (b / L) := by
    rw [← List.cons_append, ← List.append_assoc, weights_after_add, hbetween]
  have hodds : a / (D * L) * b * D = b / L * a := by field_simp
  have hiff : a / (D * L) * b = b / L * a ↔ D = 1 := by
    have hne : a / (D * L) * b ≠ 0 := (mul_pos (div_pos ha (mul_pos hD hL)) hb).ne'
    rw [← hodds, eq_comm, mul_eq_left₀ hne]
  exact ⟨⟨_, _, hw, hv, hodds, hiff, fun h => hiff.2 (divided_of_additions h)⟩,
    Program.group?_revise⟩

/-- The third variant comes in when the weights of the first two are divided by their sum. -/
def interrupted : List (Change Rat Char) :=
  [.add 3 'a', .add 1 'b', .normalize, .add 4 'c', .normalize]

theorem odds_of_history_interrupted :
    (0 : Rat) < 3 ∧ (0 : Rat) < 4 ∧
      ∃ w v : Rat, (empty.after interrupted).weights[0]? = some w ∧
        (empty.after interrupted).weights[2]? = some v ∧ w * 4 * 4 = v * 3 := by
  have h₃ : (0 : Rat) < 3 := by norm_num
  have h₄ : (0 : Rat) < 4 := by norm_num
  have hsize : (empty.after ([] ++ .add (3 : Rat) 'a' :: [.add 1 'b', .normalize])).size = 2 := by
    decide +kernel
  have hdivided : ((empty.after []).add (3 : Rat) 'a').divided [.add 1 'b', .normalize] = 4 := by
    decide +kernel
  obtain ⟨w, v, hw, hv, hodds, -, -⟩ := (odds_of_history (M := Nat) h₃ h₄ 'a' 'c' []
    [.add 1 'b', .normalize] [.normalize]).1
  rw [hsize] at hv
  rw [hdivided] at hodds
  exact ⟨h₃, h₄, w, v, hw, hv, hodds⟩

/-- All weights are positive, but the odds between the first variant and the third are not those of
the weights they were added with. -/
theorem odds_lost_by_early_normalization :
    ∃ history : List (Change Rat Char),
      (∀ weight ∈ history.filterMap Change.weight?, 0 < weight) ∧
      ∃ (i j : Nat) (w v a b : Rat),
        (empty.after history).weights[i]? = some w ∧ (empty.after history).weights[j]? = some v ∧
        (history.filterMap Change.weight?)[i]? = some a ∧
        (history.filterMap Change.weight?)[j]? = some b ∧ w * b ≠ v * a := by
  refine ⟨interrupted, by decide +kernel, 0, 2, 3 / 20, 4 / 5, 3, 4, ?_⟩
  decide +kernel

end Roulette

end SceneGrammar

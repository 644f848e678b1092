import Mathlib.Algebra.BigOperators.Group.List.Basic
import Mathlib.Algebra.BigOperators.Ring.List
import Mathlib.Algebra.Order.BigOperators.Group.List
import Mathlib.Algebra.Order.Field.Rat
import Mathlib.Data.List.Induction
import Mathlib.Tactic.FieldSimp
import Mathlib.Tactic.Linarith
import SceneGrammar.Roulette

/-!
# Selection is exact

Without rounding, a draw lands on a slot just if it lies in the part of `[0, 1)` that belongs to the
slot by its weight. The parts are the same whether the weights are as they were added or have been
divided by their sum, and they leave nothing over for the last slot to take.
-/

namespace SceneGrammar

theorem Scalar.total_rat (xs : List Rat) : Scalar.total xs = xs.sum := by
  rw [Scalar.total, List.sum_eq_foldl]
  rfl

namespace Roulette
variable {κ α : Type}

/-- The wheel that these entries make, added one after another. -/
def ofList (entries : List (κ × α)) : Roulette κ α :=
  entries.foldl (fun wheel entry => wheel.add entry.1 entry.2) empty

theorem ofList_eq (entries : List (κ × α)) :
    ofList entries = ⟨entries.map fun entry => ⟨entry.1, entry.2⟩, false⟩ := by
  induction entries using List.reverseRecOn with
  | nil => rfl
  | append_singleton entries entry ih =>
    have hadd : ofList (entries ++ [entry]) = (ofList entries).add entry.1 entry.2 :=
      List.foldl_append
    rw [hadd, ih, add, List.map_append]
    rfl

theorem items_ofList (entries : List (κ × α)) : (ofList entries).items = entries.map Prod.snd := by
  rw [ofList_eq, items, List.map_map]
  rfl

theorem weights_ofList (entries : List (κ × α)) :
    (ofList entries).weights = entries.map Prod.fst := by
  rw [ofList_eq, weights, List.map_map]
  rfl

theorem items_iterate_normalize [Scalar κ] (wheel : Roulette κ α) (times : Nat) :
    (normalize^[times] wheel).items = wheel.items := by
  induction times with
  | zero => rfl
  | succ times ih => rw [Function.iterate_succ_apply', items_normalize, ih]

/-! ## Landing -/

theorem landing_eq_some_iff {limit sum : Rat} {slots : List (Slot Rat α)}
    (hpos : ∀ weight ∈ slots.map Slot.weight, 0 < weight) (hsum : sum ≤ limit) (i : Nat) :
    landing limit sum slots = some i ↔
      i < slots.length ∧ sum + ((slots.map Slot.weight).take i).sum ≤ limit ∧
        limit < sum + ((slots.map Slot.weight).take (i + 1)).sum := by
  induction slots generalizing sum i with
  | nil => simp [landing]
  | cons slot slots ih =>
    rw [List.map_cons, List.forall_mem_cons] at hpos
    rw [landing, List.map_cons]
    split
    · rename_i hlands
      -- all later sums are above the limit as well, for no weight takes away from them
      cases i with
      | zero => simpa [hsum] using hlands
      | succ i =>
        have hnonneg : 0 ≤ ((slots.map Slot.weight).take i).sum :=
          List.sum_nonneg fun weight hweight => (hpos.2 weight (List.mem_of_mem_take hweight)).le
        simp only [List.take_succ_cons, List.sum_cons, Option.some.injEq, reduceCtorEq, false_iff]
        rintro ⟨-, hle, -⟩
        change limit < sum + slot.weight at hlands
        linarith
    · rename_i hbeyond
      have hbeyond : sum + slot.weight ≤ limit := not_lt.1 hbeyond
      cases i with
      | zero =>
        have hlater : limit < sum + slot.weight ↔ False := iff_false_intro hbeyond.not_gt
        simp [Option.map_eq_some_iff, hlater]
      | succ i =>
        rw [List.take_succ_cons, List.take_succ_cons, List.sum_cons, List.sum_cons, ← add_assoc,
          ← add_assoc]
        simp only [Option.map_eq_some_iff, Nat.add_right_cancel_iff, exists_eq_right,
          ih hpos.2 hbeyond, List.length_cons, Nat.add_lt_add_iff_right]

theorem landing_isSome {limit sum : Rat} {slots : List (Slot Rat α)}
    (h : limit < sum + (slots.map Slot.weight).sum) (hsum : sum ≤ limit) :
    (landing limit sum slots).isSome := by
  induction slots generalizing sum with
  | nil => simp at h; linarith
  | cons slot slots ih =>
    rw [landing]
    split
    · rfl
    · rename_i hbeyond
      rw [Option.isSome_map]
      refine ih ?_ (not_lt.1 hbeyond)
      rwa [List.map_cons, List.sum_cons, ← add_assoc] at h

/-! ## Normalization -/

/-- What normalization divides the weights by. -/
def divisor (wheel : Roulette Rat α) : Rat :=
  if wheel.normalized = false ∧ 0 < wheel.weights.sum then wheel.weights.sum else 1

theorem divisor_pos (wheel : Roulette Rat α) : 0 < wheel.divisor := by
  rw [divisor]
  split
  · rename_i h
    exact h.2
  · exact one_pos

theorem weights_normalize (wheel : Roulette Rat α) :
    wheel.normalize.weights = wheel.weights.map (· / wheel.divisor) := by
  have hone : wheel.weights.map (· / (1 : Rat)) = wheel.weights := by
    simp only [div_one, List.map_id']
  cases hn : wheel.normalized with
  | true =>
    have hsame : wheel.normalize = wheel := if_pos hn
    rw [hsame, divisor, hn, if_neg (fun hraw => Bool.noConfusion hraw.1), hone]
  | false =>
    rw [normalize, hn, if_neg Bool.false_ne_true, divisor, hn]
    dsimp only
    rw [Scalar.total_rat]
    by_cases hsum : Scalar.zero < wheel.weights.sum
    · rw [if_pos hsum, if_pos ⟨rfl, hsum⟩, weights, weights, List.map_map, List.map_map]
      rfl
    · rw [if_neg hsum, if_neg (fun hraw => hsum hraw.2), hone]
      rfl

/-! ## Shares -/

/-- The share that the first `count` slots have of the whole. -/
def share (wheel : Roulette Rat α) (count : Nat) : Rat :=
  (wheel.weights.take count).sum / wheel.weights.sum

/-- A wheel on which there is something to win, its draws scaled to the sum of its weights. -/
structure Balanced (wheel : Roulette Rat α) : Prop where
  nonempty : wheel.weights ≠ []
  positive : ∀ weight ∈ wheel.weights, 0 < weight
  scale_eq : wheel.scale = wheel.weights.sum

theorem Balanced.sum_pos {wheel : Roulette Rat α} (h : wheel.Balanced) : 0 < wheel.weights.sum :=
  List.sum_pos _ h.positive h.nonempty

theorem Balanced.isEmpty_eq {wheel : Roulette Rat α} (h : wheel.Balanced) :
    wheel.isEmpty = false :=
  Bool.eq_false_iff.2 fun he => h.nonempty (List.map_eq_nil_iff.2 (List.isEmpty_iff.1 he))

theorem balanced_ofList {entries : List (Rat × α)} (hne : entries ≠ [])
    (hpos : ∀ entry ∈ entries, 0 < entry.1) : (ofList entries).Balanced where
  nonempty := by rwa [weights_ofList, ne_eq, List.map_eq_nil_iff]
  positive := by rwa [weights_ofList, List.forall_mem_map]
  scale_eq := by
    have hraw : (ofList entries).normalized = false := by rw [ofList_eq]
    rw [scale, hraw, Scalar.total_rat]
    rfl

theorem Balanced.divisor_eq {wheel : Roulette Rat α} (h : wheel.Balanced) :
    wheel.divisor = wheel.weights.sum := by
  cases hn : wheel.normalized with
  | true =>
    have hone : wheel.weights.sum = 1 := by
      rw [← h.scale_eq, scale, hn]
      rfl
    rw [divisor, hn, hone, if_neg (fun hraw => Bool.noConfusion hraw.1)]
  | false => exact if_pos ⟨hn, h.sum_pos⟩

theorem Balanced.weights_normalize {wheel : Roulette Rat α} (h : wheel.Balanced) :
    wheel.normalize.weights = wheel.weights.map (· / wheel.weights.sum) := by
  rw [Roulette.weights_normalize, h.divisor_eq]

theorem Balanced.sum_normalize {wheel : Roulette Rat α} (h : wheel.Balanced) :
    wheel.normalize.weights.sum = 1 := by
  rw [h.weights_normalize]
  simp only [div_eq_mul_inv, List.sum_map_mul_right, List.map_id']
  exact mul_inv_cancel₀ h.sum_pos.ne'

theorem balanced_normalize {wheel : Roulette Rat α} (h : wheel.Balanced) :
    wheel.normalize.Balanced where
  nonempty := by
    rw [h.weights_normalize, ne_eq, List.map_eq_nil_iff]
    exact h.nonempty
  positive := by
    rw [h.weights_normalize, List.forall_mem_map]
    exact fun weight hweight => div_pos (h.positive weight hweight) h.sum_pos
  scale_eq := by
    have hnormalized : wheel.normalize.normalized = true := by
      rw [Roulette.normalize]
      split
      · assumption
      · rfl
    rw [h.sum_normalize, scale, hnormalized]
    rfl

/-- Weights that are divided by their sum have the shares that they had before. -/
theorem Balanced.share_normalize {wheel : Roulette Rat α} (h : wheel.Balanced) (count : Nat) :
    wheel.normalize.share count = wheel.share count := by
  rw [share, h.sum_normalize, h.weights_normalize, ← List.map_take, div_one, share]
  simp only [div_eq_mul_inv, List.sum_map_mul_right, List.map_id']

theorem Balanced.pick_eq_some_iff {wheel : Roulette Rat α} (h : wheel.Balanced) {u : Rat}
    (h₀ : 0 ≤ u) (h₁ : u < 1) (i : Nat) :
    (landing (u * wheel.scale) Scalar.zero wheel.slots).isSome ∧
      (wheel.pick u = some i ↔
        i < wheel.size ∧ wheel.share i ≤ u ∧ u < wheel.share (i + 1)) := by
  have hpos := h.sum_pos
  have hlimit : (0 : Rat) ≤ u * wheel.scale := by
    rw [h.scale_eq]
    exact mul_nonneg h₀ hpos.le
  have hsome : (landing (u * wheel.scale) Scalar.zero wheel.slots).isSome := by
    have hbelow : u * wheel.scale < 0 + wheel.weights.sum := by
      rw [zero_add, h.scale_eq]
      exact mul_lt_of_lt_one_left hpos h₁
    exact landing_isSome hbelow hlimit
  obtain ⟨j, hj⟩ := Option.isSome_iff_exists.1 hsome
  have hpick : wheel.pick u = landing (u * wheel.scale) Scalar.zero wheel.slots := by
    rw [pick, h.isEmpty_eq, if_neg Bool.false_ne_true, hj, Option.getD_some]
  refine ⟨hsome, ?_⟩
  rw [hpick, share, share, div_le_iff₀ hpos, lt_div_iff₀ hpos, ← h.scale_eq]
  have hland := landing_eq_some_iff h.positive hlimit i
  rwa [zero_add, zero_add] at hland

theorem balanced_iterate_normalize {wheel : Roulette Rat α} (h : wheel.Balanced) (times : Nat) :
    (normalize^[times] wheel).Balanced ∧
      ∀ count, (normalize^[times] wheel).share count = wheel.share count := by
  induction times with
  | zero => exact ⟨h, fun _ => rfl⟩
  | succ times ih =>
    rw [Function.iterate_succ_apply']
    exact ⟨balanced_normalize ih.1, fun count => (ih.1.share_normalize count).trans (ih.2 count)⟩

/-! ## Spinning -/

theorem spin_of_isEmpty {m : Type → Type} [Monad m] {wheel : Roulette Rat α}
    (h : wheel.isEmpty = true) (draw : m Rat) : wheel.spin draw = pure none :=
  if_pos h

theorem run_spin {σ : Type} {wheel : Roulette Rat α} (h : wheel.isEmpty = false)
    {draw : StateM σ Rat} {s s' : σ} {u : Rat} (hdraw : draw.run s = (u, s')) :
    (wheel.spin draw).run s = (wheel.pick u, s') := by
  rw [spin, h, if_neg Bool.false_ne_true, StateT.run_map, hdraw]
  rfl

/-- Whatever state the draws are made from and however often the weights were normalized: an empty
wheel makes no draw, any other makes one and lands where the draw falls among the shares that the
slots had when they were added. -/
theorem spin_lands_on_share {entries : List (Rat × α)} (hpos : ∀ entry ∈ entries, 0 < entry.1)
    (times : Nat) :
    (normalize^[times] (ofList entries)).items = entries.map Prod.snd ∧
    (entries = [] → ∀ {m : Type → Type} [Monad m] (draw : m Rat),
      (normalize^[times] (ofList entries)).spin draw = pure none) ∧
    (entries ≠ [] → ∀ {σ : Type} {draw : StateM σ Rat} {s s' : σ} {u : Rat},
      draw.run s = (u, s') → 0 ≤ u → u < 1 →
        (landing (u * (normalize^[times] (ofList entries)).scale) Scalar.zero
          (normalize^[times] (ofList entries)).slots).isSome ∧
        ∃ i, ((normalize^[times] (ofList entries)).spin draw).run s = (some i, s') ∧
          ∀ j, j = i ↔ j < entries.length ∧
            ((entries.map Prod.fst).take j).sum / (entries.map Prod.fst).sum ≤ u ∧
            u < ((entries.map Prod.fst).take (j + 1)).sum / (entries.map Prod.fst).sum) := by
  have hitems : (normalize^[times] (ofList entries)).items = entries.map Prod.snd := by
    rw [items_iterate_normalize, items_ofList]
  refine ⟨hitems, fun hnil m _ draw => spin_of_isEmpty ?_ draw, ?_⟩
  · rw [hnil, List.map_nil] at hitems
    rw [hnil]
    exact List.isEmpty_iff.2 (List.map_eq_nil_iff.1 hitems)
  · intro hne σ draw s s' u hdraw h₀ h₁
    obtain ⟨hbalanced, hshare⟩ := balanced_iterate_normalize (balanced_ofList hne hpos) times
    have hsize : (normalize^[times] (ofList entries)).size = entries.length := by
      have hlength := congrArg List.length hitems
      rwa [items, List.length_map, List.length_map] at hlength
    have hshares (count : Nat) : (normalize^[times] (ofList entries)).share count =
        ((entries.map Prod.fst).take count).sum / (entries.map Prod.fst).sum := by
      rw [hshare, share, weights_ofList]
    have hpick (j : Nat) := hbalanced.pick_eq_some_iff h₀ h₁ j
    simp only [hsize, hshares] at hpick
    refine ⟨(hpick 0).1, ?_⟩
    cases hlands : (normalize^[times] (ofList entries)).pick u with
    | none =>
      have hempty := pick_eq_none_iff.1 hlands
      rw [hbalanced.isEmpty_eq] at hempty
      cases hempty
    | some i =>
      refine ⟨i, by rw [run_spin hbalanced.isEmpty_eq hdraw, hlands], fun j => ?_⟩
      rw [← (hpick j).2, hlands, Option.some.injEq, eq_comm]

/-- Draws that are known beforehand. -/
def foreseen : StateM (List Rat) Rat := fun draws => (draws.headD 0, draws.tail)

/-- A draw right between the shares of two slots goes to the second. -/
theorem spin_lands_on_share_between :
    (∀ entry ∈ [((3 : Rat), 'a'), (1, 'b')], 0 < entry.1) ∧
      foreseen.run [3 / 4, 1 / 2] = (3 / 4, [1 / 2]) ∧
      ((normalize^[2] (ofList [((3 : Rat), 'a'), (1, 'b')])).spin foreseen).run [3 / 4, 1 / 2] =
        (some 1, [1 / 2]) := by
  have hpos : ∀ entry ∈ [((3 : Rat), 'a'), (1, 'b')], 0 < entry.1 := by decide +kernel
  have hdraw : foreseen.run [3 / 4, 1 / 2] = (3 / 4, [1 / 2]) := rfl
  obtain ⟨-, -, hspin⟩ := spin_lands_on_share hpos 2
  obtain ⟨-, i, hrun, hunique⟩ :=
    hspin (List.cons_ne_nil _ _) hdraw (by norm_num) (by norm_num)
  have hsecond : 1 = i := (hunique 1).2 (by decide +kernel)
  exact ⟨hpos, hdraw, hsecond ▸ hrun⟩

end Roulette
end SceneGrammar

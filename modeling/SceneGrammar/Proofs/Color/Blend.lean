import SceneGrammar.Proofs.Color.Circle

/-!
# Blending goes the shorter way round

Without rounding, a blend begins at the one colour and ends at the channels of the other, and its
hue goes the shorter way round the circle. A hueless colour is met at whatever hue one comes with.
-/

namespace SceneGrammar
open Scalar

namespace Hsv

/-- How far two hues are from each other on the circle. -/
def arc (a b : Rat) : Rat := min (wrap (a - b) 360) (wrap (b - a) 360)

theorem arc_wrap_add_le (a b : Rat) : arc (wrap (a + b) 360) a ≤ |b| := by
  obtain ⟨k, hk⟩ : ∃ k : Int, wrap (a + b) 360 = a + b + 360 * k :=
    ⟨-⌊(a + b) / 360⌋, by rw [wrap_rat]; push_cast; ring⟩
  rw [arc, hk]
  rcases le_total 0 b with hb | hb
  · refine (min_le_left _ _).trans ?_
    rw [abs_of_nonneg hb, show a + b + 360 * k - a = b + 360 * k by ring,
      wrap_add_mul _ (by norm_num)]
    exact wrap_le_self hb (by norm_num)
  · refine (min_le_right _ _).trans ?_
    rw [abs_of_nonpos hb,
      show a - (a + b + 360 * k) = -b + 360 * (-k : Int) by push_cast; ring,
      wrap_add_mul _ (by norm_num)]
    exact wrap_le_self (by linarith) (by norm_num)

theorem turn_rat (a b : Rat) : turn a b = if 180 < b - a then b - a - 360
    else if b - a < -180 then b - a + 360 else b - a := by
  simp [turn]

theorem abs_turn_le {a b : Rat} (ha : 0 ≤ a ∧ a < 360) (hb : 0 ≤ b ∧ b < 360) :
    |turn a b| ≤ 180 := by
  rw [turn_rat, abs_le]
  split_ifs <;> constructor <;> linarith

theorem wrap_add_turn (a : Rat) {b : Rat} (hb : 0 ≤ b ∧ b < 360) :
    wrap (a + turn a b) 360 = b := by
  obtain ⟨k, hk⟩ : ∃ k : Int, a + turn a b = b + 360 * k := by
    rw [turn_rat]
    split_ifs
    · exact ⟨-1, by push_cast; ring⟩
    · exact ⟨1, by push_cast; ring⟩
    · exact ⟨0, by push_cast; ring⟩
  rw [hk, wrap_add_mul b (by norm_num), wrap_of_lt hb.1 hb.2]

/-- The hue that a mixture goes towards. -/
def aim (source target : Hsv Rat) : Rat := if target.isHueless then source.hue else target.hue

theorem mix_rat (source target : Hsv Rat) (t : Rat) : source.mix target t =
    ⟨wrap (source.hue + turn source.hue (source.aim target) * t) 360,
      source.saturation + (target.saturation - source.saturation) * t,
      source.value + (target.value - source.value) * t⟩ := rfl

section
variable {source target : Hsv Rat} (hs : source.Proper) (ht : target.Proper)
include hs

theorem mix_zero (target : Hsv Rat) : source.mix target 0 = source := by
  rw [mix_rat, mul_zero, mul_zero, mul_zero, add_zero, add_zero, add_zero,
    wrap_of_lt hs.hue_nonneg hs.hue_lt]

include ht

theorem aim_mem : 0 ≤ source.aim target ∧ source.aim target < 360 := by
  rw [aim]
  split_ifs
  · exact ⟨hs.hue_nonneg, hs.hue_lt⟩
  · exact ⟨ht.hue_nonneg, ht.hue_lt⟩

theorem mix_one :
    source.mix target 1 = ⟨source.aim target, target.saturation, target.value⟩ := by
  rw [mix_rat, mul_one, mul_one, mul_one, wrap_add_turn _ (aim_mem hs ht), add_sub_cancel,
    add_sub_cancel]

theorem arc_mix_le {t : Rat} (h : 0 ≤ t) :
    arc (source.mix target t).hue source.hue ≤ 180 * t := by
  have hturn := abs_turn_le ⟨hs.hue_nonneg, hs.hue_lt⟩ (aim_mem hs ht)
  rw [mix_rat]
  calc arc _ _ ≤ |turn source.hue (source.aim target) * t| := arc_wrap_add_le _ _
    _ = |turn source.hue (source.aim target)| * t := by rw [abs_mul, abs_of_nonneg h]
    _ ≤ 180 * t := mul_le_mul_of_nonneg_right hturn h

end

theorem sextant_zero (n : Nat) : sextant (0 : Rat) 0 n = (0, 0, 0) := by
  unfold sextant
  split <;> rfl

theorem toRgba_of_saturation_eq_zero {hue value : Rat} (hue' : Rat) (alpha : UInt8) :
    toRgba ⟨hue, 0, value⟩ alpha = toRgba ⟨hue', 0, value⟩ alpha := by
  have hchroma : clampUnit value * clampUnit 0 = 0 := by
    rw [clampUnit_of_mem le_rfl zero_le_one, mul_zero]
  rw [toRgba_eq ⟨hue, 0, value⟩ alpha hchroma rfl (by rw [zero_mul, sextant_zero]),
    toRgba_eq ⟨hue', 0, value⟩ alpha hchroma rfl (by rw [zero_mul, sextant_zero])]

end Hsv

namespace Rgba

theorem saturation_of_isHueless {color : Rgba} (h : (color.toHsv : Hsv Rat).isHueless) :
    (color.toHsv : Hsv Rat).saturation = 0 := by
  rw [Hsv.isHueless, Bool.or_eq_true, beq_iff_eq, beq_iff_eq] at h
  rcases h with h | h
  · exact h
  · exact saturation_of_value_eq_zero h

theorem toRgba_mix_zero (color target : Rgba) :
    ((color.toHsv : Hsv Rat).mix target.toHsv 0).toRgba color.alpha = color := by
  rw [Hsv.mix_zero color.proper_toHsv, toRgba_toHsv]

theorem toRgba_mix_one (color target : Rgba) :
    ((color.toHsv : Hsv Rat).mix target.toHsv 1).toRgba color.alpha =
      { target with alpha := color.alpha } := by
  rw [Hsv.mix_one color.proper_toHsv target.proper_toHsv, ← target.toRgba_toHsv color.alpha,
    Hsv.aim]
  split_ifs with hhueless
  · -- without saturation the colour is the same at every hue
    rw [saturation_of_isHueless hhueless, Hsv.toRgba_of_saturation_eq_zero target.toHsv.hue,
      ← saturation_of_isHueless hhueless]
  · rfl

theorem blend_rat (color target : Rgba) (strength : Rat) : color.blend target strength =
    ((color.toHsv : Hsv Rat).mix target.toHsv (max 0 (min 1 strength))).toRgba color.alpha := by
  rw [blend, clampUnit_rat]

/-- No strength below zero or above one does more than these do. In between the hue stays within
that part of half the circle which the strength gives. -/
theorem blend_goes_shorter_way (color target : Rgba) (strength : Rat) :
    (strength ≤ 0 → color.blend target strength = color) ∧
      (1 ≤ strength → color.blend target strength = { target with alpha := color.alpha }) ∧
      (color.blend target strength).alpha = color.alpha ∧
      color.blend target strength = color.blend target (max 0 (min 1 strength)) ∧
      color.blend target strength =
        ((color.toHsv : Hsv Rat).mix target.toHsv (max 0 (min 1 strength))).toRgba color.alpha ∧
      Hsv.arc ((color.toHsv : Hsv Rat).mix target.toHsv (max 0 (min 1 strength))).hue
        (color.toHsv : Hsv Rat).hue ≤ 180 * max 0 (min 1 strength) := by
  refine ⟨fun h => ?_, fun h => ?_, rfl, ?_, blend_rat color target strength, ?_⟩
  · rw [blend_rat, max_eq_left ((min_le_right 1 strength).trans h), toRgba_mix_zero]
  · rw [blend_rat, min_eq_left h, max_eq_right zero_le_one, toRgba_mix_one]
  · have hsame : max 0 (min 1 (max 0 (min 1 strength))) = max 0 (min 1 strength) := by simp
    rw [blend_rat, blend_rat, hsame]
  · exact Hsv.arc_mix_le color.proper_toHsv target.proper_toHsv (le_max_left 0 _)

theorem blend_goes_shorter_way_to_grey :
    (-1 / 2 : Rat) ≤ 0 ∧
      blend ⟨255, 0, 0, 40⟩ ⟨128, 128, 128, 255⟩ (-1 / 2 : Rat) = ⟨255, 0, 0, 40⟩ ∧
      (1 : Rat) ≤ 7 / 2 ∧
      blend ⟨255, 0, 0, 40⟩ ⟨128, 128, 128, 255⟩ (7 / 2 : Rat) = ⟨128, 128, 128, 40⟩ := by
  have hlow : (-1 / 2 : Rat) ≤ 0 := by norm_num
  have hhigh : (1 : Rat) ≤ 7 / 2 := by norm_num
  exact ⟨hlow, (blend_goes_shorter_way _ _ _).1 hlow, hhigh,
    (blend_goes_shorter_way _ _ _).2.1 hhigh⟩

/-- From red to blue over magenta, and not over green. -/
example : blend ⟨255, 0, 0, 255⟩ ⟨0, 0, 255, 255⟩ (1 / 2 : Rat) = ⟨255, 0, 255, 255⟩ := by
  cbv

end Rgba

end SceneGrammar

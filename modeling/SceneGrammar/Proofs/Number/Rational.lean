import Mathlib.Algebra.Order.Floor.Ring
import Mathlib.Data.Rat.Floor
import Mathlib.Tactic.Linarith
import SceneGrammar.Number.Scalar

/-!
# Scalars without rounding

On exact rationals the operations of a `Scalar` are those of an ordered field: `wrap` is a multiple
of the fractional part, and a byte is read back from the natural number that it stands for.
-/

namespace SceneGrammar
namespace Scalar

@[simp] theorem ofNat_rat (n : Nat) : (ofNat n : Rat) = n := rfl

theorem larger_rat (x y : Rat) : larger x y = max x y := (max_def_lt x y).symm

theorem smaller_rat (x y : Rat) : smaller x y = min x y :=
  ((min_comm x y).trans (min_def_lt y x)).symm

theorem magnitude_rat (x : Rat) : magnitude x = |x| := by
  change (if x < 0 then 0 - x else x) = |x|
  split_ifs with h
  · rw [abs_of_neg h, zero_sub]
  · rw [abs_of_nonneg (not_lt.1 h)]

theorem clampUnit_rat (x : Rat) : clampUnit x = max 0 (min 1 x) := by
  change (if x < 0 then 0 else if 1 < x then 1 else x) = _
  split_ifs with hlow hhigh
  · exact (max_eq_left ((min_le_right 1 x).trans hlow.le)).symm
  · rw [min_eq_left hhigh.le, max_eq_right zero_le_one]
  · rw [min_eq_right (not_lt.1 hhigh), max_eq_right (not_lt.1 hlow)]

theorem clampUnit_of_mem {x : Rat} (h₀ : 0 ≤ x) (h₁ : x ≤ 1) : clampUnit x = x := by
  rw [clampUnit_rat, min_eq_right h₁, max_eq_right h₀]

theorem wrap_rat (x m : Rat) : wrap x m = x - m * ⌊x / m⌋ := rfl

theorem wrap_eq_fract (x : Rat) {m : Rat} (hm : 0 < m) : wrap x m = m * Int.fract (x / m) := by
  rw [wrap_rat, Int.fract, mul_sub, mul_div_cancel₀ x hm.ne']

theorem wrap_nonneg (x : Rat) {m : Rat} (hm : 0 < m) : 0 ≤ wrap x m := by
  rw [wrap_eq_fract x hm]
  exact mul_nonneg hm.le (Int.fract_nonneg _)

theorem wrap_lt (x : Rat) {m : Rat} (hm : 0 < m) : wrap x m < m := by
  rw [wrap_eq_fract x hm]
  exact mul_lt_of_lt_one_right hm (Int.fract_lt_one _)

theorem wrap_of_lt {x m : Rat} (h₀ : 0 ≤ x) (h : x < m) : wrap x m = x := by
  have hm := h₀.trans_lt h
  rw [wrap_eq_fract x hm, Int.fract_eq_self.2 ⟨div_nonneg h₀ hm.le, (div_lt_one hm).2 h⟩,
    mul_div_cancel₀ x hm.ne']

theorem wrap_le_self {x m : Rat} (h : 0 ≤ x) (hm : 0 < m) : wrap x m ≤ x := by
  rw [wrap_rat, sub_le_self_iff]
  exact mul_nonneg hm.le (Int.cast_nonneg (Int.floor_nonneg.2 (div_nonneg h hm.le)))

theorem wrap_add_mul (x : Rat) {m : Rat} (hm : 0 < m) (k : Int) :
    wrap (x + m * k) m = wrap x m := by
  rw [wrap_eq_fract _ hm, wrap_eq_fract x hm, add_div, mul_div_cancel_left₀ _ hm.ne',
    Int.fract_add_intCast]

theorem wrap_of_neg {x m : Rat} (h : x < 0) (hm : -m ≤ x) : wrap x m = x + m := by
  have hup := wrap_add_mul x (by linarith : 0 < m) 1
  rw [Int.cast_one, mul_one] at hup
  rw [← hup]
  exact wrap_of_lt (by linarith) (by linarith)

theorem whole_eq {x : Rat} {n : Nat} (hn : (n : Rat) ≤ x) (h : x < n + 1) : whole x = n := by
  have hfloor : ⌊x⌋ = (n : Int) := Int.floor_eq_iff.2 ⟨hn, h⟩
  exact congrArg Int.toNat hfloor

theorem roundRat_natCast (n : Nat) : roundRat n = n := by
  have hhalf : ⌊(n : Rat) + 1 / 2⌋ = (n : Int) :=
    Int.floor_eq_iff.2 ⟨by norm_num, by norm_num⟩
  rw [roundRat, if_neg (not_lt.2 n.cast_nonneg)]
  exact hhalf

theorem toByte_toNat (b : UInt8) : toByte (b.toNat : Rat) = b := by
  change UInt8.ofNat (max 0 (min 255 (roundRat b.toNat))).toNat = b
  have hb := b.toNat_lt
  rw [roundRat_natCast, show (max 0 (min 255 (b.toNat : Int))).toNat = b.toNat by omega]
  exact UInt8.ofNat_toNat

end Scalar
end SceneGrammar

import SceneGrammar.Number.Binary

/-!
The numbers that odds and colours are computed in. A definition over `Scalar` runs on doubles and,
rounding aside, on exact rationals.
-/

namespace SceneGrammar

class Scalar (α : Type) extends Add α, Sub α, Mul α, Div α, LT α, BEq α where
  decidableLess : DecidableLT α
  ofNat : Nat → α
  /-- The representative of `x` in `[0, m)`, for positive `m`. -/
  wrap : α → α → α
  /-- The integer part; negative numbers give zero. -/
  whole : α → Nat
  /-- The nearest byte, a half going up. -/
  toByte : α → UInt8

namespace Scalar
variable {α : Type} [Scalar α]

instance : DecidableLT α := decidableLess

abbrev zero : α := ofNat 0
abbrev one : α := ofNat 1

/-- Neither bound applies to what compares with neither. -/
def clamp (low high x : α) : α :=
  if x < low then low else if high < x then high else x

abbrev clampUnit (x : α) : α := clamp zero one x

def larger (x y : α) : α := if x < y then y else x
def smaller (x y : α) : α := if y < x then y else x
def magnitude (x : α) : α := if x < zero then zero - x else x

/-- The sum from the left, starting at zero. -/
def total (xs : List α) : α := xs.foldl (· + ·) zero

theorem clamp_of_between {low high x : α} (hl : ¬ x < low) (hh : ¬ high < x) :
    clamp low high x = x := by
  simp [clamp, hl, hh]

theorem total_concat (xs : List α) (x : α) : total (xs ++ [x]) = total xs + x := by
  simp [total]

end Scalar

/-- A remainder below zero is moved up by `m`; one so small that it disappears gives `m` itself. -/
def wrapDouble (x m : Float) : Float :=
  let r := doubleRemainder x m
  if r < 0 then r + m else r

instance : Scalar Float where
  decidableLess := inferInstance
  ofNat := Float.ofNat
  wrap := wrapDouble
  whole x := x.toUInt32.toNat
  toByte x := .ofNat ((Reading.ofFloat x).roundWithin 0 255).toNat

/-- The nearest integer, a half going away from zero. -/
def roundRat (x : Rat) : Int :=
  if x < 0 then -(1 / 2 - x).floor else (x + 1 / 2).floor

instance : Scalar Rat where
  decidableLess := inferInstance
  ofNat n := n
  wrap x m := x - m * (x / m).floor
  whole x := x.floor.toNat
  toByte x := .ofNat (max 0 (min 255 (roundRat x))).toNat

end SceneGrammar

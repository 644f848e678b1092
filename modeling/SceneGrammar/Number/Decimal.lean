import SceneGrammar.Number.Binary

/-!
Decimal texts of binary numbers: the fewest digits that read back as the same number, the nearest
such digits where there is a choice. A grid `10 ^ k` is tried at the two points beside the number,
coarse grids first, in exact natural arithmetic.
-/

namespace SceneGrammar

/-- A positive number `value` and the bounds of what reads back as it, over one denominator. -/
structure Surround where
  low : Nat
  value : Nat
  high : Nat
  denominator : Nat
  closed : Bool

namespace Surround

/-- Half a place on each side, a quarter below where the next smaller number is half as far; the
bounds themselves read back to an even mantissa. -/
def of (f : Format) (mantissa : Nat) (exponent : Int) : Surround :=
  let unit := 1 <<< (exponent - 2).toNat
  let gap := if mantissa = 1 <<< f.fractionBits ∧ f.least < exponent then 1 else 2
  ⟨(4 * mantissa - gap) * unit, 4 * mantissa * unit, (4 * mantissa + 2) * unit,
    1 <<< (2 - exponent).toNat, mantissa % 2 == 0⟩

def Holds (s : Surround) (point : Nat) : Bool :=
  if s.closed then s.low ≤ point && point ≤ s.high else s.low < point && point < s.high

/-- The same numbers measured in steps of `10 ^ k`. -/
def inSteps (s : Surround) (k : Int) : Surround :=
  let scale := Nat.pow 10 (-k).toNat
  ⟨s.low * scale, s.value * scale, s.high * scale, s.denominator * Nat.pow 10 k.toNat, s.closed⟩

/-- The multiple of the denominator nearest to the value among those that read back, a tie going
to the even multiple. -/
def nearestMultiple (s : Surround) : Option Nat :=
  let count := s.value / s.denominator
  let below := count * s.denominator
  let above := below + s.denominator
  let twice := 2 * s.value
  match s.Holds below, s.Holds above with
  | true, true =>
    some (if twice < below + above || (twice == below + above && count % 2 == 0) then count
      else count + 1)
  | true, false => some count
  | false, true => some (count + 1)
  | false, false => none

end Surround

def digitsOf (n : Nat) : List Char := Nat.toDigits 10 n

/-- The `e` with `10 ^ e ≤ n / d < 10 ^ (e + 1)`, for positive `n` and `d`. -/
def leadingPlace (n d : Nat) : Int :=
  if d ≤ n then (digitsOf (n / d)).length - 1 else -((digitsOf ((d - 1) / n)).length : Int)

/-- A number `0.d₁d₂… · 10 ^ (place + 1)`, that is with its first digit at `10 ^ place`. -/
structure Decimal where
  digits : List Char
  place : Int

namespace Decimal

def zero : Decimal := ⟨['0'], 0⟩

/-- `count` steps of `10 ^ k`, without the zeros at the end. -/
def ofSteps (count : Nat) (k : Int) : Decimal :=
  let digits := digitsOf count
  ⟨(digits.reverse.dropWhile (· == '0')).reverse, k + digits.length - 1⟩

/-- Tries the grids from `10 ^ k` on, each ten times finer than the one before. -/
def search (s : Surround) (k : Int) : Nat → Decimal
  | 0 => ofSteps ((s.inSteps k).value / (s.inSteps k).denominator) k
  | tries + 1 =>
    match (s.inSteps k).nearestMultiple with
    | some count => ofSteps count k
    | none => search s (k - 1) tries

/-- Seventeen digits tell all double-precision numbers apart. -/
def shortest (f : Format) (mantissa : Nat) (exponent : Int) : Decimal :=
  if mantissa = 0 then zero
  else
    let s := Surround.of f mantissa exponent
    search s (leadingPlace s.value s.denominator) 17

end Decimal

/-- The places of the first digit for which a number is written without an exponent. -/
structure NumberLayout where
  leastPlain : Int
  greatestPlain : Int

namespace NumberLayout

def single : NumberLayout := ⟨-6, 12⟩
def double : NumberLayout := ⟨-5, 15⟩

/-- At least one digit stands on each side of the point. -/
def plain (d : Decimal) : List Char :=
  if d.place < 0 then '0' :: '.' :: (List.replicate (-d.place - 1).toNat '0' ++ d.digits)
  else
    let cut := d.place.toNat + 1
    let whole := d.digits.take cut
    let fraction := d.digits.drop cut
    whole ++ List.replicate (cut - whole.length) '0' ++ '.' ::
      (if fraction.isEmpty then ['0'] else fraction)

/-- The exponent has a sign and no leading zero. -/
def scientific (d : Decimal) : List Char :=
  let sign := if d.place < 0 then '-' else '+'
  let fraction := d.digits.drop 1
  d.digits.take 1 ++ (if fraction.isEmpty then [] else '.' :: fraction) ++
    'e' :: sign :: digitsOf d.place.natAbs

def layOut (l : NumberLayout) (d : Decimal) : List Char :=
  if l.leastPlain ≤ d.place ∧ d.place ≤ l.greatestPlain then plain d else scientific d

/-- What is not a number, and the infinities, are written as null. -/
def text (l : NumberLayout) (f : Format) : Reading → String
  | .undefined | .infinite _ => "null"
  | .finite x =>
    let unsigned := l.layOut (Decimal.shortest f x.mantissa x.exponent)
    .ofList (if x.negative then '-' :: unsigned else unsigned)

end NumberLayout

def doubleText (x : Float) : String := NumberLayout.double.text .double (.ofFloat x)
def singleText (x : Float32) : String := NumberLayout.single.text .single (.ofFloat32 x)

end SceneGrammar

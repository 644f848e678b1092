/-!
Binary floating-point codes as exact numbers. A format decodes a code into
`± mantissa · 2 ^ exponent` and encodes such a number as the nearest member of the format, a tie
going to the even one. All arithmetic here is on naturals and integers.
-/

namespace SceneGrammar

/-- The number `± mantissa · 2 ^ exponent`; both signs of zero are kept. -/
structure Scaled where
  negative : Bool
  mantissa : Nat
  exponent : Int
  deriving DecidableEq, Repr

inductive Reading
  | undefined
  | infinite (negative : Bool)
  | finite (number : Scaled)
  deriving DecidableEq, Repr

/-- `m / 2 ^ shift` to the nearest natural, a tie to the even one; a negative shift is exact. -/
def shiftEven (m : Nat) : Int → Nat
  | .ofNat s =>
    let q := m >>> s
    let place := 1 <<< s
    let excess := 2 * (m % place)
    if place < excess || (excess == place && q % 2 == 1) then q + 1 else q
  | .negSucc k => m <<< (k + 1)

/-- `m · 2 ^ e` to the nearest natural, a half going up. -/
def shiftHalfUp (m : Nat) : Int → Nat
  | .ofNat e => m <<< e
  | .negSucc k => (m + (1 <<< k)) >>> (k + 1)

namespace Scaled

def signed (negative : Bool) (magnitude : Nat) : Int :=
  if negative then -magnitude else magnitude

/-- The nearest integer, a half going away from zero. -/
def round (x : Scaled) : Int := signed x.negative (shiftHalfUp x.mantissa x.exponent)

/-- The mantissa of `x` when its last place is `2 ^ place`, for `place ≤ x.exponent`. -/
def unitsAt (x : Scaled) (place : Int) : Nat := x.mantissa <<< (x.exponent - place).toNat

/-- The exact remainder of a division whose quotient is cut toward zero; it has the sign of `x`. -/
def remainder (x y : Scaled) : Scaled :=
  let place := min x.exponent y.exponent
  ⟨x.negative, x.unitsAt place % y.unitsAt place, place⟩

end Scaled

/-- A code is a sign bit above `exponentBits` bits above `fractionBits` bits. -/
structure Format where
  fractionBits : Nat
  exponentBits : Nat

namespace Format

def double : Format := ⟨52, 11⟩
def single : Format := ⟨23, 8⟩

/-- The exponent of the last place of the smallest numbers. -/
def least (f : Format) : Int := 2 - (1 <<< (f.exponentBits - 1) : Nat) - f.fractionBits

def signPlace (f : Format) : Nat := 1 <<< (f.fractionBits + f.exponentBits)

def infinityCode (f : Format) : Nat := ((1 <<< f.exponentBits) - 1) <<< f.fractionBits

def decode (f : Format) (code : Nat) : Reading :=
  let negative := decide (f.signPlace ≤ code)
  let magnitude := code % f.signPlace
  let step := magnitude >>> f.fractionBits
  let fraction := magnitude % (1 <<< f.fractionBits)
  if f.infinityCode < magnitude then .undefined
  else if f.infinityCode = magnitude then .infinite negative
  else if step = 0 then .finite ⟨negative, fraction, f.least⟩
  else .finite ⟨negative, (1 <<< f.fractionBits) + fraction, f.least + (step - 1 : Nat)⟩

/-- A mantissa rounded up to the next power of two carries into the exponent, and past the largest
number into the code of infinity. -/
def magnitudeCode (f : Format) (mantissa : Nat) (exponent : Int) : Nat :=
  if mantissa = 0 then 0
  else
    let place := max f.least (exponent + mantissa.log2 - f.fractionBits)
    let kept := shiftEven mantissa (place - exponent)
    min f.infinityCode (((place - f.least).toNat <<< f.fractionBits) + kept)

def encode (f : Format) : Reading → Nat
  | .undefined => f.infinityCode + (1 <<< (f.fractionBits - 1))
  | .infinite negative => sign f negative + f.infinityCode
  | .finite x => sign f x.negative + f.magnitudeCode x.mantissa x.exponent
where
  sign (f : Format) (negative : Bool) : Nat := if negative then f.signPlace else 0

end Format

namespace Reading

def ofFloat (x : Float) : Reading := Format.double.decode x.toBits.toNat
def ofFloat32 (x : Float32) : Reading := Format.single.decode x.toBits.toNat
def toFloat (r : Reading) : Float := .ofBits (.ofNat (Format.double.encode r))
def toFloat32 (r : Reading) : Float32 := .ofBits (.ofNat (Format.single.encode r))

/-- The nearest integer in `[low, high]`; what is undefined reads as zero. -/
def roundWithin (low high : Int) : Reading → Int
  | .undefined => 0
  | .infinite negative => if negative then low else high
  | .finite x => max low (min high x.round)

theorem roundWithin_bounds {low high : Int} (hl : low ≤ 0) (hh : 0 ≤ high) (r : Reading) :
    low ≤ r.roundWithin low high ∧ r.roundWithin low high ≤ high := by
  cases r with
  | undefined => exact ⟨hl, hh⟩
  | infinite negative => cases negative <;> simp [roundWithin] <;> omega
  | finite x => simp only [roundWithin]; omega

end Reading

def narrow (x : Float) : Float32 := (Reading.ofFloat x).toFloat32

def doubleRemainder (x y : Float) : Float :=
  match Reading.ofFloat x, Reading.ofFloat y with
  | .finite a, .finite b =>
    if b.mantissa = 0 then Reading.undefined.toFloat
    else (Reading.finite (a.remainder b)).toFloat
  | .finite _, .infinite _ => x
  | _, _ => Reading.undefined.toFloat

end SceneGrammar

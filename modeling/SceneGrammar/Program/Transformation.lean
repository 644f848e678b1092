import SceneGrammar.Color.Pool
import SceneGrammar.Matrix

/-!
Transformation blocks: a placement relative to the one inherited, and changes of the colour. Of
placements only a product and a unit are needed.
-/

namespace SceneGrammar

/-- What a rule inherits and hands on. -/
structure Pose (M : Type) where
  placement : M
  color : Rgba
  deriving DecidableEq, Repr

structure Blend where
  color : Rgba
  strength : Float
  deriving DecidableEq

/-- The hue is added in degrees; saturation, brightness and alpha are factors. -/
structure Transformation (M : Type) where
  placement : M
  hue : Float
  saturation : Float
  brightness : Float
  alpha : Float
  absolute : Option Rgba
  random : Bool
  blend : Option Blend
  deriving DecidableEq

namespace Transformation
variable {M : Type}

def identity [One M] : Transformation M := ⟨1, 0, 1, 1, 1, none, false, none⟩

/-- A blend counts only if it has a strength. -/
def altersHsv (t : Transformation M) : Bool :=
  t.hue != 0 || t.saturation != 1 || t.brightness != 1 || t.blend.any (·.strength != 0)

def shiftHsv (t : Transformation M) (color : Hsv Float) : Hsv Float :=
  ⟨Scalar.wrap (color.hue + t.hue) 360, Scalar.clampUnit (color.saturation * t.saturation),
    Scalar.clampUnit (color.value * t.brightness)⟩

def recolorHsv (t : Transformation M) (color : Rgba) : Rgba :=
  if t.altersHsv then (t.shiftHsv color.toHsv).toRgba color.alpha else color

def fade (t : Transformation M) (color : Rgba) : Rgba :=
  if t.alpha != 1 then
    { color with alpha := Scalar.toByte (Scalar.ofNat color.alpha.toNat * t.alpha) }
  else color

/-- Does the colour come from the pool? -/
def drawsColor (t : Transformation M) : Bool := t.absolute.isNone && t.random

/-- An absolute colour wins over all else; a random colour replaces the shifted and faded one, and
the blend comes last. -/
def recolor (t : Transformation M) (pool : Pool) (color : Rgba) : Draw Rgba :=
  match t.absolute with
  | some absolute => pure absolute
  | none => do
    let color ← if t.random then pool.draw else pure (t.fade (t.recolorHsv color))
    return match t.blend with
      | some blend => color.blend blend.color blend.strength
      | none => color

def apply [Mul M] (t : Transformation M) (pool : Pool) (pose : Pose M) : Draw (Pose M) :=
  return ⟨pose.placement * t.placement, ← t.recolor pool pose.color⟩

theorem recolor_absolute {t : Transformation M} {absolute : Rgba} (h : t.absolute = some absolute)
    (pool : Pool) (color : Rgba) : t.recolor pool color = pure absolute := by
  simp [recolor, h]

theorem recolorHsv_identity [One M] (color : Rgba) :
    (identity : Transformation M).recolorHsv color = color := by
  have : (identity : Transformation M).altersHsv = false := by
    simp only [altersHsv, identity, Option.any_none, Bool.or_false]
    decide
  simp [recolorHsv, this]

theorem fade_identity [One M] (color : Rgba) :
    (identity : Transformation M).fade color = color := by
  have : ((1 : Float) != 1) = false := by decide
  simp [fade, identity, this]

theorem recolor_identity [One M] (pool : Pool) (color : Rgba) :
    (identity : Transformation M).recolor pool color = pure color := by
  have : (identity : Transformation M).fade ((identity : Transformation M).recolorHsv color) =
      color := by rw [recolorHsv_identity, fade_identity]
  conv => rhs; rw [← this]
  rfl

end Transformation

end SceneGrammar

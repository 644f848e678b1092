import SceneGrammar.Color.Basic
import SceneGrammar.Number.Scalar

/-!
Hue in degrees, saturation and value in `[0, 1]`. Both conversions and blending are written over any
`Scalar`.
-/

namespace SceneGrammar

structure Hsv (α : Type) where
  hue : α
  saturation : α
  value : α
  deriving Repr

namespace Rgba
variable {α : Type} [Scalar α]
open Scalar

def share (channel : UInt8) : α := ofNat channel.toNat / ofNat 255

/-- A colour without a largest channel has the hue zero. -/
def hueOf (r g b most spread : α) : α :=
  if spread == zero then zero
  else if most == r then ofNat 60 * wrap ((g - b) / spread) (ofNat 6)
  else if most == g then ofNat 60 * ((b - r) / spread + ofNat 2)
  else ofNat 60 * ((r - g) / spread + ofNat 4)

def toHsv (color : Rgba) : Hsv α :=
  let r : α := share color.red
  let g : α := share color.green
  let b : α := share color.blue
  let most := larger (larger r g) b
  let spread := most - smaller (smaller r g) b
  ⟨hueOf r g b most spread, if most == zero then zero else spread / most, most⟩

end Rgba

namespace Hsv
variable {α : Type} [Scalar α]
open Scalar

/-- Red, green and blue in the sextant of the circle, before the common part is added. -/
def sextant (chroma second : α) : Nat → α × α × α
  | 0 => (chroma, second, zero)
  | 1 => (second, chroma, zero)
  | 2 => (zero, chroma, second)
  | 3 => (zero, second, chroma)
  | 4 => (second, zero, chroma)
  | _ => (chroma, zero, second)

/-- The hue wraps; saturation and value are clamped. -/
def toRgba (color : Hsv α) (alpha : UInt8) : Rgba :=
  let saturation := clampUnit color.saturation
  let value := clampUnit color.value
  let chroma := value * saturation
  let sector := wrap color.hue (ofNat 360) / ofNat 60
  let second := chroma * (one - magnitude (wrap sector (ofNat 2) - one))
  let common := value - chroma
  let channel (part : α) : UInt8 := toByte ((part + common) * ofNat 255)
  let (r, g, b) := sextant chroma second (whole sector)
  ⟨channel r, channel g, channel b, alpha⟩

/-- A colour without saturation or value has no hue of its own. -/
def isHueless (color : Hsv α) : Bool := color.saturation == zero || color.value == zero

/-- The turn from one hue to another, the shorter way round. -/
def turn (source target : α) : α :=
  let forward := target - source
  if ofNat 180 < forward then forward - ofNat 360
  else if forward < zero - ofNat 180 then forward + ofNat 360
  else forward

/-- The point at `share` of the way; a hueless target keeps the hue. -/
def mix (source target : Hsv α) (share : α) : Hsv α :=
  let aim := if target.isHueless then source.hue else target.hue
  ⟨wrap (source.hue + turn source.hue aim * share) (ofNat 360),
    source.saturation + (target.saturation - source.saturation) * share,
    source.value + (target.value - source.value) * share⟩

end Hsv

namespace Rgba
variable {α : Type} [Scalar α]

/-- The way to `target` is measured in `Hsv`, and `color` keeps its alpha. -/
def blend (color target : Rgba) (strength : α) : Rgba :=
  (color.toHsv.mix target.toHsv (Scalar.clampUnit strength)).toRgba color.alpha

@[simp] theorem alpha_toRgba (color : Hsv α) (alpha : UInt8) : (color.toRgba alpha).alpha = alpha :=
  rfl

@[simp] theorem alpha_blend (color target : Rgba) (strength : α) :
    (color.blend target strength).alpha = color.alpha := rfl

end Rgba

end SceneGrammar

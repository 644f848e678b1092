import SceneGrammar.Color.Basic

/-!
Hexadecimal spellings of colours, one to four digits a channel; the alpha channel, where it is
spelled, comes first.
-/

namespace SceneGrammar

def hexDigit? (c : Char) : Option UInt8 :=
  if '0' ≤ c ∧ c ≤ '9' then some (c.toNat - '0'.toNat).toUInt8
  else if 'a' ≤ c ∧ c ≤ 'f' then some (c.toNat - 'a'.toNat + 10).toUInt8
  else if 'A' ≤ c ∧ c ≤ 'F' then some (c.toNat - 'A'.toNat + 10).toUInt8
  else none

namespace Rgba

def doubled (digit : UInt8) : UInt8 := digit * 17
def paired (high low : UInt8) : UInt8 := high * 16 + low

/-- One digit of a channel is doubled, and of three or four the first two count. -/
def ofHexDigits : List UInt8 → Option Rgba
  | [r, g, b] => some (opaqueOf (doubled r) (doubled g) (doubled b))
  | [a, r, g, b] => some ⟨doubled r, doubled g, doubled b, doubled a⟩
  | [r, r', g, g', b, b'] => some (opaqueOf (paired r r') (paired g g') (paired b b'))
  | [a, a', r, r', g, g', b, b'] => some ⟨paired r r', paired g g', paired b b', paired a a'⟩
  | [r, r', _, g, g', _, b, b', _] => some (opaqueOf (paired r r') (paired g g') (paired b b'))
  | [r, r', _, _, g, g', _, _, b, b', _, _] =>
    some (opaqueOf (paired r r') (paired g g') (paired b b'))
  | _ => none

@[simp] theorem ofHexDigits_rgb (r g b : UInt8) :
    ofHexDigits [r, g, b] = some (opaqueOf (doubled r) (doubled g) (doubled b)) :=
  rfl

@[simp] theorem ofHexDigits_argb (a r g b : UInt8) :
    ofHexDigits [a, r, g, b] = some ⟨doubled r, doubled g, doubled b, doubled a⟩ :=
  rfl

@[simp] theorem ofHexDigits_pairs_rgb (r r' g g' b b' : UInt8) :
    ofHexDigits [r, r', g, g', b, b'] = some (opaqueOf (paired r r') (paired g g') (paired b b')) :=
  rfl

@[simp] theorem ofHexDigits_pairs_argb (a a' r r' g g' b b' : UInt8) :
    ofHexDigits [a, a', r, r', g, g', b, b'] =
      some ⟨paired r r', paired g g', paired b b', paired a a'⟩ :=
  rfl

def ofHex? (digits : List Char) : Option Rgba :=
  (digits.mapM hexDigit?).bind ofHexDigits

theorem ofHex?_eq_some_iff {digits : List Char} {color : Rgba} :
    ofHex? digits = some color ↔
      ∃ values, digits.mapM hexDigit? = some values ∧ ofHexDigits values = some color :=
  Option.bind_eq_some_iff

end Rgba

end SceneGrammar

import SceneGrammar.Text.Alphabetic
import SceneGrammar.Text.Numeric

/-!
The character classes that programs are written in. ASCII is decided directly, all else by the
tables of Unicode properties.
-/

namespace SceneGrammar

def inRanges (ranges : List (Nat × Nat)) (c : Char) : Bool :=
  ranges.any fun (low, high) => low ≤ c.toNat && c.toNat ≤ high

/-- The property White_Space beyond ASCII. -/
def blankRanges : List (Nat × Nat) := [
  (0x85, 0x85), (0xa0, 0xa0), (0x1680, 0x1680), (0x2000, 0x200a), (0x2028, 0x2029),
  (0x202f, 0x202f), (0x205f, 0x205f), (0x3000, 0x3000)]

def isAscii (c : Char) : Bool := c.toNat < 0x80

def isBlank (c : Char) : Bool :=
  if isAscii c then c == ' ' || ('\t' ≤ c && c ≤ '\r') else inRanges blankRanges c

def isLetter (c : Char) : Bool :=
  if isAscii c then c.isAlpha else inRanges alphabeticRanges c

def isNumeral (c : Char) : Bool :=
  if isAscii c then c.isDigit else inRanges numericRanges c

/-- A character that an identifier goes on with. -/
def isWordChar (c : Char) : Bool := isLetter c || isNumeral c || c == '_'

/-- A character that an identifier begins with. -/
def isWordStart (c : Char) : Bool := isLetter c || c == '_'

theorem isWordChar_of_isWordStart {c : Char} (h : isWordStart c) : isWordChar c := by
  simp only [isWordStart, isWordChar, Bool.or_eq_true] at *
  exact h.imp_left .inl

theorem isBlank_of_isWhitespace {c : Char} (h : c.isWhitespace) : isBlank c := by
  simp only [Char.isWhitespace, Bool.or_eq_true, decide_eq_true_eq] at h
  rcases h with ((rfl | rfl) | rfl) | rfl <;> decide

end SceneGrammar

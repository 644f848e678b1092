/-!
Decimal numerals: an optional minus sign, digits, perhaps a point and more digits. The value is
accumulated digit by digit, each operation rounded on its own.
-/

namespace SceneGrammar

def startsNumeral : List Char → Bool
  | '-' :: '.' :: c :: _ => c.isDigit
  | '-' :: c :: _ => c.isDigit
  | '.' :: c :: _ => c.isDigit
  | c :: _ => c.isDigit
  | [] => false

def splitSign : List Char → List Char × List Char
  | '-' :: rest => (['-'], rest)
  | rest => ([], rest)

def splitFraction : List Char → List Char × List Char
  | '.' :: rest => ('.' :: rest.takeWhile Char.isDigit, rest.dropWhile Char.isDigit)
  | rest => ([], rest)

/-- The numeral at the head of a line, and what follows it. -/
def splitNumeral (line : List Char) : List Char × List Char :=
  let (sign, unsigned) := splitSign line
  let (fraction, rest) := splitFraction (unsigned.dropWhile Char.isDigit)
  (sign ++ unsigned.takeWhile Char.isDigit ++ fraction, rest)

def digitValue (c : Char) : Float := .ofNat (c.toNat - '0'.toNat)

def wholeValue (digits : List Char) : Float :=
  digits.foldl (fun sum digit => sum * 10 + digitValue digit) 0

/-- Every place is the tenth of the one before, starting at the number nearest to one tenth. -/
def fractionValue (digits : List Char) : Float :=
  (digits.foldl (fun (sum, place) digit => (sum + digitValue digit * place, place / 10))
    ((0 : Float), (0.1 : Float))).1

def numeralValue (spelling : List Char) : Float :=
  let (sign, unsigned) := splitSign spelling
  let whole := wholeValue (unsigned.takeWhile Char.isDigit)
  let fraction := fractionValue ((unsigned.dropWhile Char.isDigit).drop 1)
  (if sign.isEmpty then 1 else -1) * (whole + fraction)

theorem splitSign_append (line : List Char) : (splitSign line).1 ++ (splitSign line).2 = line := by
  unfold splitSign
  split <;> rfl

theorem splitFraction_append (line : List Char) :
    (splitFraction line).1 ++ (splitFraction line).2 = line := by
  unfold splitFraction
  split
  · simp
  · rfl

theorem splitNumeral_append (line : List Char) :
    (splitNumeral line).1 ++ (splitNumeral line).2 = line := by
  simp only [splitNumeral, List.append_assoc, splitFraction_append,
    List.takeWhile_append_dropWhile, splitSign_append]

theorem splitNumeral_ne_nil {line : List Char} (h : startsNumeral line) :
    (splitNumeral line).1 ≠ [] := by
  unfold startsNumeral at h
  split at h <;> simp_all [splitNumeral, splitSign, splitFraction]
  split <;> simp_all

end SceneGrammar

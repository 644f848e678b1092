import SceneGrammar.Proofs.Scan.Character

/-!
# Numerals as they are written

A numeral is an optional minus sign, digits, perhaps a point and more digits. Read off the head of a
line it comes back whole wherever it does not go on, and whatever starts a numeral begins with one.
-/

namespace SceneGrammar

/-- There is a digit before the point or behind it. -/
structure Numeral where
  negative : Bool
  whole : List Char
  fraction : Option (List Char)
  whole_digits : ∀ c ∈ whole, c.isDigit
  fraction_digits : ∀ digits ∈ fraction, ∀ c ∈ digits, c.isDigit
  some_digit : whole ≠ [] ∨ ∃ digits ∈ fraction, digits ≠ []

namespace Numeral

def sign (n : Numeral) : List Char := if n.negative then ['-'] else []

def point (n : Numeral) : List Char :=
  match n.fraction with
  | some digits => '.' :: digits
  | none => []

def text (n : Numeral) : List Char := n.sign ++ n.whole ++ n.point

/-- The digits are accumulated one by one, those behind the point from the left. -/
def value (n : Numeral) : Float :=
  (if n.negative then -1 else 1) * (wholeValue n.whole + fractionValue (n.fraction.getD []))

/-- What follows takes the numeral no further. -/
def Ends (n : Numeral) (rest : List Char) : Prop :=
  ∀ c ∈ rest.head?, c.isDigit = false ∧ (n.fraction = none → c ≠ '.')

theorem ends_nil (n : Numeral) : n.Ends [] := fun _ h => nomatch h

theorem splitSign_of_sign (n : Numeral) (rest : List Char) :
    splitSign (n.sign ++ (n.whole ++ n.point ++ rest)) = (n.sign, n.whole ++ n.point ++ rest) := by
  obtain ⟨negative, whole, fraction, hwhole, hfraction, hsome⟩ := n
  cases negative with
  | true => rfl
  | false =>
    simp only [sign, Bool.false_eq_true, if_false, List.nil_append]
    cases whole with
    | cons c whole =>
      have hc : c ≠ '-' := by
        rintro rfl
        exact absurd (hwhole '-' (by simp)) (by decide)
      simp [splitSign, hc]
    | nil =>
      rcases hsome with h | ⟨digits, rfl, h⟩
      · exact absurd rfl h
      · simp [splitSign, point]

theorem spanOf_whole (n : Numeral) {rest : List Char} (h : n.Ends rest) :
    spanOf Char.isDigit (n.whole ++ n.point ++ rest) = (n.whole, n.point ++ rest) := by
  refine spanOf_eq_iff.2 ⟨(List.append_assoc ..).symm, n.whole_digits, fun c hc => ?_⟩
  cases hf : n.fraction with
  | none =>
    rw [point, hf] at hc
    exact (h c hc).1
  | some digits =>
    rw [point, hf] at hc
    cases hc
    rfl

theorem splitFraction_of_point (n : Numeral) {rest : List Char} (h : n.Ends rest) :
    splitFraction (n.point ++ rest) = (n.point, rest) := by
  cases hf : n.fraction with
  | none =>
    rw [point, hf]
    cases rest with
    | nil => rfl
    | cons c rest =>
      have hc : c ≠ '.' := (h c rfl).2 hf
      simp [splitFraction, hc]
  | some digits =>
    have hspan : spanOf Char.isDigit (digits ++ rest) = (digits, rest) :=
      spanOf_eq_iff.2 ⟨rfl, n.fraction_digits digits hf, fun c hc => (h c hc).1⟩
    obtain ⟨htake, hdrop⟩ := Prod.mk.inj hspan
    rw [point, hf, List.cons_append, splitFraction, htake, hdrop]

theorem mem_text {n : Numeral} {c : Char} (h : c ∈ n.text) : c.isDigit ∨ c = '-' ∨ c = '.' := by
  rw [text, List.mem_append, List.mem_append] at h
  rcases h with (h | h) | h
  · rw [sign] at h
    split at h
    · exact .inr (.inl (List.mem_singleton.1 h))
    · cases h
  · exact .inl (n.whole_digits c h)
  · rw [point] at h
    split at h
    · rename_i digits hf
      rcases List.mem_cons.1 h with rfl | h
      · exact .inr (.inr rfl)
      · exact .inl (n.fraction_digits digits hf c h)
    · cases h

theorem point_notMem_text_iff (n : Numeral) : '.' ∉ n.text ↔ n.fraction = none := by
  have hsign : '.' ∉ n.sign := by
    rw [sign]
    split <;> simp
  have hwhole : '.' ∉ n.whole := fun h => absurd (n.whole_digits _ h) (by decide)
  rw [text, List.mem_append, List.mem_append, not_or, not_or]
  constructor
  · rintro ⟨-, hpoint⟩
    cases hf : n.fraction with
    | none => rfl
    | some digits =>
      rw [point, hf] at hpoint
      exact absurd List.mem_cons_self hpoint
  · intro hf
    rw [point, hf]
    exact ⟨⟨hsign, hwhole⟩, List.not_mem_nil⟩

/-- A numeral that ends where it does is what a line begins with. -/
theorem splitNumeral_text (n : Numeral) {rest : List Char} (h : n.Ends rest) :
    splitNumeral (n.text ++ rest) = (n.text, rest) := by
  obtain ⟨htake, hdrop⟩ := Prod.mk.inj (n.spanOf_whole h)
  have htext : n.text ++ rest = n.sign ++ (n.whole ++ n.point ++ rest) := by simp [text]
  rw [splitNumeral, htext, splitSign_of_sign]
  dsimp only
  rw [htake, hdrop, splitFraction_of_point n h, text]

theorem numeralValue_text (n : Numeral) : numeralValue n.text = n.value := by
  obtain ⟨htake, hdrop⟩ := Prod.mk.inj (n.spanOf_whole n.ends_nil)
  have hsign := n.splitSign_of_sign []
  simp only [List.append_nil] at htake hdrop hsign
  have htext : n.text = n.sign ++ (n.whole ++ n.point) := by simp [text]
  have hfraction : n.point.drop 1 = n.fraction.getD [] := by
    unfold point
    cases n.fraction <;> rfl
  rw [numeralValue, htext, hsign]
  dsimp only
  rw [htake, hdrop, hfraction, value, sign]
  cases n.negative <;> rfl

theorem startsNumeral_text (n : Numeral) (rest : List Char) : startsNumeral (n.text ++ rest) := by
  obtain ⟨negative, whole, fraction, hwhole, hfraction, hsome⟩ := n
  cases whole with
  | cons c whole =>
    have hc : c.isDigit := hwhole c (by simp)
    have hminus : c ≠ '-' := by
      rintro rfl
      cases hc
    have hpoint : c ≠ '.' := by
      rintro rfl
      cases hc
    cases negative <;> simp [text, sign, startsNumeral, hc, hminus, hpoint]
  | nil =>
    rcases hsome with h | ⟨digits, rfl, h⟩
    · exact absurd rfl h
    · obtain ⟨c, digits, rfl⟩ := List.exists_cons_of_ne_nil h
      have hc : c.isDigit := hfraction _ rfl c (by simp)
      cases negative <;> simp [text, sign, point, startsNumeral, hc]

/-- Digits at the head of a text, or a point and then digits, make up a numeral with either sign. -/
theorem exists_of_unsigned (negative : Bool) {unsigned : List Char}
    (h : (∃ c more, unsigned = c :: more ∧ c.isDigit) ∨
      ∃ c more, unsigned = '.' :: c :: more ∧ c.isDigit) :
    ∃ (n : Numeral) (rest : List Char),
      n.negative = negative ∧ n.whole ++ n.point ++ rest = unsigned ∧ n.Ends rest := by
  obtain ⟨whole, after, happend, hwhole, hafter⟩ := exists_span Char.isDigit unsigned
  by_cases hpoint : after.head? = some '.'
  · obtain ⟨behind, rfl⟩ := List.head?_eq_some_iff.1 hpoint
    obtain ⟨digits, rest, hbehind, hdigits, hrest⟩ := exists_span Char.isDigit behind
    have hsome : whole ≠ [] ∨ ∃ d ∈ some digits, d ≠ [] := by
      by_cases hnil : whole = []
      · subst hnil
        obtain ⟨c, more, rfl, hc⟩ | ⟨c, more, rfl, hc⟩ := h
        · cases happend
          cases hc
        · right
          refine ⟨digits, rfl, ?_⟩
          rintro rfl
          cases happend
          subst hbehind
          rw [hrest c rfl] at hc
          cases hc
      · exact .inl hnil
    refine ⟨⟨negative, whole, some digits, hwhole, ?_, hsome⟩, rest, rfl, ?_, ?_⟩
    · intro _ hd
      cases hd
      exact hdigits
    · rw [← happend, ← hbehind]
      simp [point]
    · exact fun c hc => ⟨hrest c hc, fun hnone => nomatch hnone⟩
  · have hsome : whole ≠ [] := by
      rintro rfl
      obtain ⟨c, more, rfl, hc⟩ | ⟨c, more, rfl, hc⟩ := h
      · subst happend
        rw [hafter c rfl] at hc
        cases hc
      · subst happend
        exact hpoint rfl
    refine ⟨⟨negative, whole, none, hwhole, fun _ hd => (nomatch hd), .inl hsome⟩, after, rfl, ?_, ?_⟩
    · rw [← happend]
      simp [point]
    · exact fun c hc => ⟨hafter c hc, fun _ he => hpoint (he ▸ hc)⟩

/-- Whatever starts a numeral begins with a whole one. -/
theorem exists_of_startsNumeral {line : List Char} (h : startsNumeral line) :
    ∃ (n : Numeral) (rest : List Char), n.text ++ rest = line ∧ n.Ends rest := by
  have hsigned : ∃ (negative : Bool) (unsigned : List Char),
      (if negative then ['-'] else []) ++ unsigned = line ∧
      ((∃ c more, unsigned = c :: more ∧ c.isDigit) ∨
        ∃ c more, unsigned = '.' :: c :: more ∧ c.isDigit) := by
    unfold startsNumeral at h
    split at h
    · exact ⟨true, _, rfl, .inr ⟨_, _, rfl, h⟩⟩
    · exact ⟨true, _, rfl, .inl ⟨_, _, rfl, h⟩⟩
    · exact ⟨false, _, rfl, .inr ⟨_, _, rfl, h⟩⟩
    · exact ⟨false, _, rfl, .inl ⟨_, _, rfl, h⟩⟩
    · cases h
  obtain ⟨negative, unsigned, rfl, hunsigned⟩ := hsigned
  obtain ⟨n, rest, rfl, rfl, hends⟩ := exists_of_unsigned negative hunsigned
  exact ⟨n, rest, by simp [text, sign], hends⟩

end Numeral

end SceneGrammar

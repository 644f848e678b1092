import SceneGrammar.Scan.Piece

/-!
# Characters that tell lexemes apart

The classes of characters are tables; here is what the scanner needs of them: which classes exclude
each other, and which lie in one another. What is of ASCII is checked character by character.
-/

namespace SceneGrammar

theorem toNat_lt_of_le {c high : Char} (h : c.val ≤ high.val) (hh : high.toNat < 128) :
    c.toNat < 128 :=
  Nat.lt_of_le_of_lt (UInt32.le_iff_toNat_le.1 h) hh

theorem toNat_lt_of_isDigit {c : Char} (h : c.isDigit) : c.toNat < 128 := by
  simp only [Char.isDigit, Bool.and_eq_true, decide_eq_true_eq] at h
  exact toNat_lt_of_le h.2 (by decide)

def isHexDigit (c : Char) : Bool := (hexDigit? c).isSome

@[elab_as_elim]
theorem forall_ascii {P : Char → Prop} {c : Char} (hc : c.toNat < 128)
    (h : ∀ n < 128, P (.ofNat n)) : P c := by
  have := h c.toNat hc
  rwa [Char.ofNat_toNat] at this

/-- How the classes lie to each other in ASCII. -/
theorem classes_of_ascii {c : Char} (hc : c.toNat < 128) :
    (c.isDigit → isWordChar c ∧ isWordStart c = false) ∧ (isHexDigit c → isWordChar c) ∧
      (c.toLower.isLower → isLetter c) ∧ (isBlank c → isWordChar c = false) := by
  refine forall_ascii hc ?_
  decide

theorem isWordChar_of_isDigit {c : Char} (h : c.isDigit) : isWordChar c :=
  ((classes_of_ascii (toNat_lt_of_isDigit h)).1 h).1

theorem isWordStart_eq_false_of_isDigit {c : Char} (h : c.isDigit) : isWordStart c = false :=
  ((classes_of_ascii (toNat_lt_of_isDigit h)).1 h).2

theorem isDigit_eq_false_of_isWordStart {c : Char} (h : isWordStart c) : c.isDigit = false := by
  cases hd : c.isDigit with
  | false => rfl
  | true =>
    rw [isWordStart_eq_false_of_isDigit hd] at h
    cases h

theorem toNat_lt_of_isHexDigit {c : Char} (h : isHexDigit c) : c.toNat < 128 := by
  unfold isHexDigit hexDigit? at h
  split at h
  · rename_i hc
    exact toNat_lt_of_le hc.2 (by decide)
  · split at h
    · rename_i hc
      exact toNat_lt_of_le hc.2 (by decide)
    · split at h
      · rename_i hc
        exact toNat_lt_of_le hc.2 (by decide)
      · cases h

theorem isWordChar_of_isHexDigit {c : Char} (h : isHexDigit c) : isWordChar c :=
  (classes_of_ascii (toNat_lt_of_isHexDigit h)).2.1 h

theorem toNat_lt_of_isLower_toLower {c : Char} (h : c.toLower.isLower) : c.toNat < 128 := by
  unfold Char.toLower at h
  split at h
  · rename_i hc
    exact toNat_lt_of_le hc.2 (by decide)
  · have hle : c.val ≤ 'z'.val := of_decide_eq_true (Bool.and_eq_true_iff.1 h).2
    exact toNat_lt_of_le hle (by decide)

theorem isLetter_of_isLower_toLower {c : Char} (h : c.toLower.isLower) : isLetter c :=
  (classes_of_ascii (toNat_lt_of_isLower_toLower h)).2.2.1 h

theorem isWordStart_of_isLetter {c : Char} (h : isLetter c) : isWordStart c := by
  simp [isWordStart, h]

theorem isWordChar_of_isLetter {c : Char} (h : isLetter c) : isWordChar c :=
  isWordChar_of_isWordStart (isWordStart_of_isLetter h)

/-- No code point lies in both ranges. -/
def apart (r s : Nat × Nat) : Bool := r.2.blt s.1 || s.2.blt r.1

theorem inRanges_eq_false_of_apart {ranges others : List (Nat × Nat)} {c : Char}
    (h : ranges.all fun r => others.all (apart r)) (hc : inRanges ranges c) :
    inRanges others c = false := by
  obtain ⟨r, hr, hin⟩ := List.any_eq_true.1 hc
  refine List.any_eq_false.2 fun s hs => ?_
  have hapart := List.all_eq_true.1 (List.all_eq_true.1 h r hr) s hs
  simp only [apart, Nat.blt_eq, Bool.or_eq_true, Bool.and_eq_true, decide_eq_true_eq] at hapart hin ⊢
  omega

theorem isWordChar_eq_false_of_isBlank {c : Char} (h : isBlank c) : isWordChar c = false := by
  by_cases hascii : isAscii c
  · exact (classes_of_ascii (of_decide_eq_true hascii)).2.2.2 h
  · rw [isBlank, if_neg hascii] at h
    have hletter : inRanges alphabeticRanges c = false :=
      inRanges_eq_false_of_apart (by decide +kernel) h
    have hnumeral : inRanges numericRanges c = false :=
      inRanges_eq_false_of_apart (by decide +kernel) h
    have hscore : c ≠ '_' := by
      rintro rfl
      exact hascii (by decide)
    simp [isWordChar, isLetter, isNumeral, hascii, hletter, hnumeral, hscore]

theorem isBlank_eq_false_of_isWordChar {c : Char} (h : isWordChar c) : isBlank c = false := by
  cases hb : isBlank c with
  | false => rfl
  | true =>
    rw [isWordChar_eq_false_of_isBlank hb] at h
    cases h

/-- A span ends before the first character outside of its class. -/
theorem spanOf_eq_iff {p : Char → Bool} {line text rest : List Char} :
    spanOf p line = (text, rest) ↔
      text ++ rest = line ∧ (∀ c ∈ text, p c) ∧ ∀ c ∈ rest.head?, p c = false := by
  constructor
  · intro h
    obtain ⟨rfl, rfl⟩ := Prod.mk.inj h
    refine ⟨List.takeWhile_append_dropWhile, List.all_eq_true.1 List.all_takeWhile,
      fun c hc => ?_⟩
    have := List.head?_dropWhile_not p line
    rwa [Option.mem_def.1 hc] at this
  · rintro ⟨rfl, htext, hrest⟩
    have hnil : rest.takeWhile p = [] ∧ rest.dropWhile p = rest := by
      cases rest with
      | nil => exact ⟨rfl, rfl⟩
      | cons c rest => simp [hrest c rfl]
    rw [spanOf, List.takeWhile_append_of_pos htext, List.dropWhile_append_of_pos htext, hnil.1,
      hnil.2, List.append_nil]

theorem spanOf_cons {p : Char → Bool} {c : Char} (h : p c) (line : List Char) :
    spanOf p (c :: line) = (c :: line.takeWhile p, line.dropWhile p) := by
  simp [spanOf, h]

theorem exists_span (p : Char → Bool) (line : List Char) :
    ∃ text rest, text ++ rest = line ∧ (∀ c ∈ text, p c) ∧ ∀ c ∈ rest.head?, p c = false :=
  ⟨_, _, spanOf_eq_iff.1 rfl⟩

theorem startsWord_eq_false_iff {rest : List Char} :
    startsWord rest = false ↔ ∀ c ∈ rest.head?, isWordChar c = false := by
  cases rest <;> simp [startsWord]

end SceneGrammar

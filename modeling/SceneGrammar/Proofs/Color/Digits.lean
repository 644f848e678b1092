import SceneGrammar.Proofs.Color.Literal

/-!
# Spellings of a colour

A digit is worth less than sixteen, so no byte that is put together of digits overflows. Every
spelling but the one of two digits a channel decodes as that one does: a single digit is written
twice, and of three or four the first two are kept.
-/

namespace SceneGrammar

/-- The ASCII characters that are hexadecimal digits. -/
def hexAlphabet : List Char := "0123456789abcdefABCDEF".toList

theorem hexDigit?_of_ascii {c : Char} (hc : c.toNat < 128) :
    (isHexDigit c → c ∈ hexAlphabet) ∧ hexDigit? c.toLower = hexDigit? c ∧
      (hexDigit? c).all (·.toNat < 16) := by
  refine forall_ascii hc ?_
  decide

theorem isHexDigit_iff_mem {c : Char} : isHexDigit c ↔ c ∈ hexAlphabet := by
  constructor
  · intro h
    exact (hexDigit?_of_ascii (toNat_lt_of_isHexDigit h)).1 h
  · intro h
    have hall : hexAlphabet.all isHexDigit := by decide
    exact List.all_eq_true.1 hall c h

theorem toLower_of_not_ascii {c : Char} (hc : ¬ c.toNat < 128) : c.toLower = c := by
  unfold Char.toLower
  split
  · rename_i hupper
    exact absurd (toNat_lt_of_le hupper.2 (by decide)) hc
  · rfl

theorem hexDigit?_toLower (c : Char) : hexDigit? c.toLower = hexDigit? c := by
  by_cases hc : c.toNat < 128
  · exact (hexDigit?_of_ascii hc).2.1
  · rw [toLower_of_not_ascii hc]

theorem toNat_lt_of_hexDigit? {c : Char} {digit : UInt8} (h : hexDigit? c = some digit) :
    digit.toNat < 16 := by
  have hascii := toNat_lt_of_isHexDigit (Option.isSome_of_eq_some h)
  exact of_decide_eq_true ((Option.all_eq_true _ _).1 (hexDigit?_of_ascii hascii).2.2 digit h)

theorem toNat_lt_of_mapM {digits : List Char} {values : List UInt8}
    (h : digits.mapM hexDigit? = some values) : ∀ digit ∈ values, digit.toNat < 16 := by
  induction digits generalizing values with
  | nil =>
    cases h
    exact fun _ hmem => nomatch hmem
  | cons c digits ih =>
    obtain ⟨digit, more, hc, hmore, rfl⟩ := mapM_cons_eq_some_iff.1 h
    exact List.forall_mem_cons.2 ⟨toNat_lt_of_hexDigit? hc, ih hmore⟩

theorem mapM_map_toLower (digits : List Char) :
    (digits.map Char.toLower).mapM hexDigit? = digits.mapM hexDigit? := by
  induction digits with
  | nil => rfl
  | cons c digits ih => simp only [List.map_cons, List.mapM_cons, hexDigit?_toLower, ih]

theorem mapM_doubled (digits : List Char) :
    (digits.flatMap fun c => [c, c]).mapM hexDigit? =
      (digits.mapM hexDigit?).map fun values => values.flatMap fun digit => [digit, digit] := by
  induction digits with
  | nil => rfl
  | cons c digits ih =>
    simp only [List.flatMap_cons, List.cons_append, List.nil_append, List.mapM_cons, ih]
    cases hexDigit? c <;> cases digits.mapM hexDigit? <;> rfl

theorem mapM_take {digits : List Char} {values : List UInt8}
    (h : digits.mapM hexDigit? = some values) (n : Nat) :
    (digits.take n).mapM hexDigit? = some (values.take n) := by
  induction digits generalizing values n with
  | nil =>
    cases h
    simp
  | cons c digits ih =>
    obtain ⟨digit, more, hc, hmore, rfl⟩ := mapM_cons_eq_some_iff.1 h
    cases n with
    | zero => rfl
    | succ n => exact mapM_cons_eq_some_iff.2 ⟨digit, more.take n, hc, ih hmore n, rfl⟩

theorem mapM_drop {digits : List Char} {values : List UInt8}
    (h : digits.mapM hexDigit? = some values) (n : Nat) :
    (digits.drop n).mapM hexDigit? = some (values.drop n) := by
  induction digits generalizing values n with
  | nil =>
    cases h
    simp
  | cons c digits ih =>
    cases n with
    | zero => exact h
    | succ n =>
      obtain ⟨digit, more, -, hmore, rfl⟩ := mapM_cons_eq_some_iff.1 h
      exact ih hmore n

namespace Rgba

theorem toNat_doubled {digit : UInt8} (h : digit.toNat < 16) :
    (doubled digit).toNat = digit.toNat * 17 := by
  rw [doubled, UInt8.toNat_mul, show (17 : UInt8).toNat = 17 from rfl]
  omega

theorem toNat_paired {high low : UInt8} (hh : high.toNat < 16) (hl : low.toNat < 16) :
    (paired high low).toNat = high.toNat * 16 + low.toNat := by
  rw [paired, UInt8.toNat_add, UInt8.toNat_mul, show (16 : UInt8).toNat = 16 from rfl]
  omega

theorem paired_self (digit : UInt8) : paired digit digit = doubled digit := by
  unfold paired doubled
  grind

/-! ## Spellings -/

/-- Two digits for each byte, in small letters. -/
def spell (bytes : List UInt8) : List Char :=
  bytes.flatMap fun byte => [Nat.digitChar (byte.toNat / 16), Nat.digitChar (byte.toNat % 16)]

theorem hexDigit?_digitChar {n : Nat} (h : n < 16) : hexDigit? n.digitChar = some n.toUInt8 := by
  have hall : ∀ n : Nat, n < 16 → hexDigit? n.digitChar = some n.toUInt8 := by decide
  exact hall n h

theorem mapM_spell (bytes : List UInt8) : (spell bytes).mapM hexDigit? =
    some (bytes.flatMap fun byte => [(byte.toNat / 16).toUInt8, (byte.toNat % 16).toUInt8]) := by
  induction bytes with
  | nil => rfl
  | cons byte bytes ih =>
    have hbyte := byte.toNat_lt
    rw [spell] at ih ⊢
    simp only [List.flatMap_cons, List.cons_append, List.nil_append, List.mapM_cons, ih,
      hexDigit?_digitChar (show byte.toNat / 16 < 16 by omega),
      hexDigit?_digitChar (show byte.toNat % 16 < 16 by omega)]
    rfl

theorem paired_halves (byte : UInt8) :
    paired (byte.toNat / 16).toUInt8 (byte.toNat % 16).toUInt8 = byte := by
  have hbyte := byte.toNat_lt
  have hhigh : (byte.toNat / 16).toUInt8.toNat = byte.toNat / 16 :=
    UInt8.toNat_ofNat_of_lt (show byte.toNat / 16 < 256 by omega)
  have hlow : (byte.toNat % 16).toUInt8.toNat = byte.toNat % 16 :=
    UInt8.toNat_ofNat_of_lt (show byte.toNat % 16 < 256 by omega)
  apply UInt8.toNat_inj.1
  rw [toNat_paired (by omega) (by omega), hhigh, hlow]
  omega

theorem ofHex?_spell_rgb (red green blue : UInt8) :
    ofHex? (spell [red, green, blue]) = some (opaqueOf red green blue) := by
  rw [ofHex?, mapM_spell]
  simp [paired_halves]

theorem ofHex?_spell (color : Rgba) :
    ofHex? (spell [color.alpha, color.red, color.green, color.blue]) = some color := by
  rw [ofHex?, mapM_spell]
  simp [paired_halves]

theorem ofHexDigits_doubled : (values : List UInt8) → values.length = 3 ∨ values.length = 4 →
    ofHexDigits (values.flatMap fun digit => [digit, digit]) = ofHexDigits values
  | [r, g, b], _ => by simp [paired_self]
  | [a, r, g, b], _ => by simp [paired_self]
  | [], h | [_], h | [_, _], h | _ :: _ :: _ :: _ :: _ :: _, h => by simp at h

theorem ofHex?_doubled {digits : List Char} (h : digits.length = 3 ∨ digits.length = 4) :
    ofHex? (digits.flatMap fun c => [c, c]) = ofHex? digits := by
  rw [ofHex?, ofHex?, mapM_doubled]
  cases hvalues : digits.mapM hexDigit? with
  | none => rfl
  | some values => exact ofHexDigits_doubled values ((hexDigits_of_mapM hvalues).2 ▸ h)

/-- The first two entries of each of three parts of the same width. -/
def channelHeads {α : Type} (width : Nat) (xs : List α) : List α :=
  xs.take 2 ++ (xs.drop width).take 2 ++ (xs.drop (2 * width)).take 2

theorem ofHexDigits_channelHeads {width : Nat} (hwidth : width = 3 ∨ width = 4)
    {values : List UInt8} (h : values.length = 3 * width) :
    ofHexDigits (channelHeads width values) = ofHexDigits values := by
  rcases hwidth with rfl | rfl
  · match values, h with
    | [_, _, _, _, _, _, _, _, _], _ => rfl
  · match values, h with
    | [_, _, _, _, _, _, _, _, _, _, _, _], _ => rfl

theorem mapM_channelHeads {digits : List Char} {values : List UInt8}
    (h : digits.mapM hexDigit? = some values) (width : Nat) :
    (channelHeads width digits).mapM hexDigit? = some (channelHeads width values) := by
  simp only [channelHeads, List.mapM_append, mapM_take h, mapM_take (mapM_drop h _)]
  rfl

theorem ofHex?_channelHeads {width : Nat} (hwidth : width = 3 ∨ width = 4) {digits : List Char}
    (hdigits : ∀ c ∈ digits, isHexDigit c) (h : digits.length = 3 * width) :
    ofHex? (channelHeads width digits) = ofHex? digits := by
  obtain ⟨values, hvalues, hlength⟩ := exists_hexDigits hdigits
  rw [ofHex?, ofHex?, mapM_channelHeads hvalues, hvalues]
  exact ofHexDigits_channelHeads hwidth (hlength.trans h)

theorem ofHex?_congr_toLower {digits other : List Char}
    (h : other.map Char.toLower = digits.map Char.toLower) : ofHex? other = ofHex? digits := by
  rw [ofHex?, ofHex?, ← mapM_map_toLower other, h, mapM_map_toLower]

/-- Which texts spell a colour, and which of them the same one: letters count in either case, and
the shorter and the longer forms say what two digits a channel say. No byte overflows on the way. -/
theorem spellings_agree (digits : List Char) (color : Rgba) :
    ((ofHex? digits).isSome ↔
      (∀ c ∈ digits, c ∈ hexAlphabet) ∧ digits.length ∈ [3, 4, 6, 8, 9, 12]) ∧
    (∀ values, digits.mapM hexDigit? = some values → ∀ high ∈ values, ∀ low ∈ values,
      (doubled high).toNat = high.toNat * 17 ∧
        (paired high low).toNat = high.toNat * 16 + low.toNat) ∧
    (∀ other : List Char, other.map Char.toLower = digits.map Char.toLower →
      ofHex? other = ofHex? digits) ∧
    ofHex? (spell [color.alpha, color.red, color.green, color.blue]) = some color ∧
    (color.alpha = 255 → ofHex? (spell [color.red, color.green, color.blue]) = some color) ∧
    (digits.length = 3 ∨ digits.length = 4 →
      ofHex? digits = ofHex? (digits.flatMap fun c => [c, c])) ∧
    ∀ width, width = 3 ∨ width = 4 → digits.length = 3 * width →
      (∀ c ∈ digits, c ∈ hexAlphabet) → ofHex? digits = ofHex? (channelHeads width digits) := by
  refine ⟨?_, fun values hvalues high hhigh low hlow => ?_, fun other => ofHex?_congr_toLower,
    ofHex?_spell color, fun hopaque => ?_, fun hshort => (ofHex?_doubled hshort).symm,
    fun width hwidth hlong hdigits => (ofHex?_channelHeads hwidth (fun c hc => ?_) hlong).symm⟩
  · rw [isSome_ofHex?_iff]
    simp only [isHexDigit_iff_mem, hexLengths]
  · have hsmall := toNat_lt_of_mapM hvalues
    exact ⟨toNat_doubled (hsmall high hhigh), toNat_paired (hsmall high hhigh) (hsmall low hlow)⟩
  · rw [ofHex?_spell_rgb, opaqueOf, ← hopaque]
  · exact isHexDigit_iff_mem.2 (hdigits c hc)

theorem spellings_agree_nine :
    ("0A2bC4De6".toList.length = 3 * 3 ∧ (∀ c ∈ "0A2bC4De6".toList, c ∈ hexAlphabet) ∧
      ofHex? "0A2bC4De6".toList = ofHex? "0AbCDe".toList) ∧
    ("0A2bC4De6".toList.mapM hexDigit? = some [0, 10, 2, 11, 12, 4, 13, 14, 6] ∧
      (paired 14 13).toNat = 14 * 16 + 13) ∧
    ("0a2Bc4dE6".toList.map Char.toLower = "0A2bC4De6".toList.map Char.toLower ∧
      ofHex? "0a2Bc4dE6".toList = ofHex? "0A2bC4De6".toList) ∧
    ofHex? "0abcde".toList = some ⟨10, 188, 222, 255⟩ ∧
    ("Fa0".toList.length = 3 ∧ ofHex? "Fa0".toList = ofHex? "FFaa00".toList) := by
  obtain ⟨-, hbytes, hcase, -, hopaque, -, hlong⟩ :=
    spellings_agree "0A2bC4De6".toList ⟨10, 188, 222, 255⟩
  obtain ⟨-, -, -, -, -, hshort, -⟩ := spellings_agree "Fa0".toList white
  have hall : "0A2bC4De6".toList.all isHexDigit := by decide
  have hdigits : ∀ c ∈ "0A2bC4De6".toList, c ∈ hexAlphabet := fun c hc =>
    isHexDigit_iff_mem.1 (List.all_eq_true.1 hall c hc)
  have hvalues : "0A2bC4De6".toList.mapM hexDigit? = some [0, 10, 2, 11, 12, 4, 13, 14, 6] := by
    decide
  have hletters : "0a2Bc4dE6".toList.map Char.toLower = "0A2bC4De6".toList.map Char.toLower := by
    decide
  refine ⟨⟨by decide, hdigits, hlong 3 (.inl rfl) (by decide) hdigits⟩,
    ⟨hvalues, (hbytes _ hvalues 14 (by decide) 13 (by decide)).2⟩, ⟨hletters, hcase _ hletters⟩,
    hopaque rfl, by decide, hshort (.inl (by decide))⟩

end Rgba
end SceneGrammar

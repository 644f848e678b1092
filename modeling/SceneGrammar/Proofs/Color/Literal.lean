import Mathlib.Data.List.Chain
import Mathlib.Data.List.Nodup
import SceneGrammar.Proofs.Scan.Character
import SceneGrammar.Proofs.Token.Lookup

/-!
# Which texts are colours

A hexadecimal colour has one of six lengths; a named one stands in the table, in any ASCII case.
-/

namespace SceneGrammar

theorem mapM_cons_eq_some_iff {c : Char} {digits : List Char} {values : List UInt8} :
    (c :: digits).mapM hexDigit? = some values ↔
      ∃ digit more, hexDigit? c = some digit ∧ digits.mapM hexDigit? = some more ∧
        digit :: more = values := by
  simp only [List.mapM_cons, Option.bind_eq_bind, Option.bind_eq_some_iff, Option.pure_def,
    Option.some.injEq]
  constructor
  · rintro ⟨digit, hc, more, hmore, rfl⟩
    exact ⟨digit, more, hc, hmore, rfl⟩
  · rintro ⟨digit, more, hc, hmore, rfl⟩
    exact ⟨digit, hc, more, hmore, rfl⟩

theorem exists_hexDigits {digits : List Char} (h : ∀ c ∈ digits, isHexDigit c) :
    ∃ values, digits.mapM hexDigit? = some values ∧ values.length = digits.length := by
  induction digits with
  | nil => exact ⟨[], rfl, rfl⟩
  | cons c digits ih =>
    obtain ⟨value, hc⟩ := Option.isSome_iff_exists.1 (h c (by simp))
    obtain ⟨values, hdigits, hlength⟩ := ih fun d hd => h d (by simp [hd])
    exact ⟨value :: values, mapM_cons_eq_some_iff.2 ⟨value, values, hc, hdigits, rfl⟩,
      by simp [hlength]⟩

theorem hexDigits_of_mapM {digits : List Char} {values : List UInt8}
    (h : digits.mapM hexDigit? = some values) :
    (∀ c ∈ digits, isHexDigit c) ∧ values.length = digits.length := by
  induction digits generalizing values with
  | nil =>
    cases h
    exact ⟨fun _ hc => (nomatch hc), rfl⟩
  | cons c digits ih =>
    obtain ⟨value, more, hc, hmore, rfl⟩ := mapM_cons_eq_some_iff.1 h
    obtain ⟨hdigits, hlength⟩ := ih hmore
    exact ⟨List.forall_mem_cons.2 ⟨Option.isSome_of_eq_some hc, hdigits⟩, by simp [hlength]⟩

namespace Rgba

def hexLengths : List Nat := [3, 4, 6, 8, 9, 12]

theorem isSome_ofHexDigits_iff : (values : List UInt8) →
    ((ofHexDigits values).isSome ↔ values.length ∈ hexLengths)
  | [] | [_] | [_, _] | [_, _, _] | [_, _, _, _] | [_, _, _, _, _] | [_, _, _, _, _, _]
  | [_, _, _, _, _, _, _] | [_, _, _, _, _, _, _, _] | [_, _, _, _, _, _, _, _, _]
  | [_, _, _, _, _, _, _, _, _, _] | [_, _, _, _, _, _, _, _, _, _, _]
  | [_, _, _, _, _, _, _, _, _, _, _, _] => by simp [ofHexDigits, hexLengths]
  | _ :: _ :: _ :: _ :: _ :: _ :: _ :: _ :: _ :: _ :: _ :: _ :: _ :: values => by
    simp [ofHexDigits, hexLengths]

theorem isSome_ofHex?_iff {digits : List Char} :
    (ofHex? digits).isSome ↔ (∀ c ∈ digits, isHexDigit c) ∧ digits.length ∈ hexLengths := by
  constructor
  · intro h
    obtain ⟨color, hcolor⟩ := Option.isSome_iff_exists.1 h
    obtain ⟨values, hvalues, hof⟩ := ofHex?_eq_some_iff.1 hcolor
    obtain ⟨hdigits, hlength⟩ := hexDigits_of_mapM hvalues
    refine ⟨hdigits, ?_⟩
    rw [← hlength, ← isSome_ofHexDigits_iff, hof]
    rfl
  · rintro ⟨hdigits, hlength⟩
    obtain ⟨values, hvalues, hsame⟩ := exists_hexDigits hdigits
    rw [ofHex?, hvalues]
    exact (isSome_ofHexDigits_iff values).2 (hsame ▸ hlength)

/-- The colour that hexadecimal digits spell, of which there are as many as a colour takes. -/
def ofHex (digits : List Char) (hd : ∀ c ∈ digits, isHexDigit c)
    (hl : digits.length ∈ hexLengths) : Rgba :=
  (ofHex? digits).get (isSome_ofHex?_iff.2 ⟨hd, hl⟩)

/-- The table lists its names in their order and in small letters. -/
theorem words_namedCodes : (namedCodes.map (·.1.toList)).IsChain (· < ·) ∧
    ∀ word ∈ namedCodes.map (·.1.toList), word ≠ [] ∧ word.all Char.isLower := by
  rw [map_toList_eq namedCodes (by repeat' constructor)]
  decide +kernel

theorem nodup_namedCodes : (namedCodes.map Prod.fst).Nodup := by
  refine .of_map String.toList ?_
  rw [List.map_map]
  refine words_namedCodes.1.pairwise.imp fun {a b} h => ?_
  rintro rfl
  exact List.lt_irrefl a h

theorem isLower_of_mem_namedCodes {name : String} {code : Nat} (h : (name, code) ∈ namedCodes) :
    name.toList ≠ [] ∧ ∀ c ∈ name.toList, c.isLower := by
  obtain ⟨hnil, hlower⟩ := words_namedCodes.2 _ (List.mem_map_of_mem h)
  exact ⟨hnil, List.all_eq_true.1 hlower⟩

theorem ofName?_eq_some_iff {word : List Char} {color : Rgba} :
    ofName? word = some color ↔
      ∃ name code, (name, code) ∈ namedCodes ∧ word.map Char.toLower = name.toList ∧
        ofCode code = color := by
  rw [ofName?, Option.map_eq_some_iff]
  constructor
  · rintro ⟨code, h, rfl⟩
    exact ⟨_, code, (lookup_eq_some_iff_mem nodup_namedCodes).1 h, by simp, rfl⟩
  · rintro ⟨name, code, h, hword, rfl⟩
    rw [hword, String.ofList_toList]
    exact ⟨code, (lookup_eq_some_iff_mem nodup_namedCodes).2 h, rfl⟩

end Rgba

end SceneGrammar

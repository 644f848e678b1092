import SceneGrammar.Proofs.Color.Literal
import SceneGrammar.Proofs.Scan.Keyword
import SceneGrammar.Proofs.Scan.Numeral

/-!
# How lexemes are spelled

The rules of the lexical format, said without the scanner: what spells a lexeme, and what must not
follow for the spelling to end there. Outside of comments the scanner takes a lexeme off a line just
if the line begins with a spelling of it that ends there.
-/

namespace SceneGrammar

/-- `Spelling text lexeme`: the text, on its own, is that lexeme. -/
inductive Spelling : List Char → Lexeme → Prop
  | number (n : Numeral) : Spelling n.text (.number n.value)
  | hexColor {digits : List Char} (hd : ∀ c ∈ digits, isHexDigit c)
      (hl : digits.length ∈ Rgba.hexLengths) :
      Spelling ('#' :: digits) (.color (.ofHex digits hd hl))
  | namedColor {word : List Char} {name : String} {code : Nat}
      (h : (name, code) ∈ Rgba.namedCodes) (hw : word.map Char.toLower = name.toList) :
      Spelling word (.color (.ofCode code))
  | keyword {word : String} {k : Keyword} (h : (word, k) ∈ Keyword.spellings) :
      Spelling word.toList (.keyword k)
  | name {c : Char} {more : List Char} (hc : isWordStart c) (hm : ∀ d ∈ more, isWordChar d)
      (hk : ∀ k, (.ofList (c :: more), k) ∉ Keyword.spellings)
      (hn : ∀ entry ∈ Rgba.namedCodes, (c :: more).map Char.toLower ≠ entry.1.toList) :
      Spelling (c :: more) (.name (.ofList (c :: more)))

/-- What follows a spelling takes it no further. Behind hexadecimal digits more than one character
counts: they may be the beginning of the word of the directive. -/
def Lexeme.Ends (text : List Char) : Lexeme → List Char → Prop
  | .number _, rest => ∀ c ∈ rest.head?, c.isDigit = false ∧ ('.' ∉ text → c ≠ '.')
  | .color _, rest =>
    if text.head? = some '#' then
      (∀ c ∈ rest.head?, isHexDigit c = false) ∧
        (text.tail ++ rest).takeWhile isWordChar ≠ "define".toList
    else startsWord rest = false
  | .name _, rest => startsWord rest = false
  | .keyword _, rest => (∀ c ∈ text.getLast?, isWordChar c) → startsWord rest = false

namespace Lexeme

theorem ends_number_iff (n : Numeral) (x : Float) (rest : List Char) :
    (number x).Ends n.text rest ↔ n.Ends rest := by
  rw [Ends, n.point_notMem_text_iff, Numeral.Ends]

theorem ends_hexColor_iff (color : Rgba) (digits rest : List Char) :
    (Lexeme.color color).Ends ('#' :: digits) rest ↔
      (∀ c ∈ rest.head?, isHexDigit c = false) ∧
        (digits ++ rest).takeWhile isWordChar ≠ "define".toList := by
  have hsign : ('#' :: digits).head? = some '#' := rfl
  rw [Ends, if_pos hsign, List.tail_cons]

theorem ends_namedColor_iff (color : Rgba) {word : List Char} (h : ∀ c ∈ word, isLetter c)
    (rest : List Char) : (Lexeme.color color).Ends word rest ↔ startsWord rest = false := by
  have hsign : word.head? ≠ some '#' := fun he =>
    absurd (h '#' (List.mem_of_mem_head? he)) (by decide)
  rw [Ends, if_neg hsign]

end Lexeme

/-! ## What the scanner takes off a line -/

theorem cutOutside_of_isPlain {c : Char} {line : List Char} (h : isPlain c) :
    cutOutside (c :: line) = cutLetters c (c :: line) := by
  simp only [isPlain, Bool.and_eq_true, Bool.not_eq_true', List.contains_eq_mem,
    decide_eq_false_iff_not, List.mem_cons, List.not_mem_nil, or_false, not_or] at h
  obtain ⟨⟨hblank, hdigit⟩, hslash, hminus, hpoint, hsign⟩ := h
  have hnumeral : startsNumeral (c :: line) = false := by
    unfold startsNumeral
    split <;> simp_all
  unfold cutOutside
  split <;> simp_all

theorem isBlank_of_startsNumeral {c : Char} {line : List Char} (h : startsNumeral (c :: line)) :
    isBlank c = false := by
  have hdigit {d : Char} (hd : d.isDigit) : isBlank d = false :=
    isBlank_eq_false_of_isWordChar (isWordChar_of_isDigit hd)
  unfold startsNumeral at h
  split at h
  · rename_i he
    obtain ⟨rfl, -⟩ := List.cons.inj he
    decide
  · rename_i he
    obtain ⟨rfl, -⟩ := List.cons.inj he
    decide
  · rename_i he
    obtain ⟨rfl, -⟩ := List.cons.inj he
    decide
  · rename_i he
    obtain ⟨rfl, -⟩ := List.cons.inj he
    exact hdigit h
  · cases h

theorem cutOutside_of_startsNumeral {line : List Char} (h : startsNumeral line) :
    cutOutside line =
      .ofSplit (splitNumeral line) (.lexeme (.number (numeralValue (splitNumeral line).1))) := by
  unfold cutOutside
  split
  · cases h
  · cases h
  · cases h
  · rw [isBlank_of_startsNumeral h, if_neg Bool.false_ne_true, if_pos h]

theorem cutOutside_sign (line : List Char) :
    cutOutside ('#' :: line) = cutSigned ('#' :: line) line := by
  have hnumeral : startsNumeral ('#' :: line) = false := rfl
  have hblank : isBlank '#' = false := by decide
  rw [cutOutside]
  · simp [hnumeral, hblank]
  all_goals simp

theorem cutWord_spelling {word : String} {k : Keyword} (h : (word, k) ∈ Keyword.spellings)
    {c : Char} (hc : word.toList.head? = some c) {rest : List Char}
    (hr : isLetter c → startsWord rest = false) :
    cutWord c (word.toList ++ rest) = .ofSplit (word.toList, rest) (.lexeme (.keyword k)) := by
  rw [cutWord, Keyword.splitKeyword_spelling h hc hr]

theorem cutOutside_number (n : Numeral) {rest : List Char} (h : n.Ends rest) :
    cutOutside (n.text ++ rest) = .ofSplit (n.text, rest) (.lexeme (.number n.value)) := by
  rw [cutOutside_of_startsNumeral (n.startsNumeral_text rest), n.splitNumeral_text h,
    n.numeralValue_text]

theorem cutOutside_hexColor {digits rest : List Char} (hd : ∀ c ∈ digits, isHexDigit c)
    (hl : digits.length ∈ Rgba.hexLengths) (hr : ∀ c ∈ rest.head?, isHexDigit c = false)
    (hw : (digits ++ rest).takeWhile isWordChar ≠ "define".toList) :
    cutOutside ('#' :: digits ++ rest) =
      .ofSplit ('#' :: digits, rest) (.lexeme (.color (.ofHex digits hd hl))) := by
  have hspan : spanOf (fun c => (hexDigit? c).isSome) (digits ++ rest) = (digits, rest) :=
    spanOf_eq_iff.2 ⟨rfl, hd, hr⟩
  have hcolor : Rgba.ofHex? digits = some (Rgba.ofHex digits hd hl) := (Option.some_get _).symm
  rw [List.cons_append, cutOutside_sign, cutSigned, if_neg hw, hspan]
  simp only [hcolor]

theorem forall_isLetter_of_map_toLower {word : List Char} {name : String} {code : Nat}
    (h : (name, code) ∈ Rgba.namedCodes) (hw : word.map Char.toLower = name.toList) :
    word ≠ [] ∧ ∀ c ∈ word, isLetter c := by
  obtain ⟨hnil, hlower⟩ := Rgba.isLower_of_mem_namedCodes h
  constructor
  · rintro rfl
    exact hnil hw.symm
  · intro c hc
    exact isLetter_of_isLower_toLower (hlower _ (hw ▸ List.mem_map_of_mem hc))

theorem cutOutside_namedColor {word rest : List Char} {name : String} {code : Nat}
    (h : (name, code) ∈ Rgba.namedCodes) (hw : word.map Char.toLower = name.toList)
    (hr : startsWord rest = false) :
    cutOutside (word ++ rest) = .ofSplit (word, rest) (.lexeme (.color (.ofCode code))) := by
  obtain ⟨hnil, hletters⟩ := forall_isLetter_of_map_toLower h hw
  have hspan : spanOf isWordChar (word ++ rest) = (word, rest) :=
    spanOf_eq_iff.2 ⟨rfl, fun c hc => isWordChar_of_isLetter (hletters c hc),
      startsWord_eq_false_iff.1 hr⟩
  have hcolor : Rgba.ofName? word = some (.ofCode code) :=
    Rgba.ofName?_eq_some_iff.2 ⟨name, code, h, hw, rfl⟩
  obtain ⟨c, more, rfl⟩ := List.exists_cons_of_ne_nil hnil
  have hc : isLetter c := hletters c (by simp)
  rw [List.cons_append] at hspan ⊢
  rw [cutOutside_of_isPlain (isPlain_of_isWordStart (isWordStart_of_isLetter hc)), cutLetters, hspan]
  simp only [hc, if_true, hcolor]

theorem cutLetters_of_not_isLetter {c : Char} (h : isLetter c = false) (line : List Char) :
    cutLetters c line = cutWord c line := by
  simp [cutLetters, h]

theorem cutOutside_letters {word : String} {k : Keyword} (h : (word, k) ∈ Keyword.spellings)
    (hl : ∀ c ∈ word.toList, isLetter c ∧ c.toLower = c) {rest : List Char}
    (hr : startsWord rest = false) :
    cutOutside (word.toList ++ rest) = .ofSplit (word.toList, rest) (.lexeme (.keyword k)) := by
  obtain ⟨c, more, hword⟩ := List.exists_cons_of_ne_nil (Keyword.spelling_ne_nil h)
  have hc : isLetter c := (hl c (by simp [hword])).1
  have hhead : word.toList.head? = some c := by rw [hword]; rfl
  have hline : word.toList ++ rest = c :: (more ++ rest) := by rw [hword]; rfl
  have hspan : spanOf isWordChar (word.toList ++ rest) = (word.toList, rest) :=
    spanOf_eq_iff.2 ⟨rfl, fun d hd => isWordChar_of_isLetter (hl d hd).1,
      startsWord_eq_false_iff.1 hr⟩
  have hcut := cutWord_spelling h hhead fun _ => hr
  rw [hline] at hspan hcut ⊢
  rw [cutOutside_of_isPlain (isPlain_of_isWordStart (isWordStart_of_isLetter hc)), cutLetters, hspan]
  simp only [hc, if_true, Keyword.ofName?_spelling h fun d hd => (hl d hd).2]
  exact hcut

theorem toList_define : "#define".toList = '#' :: "define".toList := by decide

theorem cutOutside_define {k : Keyword} (h : ("#define", k) ∈ Keyword.spellings)
    {rest : List Char} (hr : startsWord rest = false) :
    cutOutside ("#define".toList ++ rest) =
      .ofSplit ("#define".toList, rest) (.lexeme (.keyword k)) := by
  have hhead : "#define".toList.head? = some '#' := by rw [toList_define]; rfl
  have hline : "#define".toList ++ rest = '#' :: ("define".toList ++ rest) := by
    rw [toList_define]
    rfl
  have hspan : spanOf isWordChar ("define".toList ++ rest) = ("define".toList, rest) :=
    spanOf_eq_iff.2 ⟨rfl, Keyword.isWordChar_of_mem_define, startsWord_eq_false_iff.1 hr⟩
  have hcut := cutWord_spelling h hhead fun _ => hr
  obtain ⟨htake, -⟩ := Prod.mk.inj hspan
  rw [hline] at hcut ⊢
  rw [cutOutside_sign, cutSigned, if_pos htake]
  exact hcut

/-- A symbol that is no part of a word ends whatever follows. -/
theorem cutOutside_symbol {word : String} {k : Keyword} (h : (word, k) ∈ Keyword.spellings)
    {c : Char} (hword : word.toList = [c]) (hplain : isPlain c) (hsymbol : isWordChar c = false)
    (rest : List Char) :
    cutOutside (word.toList ++ rest) = .ofSplit (word.toList, rest) (.lexeme (.keyword k)) := by
  have hl : isLetter c = false := by
    refine Bool.eq_false_iff.2 fun hl => ?_
    rw [isWordChar_of_isLetter hl] at hsymbol
    cases hsymbol
  have hhead : word.toList.head? = some c := by rw [hword]; rfl
  have hcut : cutWord c (word.toList ++ rest) = _ :=
    cutWord_spelling h hhead fun ht => by rw [hl] at ht; cases ht
  have hline : word.toList ++ rest = c :: rest := by rw [hword]; rfl
  rw [hline] at hcut ⊢
  rw [cutOutside_of_isPlain hplain, cutLetters_of_not_isLetter hl]
  exact hcut

theorem cutOutside_keyword {word : String} {k : Keyword} (h : (word, k) ∈ Keyword.spellings)
    {rest : List Char} (hr : (Lexeme.keyword k).Ends word.toList rest) :
    cutOutside (word.toList ++ rest) = .ofSplit (word.toList, rest) (.lexeme (.keyword k)) := by
  rcases Keyword.spelling_shape h with hletters | rfl | ⟨c, hc, hplain, hsymbol⟩
  · refine cutOutside_letters h hletters (hr fun c hc => ?_)
    exact isWordChar_of_isLetter (hletters c (List.mem_of_mem_getLast? hc)).1
  · refine cutOutside_define h (hr fun c hc => ?_)
    have hlast : "#define".toList.getLast? = some 'e' := by decide
    cases hlast.symm.trans hc
    decide
  · exact cutOutside_symbol h hc hplain hsymbol rest

theorem cutOutside_name {c : Char} {more rest : List Char} (hc : isWordStart c)
    (hm : ∀ d ∈ more, isWordChar d) (hk : ∀ k, (.ofList (c :: more), k) ∉ Keyword.spellings)
    (hn : ∀ entry ∈ Rgba.namedCodes, (c :: more).map Char.toLower ≠ entry.1.toList)
    (hr : startsWord rest = false) :
    cutOutside (c :: more ++ rest) =
      .ofSplit (c :: more, rest) (.lexeme (.name (.ofList (c :: more)))) := by
  have hspan : spanOf isWordChar (c :: more ++ rest) = (c :: more, rest) :=
    spanOf_eq_iff.2 ⟨rfl, List.forall_mem_cons.2 ⟨isWordChar_of_isWordStart hc, hm⟩,
      startsWord_eq_false_iff.1 hr⟩
  have hcolor : Rgba.ofName? (c :: more) = none := by
    refine Option.eq_none_iff_forall_not_mem.2 fun color h => ?_
    obtain ⟨name, code, hmem, hw, -⟩ := Rgba.ofName?_eq_some_iff.1 h
    exact hn _ hmem hw
  have hsplit := splitKeyword_name hc hm hk hr
  rw [List.cons_append] at hspan hsplit ⊢
  rw [cutOutside_of_isPlain (isPlain_of_isWordStart hc), cutLetters, hspan]
  simp only [hcolor, ite_self]
  rw [cutWord, hsplit, hspan]
  simp only [hc, if_true]

theorem cutOutside_of_spelling {text : List Char} {lexeme : Lexeme} (h : Spelling text lexeme)
    {rest : List Char} (hr : lexeme.Ends text rest) :
    cutOutside (text ++ rest) = .ofSplit (text, rest) (.lexeme lexeme) := by
  cases h with
  | number n => exact cutOutside_number n ((Lexeme.ends_number_iff n _ rest).1 hr)
  | hexColor hd hl =>
    obtain ⟨hstop, hdefine⟩ := (Lexeme.ends_hexColor_iff _ _ rest).1 hr
    exact cutOutside_hexColor hd hl hstop hdefine
  | namedColor h hw =>
    have hletters := (forall_isLetter_of_map_toLower h hw).2
    exact cutOutside_namedColor h hw ((Lexeme.ends_namedColor_iff _ hletters rest).1 hr)
  | keyword h => exact cutOutside_keyword h hr
  | name hc hm hk hn => exact cutOutside_name hc hm hk hn hr

namespace Spelling

variable {text : List Char} {lexeme : Lexeme}

theorem isBlank_eq_false (h : Spelling text lexeme) : ∀ c ∈ text, isBlank c = false := by
  intro c hc
  cases h with
  | number n =>
    rcases Numeral.mem_text hc with hd | rfl | rfl
    · exact isBlank_eq_false_of_isWordChar (isWordChar_of_isDigit hd)
    · decide
    · decide
  | hexColor hd =>
    rcases List.mem_cons.1 hc with rfl | hc
    · decide
    · exact isBlank_eq_false_of_isWordChar (isWordChar_of_isHexDigit (hd c hc))
  | namedColor h hw =>
    have hl := (forall_isLetter_of_map_toLower h hw).2 c hc
    exact isBlank_eq_false_of_isWordChar (isWordChar_of_isLetter hl)
  | keyword h =>
    have hall : ∀ entry ∈ Keyword.spellings, entry.1.toList.all (!isBlank ·) := by
      decide
    simpa using List.all_eq_true.1 (hall _ h) c hc
  | name hs hm =>
    rcases List.mem_cons.1 hc with rfl | hc
    · exact isBlank_eq_false_of_isWordChar (isWordChar_of_isWordStart hs)
    · exact isBlank_eq_false_of_isWordChar (hm c hc)

theorem ne_nil (h : Spelling text lexeme) : text ≠ [] := by
  cases h with
  | number n =>
    intro hnil
    have hstarts := n.startsNumeral_text []
    rw [hnil] at hstarts
    cases hstarts
  | namedColor h hw => exact (forall_isLetter_of_map_toLower h hw).1
  | keyword h => exact Keyword.spelling_ne_nil h
  | hexColor | name => simp

end Spelling

/-! ## What was taken off a line -/

theorem spelling_of_splitKeyword {c : Char} {line text rest : List Char} {k : Keyword}
    (hsign : c = '#' → line.takeWhile isWordChar = "define".toList)
    (h : splitKeyword (fun rest => !isLetter c || !startsWord rest) Keyword.trie (c :: line) =
      some (k, text, rest)) :
    Spelling text (.keyword k) ∧ (Lexeme.keyword k).Ends text rest := by
  obtain ⟨hget, hafter⟩ := of_splitKeyword h
  obtain ⟨happend, hnil⟩ := splitKeyword_append h
  have hfound := Keyword.get?_trie_eq_some_iff.1 hget
  have hspelled := Spelling.keyword hfound
  rw [String.toList_ofList] at hspelled
  refine ⟨hspelled, fun hlast => ?_⟩
  obtain ⟨d, more, rfl⟩ := List.exists_cons_of_ne_nil hnil
  rw [List.cons_append] at happend
  obtain ⟨rfl, hline⟩ := List.cons.inj happend
  rcases Keyword.spelling_shape hfound with hletters | hdefine | ⟨e, he, -, hsymbol⟩
  · have hl : isLetter d := (hletters d (by simp)).1
    simpa [hl] using hafter
  · have hword := congrArg String.toList hdefine
    rw [String.toList_ofList, toList_define] at hword
    obtain ⟨rfl, rfl⟩ := List.cons.inj hword
    have hspan : spanOf isWordChar line = ("define".toList, line.dropWhile isWordChar) :=
      Prod.ext (hsign rfl) rfl
    obtain ⟨hsplit, -, hstop⟩ := spanOf_eq_iff.1 hspan
    rw [List.append_cancel_left (hline.trans hsplit.symm)]
    exact startsWord_eq_false_iff.2 hstop
  · -- nothing is asked of what follows a symbol
    rw [String.toList_ofList] at he
    rw [he] at hlast
    rw [hlast e rfl] at hsymbol
    cases hsymbol

theorem spelling_of_no_keyword {c : Char} {line : List Char} (hc : isWordStart c)
    (hcolor : isLetter c → Rgba.ofName? (c :: line.takeWhile isWordChar) = none)
    (h : splitKeyword (fun rest => !isLetter c || !startsWord rest) Keyword.trie (c :: line) =
      none) :
    Spelling (c :: line.takeWhile isWordChar) (.name (.ofList (c :: line.takeWhile isWordChar))) ∧
      startsWord (line.dropWhile isWordChar) = false := by
  obtain ⟨happend, hword, hstop⟩ :=
    spanOf_eq_iff.1 (spanOf_cons (isWordChar_of_isWordStart hc) line)
  have hend := startsWord_eq_false_iff.2 hstop
  refine ⟨.name hc (fun d hd => hword d (List.mem_cons_of_mem _ hd)) ?_ ?_, hend⟩
  · intro k hk
    have hmay := mayEnd_of_splitKeyword_eq_none h happend (Keyword.get?_trie_eq_some_iff.2 hk)
    simp [hend] at hmay
  · rintro ⟨name, code⟩ hmem hw
    have hl := (forall_isLetter_of_map_toLower hmem hw).2 c (by simp)
    have hnone := hcolor hl
    rw [Rgba.ofName?_eq_some_iff.2 ⟨name, code, hmem, hw, rfl⟩] at hnone
    cases hnone

theorem spelling_of_cutWord {c : Char} {line text rest : List Char} {lexeme : Lexeme}
    {inside : Bool} (hcolor : isLetter c → Rgba.ofName? (c :: line.takeWhile isWordChar) = none)
    (hsign : c = '#' → line.takeWhile isWordChar = "define".toList)
    (h : cutWord c (c :: line) = ⟨⟨text, .lexeme lexeme⟩, rest, inside⟩) :
    inside = false ∧ Spelling text lexeme ∧ lexeme.Ends text rest := by
  unfold cutWord at h
  split at h
  · rename_i hs
    cases h
    exact ⟨rfl, spelling_of_splitKeyword hsign hs⟩
  · rename_i hs
    split at h
    · rename_i hc
      rw [spanOf_cons (isWordChar_of_isWordStart hc)] at h
      cases h
      exact ⟨rfl, spelling_of_no_keyword hc hcolor hs⟩
    · cases h

theorem spelling_of_cutSigned {line text rest : List Char} {lexeme : Lexeme} {inside : Bool}
    (h : cutSigned ('#' :: line) line = ⟨⟨text, .lexeme lexeme⟩, rest, inside⟩) :
    inside = false ∧ Spelling text lexeme ∧ lexeme.Ends text rest := by
  unfold cutSigned at h
  split at h
  · rename_i hdefine
    have hsign : isLetter '#' = false := by decide
    exact spelling_of_cutWord (fun hl => by rw [hsign] at hl; cases hl) (fun _ => hdefine) h
  · rename_i hdefine
    obtain ⟨happend, hdigits, hstop⟩ := spanOf_eq_iff.1
      (rfl : spanOf (fun c => (hexDigit? c).isSome) line = _)
    dsimp only [spanOf] at h
    split at h
    · rename_i color hcolor
      cases h
      obtain ⟨hd, hl⟩ := Rgba.isSome_ofHex?_iff.1 (Option.isSome_of_eq_some hcolor)
      obtain rfl : Rgba.ofHex _ hd hl = color := Option.get_of_eq_some _ hcolor
      refine ⟨rfl, .hexColor hd hl, (Lexeme.ends_hexColor_iff _ _ _).2 ⟨hstop, ?_⟩⟩
      rwa [happend]
    · cases h

theorem spelling_of_cutLetters {c : Char} {line text rest : List Char} {lexeme : Lexeme}
    {inside : Bool} (hc : c ≠ '#')
    (h : cutLetters c (c :: line) = ⟨⟨text, .lexeme lexeme⟩, rest, inside⟩) :
    inside = false ∧ Spelling text lexeme ∧ lexeme.Ends text rest := by
  unfold cutLetters at h
  dsimp only at h
  split at h
  · rename_i color hcolor
    split at hcolor
    · rename_i hl
      have hspan := spanOf_cons (isWordChar_of_isLetter hl) line
      rw [hspan] at h hcolor
      cases h
      obtain ⟨name, code, hmem, hw, rfl⟩ := Rgba.ofName?_eq_some_iff.1 hcolor
      have hletters := (forall_isLetter_of_map_toLower hmem hw).2
      refine ⟨rfl, .namedColor hmem hw, (Lexeme.ends_namedColor_iff _ hletters _).2 ?_⟩
      exact startsWord_eq_false_iff.2 (spanOf_eq_iff.1 hspan).2.2
    · cases hcolor
  · rename_i hcolor
    refine spelling_of_cutWord (fun hl => ?_) (fun he => absurd he hc) h
    rwa [if_pos hl, spanOf_cons (isWordChar_of_isLetter hl)] at hcolor

theorem spelling_of_cutOutside {line text rest : List Char} {lexeme : Lexeme} {inside : Bool}
    (h : cutOutside line = ⟨⟨text, .lexeme lexeme⟩, rest, inside⟩) :
    inside = false ∧ Spelling text lexeme ∧ lexeme.Ends text rest := by
  unfold cutOutside at h
  split at h
  · cases h
  · cases h
  · cases h
  · split at h
    · cases h
    · split at h
      · rename_i hn
        obtain ⟨n, rest, happend, hends⟩ := Numeral.exists_of_startsNumeral hn
        rw [← happend, n.splitNumeral_text hends] at h
        dsimp only at h
        rw [n.numeralValue_text] at h
        cases h
        exact ⟨rfl, .number n, (Lexeme.ends_number_iff n _ rest).2 hends⟩
      · split at h
        · rename_i hc
          subst hc
          exact spelling_of_cutSigned h
        · rename_i hc
          exact spelling_of_cutLetters hc h

/-- Outside of comments a line begins with a lexeme just if it begins with a spelling of it that ends
there. -/
theorem cutOutside_eq_lexeme_iff {text rest : List Char} {lexeme : Lexeme} {inside : Bool} :
    cutOutside (text ++ rest) = ⟨⟨text, .lexeme lexeme⟩, rest, inside⟩ ↔
      inside = false ∧ Spelling text lexeme ∧ lexeme.Ends text rest := by
  constructor
  · exact spelling_of_cutOutside
  · rintro ⟨rfl, h, hr⟩
    exact cutOutside_of_spelling h hr

end SceneGrammar

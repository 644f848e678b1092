import Mathlib.Data.List.Basic
import SceneGrammar.Proofs.Color.Literal
import SceneGrammar.Proofs.Scan.Character

/-!
# Keywords at the head of a line

The scanner goes down the trie of keywords and stops at the first that may end there. Keywords of
letters may not where a word goes on, so that at most one of them is found; the others are told by
their first character.
-/

namespace SceneGrammar

/-! ## Keywords on the way down their trie -/

/-- What is found below a character is held behind it. -/
theorem get?_of_splitKeyword_below {mayEnd : List Char → Bool} {t below : Trie Keyword} {c : Char}
    {value : Option Keyword} {line text rest : List Char} {k : Keyword}
    (hc : t.child c = some (value, below))
    (h : (splitKeyword mayEnd below line).map (fun (k, text, rest) => (k, c :: text, rest)) =
      some (k, text, rest)) :
    ∃ more, splitKeyword mayEnd below line = some (k, more, rest) ∧
      t.get? text = below.get? more := by
  obtain ⟨⟨l, more, after⟩, hl, he⟩ := Option.map_eq_some_iff.1 h
  cases he
  have hmore : more ≠ [] := (splitKeyword_append hl).2
  refine ⟨more, hl, ?_⟩
  rw [Trie.get?_cons_of_ne_nil _ _ hmore, hc]
  rfl

theorem of_splitKeyword {mayEnd : List Char → Bool} {t : Trie Keyword} {line : List Char}
    {k : Keyword} {text rest : List Char}
    (h : splitKeyword mayEnd t line = some (k, text, rest)) :
    t.get? text = some k ∧ mayEnd rest := by
  induction line generalizing t k text rest with
  | nil => cases h
  | cons c line ih =>
    rw [splitKeyword, Trie.step] at h
    cases hc : t.child c with
    | none =>
      rw [hc] at h
      cases h
    | some found =>
      obtain ⟨value, below⟩ := found
      rw [hc] at h
      cases value with
      | none =>
        obtain ⟨more, hbelow, hget⟩ := get?_of_splitKeyword_below hc h
        rw [hget]
        exact ih hbelow
      | some keyword =>
        dsimp only at h
        split at h
        · rename_i hend
          cases h
          exact ⟨by simp [Trie.get?, hc], hend⟩
        · obtain ⟨more, hbelow, hget⟩ := get?_of_splitKeyword_below hc h
          rw [hget]
          exact ih hbelow

theorem mayEnd_of_splitKeyword_eq_none {mayEnd : List Char → Bool} {t : Trie Keyword}
    {line : List Char} (h : splitKeyword mayEnd t line = none) {text rest : List Char} {k : Keyword}
    (hline : text ++ rest = line) (hk : t.get? text = some k) : mayEnd rest = false := by
  induction line generalizing t text with
  | nil =>
    obtain ⟨rfl, rfl⟩ := List.append_eq_nil_iff.1 hline
    cases hk
  | cons c line ih =>
    cases text with
    | nil => cases hk
    | cons d text =>
      rw [List.cons_append] at hline
      obtain ⟨rfl, rfl⟩ := List.cons.inj hline
      rw [splitKeyword, Trie.step] at h
      cases hc : t.child d with
      | none => cases text <;> simp [Trie.get?, hc] at hk
      | some found =>
        obtain ⟨value, below⟩ := found
        rw [hc] at h
        by_cases htext : text = []
        · subst htext
          obtain rfl : value = some k := by simpa [Trie.get?, hc] using hk
          cases hend : mayEnd rest with
          | false => rfl
          | true => simp [hend] at h
        · rw [Trie.get?_cons_of_ne_nil _ _ htext, hc] at hk
          refine ih ?_ rfl hk
          cases value with
          | none => simpa using h
          | some keyword =>
            dsimp only at h
            split at h
            · cases h
            · simpa using h

/-! ## How keywords begin and end -/

/-- Neither blank nor what comments, numerals and signed words begin with. -/
def isPlain (c : Char) : Bool :=
  !isBlank c && !c.isDigit && !List.contains ['/', '-', '.', '#'] c

theorem isPlain_of_isWordStart {c : Char} (h : isWordStart c) : isPlain c := by
  have hblank : isBlank c = false :=
    isBlank_eq_false_of_isWordChar (isWordChar_of_isWordStart h)
  have hdigit : c.isDigit = false := isDigit_eq_false_of_isWordStart h
  have hmark : c ∉ ['/', '-', '.', '#'] := by
    have hall : List.all ['/', '-', '.', '#'] (!isWordStart ·) := by decide
    intro hc
    have hnone := List.all_eq_true.1 hall c hc
    rw [h] at hnone
    cases hnone
  simp [isPlain, hblank, hdigit, hmark]

namespace Keyword

/-- A keyword is made of letters, or it is the word of the directive, or it is one symbol. -/
theorem spelling_shape {word : String} {k : Keyword} (h : (word, k) ∈ spellings) :
    (∀ c ∈ word.toList, isLetter c ∧ c.toLower = c) ∨ word = "#define" ∨
      ∃ c, word.toList = [c] ∧ isPlain c ∧ isWordChar c = false := by
  have hall : ∀ word ∈ spellings.map (·.1.toList),
      word.all (fun c => isLetter c && c.toLower == c) ∨
        word = ['#', 'd', 'e', 'f', 'i', 'n', 'e'] ∨
        word.length = 1 ∧ word.all (fun c => isPlain c && !isWordChar c) := by
    rw [map_toList_eq spellings (by repeat' constructor)]
    decide
  rcases hall _ (List.mem_map_of_mem h) with hletters | hdefine | ⟨hone, hsymbol⟩
  · exact .inl fun c hc => by simpa using List.all_eq_true.1 hletters c hc
  · exact .inr (.inl (String.toList_inj.1 (hdefine.trans String.toList_ofList.symm)))
  · obtain ⟨c, hc⟩ := List.length_eq_one_iff.1 hone
    have hplain := List.all_eq_true.1 hsymbol c (by simp [hc])
    exact .inr (.inr ⟨c, hc, by simpa using hplain⟩)

theorem isWordChar_of_mem_define : ∀ c ∈ "define".toList, isWordChar c :=
  List.all_eq_true.1 (by decide)

/-- What does not begin with a letter is told by its first character. -/
theorem eq_of_head?_eq {word other : String} {k l : Keyword} (h : (word, k) ∈ spellings)
    (h' : (other, l) ∈ spellings) {c : Char} (hc : word.toList.head? = some c)
    (hc' : other.toList.head? = some c) (hl : isLetter c = false) : word = other ∧ k = l := by
  have hall : ∀ first ∈ (spellings.map (·.1.toList)).filter (·.head?.any (!isLetter ·)),
      ∀ second ∈ (spellings.map (·.1.toList)).filter (·.head?.any (!isLetter ·)),
        first.head? = second.head? → first = second := by
    rw [map_toList_eq spellings (by repeat' constructor)]
    decide
  obtain rfl := String.toList_inj.1 (hall _
    (List.mem_filter.2 ⟨List.mem_map_of_mem h, by simp [hc, hl]⟩) _
    (List.mem_filter.2 ⟨List.mem_map_of_mem h', by simp [hc', hl]⟩) (hc.trans hc'.symm))
  rw [← String.ofList_toList (s := word)] at h h'
  exact ⟨rfl, Option.some.inj ((get?_trie_eq_some_iff.2 h).symm.trans (get?_trie_eq_some_iff.2 h'))⟩

/-- No name of a colour is found on the way down the trie of keywords. -/
theorem ofName?_spelling {word : String} {k : Keyword} (h : (word, k) ∈ spellings)
    (hl : ∀ c ∈ word.toList, c.toLower = c) : Rgba.ofName? word.toList = none := by
  have hall : ∀ name ∈ Rgba.namedCodes.map (·.1.toList), trie.get? name = none := by
    rw [map_toList_eq Rgba.namedCodes (by repeat' constructor)]
    decide +kernel
  refine Option.eq_none_iff_forall_not_mem.2 fun color hcolor => ?_
  obtain ⟨name, code, hname, hword, -⟩ := Rgba.ofName?_eq_some_iff.1 hcolor
  rw [List.map_congr_left hl, List.map_id', String.toList_inj] at hword
  subst hword
  have hnone := hall _ (List.mem_map_of_mem hname)
  rw [get?_trie_eq_some_iff.2 (by rwa [String.ofList_toList])] at hnone
  cases hnone

theorem forall_isLetter {word : String} {k : Keyword} (h : (word, k) ∈ spellings) {c : Char}
    (hc : word.toList.head? = some c) (hl : isLetter c) :
    ∀ d ∈ word.toList, isLetter d ∧ d.toLower = d := by
  rcases spelling_shape h with hletters | rfl | ⟨d, hd, -, hword⟩
  · exact hletters
  · cases hc
    cases hl
  · rw [hd] at hc
    cases hc
    rw [isWordChar_of_isLetter hl] at hword
    cases hword

theorem forall_isWordChar {word : String} {k : Keyword} (h : (word, k) ∈ spellings) {c : Char}
    (hc : word.toList.head? = some c) (hl : isLetter c) : ∀ d ∈ word.toList, isWordChar d :=
  fun d hd => isWordChar_of_isLetter (forall_isLetter h hc hl d hd).1

/-- A keyword is found where a letter that begins it is not gone on with behind it. -/
theorem splitKeyword_spelling {word : String} {k : Keyword} (h : (word, k) ∈ spellings)
    {c : Char} (hc : word.toList.head? = some c) {rest : List Char}
    (hr : isLetter c → startsWord rest = false) :
    splitKeyword (fun rest => !isLetter c || !startsWord rest) trie (word.toList ++ rest) =
      some (k, word.toList, rest) := by
  have hk : trie.get? word.toList = some k := by
    rw [get?_trie_eq_some_iff, String.ofList_toList]
    exact h
  have hend : (!isLetter c || !startsWord rest) = true := by
    cases hl : isLetter c with
    | false => rfl
    | true => simp [hr hl]
  cases hs : splitKeyword (fun rest => !isLetter c || !startsWord rest) trie
      (word.toList ++ rest) with
  | none =>
    rw [mayEnd_of_splitKeyword_eq_none hs rfl hk] at hend
    cases hend
  | some found =>
    obtain ⟨l, text, after⟩ := found
    obtain ⟨hl, hafter⟩ := of_splitKeyword hs
    obtain ⟨happend, hnil⟩ := splitKeyword_append hs
    have hfound := get?_trie_eq_some_iff.1 hl
    have hhead : text.head? = some c := by
      have := congrArg List.head? happend
      rwa [List.head?_append_of_ne_nil _ hnil,
        List.head?_append_of_ne_nil _ (spelling_ne_nil h), hc] at this
    have htext : text = word.toList := by
      cases hletter : isLetter c with
      | false =>
        have hsame := (eq_of_head?_eq hfound h (by simpa using hhead) hc hletter).1
        rw [← hsame, String.toList_ofList]
      | true =>
        -- two keywords of letters at one place both end where the word ends
        simp only [hletter, Bool.not_true, Bool.false_or, Bool.not_eq_true'] at hafter
        have hword := forall_isWordChar hfound (by simpa using hhead) hletter
        rw [String.toList_ofList] at hword
        have hspan := spanOf_eq_iff.2 ⟨rfl, hword, startsWord_eq_false_iff.1 hafter⟩
        rw [happend, spanOf_eq_iff.2 ⟨rfl, forall_isWordChar h hc hletter,
          startsWord_eq_false_iff.1 (hr hletter)⟩] at hspan
        exact (Prod.mk.inj hspan).1.symm
    subst htext
    obtain rfl := List.append_cancel_left happend
    rw [hk] at hl
    cases hl
    rfl

theorem isLetter_of_isWordStart {word : String} {k : Keyword} (h : (word, k) ∈ spellings)
    {c : Char} (hc : word.toList.head? = some c) (hs : isWordStart c) : isLetter c := by
  rcases spelling_shape h with hletters | rfl | ⟨d, hd, -, hword⟩
  · exact (hletters c (List.mem_of_mem_head? hc)).1
  · cases hc
    cases hs
  · rw [hd] at hc
    cases hc
    rw [isWordChar_of_isWordStart hs] at hword
    cases hword

end Keyword

theorem splitKeyword_name {c : Char} {more rest : List Char} (hc : isWordStart c)
    (hm : ∀ d ∈ more, isWordChar d) (hk : ∀ k, (.ofList (c :: more), k) ∉ Keyword.spellings)
    (hr : startsWord rest = false) :
    splitKeyword (fun rest => !isLetter c || !startsWord rest) Keyword.trie (c :: more ++ rest) =
      none := by
  refine Option.eq_none_iff_forall_not_mem.2 ?_
  rintro ⟨k, text, after⟩ hs
  obtain ⟨hget, hafter⟩ := of_splitKeyword hs
  obtain ⟨happend, hnil⟩ := splitKeyword_append hs
  have hfound := Keyword.get?_trie_eq_some_iff.1 hget
  have hhead : (String.ofList text).toList.head? = some c := by
    have := congrArg List.head? happend
    rwa [List.head?_append_of_ne_nil _ hnil, ← String.toList_ofList (l := text)] at this
  have hl := Keyword.isLetter_of_isWordStart hfound hhead hc
  have hword := Keyword.forall_isWordChar hfound hhead hl
  simp only [hl, Bool.not_true, Bool.false_or, Bool.not_eq_true'] at hafter
  rw [String.toList_ofList] at hword
  have hspan := spanOf_eq_iff.2 ⟨rfl, hword, startsWord_eq_false_iff.1 hafter⟩
  rw [happend, spanOf_eq_iff.2 ⟨rfl, List.forall_mem_cons.2 ⟨isWordChar_of_isWordStart hc, hm⟩,
    startsWord_eq_false_iff.1 hr⟩] at hspan
  obtain ⟨rfl, -⟩ := Prod.mk.inj hspan
  exact hk k hfound

end SceneGrammar

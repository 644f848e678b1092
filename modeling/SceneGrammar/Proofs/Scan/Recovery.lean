import SceneGrammar.Proofs.Scan.Gap
import SceneGrammar.Proofs.Scan.Spelling
import SceneGrammar.Proofs.Text.Lines
import SceneGrammar.Scan.Basic

/-!
# Recovery from what cannot be read

A fault drops the rest of its line and nothing else: the text without what was dropped scans to the
same tokens and has no fault. The point to prove is that a piece is cut off in the same way when its
line ends earlier. Only the hexadecimal colour looks further ahead than one character, and what it
looks for is a word that no fault cuts in two.
-/

namespace SceneGrammar

def Content.isFault : Content → Bool
  | .fault _ => true
  | _ => false

/-! ## Faults -/

/-- A fault takes the rest of its line, and the next line lies outside of comments. -/
def Cut.FaultLast (cut : Cut) : Prop :=
  cut.piece.content.isFault → cut.rest = [] ∧ cut.inside = false

theorem faultLast_cutWord (c : Char) (line : List Char) : (cutWord c line).FaultLast := by
  unfold cutWord
  split
  · exact nofun
  · split
    · exact nofun
    · exact fun _ => ⟨rfl, rfl⟩

theorem faultLast_cutLetters (c : Char) (line : List Char) : (cutLetters c line).FaultLast := by
  unfold cutLetters
  dsimp only
  split
  · exact nofun
  · exact faultLast_cutWord c line

theorem faultLast_cutSigned (line rest : List Char) : (cutSigned line rest).FaultLast := by
  unfold cutSigned
  split
  · exact faultLast_cutWord '#' line
  · dsimp only
    split
    · exact nofun
    · exact fun _ => ⟨rfl, rfl⟩

theorem faultLast_cutOutside (line : List Char) : (cutOutside line).FaultLast := by
  unfold cutOutside
  split
  · exact nofun
  · exact nofun
  · exact nofun
  · split
    · exact nofun
    · split
      · exact nofun
      · split
        · exact faultLast_cutSigned _ _
        · exact faultLast_cutLetters _ _

theorem faultLast_cutPiece (inside : Bool) (line : List Char) :
    (cutPiece inside line).FaultLast := by
  cases inside with
  | true => exact nofun
  | false => exact faultLast_cutOutside line

theorem inside_of_isFault {inside : Bool} {line : List Char}
    (h : (cutPiece inside line).piece.content.isFault) : inside = false := by
  cases inside with
  | true => cases h
  | false => rfl

/-! ## Lexemes on lines that end earlier -/

/-- A lexeme of characters that words go on with ends where the word ends. -/
theorem Spelling.startsWord_eq_false {text rest : List Char} {lexeme : Lexeme}
    (h : Spelling text lexeme) (hr : lexeme.Ends text rest) (hw : ∀ c ∈ text, isWordChar c)
    (hd : ∀ c ∈ text.head?, c.isDigit = false) : startsWord rest = false := by
  cases h with
  | number n =>
    obtain ⟨c, more, hc⟩ := List.exists_cons_of_ne_nil (Spelling.number n).ne_nil
    have hmem : c ∈ n.text := by simp [hc]
    have hword := hw c hmem
    rcases Numeral.mem_text hmem with hdigit | rfl | rfl
    · rw [hd c (by simp [hc])] at hdigit
      cases hdigit
    · exact absurd hword (by decide)
    · exact absurd hword (by decide)
  | hexColor => exact absurd (hw '#' List.mem_cons_self) (by decide)
  | namedColor hn hm =>
    exact (Lexeme.ends_namedColor_iff _ (forall_isLetter_of_map_toLower hn hm).2 rest).1 hr
  | keyword => exact hr fun c hc => hw c (List.mem_of_mem_getLast? hc)
  | name => exact hr

theorem startsWord_of_cutOutside {line text rest : List Char} {content : Content} {inside : Bool}
    (h : cutOutside line = ⟨⟨text, content⟩, rest, inside⟩) (hg : content.isGap = false)
    (hw : ∀ c ∈ text, isWordChar c) (hd : ∀ c ∈ text.head?, c.isDigit = false) :
    startsWord rest = false := by
  cases content with
  | blank | comment => cases hg
  | fault cause =>
    have hlast := faultLast_cutOutside line
    rw [h] at hlast
    obtain rfl : rest = [] := (hlast rfl).1
    rfl
  | lexeme l =>
    obtain ⟨-, hspelling, hends⟩ := spelling_of_cutOutside h
    exact hspelling.startsWord_eq_false hends hw hd

theorem startsWord_append_left {front tail : List Char} (h : startsWord (front ++ tail) = false)
    (hw : ∀ c ∈ front, isWordChar c) : front = [] := by
  cases front with
  | nil => rfl
  | cons c front =>
    have hc : isWordChar c = false := h
    rw [hw c List.mem_cons_self] at hc
    cases hc

/-- If the first piece of a line lies in the word at its head, the word ends where it seems to. -/
theorem startsWord_of_piece_in_word {c : Char} {more tail : List Char} (hc : isLetter c)
    (hm : ∀ d ∈ more, isWordChar d) (h : (cutOutside (c :: more ++ tail)).piece.text <+: c :: more) :
    startsWord tail = false := by
  have hstart := isWordStart_of_isLetter hc
  have htakes : Cut.Takes (c :: more ++ tail) (cutOutside (c :: more ++ tail)) :=
    Cut.takes_cutOutside (by simp)
  have hgap : (cutOutside (c :: more ++ tail)).piece.content.isGap = false := by
    rw [List.cons_append, cutOutside_of_isPlain (isPlain_of_isWordStart hstart), isGap_cutLetters]
  obtain ⟨⟨⟨text, content⟩, rest, inside⟩, hcut⟩ :
    ∃ cut, cutOutside (c :: more ++ tail) = cut := ⟨_, rfl⟩
  rw [hcut] at h htakes hgap
  obtain ⟨behind, hbehind⟩ := h
  dsimp only at hbehind hgap
  have hrest : rest = behind ++ tail := by
    have happend := htakes.append
    rw [← hbehind, List.append_assoc] at happend
    exact List.append_cancel_left happend
  have hword : ∀ d ∈ text ++ behind, isWordChar d := by
    rw [hbehind]
    exact List.forall_mem_cons.2 ⟨isWordChar_of_isWordStart hstart, hm⟩
  have hhead : text.head? = some c := by
    have := congrArg List.head? hbehind
    rwa [List.head?_append_of_ne_nil _ htakes.progress] at this
  have hdigit : ∀ d ∈ text.head?, d.isDigit = false := by
    intro d hd
    cases hhead.symm.trans hd
    exact isDigit_eq_false_of_isWordStart hstart
  have hend := startsWord_of_cutOutside hcut hgap
    (fun d hd => hword d (List.mem_append_left _ hd)) hdigit
  rw [hrest] at hend
  have hnil := startsWord_append_left hend fun d hd => hword d (List.mem_append_right _ hd)
  rwa [hnil] at hend

/-- Of the word of the directive three characters are hexadecimal digits. -/
theorem eq_of_define {digits rest tail : List Char} (hd : ∀ c ∈ digits, isHexDigit c)
    (hl : digits.length ∈ Rgba.hexLengths) (h : digits ++ rest = "define".toList ++ tail) :
    rest = "ine".toList ++ tail := by
  have hdefine : "define".toList = ['d', 'e', 'f', 'i', 'n', 'e'] := by decide
  rw [hdefine] at h
  have hshort : ¬ 3 < digits.length := by
    intro hlong
    have hget : digits[3]? = some 'i' := by
      rw [← List.getElem?_append_left hlong, h]
      rfl
    exact absurd (hd 'i' (List.mem_of_getElem? hget)) (by decide)
  have hleast : ∀ l ∈ Rgba.hexLengths, 3 ≤ l := by decide
  have hthree : digits.length = 3 := Nat.le_antisymm (Nat.not_lt.1 hshort) (hleast _ hl)
  have hdrop := congrArg (List.drop 3) h
  rwa [List.drop_left' hthree] at hdrop

/-- Digits that are not the beginning of the word of the directive are not so either if the line ends
behind a piece: nothing that is dropped goes on with that word. -/
theorem takeWhile_ne_define {digits front tail : List Char} (hd : ∀ c ∈ digits, isHexDigit c)
    (hl : digits.length ∈ Rgba.hexLengths)
    (h : (digits ++ (front ++ tail)).takeWhile isWordChar ≠ "define".toList)
    (hf : front ≠ [] → (cutOutside (front ++ tail)).piece.text <+: front) :
    (digits ++ front).takeWhile isWordChar ≠ "define".toList := by
  intro hdefine
  obtain ⟨behind, hspan⟩ :
    ∃ behind, spanOf isWordChar (digits ++ front) = ("define".toList, behind) :=
    ⟨_, Prod.ext hdefine rfl⟩
  obtain ⟨happend, hword, hstop⟩ := spanOf_eq_iff.1 hspan
  have hfront := eq_of_define hd hl happend.symm
  have hbehind : startsWord (behind ++ tail) = false := by
    cases behind with
    | cons c behind => exact hstop c rfl
    | nil =>
      have hine : "ine".toList = 'i' :: "ne".toList := by decide
      rw [List.append_nil, hine] at hfront
      have hpiece : (cutOutside ('i' :: "ne".toList ++ tail)).piece.text <+: 'i' :: "ne".toList := by
        rw [← hfront]
        exact hf (by rw [hfront]; exact List.cons_ne_nil _ _)
      exact startsWord_of_piece_in_word (by decide) (List.all_eq_true.1 (by decide)) hpiece
  have happend' : "define".toList ++ (behind ++ tail) = digits ++ (front ++ tail) := by
    rw [← List.append_assoc, happend, List.append_assoc]
  have hword' := spanOf_eq_iff.2 ⟨happend', hword, startsWord_eq_false_iff.1 hbehind⟩
  exact h (Prod.mk.inj hword').1

theorem forall_head?_of_append {p : Char → Prop} {front tail : List Char}
    (h : ∀ c ∈ (front ++ tail).head?, p c) : ∀ c ∈ front.head?, p c := by
  cases front with
  | nil => exact fun c hc => nomatch hc
  | cons d front => exact h

theorem Spelling.ends_of_append {text front tail : List Char} {lexeme : Lexeme}
    (h : Spelling text lexeme) (hr : lexeme.Ends text (front ++ tail))
    (hf : front ≠ [] → (cutOutside (front ++ tail)).piece.text <+: front) :
    lexeme.Ends text front := by
  have hend : startsWord (front ++ tail) = false → startsWord front = false := by
    intro hs
    exact startsWord_eq_false_iff.2 (forall_head?_of_append (startsWord_eq_false_iff.1 hs))
  cases h with
  | number n => exact forall_head?_of_append hr
  | @hexColor digits hd hl =>
    rw [Lexeme.ends_hexColor_iff] at hr ⊢
    exact ⟨forall_head?_of_append hr.1, takeWhile_ne_define hd hl hr.2 hf⟩
  | @namedColor _ _ _ hn hm =>
    rw [Lexeme.ends_namedColor_iff _ (forall_isLetter_of_map_toLower hn hm).2] at hr ⊢
    exact hend hr
  | keyword => exact fun hlast => hend (hr hlast)
  | name => exact hend hr

/-- A piece that was cut off a line is cut off in the same way if the line ends behind one of the
pieces that follow. -/
theorem cutPiece_truncate {text front tail : List Char} {content : Content} {inside last : Bool}
    (h : cutPiece inside (text ++ (front ++ tail)) = ⟨⟨text, content⟩, front ++ tail, last⟩)
    (ht : text ≠ []) (hc : content.isFault = false)
    (hf : front ≠ [] → (cutPiece last (front ++ tail)).piece.text <+: front) :
    cutPiece inside (text ++ front) = ⟨⟨text, content⟩, front, last⟩ := by
  cases inside with
  | true =>
    obtain ⟨rfl, hs⟩ := cutInside_eq_iff.1 h
    refine cutInside_eq_iff.2 ⟨rfl, ?_⟩
    cases last with
    | true =>
      obtain ⟨rfl, rfl⟩ := List.append_eq_nil_iff.1 (rest_of_splitComment_open hs)
      exact hs
    | false => exact splitComment_of_closed hs front
  | false =>
    change cutOutside _ = _ at h
    change cutOutside _ = _
    have hgap (hg : content.isGap) : cutOutside (text ++ front) = ⟨⟨text, content⟩, front, last⟩ := by
      rcases cutOutside_gap_cases h hg with ⟨rfl, rfl, hspan⟩ | ⟨-, hnil⟩ | ⟨rfl, rfl, rfl⟩
      · obtain ⟨c, more, rfl⟩ := List.exists_cons_of_ne_nil ht
        obtain ⟨-, hblank, hstop⟩ := spanOf_eq_iff.1 hspan
        have hspan' : spanOf isBlank (c :: more ++ front) = (c :: more, front) :=
          spanOf_eq_iff.2 ⟨rfl, hblank, forall_head?_of_append hstop⟩
        rw [List.cons_append] at hspan' ⊢
        rw [cutOutside_of_isBlank (hblank c List.mem_cons_self), hspan']
        rfl
      · obtain ⟨rfl, rfl⟩ := List.append_eq_nil_iff.1 hnil
        exact h
      · rfl
    cases content with
    | blank | comment => exact hgap rfl
    | fault cause => cases hc
    | lexeme l =>
      obtain ⟨rfl, hspelling, hends⟩ := cutOutside_eq_lexeme_iff.1 h
      exact cutOutside_eq_lexeme_iff.2 ⟨rfl, hspelling, hspelling.ends_of_append hends hf⟩

/-! ## Lines and texts without what could not be read -/

def readable (pieces : List Piece) : List Piece := pieces.filter (!·.content.isFault)

def textOf (pieces : List Piece) : List Char := pieces.flatMap Piece.text

theorem textOf_cons (p : Piece) (pieces : List Piece) :
    textOf (p :: pieces) = p.text ++ textOf pieces := List.flatMap_cons

theorem readable_cons_of_isFault {p : Piece} (h : p.content.isFault) (pieces : List Piece) :
    readable (p :: pieces) = readable pieces :=
  List.filter_cons_of_neg (by simp [h])

theorem readable_cons_of_not_isFault {p : Piece} (h : p.content.isFault = false)
    (pieces : List Piece) : readable (p :: pieces) = p :: readable pieces :=
  List.filter_cons_of_pos (by simp [h])

theorem piecesOf_of_cut {inside last : Bool} {line rest : List Char} {piece : Piece}
    (hl : line ≠ []) (h : cutPiece inside line = ⟨piece, rest, last⟩) :
    piecesOf inside line = (piece :: (piecesOf last rest).1, (piecesOf last rest).2) := by
  rw [piecesOf_cons inside hl, h]

theorem piecesOf_of_isFault {inside : Bool} {line : List Char} (hl : line ≠ [])
    (h : (cutPiece inside line).piece.content.isFault) :
    piecesOf inside line = ([(cutPiece inside line).piece], inside) := by
  obtain ⟨hrest, hlast⟩ := faultLast_cutPiece inside line h
  rw [piecesOf_cons inside hl, hrest, hlast, piecesOf_nil, inside_of_isFault h]

/-- Only the last piece of a line can be a fault. -/
theorem eq_nil_of_isFault {inside : Bool} {line : List Char} {front back : List Piece} {p : Piece}
    (h : (piecesOf inside line).1 = front ++ p :: back) (hp : p.content.isFault) : back = [] := by
  induction front generalizing inside line with
  | nil =>
    by_cases hl : line = []
    · rw [hl, piecesOf_nil] at h
      cases h
    · rw [piecesOf_cons inside hl] at h
      obtain ⟨rfl, rfl⟩ := List.cons.inj h
      rw [(faultLast_cutPiece inside line hp).1, piecesOf_nil]
  | cons q front ih =>
    by_cases hl : line = []
    · rw [hl, piecesOf_nil] at h
      cases h
    · rw [piecesOf_cons inside hl] at h
      exact ih (List.cons.inj h).2

theorem piece_in_readable (inside : Bool) (line : List Char)
    (h : textOf (readable (piecesOf inside line).1) ≠ []) :
    (cutPiece inside line).piece.text <+: textOf (readable (piecesOf inside line).1) := by
  have hl : line ≠ [] := by
    rintro rfl
    rw [piecesOf_nil] at h
    exact h rfl
  cases hf : (cutPiece inside line).piece.content.isFault with
  | true =>
    rw [piecesOf_of_isFault hl hf, readable_cons_of_isFault hf] at h
    exact absurd rfl h
  | false =>
    rw [piecesOf_cons inside hl, readable_cons_of_not_isFault hf]
    exact List.prefix_append _ _

/-- What can be read of a line stands at its head, and is read alike without the rest. -/
theorem piecesOf_readable (inside : Bool) (line : List Char) :
    (∃ dropped, textOf (readable (piecesOf inside line).1) ++ dropped = line) ∧
      piecesOf inside (textOf (readable (piecesOf inside line).1)) =
        (readable (piecesOf inside line).1, (piecesOf inside line).2) := by
  by_cases hl : line = []
  · subst hl
    rw [piecesOf_nil]
    exact ⟨⟨[], rfl⟩, piecesOf_nil inside⟩
  · have takes := Cut.takes_cutPiece inside hl
    have := takes.rest_lt
    cases hf : (cutPiece inside line).piece.content.isFault with
    | true =>
      rw [piecesOf_of_isFault hl hf, readable_cons_of_isFault hf]
      exact ⟨⟨line, rfl⟩, piecesOf_nil inside⟩
    | false =>
      obtain ⟨⟨dropped, hdropped⟩, hread⟩ :=
        piecesOf_readable (cutPiece inside line).inside (cutPiece inside line).rest
      obtain ⟨⟨⟨text, content⟩, rest, last⟩, hcut⟩ : ∃ cut, cutPiece inside line = cut := ⟨_, rfl⟩
      rw [hcut] at takes hf hdropped hread
      have happend : text ++ (textOf (readable (piecesOf last rest).1) ++ dropped) = line := by
        rw [hdropped]
        exact takes.append
      -- the line now ends behind the next piece that can be read, or there is none
      have htruncate := cutPiece_truncate (by rw [happend, hdropped, hcut]) takes.progress hf
        (by rw [hdropped]; exact piece_in_readable last rest)
      rw [piecesOf_of_cut hl hcut, readable_cons_of_not_isFault hf, textOf_cons]
      refine ⟨⟨dropped, by rw [List.append_assoc]; exact happend⟩, ?_⟩
      rw [piecesOf_of_cut (List.append_ne_nil_of_left_ne_nil takes.progress _) htruncate, hread]
termination_by line.length

/-! ## Scans without what could not be read -/

theorem readLines_readable (inside : Bool) (lines : List (List Char)) :
    readLines inside ((readLines inside lines).1.map fun row => textOf (readable row)) =
      ((readLines inside lines).1.map readable, (readLines inside lines).2) := by
  induction lines generalizing inside with
  | nil => rfl
  | cons line lines ih =>
    obtain ⟨-, hread⟩ := piecesOf_readable inside line
    simp only [readLines, List.map_cons, hread, ih]

theorem Content.charClass_eq_fault_iff {content : Content} :
    content.charClass = .fault ↔ content.isFault := by
  cases content with
  | lexeme l => cases l <;> simp [charClass, Lexeme.charClass, isFault]
  | blank | comment | fault => simp [charClass, isFault]

theorem filter_charClasses (p : Piece) :
    p.charClasses.filter (· ≠ .fault) = if p.content.isFault then [] else p.charClasses := by
  have hclass := p.content.charClass_eq_fault_iff
  split
  · rename_i hf
    exact List.filter_eq_nil_iff.2 (by simp [Piece.charClasses, hclass.2 hf])
  · rename_i hf
    exact List.filter_eq_self.2 (by simp [Piece.charClasses, hclass, hf])

theorem charClasses_readable (pieces : List Piece) :
    (readable pieces).flatMap Piece.charClasses =
      (pieces.flatMap Piece.charClasses).filter (· ≠ .fault) := by
  induction pieces with
  | nil => rfl
  | cons p pieces ih =>
    rw [List.flatMap_cons, List.filter_append, ← ih, filter_charClasses]
    cases hf : p.content.isFault with
    | true => rw [readable_cons_of_isFault hf, if_pos rfl, List.nil_append]
    | false =>
      rw [readable_cons_of_not_isFault hf, if_neg Bool.false_ne_true, List.flatMap_cons]

namespace Scan

theorem ofLine_readable (number : Nat) (pieces : List Piece) :
    ofLine number (readable pieces) = ⟨(ofLine number pieces).tokens,
      (ofLine number pieces).charClasses.filter (· ≠ .fault), []⟩ := by
  have htokens : (readable pieces).filterMap (Piece.token? number) =
      pieces.filterMap (Piece.token? number) := by
    rw [readable, List.filterMap_filter]
    congr 1
    funext p
    obtain ⟨text, content⟩ := p
    cases content <;> rfl
  have hdiagnostics : (readable pieces).filterMap (Piece.diagnostic? number) = [] := by
    rw [readable, List.filterMap_filter, List.filterMap_eq_nil_iff]
    rintro ⟨text, content⟩ -
    cases content <;> rfl
  have hblank : [CharClass.blank].filter (· ≠ .fault) = [.blank] := rfl
  simp only [ofLine, htokens, hdiagnostics, charClasses_readable, List.filter_append, hblank]

theorem ofLines_readable (first : Nat) (rows : List (List Piece)) :
    ofLines first (rows.map readable) = ⟨(ofLines first rows).tokens,
      (ofLines first rows).charClasses.filter (· ≠ .fault), []⟩ := by
  induction rows generalizing first with
  | nil => rfl
  | cons row rows ih =>
    rw [List.map_cons, ofLines, ofLines, ofLine_readable, ih]
    simp only [append_eq, List.filter_append, List.append_nil]

end Scan

/-- The characters whose class is not that of a fault. -/
def keep (text : List Char) (classes : List CharClass) : List Char :=
  ((text.zip classes).filter (·.2 ≠ .fault)).map Prod.fst

theorem keep_append {text : List Char} {classes : List CharClass}
    (h : text.length = classes.length) (more : List Char) (others : List CharClass) :
    keep (text ++ more) (classes ++ others) = keep text classes ++ keep more others := by
  rw [keep, List.zip_append h, List.filter_append, List.map_append, keep, keep]

theorem keep_piece (p : Piece) :
    keep p.text p.charClasses = if p.content.isFault then [] else p.text := by
  have hclass := p.content.charClass_eq_fault_iff
  have hzip : p.text.zip p.charClasses = p.text.map fun c => (c, p.content.charClass) := by
    rw [Piece.charClasses, ← List.zip_map', List.map_id']
  rw [keep, hzip]
  split
  · rename_i hf
    rw [List.filter_eq_nil_iff.2 (by simp [hclass.2 hf])]
    rfl
  · rename_i hf
    rw [List.filter_eq_self.2 (by simp [hclass, hf]), List.map_map]
    exact List.map_id' _

theorem length_flatMap_charClasses (pieces : List Piece) :
    (textOf pieces).length = (pieces.flatMap Piece.charClasses).length := by
  simp [textOf, List.length_flatMap, Piece.charClasses]

theorem keep_row (row : List Piece) :
    keep (textOf row) (row.flatMap Piece.charClasses) = textOf (readable row) := by
  induction row with
  | nil => rfl
  | cons p row ih =>
    have hp : p.text.length = p.charClasses.length := (List.length_map _).symm
    rw [textOf_cons, List.flatMap_cons, keep_append hp, ih, keep_piece]
    cases hf : p.content.isFault with
    | true => rw [readable_cons_of_isFault hf, if_pos rfl, List.nil_append]
    | false =>
      rw [readable_cons_of_not_isFault hf, if_neg Bool.false_ne_true, textOf_cons]

theorem keep_rows (first : Nat) (rows : List (List Piece)) :
    keep (joinLines (rows.map textOf)) (Scan.ofLines first rows).charClasses =
      joinLines (rows.map fun row => textOf (readable row)) := by
  induction rows generalizing first with
  | nil => rfl
  | cons row rows ih =>
    have hjoin (line : List Char) (lines : List (List Char)) :
        joinLines (line :: lines) = line ++ ['\n'] ++ joinLines lines := List.flatMap_cons
    have hrow : keep (textOf row ++ ['\n']) (row.flatMap Piece.charClasses ++ [.blank]) =
        textOf (readable row) ++ ['\n'] := by
      rw [keep_append (length_flatMap_charClasses row), keep_row]
      rfl
    have hlength : (textOf row ++ ['\n']).length =
        (row.flatMap Piece.charClasses ++ [CharClass.blank]).length := by
      rw [List.length_append, List.length_append, length_flatMap_charClasses]
      rfl
    rw [List.map_cons, List.map_cons, hjoin, hjoin, Scan.ofLines, Scan.append_eq, Scan.ofLine]
    dsimp only
    rw [keep_append hlength, hrow, ih]

/-- The lines of a text, each ended by one newline, without what could not be read. -/
def withoutFaults (source : String) : String :=
  .ofList (keep (joinLines (linesOf source.toList)) (scan source).charClasses)

theorem map_textOf_readLines (inside : Bool) (lines : List (List Char)) :
    (readLines inside lines).1.map textOf = lines := by
  induction lines generalizing inside with
  | nil => rfl
  | cons line lines ih =>
    simp only [readLines, List.map_cons, ih]
    rw [textOf, flatMap_text_piecesOf]

theorem exists_of_mem_readLines {inside : Bool} {lines : List (List Char)} {row : List Piece}
    (h : row ∈ (readLines inside lines).1) :
    ∃ start, ∃ line ∈ lines, row = (piecesOf start line).1 := by
  induction lines generalizing inside with
  | nil => cases h
  | cons line lines ih =>
    rw [readLines] at h
    rcases List.mem_cons.1 h with rfl | h
    · exact ⟨inside, line, List.mem_cons_self, rfl⟩
    · obtain ⟨start, line', hmem, hrow⟩ := ih h
      exact ⟨start, line', List.mem_cons_of_mem _ hmem, hrow⟩

theorem linesOf_withoutFaults {source : String} (h : '\r' ∉ source.toList) :
    linesOf (withoutFaults source).toList =
      (readLines false (linesOf source.toList)).1.map fun row => textOf (readable row) := by
  have hkeep := keep_rows 1 (readLines false (linesOf source.toList)).1
  rw [map_textOf_readLines] at hkeep
  rw [withoutFaults, String.toList_ofList, scan, hkeep]
  refine linesOf_joinLines fun line hline c hc => ?_
  obtain ⟨row, hrow, rfl⟩ := List.mem_map.1 hline
  obtain ⟨start, line, hmem, rfl⟩ := exists_of_mem_readLines hrow
  obtain ⟨⟨dropped, hdropped⟩, -⟩ := piecesOf_readable start line
  have hcline : c ∈ line := hdropped ▸ List.mem_append_left dropped hc
  constructor
  · rintro rfl
    exact newline_notMem_linesOf _ _ hmem hcline
  · rintro rfl
    exact h (mem_of_mem_linesOf hmem hcline)

/-- Recovery is erasure: a fault takes the rest of its line out of the text, and that is all. -/
theorem scan_withoutFaults {source : String} (h : '\r' ∉ source.toList) :
    (scan (withoutFaults source)).tokens = (scan source).tokens ∧
      (scan (withoutFaults source)).diagnostics = [] ∧
      (scan (withoutFaults source)).charClasses = (scan source).charClasses.filter (· ≠ .fault) ∧
      ∀ row ∈ (readLines false (linesOf source.toList)).1, ∀ front p back,
        row = front ++ p :: back → p.content.isFault → back = [] := by
  have hscan : scan (withoutFaults source) = ⟨(scan source).tokens, (scan source).charClasses.filter
      (· ≠ .fault), []⟩ := by
    rw [scan, linesOf_withoutFaults h, readLines_readable, Scan.ofLines_readable]
    rfl
  rw [hscan]
  refine ⟨rfl, rfl, rfl, ?_⟩
  rintro row hrow front p back hsplit hfault
  obtain ⟨start, line, -, rfl⟩ := exists_of_mem_readLines hrow
  exact eq_nil_of_isFault hsplit hfault

theorem scan_withoutFaults_opened :
    '\r' ∉ "box # /* a\nset x? y".toList ∧
      withoutFaults "box # /* a\nset x? y" = "box \nset x\n" ∧
      (scan "box \nset x\n").tokens = (scan "box # /* a\nset x? y").tokens ∧
      (scan "box \nset x\n").diagnostics = [] := by
  have hnone : '\r' ∉ "box # /* a\nset x? y".toList := by decide
  have herased : withoutFaults "box # /* a\nset x? y" = "box \nset x\n" := by decide +kernel
  have herasure := scan_withoutFaults hnone
  rw [herased] at herasure
  exact ⟨hnone, herased, herasure.1, herasure.2.1⟩

end SceneGrammar

import SceneGrammar.Proofs.Scan.Gap
import SceneGrammar.Proofs.Scan.Spelling
import SceneGrammar.Proofs.Text.Lines
import SceneGrammar.Scan.Basic

/-!
# Scanning what was laid out

A program is laid out as words, each the spelling of a lexeme, with blanks and comments between
neighbours. However that is done, the scanner gives back one token for each word. The proof keeps of
a line what is not blank or comment, and the state it leaves to the next line: what stands between
words changes neither.
-/

namespace SceneGrammar

namespace Content

end Content

/-- The lexemes and faults of a line in order, and whether its end lies inside a block comment. -/
def readLine (inside : Bool) (line : List Char) : List Content × Bool :=
  (((piecesOf inside line).1.map Piece.content).filter (!·.isGap), (piecesOf inside line).2)

def contents : Bool → List (List Char) → List Content
  | _, [] => []
  | inside, line :: lines => (readLine inside line).1 ++ contents (readLine inside line).2 lines

theorem contents_cons (inside : Bool) (line : List Char) (lines : List (List Char)) :
    contents inside (line :: lines) =
      (readLine inside line).1 ++ contents (readLine inside line).2 lines :=
  rfl

theorem readLine_nil (inside : Bool) : readLine inside [] = ([], inside) := by
  rw [readLine, piecesOf_nil]
  rfl

/-- A text without lines is as good as one with an empty line. -/
theorem contents_headD_tail (inside : Bool) (lines : List (List Char)) :
    contents inside (lines.headD [] :: lines.tail) = contents inside lines := by
  cases lines with
  | nil => simp [contents_cons, readLine_nil]
  | cons line lines => rfl

/-! ## What stands between words -/

/-- What may stand between two words, and may do so as often as one likes. -/
inductive Gap
  | blank (c : Char) (h : isBlank c)
  | lineComment (text : List Char) (h : '\n' ∉ text)
  | blockComment (body : List Char) (h : ¬ ['*', '/'] <:+: body)

def Gap.text : Gap → List Char
  | .blank c _ => [c]
  | .lineComment text _ => ['/', '/'] ++ text ++ ['\n']
  | .blockComment body _ => ['/', '*'] ++ body ++ ['*', '/']

theorem readLine_of_lexeme {line text rest : List Char} {lexeme : Lexeme} (hl : line ≠ [])
    (h : cutOutside line = .ofSplit (text, rest) (.lexeme lexeme)) :
    readLine false line = (.lexeme lexeme :: (readLine false rest).1, (readLine false rest).2) := by
  have hcut : cutPiece false line = .ofSplit (text, rest) (.lexeme lexeme) := h
  simp [readLine, piecesOf_cons false hl, hcut, Cut.ofSplit, Content.isGap]

/-- Behind a word there is nothing on its line, or what a gap begins with. -/
def Delimits (rest : List Char) : Prop := ∀ c ∈ rest.head?, isBlank c ∨ c = '/'

theorem Delimits.head {rest : List Char} (h : Delimits rest) :
    ∀ c ∈ rest.head?, isWordChar c = false ∧ c ≠ '.' := by
  intro c hc
  rcases h c hc with hblank | rfl
  · refine ⟨isWordChar_eq_false_of_isBlank hblank, ?_⟩
    rintro rfl
    exact absurd hblank (by decide)
  · decide

namespace Spelling

variable {text : List Char} {lexeme : Lexeme}

theorem ends (h : Spelling text lexeme) {rest : List Char} (hr : Delimits rest) :
    lexeme.Ends text rest := by
  have hnone {p : Char → Bool} (hp : ∀ c, p c → isWordChar c) : ∀ c ∈ rest.head?, p c = false := by
    intro c hc
    refine Bool.eq_false_iff.2 fun hpc => ?_
    have hword := (hr.head c hc).1
    rw [hp c hpc] at hword
    cases hword
  have hend : startsWord rest = false :=
    startsWord_eq_false_iff.2 fun c hc => (hr.head c hc).1
  cases h with
  | number n =>
    exact fun c hc => ⟨hnone (fun d hd => isWordChar_of_isDigit hd) c hc, fun _ => (hr.head c hc).2⟩
  | @hexColor digits hd hl =>
    have hspan : spanOf isWordChar (digits ++ rest) = (digits, rest) :=
      spanOf_eq_iff.2 ⟨rfl, fun c hc => isWordChar_of_isHexDigit (hd c hc),
        startsWord_eq_false_iff.1 hend⟩
    rw [Lexeme.ends_hexColor_iff, (Prod.mk.inj hspan).1]
    refine ⟨hnone fun d hd => isWordChar_of_isHexDigit hd, ?_⟩
    rintro rfl
    exact absurd (hd 'n' (by decide)) (by decide)
  | namedColor h hw =>
    exact (Lexeme.ends_namedColor_iff _ (forall_isLetter_of_map_toLower h hw).2 rest).2 hend
  | keyword => exact fun _ => hend
  | name => exact hend

theorem contents (h : Spelling text lexeme) {rest : List Char}
    (hr : Delimits ((linesOf rest).headD [])) :
    contents false (linesOf (text ++ rest)) = .lexeme lexeme :: contents false (linesOf rest) := by
  have hplain : ∀ c ∈ text, c ≠ '\n' ∧ c ≠ '\r' := by
    intro c hc
    have hblank := h.isBlank_eq_false c hc
    constructor
    · rintro rfl
      exact absurd hblank (by decide)
    · rintro rfl
      exact absurd hblank (by decide)
  have hread := readLine_of_lexeme (by simp [h.ne_nil]) (cutOutside_of_spelling h (h.ends hr))
  rw [linesOf_word_append h.ne_nil hplain, contents_cons, hread, List.cons_append,
    ← contents_headD_tail false (linesOf rest)]
  rfl

end Spelling

/-! ## Laid out programs -/

structure Word where
  text : List Char
  lexeme : Lexeme
  spelling : Spelling text lexeme

structure Separator where
  first : Gap
  more : List Gap

def Separator.text (s : Separator) : List Char := (s.first :: s.more).flatMap Gap.text

/-- A separator stands behind every word but the last, where it may be left out. -/
structure Layout where
  lead : List Gap
  words : List (Word × Separator)
  last : Option Word

namespace Layout

def text (p : Layout) : List Char :=
  p.lead.flatMap Gap.text ++ p.words.flatMap (fun (word, separator) => word.text ++ separator.text) ++
    p.last.elim [] Word.text

end Layout

end SceneGrammar

import SceneGrammar.Scan.Piece
import SceneGrammar.Text.Lines

/-!
Scanning a program: every line is cut into pieces, a block comment may go on over line ends, and
what cannot be read drops the rest of its line only.
-/

namespace SceneGrammar

/-- The pieces of one line, and whether its end lies inside a block comment. -/
def piecesOf (inside : Bool) (line : List Char) : List Piece × Bool :=
  if h : line = [] then ([], inside)
  else
    let cut := cutPiece inside line
    have := (Cut.takes_cutPiece inside h).rest_lt
    let (pieces, last) := piecesOf cut.inside cut.rest
    (cut.piece :: pieces, last)
termination_by line.length

theorem piecesOf_nil (inside : Bool) : piecesOf inside [] = ([], inside) := by
  rw [piecesOf]; rfl

theorem piecesOf_cons (inside : Bool) {line : List Char} (h : line ≠ []) :
    piecesOf inside line =
      ((cutPiece inside line).piece ::
        (piecesOf (cutPiece inside line).inside (cutPiece inside line).rest).1,
        (piecesOf (cutPiece inside line).inside (cutPiece inside line).rest).2) := by
  rw [piecesOf]; simp [h]

theorem flatMap_text_piecesOf (inside : Bool) (line : List Char) :
    (piecesOf inside line).1.flatMap Piece.text = line := by
  by_cases h : line = []
  · subst h; simp [piecesOf_nil]
  · have takes := Cut.takes_cutPiece inside h
    have := takes.rest_lt
    rw [piecesOf_cons inside h, List.flatMap_cons, flatMap_text_piecesOf, takes.append]
termination_by line.length

def readLines : Bool → List (List Char) → List (List Piece) × Bool
  | inside, [] => ([], inside)
  | inside, line :: lines =>
    let (pieces, inside) := piecesOf inside line
    let (more, last) := readLines inside lines
    (pieces :: more, last)

/-- `charClasses` has one entry for each character of the lines, each line ended by one newline. -/
structure Scan where
  tokens : List Token
  charClasses : List CharClass
  diagnostics : List Diagnostic

namespace Scan

def empty : Scan := ⟨[], [], []⟩

protected def append (a b : Scan) : Scan :=
  ⟨a.tokens ++ b.tokens, a.charClasses ++ b.charClasses, a.diagnostics ++ b.diagnostics⟩

instance : Append Scan := ⟨Scan.append⟩

def ofLine (number : Nat) (pieces : List Piece) : Scan :=
  ⟨pieces.filterMap (Piece.token? number),
    pieces.flatMap Piece.charClasses ++ [.blank],
    pieces.filterMap (Piece.diagnostic? number)⟩

/-- The lines are numbered from `first` on. -/
def ofLines (first : Nat) : List (List Piece) → Scan
  | [] => empty
  | line :: lines => ofLine first line ++ ofLines (first + 1) lines

theorem append_eq (a b : Scan) : a ++ b =
    ⟨a.tokens ++ b.tokens, a.charClasses ++ b.charClasses, a.diagnostics ++ b.diagnostics⟩ := rfl

theorem append_assoc (a b c : Scan) : a ++ b ++ c = a ++ (b ++ c) := by
  simp only [append_eq, List.append_assoc]

theorem empty_append (a : Scan) : empty ++ a = a := rfl

theorem ofLines_append (first : Nat) (lines more : List (List Piece)) :
    ofLines first (lines ++ more) = ofLines first lines ++ ofLines (first + lines.length) more := by
  induction lines generalizing first with
  | nil => rfl
  | cons line lines ih =>
    rw [List.cons_append, ofLines, ofLines, ih, append_assoc, List.length_cons,
      Nat.add_right_comm first 1, Nat.add_assoc]

end Scan

def scan (source : String) : Scan := .ofLines 1 (readLines false (linesOf source.toList)).1

end SceneGrammar

import SceneGrammar.Proofs.Text.Lines
import SceneGrammar.Scan.Basic

/-!
# Scanning whole lines apart

All that one line tells the next is whether a block comment is still open. So a text can be cut
behind any newline and its two parts scanned one after the other; the lines of the second are counted
on from the first.
-/

namespace SceneGrammar

theorem readLines_append (inside : Bool) (lines more : List (List Char)) :
    readLines inside (lines ++ more) =
      ((readLines inside lines).1 ++ (readLines (readLines inside lines).2 more).1,
        (readLines (readLines inside lines).2 more).2) := by
  induction lines generalizing inside with
  | nil => rfl
  | cons line lines ih => simp only [List.cons_append, readLines, ih]

theorem length_readLines (inside : Bool) (lines : List (List Char)) :
    (readLines inside lines).1.length = lines.length := by
  induction lines generalizing inside with
  | nil => rfl
  | cons line lines ih => simp only [readLines, List.length_cons, ih]

namespace Token

def shift (lines : Nat) (t : Token) : Token := { t with line := t.line + lines }

end Token

namespace Diagnostic

def shift (lines : Nat) (d : Diagnostic) : Diagnostic :=
  { d with line := d.line.map (· + lines) }

end Diagnostic

namespace Piece

theorem token?_add (number lines : Nat) :
    token? (number + lines) = fun p => (p.token? number).map (Token.shift lines) := by
  funext p
  unfold token?
  split <;> rfl

theorem diagnostic?_add (number lines : Nat) :
    diagnostic? (number + lines) =
      fun p => (p.diagnostic? number).map (Diagnostic.shift lines) := by
  funext p
  unfold diagnostic?
  split <;> rfl

end Piece

namespace Scan

/-- The same scan with all lines counted from further on. -/
def shift (lines : Nat) (s : Scan) : Scan :=
  ⟨s.tokens.map (Token.shift lines), s.charClasses, s.diagnostics.map (Diagnostic.shift lines)⟩

theorem shift_append (lines : Nat) (a b : Scan) :
    (a ++ b).shift lines = a.shift lines ++ b.shift lines := by
  simp only [append_eq, shift, List.map_append]

theorem ofLine_add (number lines : Nat) (pieces : List Piece) :
    ofLine (number + lines) pieces = (ofLine number pieces).shift lines := by
  simp only [ofLine, shift, List.map_filterMap, Piece.token?_add, Piece.diagnostic?_add]

theorem ofLines_add (first lines : Nat) (rows : List (List Piece)) :
    ofLines (first + lines) rows = (ofLines first rows).shift lines := by
  induction rows generalizing first with
  | nil => rfl
  | cons row rows ih =>
    rw [ofLines, ofLines, shift_append, ofLine_add, Nat.add_right_comm, ih]

end Scan

/-- The scan of a text whose beginning lies inside a block comment, or outside. -/
def scanFrom (inside : Bool) (source : String) : Scan :=
  .ofLines 1 (readLines inside (linesOf source.toList)).1

/-- Does the text leave a block comment open? -/
def endsInside (source : String) : Bool := (readLines false (linesOf source.toList)).2

/-- A text read from inside a comment is what follows the opening of one. -/
theorem scan_opened {source : String} (h : source ≠ "") :
    scan ("/*" ++ source) =
      ⟨(scanFrom true source).tokens, .comment :: .comment :: (scanFrom true source).charClasses,
        (scanFrom true source).diagnostics⟩ := by
  have hopen (line : List Char) : piecesOf false ('/' :: '*' :: line) =
      (⟨['/', '*'], .comment⟩ :: (piecesOf true line).1, (piecesOf true line).2) := by
    rw [piecesOf_cons false (by simp)]
    rfl
  have hopened : ("/*" ++ source).toList = '/' :: '*' :: source.toList := by
    rw [String.toList_append]
    rfl
  have htext : source.toList ≠ [] := by simpa using h
  obtain ⟨line, lines, hlines⟩ := List.exists_cons_of_ne_nil (linesOf_ne_nil htext)
  rw [scan, scanFrom, hopened, linesOf_cons (by decide) (by simp), linesOf_cons (by decide) (by simp),
    hlines]
  have htoken : Piece.token? 1 ⟨['/', '*'], .comment⟩ = none := rfl
  have hdiagnostic : Piece.diagnostic? 1 ⟨['/', '*'], .comment⟩ = none := rfl
  simp [consFirst, readLines, hopen, Scan.ofLines, Scan.ofLine, Scan.append_eq, Piece.charClasses,
    Content.charClass, List.filterMap_cons_none htoken, List.filterMap_cons_none hdiagnostic]

/-- The second text is scanned from inside a comment just if the first leaves one open. -/
theorem scan_append {a b : String} (h : WholeLines a.toList) :
    (endsInside a = false → scan (a ++ b) = scan a ++ (scan b).shift (a.toList.count '\n')) ∧
      (endsInside a = true →
        scan (a ++ b) = scan a ++ (scanFrom true b).shift (a.toList.count '\n')) := by
  have hjoin : scan (a ++ b) =
      scan a ++ (scanFrom (endsInside a) b).shift (a.toList.count '\n') := by
    have hlength : (readLines false (linesOf a.toList)).1.length = a.toList.count '\n' := by
      rw [length_readLines, length_linesOf h]
    rw [scan, String.toList_append, linesOf_append h, readLines_append, Scan.ofLines_append,
      hlength, Scan.ofLines_add]
    rfl
  constructor
  · intro he
    rw [hjoin, he]
    rfl
  · intro he
    rw [hjoin, he]

theorem scan_append_opened :
    (WholeLines "box /* seven\n".toList ∧ endsInside "box /* seven\n" = true ∧
      scan ("box /* seven\n" ++ "eight */ 9 #fff") =
        scan "box /* seven\n" ++ (scanFrom true "eight */ 9 #fff").shift 1) ∧
    (WholeLines "box\n".toList ∧ endsInside "box\n" = false ∧
      scan ("box\n" ++ "#ff /* a") = scan "box\n" ++ (scan "#ff /* a").shift 1) := by
  have hopened : WholeLines "box /* seven\n".toList := .inr ⟨"box /* seven".toList, by decide⟩
  have hclosed : WholeLines "box\n".toList := .inr ⟨"box".toList, by decide⟩
  have hends : endsInside "box /* seven\n" = true ∧ endsInside "box\n" = false := by decide +kernel
  obtain ⟨hinside, houtside⟩ := hends
  exact ⟨⟨hopened, hinside, (scan_append hopened).2 hinside⟩,
    hclosed, houtside, (scan_append hclosed).1 houtside⟩

end SceneGrammar

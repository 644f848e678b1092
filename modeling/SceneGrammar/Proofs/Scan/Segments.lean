import SceneGrammar.Proofs.Scan.Recovery

/-!
# Where the tokens stand in the text

The pieces of all lines, one after another and each line with its newline, are the whole text. Told
with the place of each piece, the scan is a list of pieces: its classes are those of their
characters, its tokens those of the lexemes among them, and the lines go up only behind newlines.
-/

namespace SceneGrammar

/-! ## Pieces of a line -/

/-- The text spells what it was taken for, and no newline stands in it unless it is the end of a
line. -/
structure Piece.Sound (p : Piece) : Prop where
  progress : p.text ≠ []
  spelling : ∀ {lexeme}, p.content = .lexeme lexeme → Spelling p.text lexeme
  newline : '\n' ∈ p.text → p = ⟨['\n'], .blank⟩

theorem spelling_of_cutPiece {inside : Bool} {line : List Char} {lexeme : Lexeme}
    (h : (cutPiece inside line).piece.content = .lexeme lexeme) :
    Spelling (cutPiece inside line).piece.text lexeme := by
  cases inside with
  | true => cases h
  | false =>
    obtain ⟨⟨⟨text, content⟩, rest, last⟩, hcut⟩ : ∃ cut, cutOutside line = cut := ⟨_, rfl⟩
    change (cutOutside line).piece.content = _ at h
    change Spelling (cutOutside line).piece.text lexeme
    rw [hcut] at h ⊢
    dsimp only at h
    rw [h] at hcut
    exact (spelling_of_cutOutside hcut).2.1

theorem sound_piecesOf (inside : Bool) {line : List Char} (hline : '\n' ∉ line) :
    ∀ p ∈ (piecesOf inside line).1, p.Sound ∧ '\n' ∉ p.text := by
  by_cases hl : line = []
  · rw [hl, piecesOf_nil]
    exact fun _ hp => nomatch hp
  · have takes := Cut.takes_cutPiece inside hl
    have := takes.rest_lt
    rw [← takes.append, List.mem_append, not_or] at hline
    rw [piecesOf_cons inside hl, List.forall_mem_cons]
    have hhead : (cutPiece inside line).piece.Sound :=
      ⟨takes.progress, spelling_of_cutPiece, fun h => absurd h hline.1⟩
    exact ⟨⟨hhead, hline.1⟩, sound_piecesOf _ hline.2⟩
termination_by line.length

theorem Piece.fault_notMem_charClasses {p : Piece} (hp : p.content.isFault = false) :
    CharClass.fault ∉ p.charClasses := by
  intro h
  obtain ⟨c, -, hc⟩ := List.mem_map.1 h
  rw [Content.charClass_eq_fault_iff.1 hc] at hp
  cases hp

/-- Pieces of which only the last may be a fault. -/
inductive FaultAtEnd : List Piece → Prop
  | nil : FaultAtEnd []
  | fault {p : Piece} (hp : p.content.isFault) (ht : p.text ≠ []) : FaultAtEnd [p]
  | cons {p : Piece} {row : List Piece} (hp : p.content.isFault = false) (h : FaultAtEnd row) :
      FaultAtEnd (p :: row)

theorem faultAtEnd_piecesOf (inside : Bool) (line : List Char) :
    FaultAtEnd (piecesOf inside line).1 := by
  by_cases hl : line = []
  · rw [hl, piecesOf_nil]
    exact .nil
  · have takes := Cut.takes_cutPiece inside hl
    have := takes.rest_lt
    cases hf : (cutPiece inside line).piece.content.isFault with
    | true =>
      rw [piecesOf_of_isFault hl hf]
      exact .fault hf takes.progress
    | false =>
      rw [piecesOf_cons inside hl]
      exact .cons hf (faultAtEnd_piecesOf _ _)
termination_by line.length

namespace FaultAtEnd
variable {row : List Piece}

/-- What cannot be read is the end of the line. -/
theorem exists_suffix (h : FaultAtEnd row) :
    ∃ front n, row.flatMap Piece.charClasses = front ++ List.replicate n .fault ∧
      CharClass.fault ∉ front := by
  induction h with
  | nil => exact ⟨[], 0, rfl, List.not_mem_nil⟩
  | @fault p hp ht =>
    refine ⟨[], p.text.length, ?_, List.not_mem_nil⟩
    rw [List.flatMap_singleton, Piece.charClasses, Content.charClass_eq_fault_iff.2 hp,
      List.map_const', List.nil_append]
  | @cons p row hp h ih =>
    obtain ⟨front, n, hclasses, hfront⟩ := ih
    refine ⟨p.charClasses ++ front, n, ?_, ?_⟩
    · rw [List.flatMap_cons, hclasses, List.append_assoc]
    · rw [List.mem_append, not_or]
      exact ⟨Piece.fault_notMem_charClasses hp, hfront⟩

/-- One report just if something cannot be read. -/
theorem map_line_diagnostics (h : FaultAtEnd row) (number : Nat) :
    (row.filterMap (Piece.diagnostic? number)).map Diagnostic.line =
      if CharClass.fault ∈ row.flatMap Piece.charClasses then [some number] else [] := by
  induction h with
  | nil => rfl
  | @fault p hp ht =>
    have hmem : CharClass.fault ∈ [p].flatMap Piece.charClasses := by
      obtain ⟨c, text, hcons⟩ := List.exists_cons_of_ne_nil ht
      rw [List.flatMap_singleton, Piece.charClasses, Content.charClass_eq_fault_iff.2 hp, hcons]
      exact List.mem_cons_self
    rw [if_pos hmem]
    obtain ⟨text, content⟩ := p
    cases content with
    | fault cause => rfl
    | blank | comment | lexeme => cases hp
  | @cons p row hp h ih =>
    have hnone : p.diagnostic? number = none := by
      obtain ⟨text, content⟩ := p
      cases content with
      | fault cause => cases hp
      | blank | comment | lexeme => rfl
    rw [List.filterMap_cons_none hnone, ih, List.flatMap_cons]
    simp only [List.mem_append, Piece.fault_notMem_charClasses hp, false_or]

end FaultAtEnd

/-! ## Rows -/

namespace Scan

theorem charClasses_ofLines (first : Nat) (rows : List (List Piece)) :
    (ofLines first rows).charClasses =
      (rows.map fun row => row.flatMap Piece.charClasses).flatMap (· ++ [.blank]) := by
  induction rows generalizing first with
  | nil => rfl
  | cons row rows ih =>
    rw [List.map_cons, List.flatMap_cons, ← ih (first + 1)]
    rfl

theorem map_line_diagnostics_ofLines {rows : List (List Piece)}
    (h : ∀ row ∈ rows, FaultAtEnd row) (first : Nat) :
    (ofLines first rows).diagnostics.map Diagnostic.line =
      (((rows.map fun row => row.flatMap Piece.charClasses).zipIdx first).filter
        fun row => CharClass.fault ∈ row.1).map fun row => some row.2 := by
  induction rows generalizing first with
  | nil => rfl
  | cons row rows ih =>
    rw [List.forall_mem_cons] at h
    have hsplit : (ofLines first (row :: rows)).diagnostics =
        row.filterMap (Piece.diagnostic? first) ++ (ofLines (first + 1) rows).diagnostics := rfl
    rw [hsplit, List.map_append, ih h.2, h.1.map_line_diagnostics, List.map_cons, List.zipIdx_cons,
      List.filter_cons]
    dsimp only
    by_cases hf : CharClass.fault ∈ row.flatMap Piece.charClasses
    · rw [if_pos hf, if_pos (decide_eq_true hf)]
      rfl
    · rw [if_neg hf, if_neg (by simpa using hf)]
      rfl

end Scan

/-! ## Pieces in their places -/

/-- A piece and the number of its line. -/
structure Placed where
  line : Nat
  piece : Piece

namespace Placed

def token? (p : Placed) : Option Token := p.piece.token? p.line

/-- The pieces in the order of the text, each line with its newline. -/
def ofLines (first : Nat) : List (List Piece) → List Placed
  | [] => []
  | row :: rows =>
    row.map (⟨first, ·⟩) ++ ⟨first, ⟨['\n'], .blank⟩⟩ :: ofLines (first + 1) rows

def charsOf (ps : List Placed) : List Char := ps.flatMap (·.piece.text)

def classesOf (ps : List Placed) : List CharClass := ps.flatMap (·.piece.charClasses)

/-- What is read off piece by piece is read off row by row, the newlines between. -/
theorem flatMap_ofLines {α : Type} (f : Piece → List α) (first : Nat) (rows : List (List Piece)) :
    (ofLines first rows).flatMap (fun p => f p.piece) =
      (rows.map fun row => row.flatMap f).flatMap (· ++ f ⟨['\n'], .blank⟩) := by
  induction rows generalizing first with
  | nil => rfl
  | cons row rows ih =>
    have hrow : (row.map (Placed.mk first)).flatMap (fun p => f p.piece) = row.flatMap f := by
      rw [List.flatMap_map]
    rw [ofLines, List.flatMap_append, List.flatMap_cons, hrow, ih, List.map_cons,
      List.flatMap_cons, List.append_assoc]

theorem charsOf_ofLines (first : Nat) (rows : List (List Piece)) :
    charsOf (ofLines first rows) = joinLines (rows.map textOf) :=
  flatMap_ofLines Piece.text first rows

theorem classesOf_ofLines (first : Nat) (rows : List (List Piece)) :
    classesOf (ofLines first rows) = (Scan.ofLines first rows).charClasses :=
  (flatMap_ofLines Piece.charClasses first rows).trans (Scan.charClasses_ofLines first rows).symm

theorem tokens_ofLines (first : Nat) (rows : List (List Piece)) :
    (ofLines first rows).filterMap token? = (Scan.ofLines first rows).tokens := by
  induction rows generalizing first with
  | nil => rfl
  | cons row rows ih =>
    have hrow : (row.map (Placed.mk first)).filterMap token? =
        row.filterMap (Piece.token? first) := by
      rw [List.filterMap_map]
      rfl
    rw [ofLines, List.filterMap_append, hrow, List.filterMap_cons_none rfl, ih]
    rfl

/-- From this line on, the number of the line goes up behind every newline and nowhere else. -/
inductive Counted : Nat → List Placed → Prop
  | nil (line : Nat) : Counted line []
  | cons {line : Nat} {piece : Piece} {ps : List Placed}
      (h : Counted (line + piece.text.count '\n') ps) : Counted line (⟨line, piece⟩ :: ps)

theorem Counted.row_append {line : Nat} {row : List Piece} {ps : List Placed}
    (hrow : ∀ p ∈ row, '\n' ∉ p.text) (h : Counted line ps) :
    Counted line (row.map (⟨line, ·⟩) ++ ps) := by
  induction row with
  | nil => exact h
  | cons p row ih =>
    rw [List.forall_mem_cons] at hrow
    have hcount : line + p.text.count '\n' = line := by
      rw [List.count_eq_zero.2 hrow.1, Nat.add_zero]
    exact .cons (hcount.symm ▸ ih hrow.2)

theorem counted_ofLines {first : Nat} {rows : List (List Piece)}
    (h : ∀ row ∈ rows, ∀ p ∈ row, '\n' ∉ p.text) : Counted first (ofLines first rows) := by
  induction rows generalizing first with
  | nil => exact .nil first
  | cons row rows ih =>
    rw [List.forall_mem_cons] at h
    exact .row_append h.1 (.cons (ih h.2))

theorem sound_ofLines {first : Nat} {rows : List (List Piece)}
    (h : ∀ row ∈ rows, ∀ p ∈ row, p.Sound) : ∀ p ∈ ofLines first rows, p.piece.Sound := by
  have hend : Piece.Sound ⟨['\n'], .blank⟩ := ⟨by simp, nofun, fun _ => rfl⟩
  induction rows generalizing first with
  | nil => exact fun _ hp => nomatch hp
  | cons row rows ih =>
    rw [List.forall_mem_cons] at h
    rw [ofLines]
    refine List.forall_mem_append.2 ⟨fun p hp => ?_, List.forall_mem_cons.2 ⟨hend, ih h.2⟩⟩
    obtain ⟨piece, hpiece, rfl⟩ := List.mem_map.1 hp
    exact h.1 piece hpiece

end Placed

/-! ## Segments -/

/-- A stretch of a text, and where it starts. -/
structure Segment where
  start : Nat
  text : List Char

namespace Segment

def stop (segment : Segment) : Nat := segment.start + segment.text.length

/-- The token is spelled there, on a line of that number, and the classes say so. -/
structure Shows (text : List Char) (classes : List CharClass) (token : Token)
    (segment : Segment) : Prop where
  nonempty : segment.text ≠ []
  text_eq : segment.text <+: text.drop segment.start
  classes_eq : List.replicate segment.text.length token.lexeme.charClass <+:
    classes.drop segment.start
  spelling : Spelling segment.text token.lexeme
  line : token.line = 1 + (text.take segment.start).count '\n'

/-- The segments of the lexemes among these pieces, the first piece standing at `start`. -/
def ofPlaced (start : Nat) : List Placed → List Segment
  | [] => []
  | p :: ps =>
    match p.piece.content with
    | .lexeme _ => ⟨start, p.piece.text⟩ :: ofPlaced (start + p.piece.text.length) ps
    | _ => ofPlaced (start + p.piece.text.length) ps

theorem shows_ofPlaced {ps : List Placed} {before : List Char} {classes : List CharClass}
    (hlength : classes.length = before.length)
    (hcounted : Placed.Counted (1 + before.count '\n') ps) (hsound : ∀ p ∈ ps, p.piece.Sound) :
    List.Forall₂ (Shows (before ++ Placed.charsOf ps) (classes ++ Placed.classesOf ps))
      (ps.filterMap Placed.token?) (ofPlaced before.length ps) := by
  -- for the pieces behind the first one, that one stands before them
  induction ps generalizing before classes with
  | nil => exact .nil
  | cons p ps ih =>
    rw [List.forall_mem_cons] at hsound
    cases hcounted with
    | @cons _ piece _ hlater =>
      have hlength' : (classes ++ piece.charClasses).length = (before ++ piece.text).length := by
        rw [List.length_append, List.length_append, hlength, Piece.charClasses, List.length_map]
      rw [Nat.add_assoc, ← List.count_append] at hlater
      have hrest := ih hlength' hlater hsound.2
      rw [List.append_assoc, List.append_assoc, List.length_append] at hrest
      obtain ⟨text, content⟩ := piece
      cases content with
      | lexeme l =>
        refine .cons ⟨hsound.1.progress, ?_, ?_, hsound.1.spelling rfl, ?_⟩ hrest
        · rw [List.drop_left]
          exact List.prefix_append _ _
        · rw [← hlength, List.drop_left, ← List.map_const']
          exact List.prefix_append _ _
        · rw [List.take_left]
      | blank | comment | fault => exact hrest

theorem le_start_ofPlaced {start : Nat} {ps : List Placed} {segment : Segment}
    (h : segment ∈ ofPlaced start ps) : start ≤ segment.start := by
  induction ps generalizing start with
  | nil => cases h
  | cons p ps ih =>
    have hlater (h : segment ∈ ofPlaced (start + p.piece.text.length) ps) :
        start ≤ segment.start := Nat.le_trans (Nat.le_add_right _ _) (ih h)
    rw [ofPlaced] at h
    split at h
    · rcases List.mem_cons.1 h with rfl | h
      · exact Nat.le_refl _
      · exact hlater h
    · exact hlater h

theorem pairwise_ofPlaced (start : Nat) (ps : List Placed) :
    (ofPlaced start ps).Pairwise fun a b => a.stop ≤ b.start := by
  induction ps generalizing start with
  | nil => exact .nil
  | cons p ps ih =>
    rw [ofPlaced]
    split
    · exact .cons (fun _ h => le_start_ofPlaced h) (ih _)
    · exact ih _

end Segment

/-- Is this the class of a token? -/
def CharClass.isLexical : CharClass → Bool
  | .number | .color | .keyword | .name => true
  | .blank | .comment | .fault => false

namespace Placed

theorem getElem?_classesOf_cons (p : Placed) (ps : List Placed) (i : Nat) :
    (classesOf (p :: ps))[i]? =
      if i < p.piece.text.length then some p.piece.content.charClass
      else (classesOf ps)[i - p.piece.text.length]? := by
  rw [classesOf, List.flatMap_cons, List.getElem?_append, Piece.charClasses, List.length_map]
  split
  · rename_i hi
    rw [List.getElem?_map, List.getElem?_eq_getElem hi, Option.map_some]
  · rfl

/-- Every character of the class of a token lies in a segment. -/
theorem exists_segment {ps : List Placed} {i : Nat} {c : CharClass}
    (h : (classesOf ps)[i]? = some c) (hc : c.isLexical) (start : Nat) :
    ∃ segment ∈ Segment.ofPlaced start ps,
      segment.start ≤ start + i ∧ start + i < segment.stop := by
  induction ps generalizing start i with
  | nil => cases h
  | cons p ps ih =>
    obtain ⟨line, text, content⟩ := p
    rw [getElem?_classesOf_cons] at h
    split at h
    · rename_i hi
      cases h
      cases content with
      | lexeme l =>
        exact ⟨⟨start, text⟩, List.mem_cons_self, Nat.le_add_right _ _, Nat.add_lt_add_left hi _⟩
      | blank | comment | fault => cases hc
    · rename_i hi
      obtain ⟨segment, hmem, hstart, hstop⟩ := ih h (start + text.length)
      dsimp only at hi hstart hstop
      have hmem' : segment ∈ Segment.ofPlaced start (⟨line, text, content⟩ :: ps) := by
        cases content with
        | lexeme l => exact List.mem_cons_of_mem _ hmem
        | blank | comment | fault => exact hmem
      exact ⟨segment, hmem', by omega, by omega⟩

theorem blank_of_newline {ps : List Placed} (hsound : ∀ p ∈ ps, p.piece.Sound) {i : Nat}
    (h : (charsOf ps)[i]? = some '\n') : (classesOf ps)[i]? = some .blank := by
  induction ps generalizing i with
  | nil => cases h
  | cons p ps ih =>
    rw [List.forall_mem_cons] at hsound
    rw [charsOf, List.flatMap_cons, List.getElem?_append] at h
    rw [getElem?_classesOf_cons]
    split at h
    · rename_i hi
      rw [if_pos hi, hsound.1.newline (List.mem_of_getElem? h)]
      rfl
    · rename_i hi
      rw [if_neg hi]
      exact ih hsound.2 h

theorem length_classesOf (ps : List Placed) : (classesOf ps).length = (charsOf ps).length := by
  simp only [classesOf, charsOf, List.length_flatMap, Piece.charClasses, List.length_map]

end Placed

/-- The text as it is scanned: every line ends in one newline. -/
def canonicalText (source : String) : List Char := joinLines (linesOf source.toList)

/-- The pieces of the whole text. -/
def placed (source : String) : List Placed :=
  Placed.ofLines 1 (readLines false (linesOf source.toList)).1

theorem charsOf_placed (source : String) :
    Placed.charsOf (placed source) = canonicalText source := by
  rw [placed, Placed.charsOf_ofLines, map_textOf_readLines, canonicalText]

theorem classesOf_placed (source : String) :
    Placed.classesOf (placed source) = (scan source).charClasses :=
  Placed.classesOf_ofLines 1 _

theorem tokens_placed (source : String) :
    (placed source).filterMap Placed.token? = (scan source).tokens :=
  Placed.tokens_ofLines 1 _

theorem sound_of_mem_readLines {source : String} :
    ∀ row ∈ (readLines false (linesOf source.toList)).1, ∀ p ∈ row, p.Sound ∧ '\n' ∉ p.text := by
  intro row hrow
  obtain ⟨inside, line, hline, rfl⟩ := exists_of_mem_readLines hrow
  exact sound_piecesOf inside (newline_notMem_linesOf _ _ hline)

theorem sound_placed (source : String) : ∀ p ∈ placed source, p.piece.Sound :=
  Placed.sound_ofLines fun row hrow p hp => (sound_of_mem_readLines row hrow p hp).1

theorem counted_placed (source : String) : Placed.Counted 1 (placed source) :=
  Placed.counted_ofLines fun row hrow p hp => (sound_of_mem_readLines row hrow p hp).2

theorem exists_segments (source : String) :
    ∃ segments : List Segment,
      List.Forall₂ (Segment.Shows (canonicalText source) (scan source).charClasses)
        (scan source).tokens segments ∧
      segments.Pairwise (fun a b => a.stop ≤ b.start) ∧
      ∀ (i : Nat) c, (scan source).charClasses[i]? = some c → c.isLexical →
        ∃ segment ∈ segments, segment.start ≤ i ∧ i < segment.stop := by
  refine ⟨Segment.ofPlaced 0 (placed source), ?_, Segment.pairwise_ofPlaced 0 _,
    fun i c hi hc => ?_⟩
  · have hshows : List.Forall₂
        (Segment.Shows ([] ++ Placed.charsOf (placed source))
          ([] ++ Placed.classesOf (placed source)))
        ((placed source).filterMap Placed.token?) (Segment.ofPlaced 0 (placed source)) :=
      Segment.shows_ofPlaced rfl (counted_placed source) (sound_placed source)
    rwa [tokens_placed, charsOf_placed, classesOf_placed] at hshows
  · rw [← classesOf_placed] at hi
    obtain ⟨segment, hmem, hstart, hstop⟩ := Placed.exists_segment hi hc 0
    rw [Nat.zero_add] at hstart hstop
    exact ⟨segment, hmem, hstart, hstop⟩

theorem exists_rows (source : String) :
    ∃ rows : List (List CharClass),
      (scan source).charClasses = rows.flatMap (· ++ [.blank]) ∧
      rows.map List.length = (linesOf source.toList).map List.length ∧
      (∀ row ∈ rows, ∃ front n, row = front ++ List.replicate n .fault ∧
        CharClass.fault ∉ front) ∧
      (scan source).diagnostics.map Diagnostic.line =
        ((rows.zipIdx 1).filter fun row => CharClass.fault ∈ row.1).map fun row => some row.2 := by
  have hfault : ∀ row ∈ (readLines false (linesOf source.toList)).1, FaultAtEnd row := by
    intro row hrow
    obtain ⟨inside, line, -, rfl⟩ := exists_of_mem_readLines hrow
    exact faultAtEnd_piecesOf inside line
  refine ⟨_, Scan.charClasses_ofLines 1 _, ?_, fun row hrow => ?_,
    Scan.map_line_diagnostics_ofLines hfault 1⟩
  · rw [← map_textOf_readLines false (linesOf source.toList), List.map_map, List.map_map,
      map_textOf_readLines]
    exact List.map_congr_left fun row _ => (length_flatMap_charClasses row).symm
  · obtain ⟨pieces, hpieces, rfl⟩ := List.mem_map.1 hrow
    exact (hfault pieces hpieces).exists_suffix

/-- A class for every character, blanks at the newlines, a segment for every token that spells it on
its line, and no character of such a class outside of them. The reports are of the lines with
characters that cannot be read, one for each, and those characters are the end of the line. -/
theorem scan_fits (source : String) :
    (scan source).charClasses.length = (canonicalText source).length ∧
    (∀ i : Nat, (canonicalText source)[i]? = some '\n' →
      (scan source).charClasses[i]? = some CharClass.blank) ∧
    (∃ segments : List Segment,
      List.Forall₂ (Segment.Shows (canonicalText source) (scan source).charClasses)
        (scan source).tokens segments ∧
      segments.Pairwise (fun a b => a.stop ≤ b.start) ∧
      ∀ (i : Nat) c, (scan source).charClasses[i]? = some c → c.isLexical →
        ∃ segment ∈ segments, segment.start ≤ i ∧ i < segment.stop) ∧
    ∃ rows : List (List CharClass),
      (scan source).charClasses = rows.flatMap (· ++ [.blank]) ∧
      rows.map List.length = (linesOf source.toList).map List.length ∧
      (∀ row ∈ rows, ∃ front n, row = front ++ List.replicate n .fault ∧
        CharClass.fault ∉ front) ∧
      (scan source).diagnostics.map Diagnostic.line =
        ((rows.zipIdx 1).filter fun row => CharClass.fault ∈ row.1).map fun row => some row.2 := by
  refine ⟨?_, fun i hi => ?_, exists_segments source, exists_rows source⟩
  · rw [← classesOf_placed, ← charsOf_placed, Placed.length_classesOf]
  · rw [← charsOf_placed] at hi
    rw [← classesOf_placed]
    exact Placed.blank_of_newline (sound_placed source) hi

end SceneGrammar

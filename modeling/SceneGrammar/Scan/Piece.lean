import SceneGrammar.Color.Hex
import SceneGrammar.Color.Named
import SceneGrammar.Scan.Numeral
import SceneGrammar.Text.Character
import SceneGrammar.Token.Basic

/-!
The pieces that a line falls into: blanks, comments, lexemes, and what cannot be read. `cutPiece`
takes the first piece off a line; nothing is lost, and a line that is not empty loses at least one
character.
-/

namespace SceneGrammar

inductive LexicalFault
  | malformedColor
  | malformedName
  deriving DecidableEq, Repr

def LexicalFault.message : LexicalFault → String
  | .malformedColor => "Invalid color format"
  | .malformedName => "Variables must start with letters or underscores"

inductive CharClass
  | blank
  | comment
  | number
  | color
  | keyword
  | name
  | fault
  deriving DecidableEq, Repr

inductive Content
  | blank
  | comment
  | lexeme (value : Lexeme)
  | fault (cause : LexicalFault)
  deriving DecidableEq

def Lexeme.charClass : Lexeme → CharClass
  | .number _ => .number
  | .color _ => .color
  | .name _ => .name
  | .keyword _ => .keyword

def Content.charClass : Content → CharClass
  | .blank => .blank
  | .comment => .comment
  | .lexeme l => l.charClass
  | .fault _ => .fault

structure Piece where
  text : List Char
  content : Content
  deriving DecidableEq

namespace Piece

def charClasses (p : Piece) : List CharClass := p.text.map fun _ => p.content.charClass

def token? (line : Nat) (p : Piece) : Option Token :=
  match p.content with
  | .lexeme l => some ⟨l, line⟩
  | _ => none

def diagnostic? (line : Nat) (p : Piece) : Option Diagnostic :=
  match p.content with
  | .fault cause => some ⟨.lexical, cause.message, some line⟩
  | _ => none

end Piece

/-- A piece, what follows it, and whether that lies inside a block comment. -/
structure Cut where
  piece : Piece
  rest : List Char
  inside : Bool

namespace Cut

def whole (line : List Char) (content : Content) : Cut := ⟨⟨line, content⟩, [], false⟩

def ofSplit (split : List Char × List Char) (content : Content) : Cut :=
  ⟨⟨split.1, content⟩, split.2, false⟩

/-- A piece begins `line`, and takes some of it. -/
structure Takes (line : List Char) (cut : Cut) : Prop where
  append : cut.piece.text ++ cut.rest = line
  progress : cut.piece.text ≠ []

theorem Takes.rest_lt {line : List Char} {cut : Cut} (h : Takes line cut) :
    cut.rest.length < line.length := by
  have := List.length_pos_iff.2 h.progress
  rw [← h.append, List.length_append]
  omega

theorem takes_whole {line : List Char} (h : line ≠ []) (content : Content) :
    Takes line (whole line content) :=
  ⟨List.append_nil _, h⟩

end Cut

def spanOf (p : Char → Bool) (line : List Char) : List Char × List Char :=
  (line.takeWhile p, line.dropWhile p)

/-- The rest of a block comment as far as the line shows it, and whether it is still open. -/
def splitComment : List Char → (List Char × List Char) × Bool
  | [] => (([], []), true)
  | '*' :: '/' :: rest => ((['*', '/'], rest), false)
  | c :: rest =>
    let ((text, rest), inside) := splitComment rest
    ((c :: text, rest), inside)

/-- The first spelling on the way down the trie that may end where it ends. -/
def splitKeyword (mayEnd : List Char → Bool) :
    Trie Keyword → List Char → Option (Keyword × List Char × List Char)
  | _, [] => none
  | t, c :: rest =>
    let longer (t : Trie Keyword) :=
      (splitKeyword mayEnd t rest).map fun (keyword, text, rest) => (keyword, c :: text, rest)
    match t.step c with
    | (.dead, _) => none
    | (.inside, below) => longer below
    | (.word keyword, below) => if mayEnd rest then some (keyword, [c], rest) else longer below

def startsWord : List Char → Bool
  | [] => false
  | c :: _ => isWordChar c

/-- A keyword, or else a name. A keyword of letters is not followed by a character that an
identifier goes on with. -/
def cutWord (c : Char) (line : List Char) : Cut :=
  match splitKeyword (fun rest => !isLetter c || !startsWord rest) Keyword.trie line with
  | some (keyword, split) => .ofSplit split (.lexeme (.keyword keyword))
  | none =>
    if isWordStart c then
      let split := spanOf isWordChar line
      .ofSplit split (.lexeme (.name (.ofList split.1)))
    else .whole line (.fault .malformedName)

/-- A number sign begins a colour, unless what follows it is the word of the directive. -/
def cutSigned (line rest : List Char) : Cut :=
  if rest.takeWhile isWordChar = "define".toList then cutWord '#' line
  else
    let (digits, rest) := spanOf (fun c => (hexDigit? c).isSome) rest
    match Rgba.ofHex? digits with
    | some color => .ofSplit ('#' :: digits, rest) (.lexeme (.color color))
    | none => .whole line (.fault .malformedColor)

/-- The names of colours come before keywords and other names. -/
def cutLetters (c : Char) (line : List Char) : Cut :=
  let split := spanOf isWordChar line
  match if isLetter c then Rgba.ofName? split.1 else none with
  | some color => .ofSplit split (.lexeme (.color color))
  | none => cutWord c line

def cutOutside (line : List Char) : Cut :=
  match line with
  | [] => .whole [] .blank
  | '/' :: '/' :: _ => .whole line .comment
  | '/' :: '*' :: rest => ⟨⟨['/', '*'], .comment⟩, rest, true⟩
  | c :: rest =>
    if isBlank c then .ofSplit (spanOf isBlank line) .blank
    else if startsNumeral line then
      let split := splitNumeral line
      .ofSplit split (.lexeme (.number (numeralValue split.1)))
    else if c = '#' then cutSigned line rest
    else cutLetters c line

def cutPiece (inside : Bool) (line : List Char) : Cut :=
  if inside then
    let (split, inside) := splitComment line
    ⟨⟨split.1, .comment⟩, split.2, inside⟩
  else cutOutside line

theorem splitComment_append (line : List Char) :
    (splitComment line).1.1 ++ (splitComment line).1.2 = line := by
  fun_induction splitComment line <;> simp_all

theorem splitComment_ne_nil {line : List Char} (h : line ≠ []) : (splitComment line).1.1 ≠ [] := by
  fun_cases splitComment line <;> simp_all

theorem splitKeyword_append {mayEnd : List Char → Bool} {t : Trie Keyword} {line : List Char}
    {keyword : Keyword} {text rest : List Char}
    (h : splitKeyword mayEnd t line = some (keyword, text, rest)) :
    text ++ rest = line ∧ text ≠ [] := by
  induction line generalizing t keyword text rest with
  | nil => simp [splitKeyword] at h
  | cons c line ih =>
    have longer {below : Trie Keyword} (h : (splitKeyword mayEnd below line).map
        (fun (keyword, text, rest) => (keyword, c :: text, rest)) = some (keyword, text, rest)) :
        text ++ rest = c :: line ∧ text ≠ [] := by
      obtain ⟨⟨k, t', r⟩, hk, he⟩ := Option.map_eq_some_iff.1 h
      simp only [Prod.mk.injEq] at he
      obtain ⟨rfl, rfl, rfl⟩ := he
      simp [(ih hk).1]
    rw [splitKeyword] at h
    split at h
    · cases h
    · exact longer h
    · split at h
      · simp only [Option.some.injEq, Prod.mk.injEq] at h
        obtain ⟨rfl, rfl, rfl⟩ := h
        simp
      · exact longer h

namespace Cut

theorem takes_spanOf {p : Char → Bool} {c : Char} {line : List Char} (h : p c) (content : Content) :
    Takes (c :: line) (ofSplit (spanOf p (c :: line)) content) :=
  ⟨List.takeWhile_append_dropWhile, by simp [ofSplit, spanOf, h]⟩

theorem takes_cutWord (c : Char) (line : List Char) :
    Takes (c :: line) (cutWord c (c :: line)) := by
  unfold cutWord
  split
  · rename_i h
    exact ⟨(splitKeyword_append h).1, (splitKeyword_append h).2⟩
  · split
    · rename_i h
      exact takes_spanOf (isWordChar_of_isWordStart h) _
    · exact takes_whole (by simp) _

theorem takes_cutSigned (rest : List Char) :
    Takes ('#' :: rest) (cutSigned ('#' :: rest) rest) := by
  unfold cutSigned
  split
  · exact takes_cutWord '#' rest
  · simp only
    split
    · exact ⟨congrArg ('#' :: ·) List.takeWhile_append_dropWhile, by simp [ofSplit]⟩
    · exact takes_whole (by simp) _

theorem takes_cutLetters (c : Char) (line : List Char) :
    Takes (c :: line) (cutLetters c (c :: line)) := by
  unfold cutLetters
  by_cases h : isLetter c
  · simp only [h, if_true]
    split
    · exact takes_spanOf (by simp [isWordChar, h]) _
    · exact takes_cutWord c line
  · simp only [h]
    exact takes_cutWord c line

theorem takes_cutOutside {line : List Char} (h : line ≠ []) : Takes line (cutOutside line) := by
  unfold cutOutside
  split
  · exact absurd rfl h
  · exact takes_whole h _
  · exact ⟨rfl, by simp⟩
  · split
    · rename_i hc
      exact takes_spanOf hc _
    · split
      · rename_i hn
        exact ⟨splitNumeral_append _, splitNumeral_ne_nil hn⟩
      · split
        · rename_i hc
          subst hc
          exact takes_cutSigned _
        · exact takes_cutLetters _ _

theorem takes_cutPiece (inside : Bool) {line : List Char} (h : line ≠ []) :
    Takes line (cutPiece inside line) := by
  cases inside with
  | false => exact takes_cutOutside h
  | true => exact ⟨splitComment_append line, splitComment_ne_nil h⟩

end Cut

end SceneGrammar

import Mathlib.Data.List.Basic
import SceneGrammar.Proofs.Scan.Character
import SceneGrammar.Proofs.Text.Lines

/-!
# Blanks and comments on a line

What the scanner takes off a line besides lexemes and faults: blanks as far as they go, the rest of
the line, the opening of a block comment, and inside of one what lies before its end.
-/

namespace SceneGrammar

/-- Blanks and comments part lexemes and leave nothing else behind. -/
def Content.isGap : Content → Bool
  | .blank | .comment => true
  | _ => false

theorem splitComment_cons {c : Char} {line : List Char} (h : c = '*' → line.head? ≠ some '/') :
    splitComment (c :: line) =
      ((c :: (splitComment line).1.1, (splitComment line).1.2), (splitComment line).2) := by
  rw [splitComment]
  rintro rest rfl rfl
  exact h rfl rfl

/-- Behind the end of a comment anything may follow. -/
theorem splitComment_of_closed {line text rest : List Char}
    (h : splitComment line = ((text, rest), false)) (other : List Char) :
    splitComment (text ++ other) = ((text, other), false) := by
  induction line generalizing text with
  | nil => cases h
  | cons c line ih =>
    obtain hc | ⟨rest', he⟩ := pair_cases '*' '/' c line
    · rw [splitComment_cons hc] at h
      have happend := splitComment_append line
      have hnil : (splitComment line).1.1 ≠ [] := by
        cases line with
        | nil => cases h
        | cons d line => exact splitComment_ne_nil (by simp)
      obtain ⟨⟨⟨text', rest'⟩, inside⟩, hs⟩ : ∃ split, splitComment line = split := ⟨_, rfl⟩
      rw [hs] at h happend hnil
      cases h
      have hc' : c = '*' → (text' ++ other).head? ≠ some '/' := by
        rwa [List.head?_append_of_ne_nil _ hnil, ← List.head?_append_of_ne_nil _ hnil, happend]
      rw [List.cons_append, splitComment_cons hc', ih hs]
    · cases he
      cases h
      rfl

theorem rest_of_splitComment_open {line text rest : List Char}
    (h : splitComment line = ((text, rest), true)) : rest = [] := by
  induction line generalizing text with
  | nil =>
    cases h
    rfl
  | cons c line ih =>
    obtain hc | ⟨rest', he⟩ := pair_cases '*' '/' c line
    · rw [splitComment_cons hc] at h
      obtain ⟨⟨⟨text', rest'⟩, inside⟩, hs⟩ : ∃ split, splitComment line = split := ⟨_, rfl⟩
      rw [hs] at h
      cases h
      exact ih hs
    · cases he
      cases h

theorem cutOutside_of_isBlank {c : Char} {line : List Char} (h : isBlank c) :
    cutOutside (c :: line) = .ofSplit (spanOf isBlank (c :: line)) .blank := by
  have hc : c ≠ '/' := by
    rintro rfl
    exact absurd h (by decide)
  unfold cutOutside
  split
  · rename_i he
    cases he
  · rename_i he
    exact absurd (List.cons.inj he).1 hc
  · rename_i he
    exact absurd (List.cons.inj he).1 hc
  · rename_i he
    obtain ⟨rfl, rfl⟩ := List.cons.inj he
    rw [if_pos h]

theorem isGap_cutWord (c : Char) (line : List Char) :
    (cutWord c line).piece.content.isGap = false := by
  unfold cutWord
  split
  · rfl
  · split <;> rfl

theorem isGap_cutLetters (c : Char) (line : List Char) :
    (cutLetters c line).piece.content.isGap = false := by
  unfold cutLetters
  dsimp only
  split
  · rfl
  · exact isGap_cutWord c line

theorem isGap_cutSigned (line rest : List Char) :
    (cutSigned line rest).piece.content.isGap = false := by
  unfold cutSigned
  split
  · exact isGap_cutWord _ _
  · dsimp only
    split <;> rfl

theorem cutInside_eq_iff {line text rest : List Char} {content : Content} {last : Bool} :
    cutPiece true line = ⟨⟨text, content⟩, rest, last⟩ ↔
      content = .comment ∧ splitComment line = ((text, rest), last) := by
  have hcut : cutPiece true line =
    ⟨⟨(splitComment line).1.1, .comment⟩, (splitComment line).1.2, (splitComment line).2⟩ := rfl
  rw [hcut]
  constructor
  · intro h
    cases h
    exact ⟨rfl, rfl⟩
  · rintro ⟨rfl, h⟩
    rw [h]

/-- Outside of comments a gap is a run of blanks, the rest of the line or the opening of a comment. -/
theorem cutOutside_gap_cases {line text rest : List Char} {content : Content} {last : Bool}
    (h : cutOutside line = ⟨⟨text, content⟩, rest, last⟩) (hg : content.isGap) :
    (content = .blank ∧ last = false ∧ spanOf isBlank line = (text, rest)) ∨
      (text = line ∧ rest = []) ∨ (content = .comment ∧ last = true ∧ text = ['/', '*']) := by
  unfold cutOutside at h
  split at h
  · cases h
    exact .inr (.inl ⟨rfl, rfl⟩)
  · cases h
    exact .inr (.inl ⟨rfl, rfl⟩)
  · cases h
    exact .inr (.inr ⟨rfl, rfl, rfl⟩)
  · split at h
    · cases h
      exact .inl ⟨rfl, rfl, rfl⟩
    · rename_i c rest _ _ _
      have hsigned := isGap_cutSigned (c :: rest) rest
      have hletters := isGap_cutLetters c (c :: rest)
      split at h
      · cases h
        cases hg
      · split at h
        · rw [h, hg] at hsigned
          cases hsigned
        · rw [h, hg] at hletters
          cases hletters

end SceneGrammar

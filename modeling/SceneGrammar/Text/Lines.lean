/-!
The lines of a text. A line ends at a newline, and a carriage return just before that newline
belongs to the ending; what follows the last newline is a line of its own unless it is empty.
-/

namespace SceneGrammar

def consFirst (c : Char) : List (List Char) → List (List Char)
  | [] => [[c]]
  | line :: lines => (c :: line) :: lines

def linesOf : List Char → List (List Char)
  | [] => []
  | '\n' :: rest => [] :: linesOf rest
  | '\r' :: '\n' :: rest => [] :: linesOf rest
  | c :: rest => consFirst c (linesOf rest)

def joinLines (lines : List (List Char)) : List Char := lines.flatMap (· ++ ['\n'])

theorem consFirst_eq (c : Char) (lines : List (List Char)) :
    consFirst c lines = (c :: lines.headD []) :: lines.tail := by
  cases lines <;> rfl

theorem mem_consFirst {c : Char} {lines : List (List Char)} {line : List Char}
    (h : line ∈ consFirst c lines) :
    line ∈ lines ∨ line = [c] ∨ ∃ first ∈ lines, line = c :: first := by
  cases lines with
  | nil => exact .inr (.inl (List.mem_singleton.1 h))
  | cons first more =>
    rcases List.mem_cons.1 h with rfl | h
    · exact .inr (.inr ⟨first, List.mem_cons_self, rfl⟩)
    · exact .inl (List.mem_cons_of_mem _ h)

@[simp] theorem linesOf_newline (rest : List Char) : linesOf ('\n' :: rest) = [] :: linesOf rest :=
  rfl

@[simp] theorem linesOf_return_newline (rest : List Char) :
    linesOf ('\r' :: '\n' :: rest) = [] :: linesOf rest :=
  rfl

/-- A character that does not end the line stands before the rest of it. -/
theorem linesOf_cons {c : Char} {rest : List Char} (hc : c ≠ '\n')
    (hr : c = '\r' → rest.head? ≠ some '\n') : linesOf (c :: rest) = consFirst c (linesOf rest) := by
  rw [linesOf]
  · exact hc
  · rintro rest rfl rfl
    exact hr rfl rfl

/-- A text is empty, or it begins with one of the two line endings, or with a character of the line;
the last case has what `linesOf_cons` asks for. -/
@[elab_as_elim]
theorem lines_induction {motive : List Char → Prop} (nil : motive [])
    (newline : ∀ rest, motive rest → motive ('\n' :: rest))
    (return_newline : ∀ rest, motive rest → motive ('\r' :: '\n' :: rest))
    (character : ∀ c rest, c ≠ '\n' → (c = '\r' → rest.head? ≠ some '\n') → motive rest →
      motive (c :: rest))
    (text : List Char) : motive text := by
  fun_induction linesOf text with
  | case1 => exact nil
  | case2 rest ih => exact newline rest ih
  | case3 rest ih => exact return_newline rest ih
  | case4 c rest hn hr ih =>
    refine character c rest hn (fun hc hhead => ?_) ih
    obtain ⟨more, rfl⟩ := List.head?_eq_some_iff.1 hhead
    exact hr more hc rfl

theorem newline_notMem_linesOf (text line : List Char) (h : line ∈ linesOf text) : '\n' ∉ line := by
  induction text using lines_induction generalizing line with
  | nil => cases h
  | newline rest ih | return_newline rest ih =>
    rcases List.mem_cons.1 h with rfl | h
    · simp
    · exact ih line h
  | character c rest hn hr ih =>
    rw [linesOf_cons hn hr] at h
    rcases mem_consFirst h with h | rfl | ⟨first, hfirst, rfl⟩
    · exact ih line h
    · simp [hn.symm]
    · simp [hn.symm, ih first hfirst]

end SceneGrammar

import SceneGrammar.Text.Lines

/-!
# How a text falls into lines

Behind a newline the lines begin anew; what stands before the first newline is at the head of the
first line.
-/

namespace SceneGrammar

/-- A text that is empty or ends in a newline. -/
def WholeLines (text : List Char) : Prop := text = [] ∨ ∃ front, text = front ++ ['\n']

theorem wholeLines_of_cons {c : Char} {text : List Char} (hc : c ≠ '\n')
    (h : WholeLines (c :: text)) : text ≠ [] ∧ WholeLines text := by
  rcases h with h | ⟨front, h⟩
  · cases h
  · cases front with
    | nil =>
      cases h
      exact absurd rfl hc
    | cons d front =>
      obtain ⟨-, rfl⟩ := List.cons.inj h
      exact ⟨by simp, .inr ⟨front, rfl⟩⟩

theorem wholeLines_tail {c : Char} {text : List Char} (h : WholeLines (c :: text)) :
    WholeLines text := by
  rcases h with h | ⟨front, h⟩
  · cases h
  · cases front with
    | nil =>
      obtain ⟨-, rfl⟩ := List.cons.inj h
      exact .inl rfl
    | cons d front =>
      obtain ⟨-, rfl⟩ := List.cons.inj h
      exact .inr ⟨front, rfl⟩

theorem consFirst_append (c : Char) {lines : List (List Char)} (h : lines ≠ [])
    (more : List (List Char)) : consFirst c (lines ++ more) = consFirst c lines ++ more := by
  cases lines with
  | nil => exact absurd rfl h
  | cons line lines => rfl

theorem length_consFirst (c : Char) {lines : List (List Char)} (h : lines ≠ []) :
    (consFirst c lines).length = lines.length := by
  cases lines with
  | nil => exact absurd rfl h
  | cons line lines => rfl

/-- Two characters are at the head of a text, or the first of them is not before the second. -/
theorem pair_cases (a b c : Char) (rest : List Char) :
    (c = a → rest.head? ≠ some b) ∨ ∃ more, c :: rest = a :: b :: more := by
  by_cases hc : c = a → rest.head? ≠ some b
  · exact .inl hc
  · obtain ⟨rfl, hhead⟩ := Classical.not_imp.1 hc
    obtain ⟨more, rfl⟩ := List.head?_eq_some_iff.1 (Decidable.not_not.1 hhead)
    exact .inr ⟨more, rfl⟩

theorem linesOf_ne_nil {text : List Char} (h : text ≠ []) : linesOf text ≠ [] := by
  induction text using lines_induction with
  | nil => exact absurd rfl h
  | newline | return_newline => simp
  | character c rest hn hr =>
    rw [linesOf_cons hn hr, consFirst_eq]
    exact List.cons_ne_nil _ _

theorem linesOf_append {a : List Char} (h : WholeLines a) (b : List Char) :
    linesOf (a ++ b) = linesOf a ++ linesOf b := by
  induction a using lines_induction with
  | nil => rfl
  | newline rest ih => simp [ih (wholeLines_tail h)]
  | return_newline rest ih => simp [ih (wholeLines_tail (wholeLines_tail h))]
  | character c rest hn hr ih =>
    obtain ⟨hrest, hwhole⟩ := wholeLines_of_cons hn h
    -- a newline of `b` is never right behind `c`, since `a` goes on
    have hb : c = '\r' → (rest ++ b).head? ≠ some '\n' := by
      obtain ⟨d, more, rfl⟩ := List.exists_cons_of_ne_nil hrest
      exact hr
    rw [List.cons_append, linesOf_cons hn hb, linesOf_cons hn hr, ih hwhole,
      consFirst_append c (linesOf_ne_nil hrest)]

theorem length_linesOf {text : List Char} (h : WholeLines text) :
    (linesOf text).length = text.count '\n' := by
  induction text using lines_induction with
  | nil => rfl
  | newline rest ih => simp [ih (wholeLines_tail h)]
  | return_newline rest ih => simp [ih (wholeLines_tail (wholeLines_tail h))]
  | character c rest hn hr ih =>
    obtain ⟨hrest, hwhole⟩ := wholeLines_of_cons hn h
    rw [linesOf_cons hn hr, length_consFirst c (linesOf_ne_nil hrest), ih hwhole,
      List.count_cons_of_ne hn]

theorem linesOf_word_append {word : List Char} (hw : word ≠ [])
    (h : ∀ c ∈ word, c ≠ '\n' ∧ c ≠ '\r') (rest : List Char) :
    linesOf (word ++ rest) = (word ++ (linesOf rest).headD []) :: (linesOf rest).tail := by
  induction word with
  | nil => exact absurd rfl hw
  | cons c word ih =>
    obtain ⟨hc, hmore⟩ := List.forall_mem_cons.1 h
    rw [List.cons_append, linesOf_cons hc.1 fun he => absurd he hc.2, consFirst_eq]
    cases word with
    | nil => rfl
    | cons d word =>
      rw [ih (by simp) hmore]
      rfl

theorem mem_of_mem_linesOf {text line : List Char} (h : line ∈ linesOf text) {c : Char}
    (hc : c ∈ line) : c ∈ text := by
  induction text using lines_induction generalizing line with
  | nil => cases h
  | newline rest ih =>
    rcases List.mem_cons.1 h with rfl | h
    · cases hc
    · exact List.mem_cons_of_mem _ (ih h hc)
  | return_newline rest ih =>
    rcases List.mem_cons.1 h with rfl | h
    · cases hc
    · exact List.mem_cons_of_mem _ (List.mem_cons_of_mem _ (ih h hc))
  | character d rest hn hr ih =>
    rw [linesOf_cons hn hr] at h
    rcases mem_consFirst h with h | rfl | ⟨first, hfirst, rfl⟩
    · exact List.mem_cons_of_mem _ (ih h hc)
    · exact List.mem_cons.2 (.inl (List.mem_singleton.1 hc))
    · rcases List.mem_cons.1 hc with rfl | hc
      · exact List.mem_cons_self
      · exact List.mem_cons_of_mem _ (ih hfirst hc)

theorem linesOf_joinLines {lines : List (List Char)}
    (h : ∀ line ∈ lines, ∀ c ∈ line, c ≠ '\n' ∧ c ≠ '\r') : linesOf (joinLines lines) = lines := by
  induction lines with
  | nil => rfl
  | cons line lines ih =>
    obtain ⟨hline, hlines⟩ := List.forall_mem_cons.1 h
    have hjoin : joinLines (line :: lines) = line ++ '\n' :: joinLines lines := by
      simp [joinLines]
    rw [hjoin]
    by_cases hnil : line = []
    · rw [hnil, List.nil_append, linesOf_newline, ih hlines]
    · rw [linesOf_word_append hnil hline, linesOf_newline, ih hlines, List.headD_cons,
        List.append_nil, List.tail_cons]

end SceneGrammar

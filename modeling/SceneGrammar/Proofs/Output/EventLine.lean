import SceneGrammar.Output.EventLine

/-!
# Events stand on one line

The written form of an event has no newline in it, and neither have the bytes of that form. So the
newlines of an output are those that end its events.
-/

namespace SceneGrammar

def OneLine (text : List Char) : Prop := '\n' ∉ text

instance (text : List Char) : Decidable (OneLine text) :=
  inferInstanceAs (Decidable ('\n' ∉ text))

theorem oneLine_cons {c : Char} {text : List Char} :
    OneLine (c :: text) ↔ c ≠ '\n' ∧ OneLine text := by
  rw [OneLine, List.mem_cons, not_or, ne_comm]
  rfl

theorem oneLine_append {front back : List Char} :
    OneLine (front ++ back) ↔ OneLine front ∧ OneLine back := by
  rw [OneLine, List.mem_append, not_or]
  rfl

theorem OneLine.of_subset {text part : List Char} (h : OneLine text) (hpart : part ⊆ text) :
    OneLine part :=
  fun hmem => h (hpart hmem)

theorem oneLine_intercalate {separator : String} {items : List String}
    (hs : OneLine separator.toList) (h : ∀ item ∈ items, OneLine item.toList) :
    OneLine (separator.intercalate items).toList := by
  induction items with
  | nil => exact List.not_mem_nil
  | cons item items ih =>
    rw [List.forall_mem_cons] at h
    cases items with
    | nil => simpa using h.1
    | cons next items =>
      rw [String.intercalate_cons_cons, String.toList_append, String.toList_append, oneLine_append,
        oneLine_append]
      exact ⟨⟨h.1, hs⟩, ih h.2⟩

/-! ## Numbers -/

theorem oneLine_digitsOf (n : Nat) : OneLine (digitsOf n) := fun hmem => by
  have hdigit := Nat.isDigit_of_mem_toDigits (by decide) (Nat.le_refl 10) hmem
  exact absurd hdigit (by decide)

namespace Decimal

theorem oneLine_ofSteps (count : Nat) (k : Int) : OneLine (ofSteps count k).digits := by
  refine (oneLine_digitsOf count).of_subset fun c hc => ?_
  have hkept := (List.dropWhile_sublist _).subset (List.mem_reverse.1 hc)
  exact List.mem_reverse.1 hkept

theorem oneLine_search (s : Surround) (k : Int) (tries : Nat) :
    OneLine (search s k tries).digits := by
  induction tries generalizing k with
  | zero => exact oneLine_ofSteps _ _
  | succ tries ih =>
    rw [search]
    split
    · exact oneLine_ofSteps _ _
    · exact ih (k - 1)

theorem oneLine_shortest (f : Format) (mantissa : Nat) (exponent : Int) :
    OneLine (shortest f mantissa exponent).digits := by
  unfold shortest
  split
  · exact oneLine_cons.2 ⟨by decide, List.not_mem_nil⟩
  · exact oneLine_search _ _ _

end Decimal

namespace NumberLayout
variable {d : Decimal}

theorem oneLine_zeros (count : Nat) : OneLine (List.replicate count '0') := fun hmem =>
  absurd (List.eq_of_mem_replicate hmem) (by decide)

theorem oneLine_plain (h : OneLine d.digits) : OneLine (plain d) := by
  unfold plain
  split
  · simp only [oneLine_cons, oneLine_append]
    exact ⟨by decide, by decide, oneLine_zeros _, h⟩
  · simp only [oneLine_cons, oneLine_append]
    refine ⟨⟨h.of_subset (List.take_subset _ _), oneLine_zeros _⟩, by decide, ?_⟩
    split
    · exact oneLine_zeros 1
    · exact h.of_subset (List.drop_subset _ _)

theorem oneLine_scientific (h : OneLine d.digits) : OneLine (scientific d) := by
  have hdrop : OneLine (d.digits.drop 1) := h.of_subset (List.drop_subset _ _)
  unfold scientific
  simp only [oneLine_cons, oneLine_append]
  refine ⟨⟨h.of_subset (List.take_subset _ _), ?_⟩, by decide, ?_, oneLine_digitsOf _⟩
  · split
    · exact List.not_mem_nil
    · exact oneLine_cons.2 ⟨by decide, hdrop⟩
  · split <;> decide

theorem oneLine_null : OneLine "null".toList := by decide

theorem oneLine_text (l : NumberLayout) (f : Format) (x : Reading) :
    OneLine (l.text f x).toList := by
  cases x with
  | undefined | infinite => exact oneLine_null
  | finite x =>
    have hdigits := Decimal.oneLine_shortest f x.mantissa x.exponent
    have hlayOut : OneLine (l.layOut (Decimal.shortest f x.mantissa x.exponent)) := by
      unfold layOut
      split
      · exact oneLine_plain hdigits
      · exact oneLine_scientific hdigits
    rw [text, String.toList_ofList]
    split
    · exact oneLine_cons.2 ⟨by decide, hlayOut⟩
    · exact hlayOut

end NumberLayout

/-! ## Events -/

namespace JsonText

theorem oneLine_quoted {text : String} (h : OneLine text.toList) :
    OneLine (quoted text).toList := by
  simp only [quoted, String.toList_append, oneLine_append]
  exact ⟨⟨by decide, h⟩, by decide⟩

theorem oneLine_array {items : List String} (h : ∀ item ∈ items, OneLine item.toList) :
    OneLine (array items).toList := by
  simp only [array, String.toList_append, oneLine_append]
  exact ⟨⟨by decide, oneLine_intercalate (by decide) h⟩, by decide⟩

theorem oneLine_object {fields : List (String × String)}
    (h : ∀ field ∈ fields, OneLine field.1.toList ∧ OneLine field.2.toList) :
    OneLine (object fields).toList := by
  simp only [object, String.toList_append, oneLine_append]
  refine ⟨⟨by decide, oneLine_intercalate (by decide) fun item hitem => ?_⟩, by decide⟩
  obtain ⟨field, hfield, rfl⟩ := List.mem_map.1 hitem
  simp only [String.toList_append, oneLine_append]
  exact ⟨⟨oneLine_quoted (h field hfield).1, by decide⟩, (h field hfield).2⟩

theorem oneLine_optional {α : Type} {write : α → String} (h : ∀ value, OneLine (write value).toList)
    (value : Option α) : OneLine (optional write value).toList := by
  cases value with
  | none => exact NumberLayout.oneLine_null
  | some value => exact h value

theorem oneLine_byte (value : UInt8) : OneLine (byte value).toList := by
  rw [byte, String.toList_ofList]
  exact oneLine_digitsOf _

theorem oneLine_color (c : Rgba) : OneLine (color c).toList := by
  refine oneLine_object ?_
  simp only [List.forall_mem_cons]
  exact ⟨⟨by decide, oneLine_byte _⟩, ⟨by decide, oneLine_byte _⟩, ⟨by decide, oneLine_byte _⟩,
    ⟨by decide, oneLine_byte _⟩, nofun⟩

theorem oneLine_vector {n : Nat} (v : Vector Float n) : OneLine (vector v).toList := by
  refine oneLine_array fun item hitem => ?_
  obtain ⟨x, -, rfl⟩ := List.mem_map.1 hitem
  exact NumberLayout.oneLine_text _ _ _

theorem oneLine_matrix (m : Matrix) : OneLine (matrix m).toList := by
  refine oneLine_array fun item hitem => ?_
  obtain ⟨x, -, rfl⟩ := List.mem_map.1 hitem
  exact NumberLayout.oneLine_text _ _ _

end JsonText

open JsonText in
theorem Event.oneLine_json (event : Event Matrix) : OneLine event.json.toList := by
  cases event with
  | background c =>
    refine oneLine_object ?_
    simp only [List.forall_mem_cons]
    exact ⟨⟨by decide, by decide⟩, ⟨by decide, oneLine_color c⟩, nofun⟩
  | camera c =>
    refine oneLine_object ?_
    simp only [List.forall_mem_cons]
    have hvector {n : Nat} (v : Option (Vector Float n)) : OneLine (optional vector v).toList :=
      oneLine_optional oneLine_vector v
    have hscale : OneLine (optional doubleText c.scale).toList :=
      oneLine_optional (fun _ => NumberLayout.oneLine_text _ _ _) _
    exact ⟨⟨by decide, by decide⟩, ⟨by decide, hvector _⟩, ⟨by decide, hvector _⟩,
      ⟨by decide, hvector _⟩, ⟨by decide, hscale⟩, nofun⟩
  | draw d =>
    have hsolid : OneLine d.solid.name.toList := by cases d.solid <;> decide
    refine oneLine_object ?_
    simp only [List.forall_mem_cons]
    exact ⟨⟨by decide, by decide⟩, ⟨by decide, oneLine_quoted hsolid⟩,
      ⟨by decide, oneLine_matrix _⟩, ⟨by decide, oneLine_color _⟩, nofun⟩

/-! ## Bytes -/

theorem newline_notMem_cons {n : Nat} (h : n % 256 ≠ 10) {bytes : List UInt8}
    (hb : (10 : UInt8) ∉ bytes) : (10 : UInt8) ∉ .ofNat n :: bytes := by
  refine List.not_mem_cons_of_ne_of_not_mem (fun heq => h ?_) hb
  exact (UInt8.ofNat_eq_iff_mod_eq_toNat n 10).1 heq.symm

/-- The bytes of a longer encoding are all greater than that of the newline. -/
theorem newline_notMem_utf8EncodeChar {c : Char} (h : c ≠ '\n') :
    (10 : UInt8) ∉ String.utf8EncodeChar c := by
  have hne : c.val.toNat ≠ 10 := fun heq => h (Char.ext (UInt32.toNat.inj heq))
  have hnone : (10 : UInt8) ∉ [] := List.not_mem_nil
  have htrail (n : Nat) {bytes : List UInt8} (hb : (10 : UInt8) ∉ bytes) :
      (10 : UInt8) ∉ .ofNat (n % 64 + 128) :: bytes :=
    newline_notMem_cons (by omega) hb
  unfold String.utf8EncodeChar
  dsimp only
  split
  · exact newline_notMem_cons (by omega) hnone
  · split
    · exact newline_notMem_cons (by omega) (htrail _ hnone)
    · split
      · exact newline_notMem_cons (by omega) (htrail _ (htrail _ hnone))
      · exact newline_notMem_cons (by omega) (htrail _ (htrail _ (htrail _ hnone)))

theorem newline_notMem_toUTF8 {text : String} (h : OneLine text.toList) :
    (10 : UInt8) ∉ text.toUTF8.data := by
  rw [String.toUTF8_eq_toByteArray, ← String.utf8Encode_toList, List.utf8Encode,
    List.data_toByteArray, List.mem_toArray, List.mem_flatMap]
  intro hmem
  obtain ⟨c, hc, hbyte⟩ := hmem
  exact newline_notMem_utf8EncodeChar (fun heq => h (heq ▸ hc)) hbyte

end SceneGrammar

import SceneGrammar.CommandLine.World

/-!
# Files that are written

A file is made where its path leads, and there only: the path leads to the same place afterwards,
what was written is read back, and every other place keeps what it holds. Where a file can be read
it can be written.
-/

namespace SceneGrammar

theorem exists_of_bind_eq_ok {ε α β : Type} {x : Except ε α} {go : α → Except ε β} {b : β}
    (h : (x >>= go) = .ok b) : ∃ a, x = .ok a ∧ go a = .ok b := by
  cases x with
  | error e => cases h
  | ok a => exact ⟨a, rfl, h⟩

namespace World

/-- The world with these bytes at a location. -/
def withFile (w : World) (l : Location) (bytes : ByteArray) : World :=
  { w with files := put l bytes w.files }

theorem put_put (l : Location) (first second : ByteArray) (files : List (Location × ByteArray)) :
    put l second (put l first files) = put l second files := by
  induction files with
  | nil => simp [put]
  | cons entry files ih =>
    obtain ⟨other, old⟩ := entry
    by_cases h : l = other
    · simp [put, h]
    · simp [put, h, ih]

theorem withFile_withFile (w : World) (l : Location) (first second : ByteArray) :
    (w.withFile l first).withFile l second = w.withFile l second := by
  simp only [withFile, put_put]

theorem lookup_withFile_self (w : World) (l : Location) (bytes : ByteArray) :
    (w.withFile l bytes).files.lookup l = some bytes :=
  lookup_put_self l bytes w.files

theorem lookup_withFile_of_ne (w : World) {l other : Location} (h : other ≠ l)
    (bytes : ByteArray) : (w.withFile l bytes).files.lookup other = w.files.lookup other :=
  lookup_put_of_ne h bytes w.files

theorem any_leadsTo_put {l other : Location} {bytes : ByteArray}
    {files : List (Location × ByteArray)}
    (h : files.any (fun (inner, _) => other.leadsTo inner) = true) :
    (put l bytes files).any (fun (inner, _) => other.leadsTo inner) = true := by
  induction files with
  | nil => cases h
  | cons entry files ih =>
    obtain ⟨first, old⟩ := entry
    rw [List.any_cons, Bool.or_eq_true] at h
    by_cases hl : l = first
    · simpa only [put, if_pos hl, List.any_cons, Bool.or_eq_true] using h
    · simp only [put, if_neg hl, List.any_cons, Bool.or_eq_true]
      exact h.imp_right ih

/-! ## Places -/

section
variable {w : World} {l other : Location} {bytes : ByteArray} {place : Place}

theorem find_of_lookup (h : w.files.lookup l = some bytes) : w.find l = .ok (.file bytes) := by
  rw [find, h]

theorem lookup_of_find_file (h : w.find l = .ok (.file bytes)) :
    w.files.lookup l = some bytes := by
  rw [find] at h
  split at h
  · cases h
    assumption
  · split at h <;> cases h

theorem find_eq_directory_iff :
    w.find l = .ok (.directory other) ↔
      l = other ∧ w.files.lookup l = none ∧
        (l.names.isEmpty || w.files.any fun (inner, _) => l.leadsTo inner) = true := by
  rw [find]
  cases w.files.lookup l with
  | some bytes => simp
  | none =>
    by_cases h : (l.names.isEmpty || w.files.any fun (inner, _) => l.leadsTo inner) <;> simp [h]

/-- A file that is made covers no directory, so those that were there before still are. -/
theorem find_withFile_of_directory (hfree : ∀ d, w.find l ≠ .ok (.directory d))
    (h : w.find other = .ok (.directory other)) (bytes : ByteArray) :
    (w.withFile l bytes).find other = .ok (.directory other) := by
  have hne : other ≠ l := fun he => hfree other (he ▸ h)
  obtain ⟨-, hnone, hleads⟩ := find_eq_directory_iff.1 h
  refine find_eq_directory_iff.2 ⟨rfl, ?_, ?_⟩
  · rw [lookup_withFile_of_ne w hne, hnone]
  · rw [Bool.or_eq_true] at hleads ⊢
    exact hleads.imp_right any_leadsTo_put

theorem step_withFile_of_directory (hfree : ∀ d, w.find l ≠ .ok (.directory d))
    {s : PathStep} {d : Location} (h : w.step place s = .ok (.directory d)) (bytes : ByteArray) :
    (w.withFile l bytes).step place s = .ok (.directory d) := by
  cases place with
  | file old => cases h
  | directory start =>
    cases s with
    | stay => exact h
    | up => exact h
    | enter name =>
      simp only [step] at h ⊢
      split at h
      · cases h
      · rename_i hshort
        rw [if_neg hshort]
        obtain ⟨rfl, -, -⟩ := find_eq_directory_iff.1 h
        exact find_withFile_of_directory hfree h bytes

/-- Nothing goes on from a file. -/
theorem exists_directory_of_foldlM {steps : List PathStep} {d : Location}
    (h : steps.foldlM w.step place = .ok (.directory d)) : ∃ start, place = .directory start := by
  cases place with
  | directory start => exact ⟨start, rfl⟩
  | file old =>
    cases steps with
    | nil => cases h
    | cons s steps => cases h

theorem foldlM_withFile_of_directory (hfree : ∀ d, w.find l ≠ .ok (.directory d))
    {steps : List PathStep} {d : Location} (h : steps.foldlM w.step place = .ok (.directory d))
    (bytes : ByteArray) : steps.foldlM (w.withFile l bytes).step place = .ok (.directory d) := by
  induction steps generalizing place with
  | nil => exact h
  | cons s steps ih =>
    rw [List.foldlM_cons] at h ⊢
    obtain ⟨next, hs, hlater⟩ := exists_of_bind_eq_ok h
    obtain ⟨start, rfl⟩ := exists_directory_of_foldlM hlater
    rw [step_withFile_of_directory hfree hs bytes]
    exact ih hlater

theorem walk_withFile_of_directory (hfree : ∀ d, w.find l ≠ .ok (.directory d))
    {start d : Location} {steps : List PathStep} (h : w.walk start steps = .ok (.directory d))
    (bytes : ByteArray) : (w.withFile l bytes).walk start steps = .ok (.directory d) :=
  foldlM_withFile_of_directory hfree h bytes

end

/-! ## Paths -/

/-- The path ends in a name, in a directory that is there. -/
structure Leads (w : World) (path : Path) (d : Location) (name : String) : Prop where
  folder : w.walk path.start path.folder = .ok (.directory d)
  last : path.last = .enter name
  opened : path.closed = false
  short : name.utf8ByteSize ≤ Path.maxNameLength

section
variable {w : World} {path : Path} {d l : Location} {name text : String} {bytes : ByteArray}

theorem Leads.withFile (h : w.Leads path d name) (hfree : ∀ d, w.find l ≠ .ok (.directory d))
    (bytes : ByteArray) : (w.withFile l bytes).Leads path d name :=
  { h with folder := walk_withFile_of_directory hfree h.folder bytes }

theorem step_enter_of_short (hshort : name.utf8ByteSize ≤ Path.maxNameLength) :
    w.step (.directory d) (.enter name) = w.find (d.child name) :=
  if_neg (Nat.not_lt.2 hshort)

theorem step_eq_file_iff {place : Place} {s : PathStep} :
    w.step place s = .ok (.file bytes) ↔
      ∃ d name, place = .directory d ∧ s = .enter name ∧
        name.utf8ByteSize ≤ Path.maxNameLength ∧ w.files.lookup (d.child name) = some bytes := by
  constructor
  · intro h
    cases place with
    | file old => cases h
    | directory d =>
      cases s with
      | stay => cases h
      | up => cases h
      | enter name =>
        by_cases hshort : name.utf8ByteSize ≤ Path.maxNameLength
        · rw [step_enter_of_short hshort] at h
          exact ⟨d, name, rfl, rfl, hshort, lookup_of_find_file h⟩
        · rw [step, if_pos (Nat.not_le.1 hshort)] at h
          cases h
  · rintro ⟨d, name, rfl, rfl, hshort, hfile⟩
    rw [step_enter_of_short hshort, find_of_lookup hfile]

theorem makeIn_eq_ok_iff :
    w.makeIn d name = .ok l ↔
      name.utf8ByteSize ≤ Path.maxNameLength ∧ l = d.child name ∧
        ∀ other, w.find (d.child name) ≠ .ok (.directory other) := by
  by_cases hshort : name.utf8ByteSize ≤ Path.maxNameLength
  · rw [makeIn, step_enter_of_short hshort]
    have hfind : (∃ bytes, w.find (d.child name) = .ok (.file bytes)) ∨
        w.find (d.child name) = .error .missing ∨
        w.find (d.child name) = .ok (.directory (d.child name)) := by
      rw [find]
      split
      · exact .inl ⟨_, rfl⟩
      · split
        · exact .inr (.inr rfl)
        · exact .inr (.inl rfl)
    rcases hfind with ⟨bytes, hfile⟩ | hmissing | hdirectory
    · simp [hfile, hshort, eq_comm]
    · simp [hmissing, hshort, eq_comm]
    · simp [hdirectory]
  · have hlong : w.step (.directory d) (.enter name) = .error .tooLong :=
      if_pos (Nat.not_le.1 hshort)
    simp [makeIn, hlong, hshort]

theorem target_eq_ok_iff :
    w.target text = .ok l ↔
      ∃ path d name, Path.ofText text = .ok path ∧ w.Leads path d name ∧ l = d.child name ∧
        ∀ other, w.find (d.child name) ≠ .ok (.directory other) := by
  constructor
  · intro h
    obtain ⟨path, hpath, h⟩ := exists_of_bind_eq_ok h
    obtain ⟨place, hfolder, h⟩ := exists_of_bind_eq_ok h
    split at h
    · cases h
    · rename_i d name hlast
      split at h
      · cases h
      · rename_i hopened
        obtain ⟨hshort, hl, hfree⟩ := makeIn_eq_ok_iff.1 h
        exact ⟨path, d, name, hpath, ⟨hfolder, hlast, by simpa using hopened, hshort⟩, hl, hfree⟩
    · cases h
  · rintro ⟨path, d, name, hpath, hleads, hl, hfree⟩
    have hmake := makeIn_eq_ok_iff.2 ⟨hleads.short, hl, hfree⟩
    simp only [target, hpath, hleads.folder, hleads.last, hleads.opened, bind, Except.bind]
    exact hmake

theorem readAt_eq_ok_iff :
    w.readAt text = .ok bytes ↔
      ∃ path d name, Path.ofText text = .ok path ∧ w.Leads path d name ∧
        w.files.lookup (d.child name) = some bytes := by
  constructor
  · intro h
    obtain ⟨path, hpath, h⟩ := exists_of_bind_eq_ok h
    obtain ⟨place, hwalk, h⟩ := exists_of_bind_eq_ok h
    rw [walk, List.foldlM_append] at hwalk
    obtain ⟨folder, hfolder, hwalk⟩ := exists_of_bind_eq_ok hwalk
    rw [List.foldlM_cons] at hwalk
    obtain ⟨last, hstep, hlast⟩ := exists_of_bind_eq_ok hwalk
    cases hlast
    split at h
    · cases h
    · split at h
      · cases h
      · rename_i hopened
        cases h
        obtain ⟨d, name, rfl, hlast, hshort, hfile⟩ := step_eq_file_iff.1 hstep
        exact ⟨path, d, name, hpath, ⟨hfolder, hlast, by simpa using hopened, hshort⟩, hfile⟩
  · rintro ⟨path, d, name, hpath, hleads, hfile⟩
    have hstep := step_eq_file_iff.2 ⟨d, name, rfl, hleads.last, hleads.short, hfile⟩
    have hwalk : w.walk path.start (path.folder ++ [path.last]) = .ok (.file bytes) := by
      have hfolder : path.folder.foldlM w.step (.directory path.start) = .ok (.directory d) :=
        hleads.folder
      simp only [walk, List.foldlM_append, hfolder, List.foldlM_cons, List.foldlM_nil, bind,
        Except.bind, hstep]
      rfl
    simp only [readAt, hpath, hwalk, hleads.opened, bind, Except.bind]
    rfl

/-- What can be read can be written: the path leads to a file that is there. -/
theorem exists_target_of_readAt (h : w.readAt text = .ok bytes) :
    ∃ l, w.target text = .ok l ∧ w.files.lookup l = some bytes := by
  obtain ⟨path, d, name, hpath, hleads, hfile⟩ := readAt_eq_ok_iff.1 h
  refine ⟨d.child name, target_eq_ok_iff.2 ⟨path, d, name, hpath, hleads, rfl, ?_⟩, hfile⟩
  intro other hdirectory
  rw [find_of_lookup hfile] at hdirectory
  cases hdirectory

/-- A path still leads to its file when that has been written. -/
theorem target_withFile (h : w.target text = .ok l) (bytes : ByteArray) :
    (w.withFile l bytes).target text = .ok l := by
  obtain ⟨path, d, name, hpath, hleads, rfl, hfree⟩ := target_eq_ok_iff.1 h
  refine target_eq_ok_iff.2 ⟨path, d, name, hpath, hleads.withFile hfree bytes, rfl, ?_⟩
  intro other hdirectory
  rw [find_of_lookup (lookup_withFile_self w _ bytes)] at hdirectory
  cases hdirectory

theorem readAt_withFile (h : w.target text = .ok l) (bytes : ByteArray) :
    (w.withFile l bytes).readAt text = .ok bytes := by
  obtain ⟨path, d, name, hpath, hleads, rfl, hfree⟩ := target_eq_ok_iff.1 h
  exact readAt_eq_ok_iff.2 ⟨path, d, name, hpath, hleads.withFile hfree bytes,
    lookup_withFile_self w _ bytes⟩

theorem writeAt_of_target (h : w.target text = .ok l) (bytes : ByteArray) :
    w.writeAt text bytes = .ok (w.withFile l bytes) := by
  simp only [writeAt, h]
  rfl

end

end World

end SceneGrammar

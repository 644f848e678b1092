import SceneGrammar.CommandLine.Path
import SceneGrammar.CommandLine.Session

/-!
A host without a machine: files at their locations, what was printed and what was logged.
Directories are the bases and what leads to a file.
-/

namespace SceneGrammar

structure World where
  files : List (Location × ByteArray)
  printed : ByteArray
  reports : List Report

inductive Place
  | directory (l : Location)
  | file (bytes : ByteArray)

namespace World

/-- Files of the working directory; outside it there is the null device, an empty file. -/
def ofFiles (files : List (String × ByteArray)) : World :=
  ⟨files.map (fun (name, bytes) => (⟨.above 0, (name.splitOn "/").reverse⟩, bytes)) ++
    [(⟨.root, ["null", "dev"]⟩, .empty)], .empty, []⟩

/-- The files of the working directory. -/
def listing (w : World) : List (String × ByteArray) :=
  (w.files.filter fun (l, _) => l.base == .above 0).map fun (l, bytes) =>
    ("/".intercalate l.names.reverse, bytes)

def find (w : World) (l : Location) : Except PathFault Place :=
  match w.files.lookup l with
  | some bytes => .ok (.file bytes)
  | none =>
    if l.names.isEmpty || w.files.any (fun (inner, _) => l.leadsTo inner) then .ok (.directory l)
    else .error .missing

/-- A name is measured before it is looked for. -/
def step (w : World) : Place → PathStep → Except PathFault Place
  | .file _, _ => .error .notDirectory
  | .directory l, .stay => .ok (.directory l)
  | .directory l, .up => .ok (.directory l.parent)
  | .directory l, .enter name =>
    if name.utf8ByteSize > Path.maxNameLength then .error .tooLong else w.find (l.child name)

def walk (w : World) (start : Location) (steps : List PathStep) : Except PathFault Place :=
  steps.foldlM w.step (.directory start)

def readAt (w : World) (text : String) : Except PathFault ByteArray := do
  let path ← Path.ofText text
  match ← w.walk path.start (path.folder ++ [path.last]) with
  | .directory _ => .error .isDirectory
  | .file bytes => if path.closed then .error .notDirectory else return bytes

/-- A file is made where one is already or where nothing is. -/
def makeIn (w : World) (l : Location) (name : String) : Except PathFault Location :=
  match w.step (.directory l) (.enter name) with
  | .ok (.file _) | .error .missing => .ok (l.child name)
  | .ok (.directory _) => .error .isDirectory
  | .error fault => .error fault

/-- Where a path makes its file; all that leads there must exist. -/
def target (w : World) (text : String) : Except PathFault Location := do
  let path ← Path.ofText text
  match ← w.walk path.start path.folder, path.last with
  | .file _, _ => .error .notDirectory
  | .directory l, .enter name =>
    if path.closed then .error .isDirectory else w.makeIn l name
  | .directory _, _ => .error .isDirectory

def put (l : Location) (bytes : ByteArray) :
    List (Location × ByteArray) → List (Location × ByteArray)
  | [] => [(l, bytes)]
  | (other, old) :: files =>
    if l = other then (other, bytes) :: files else (other, old) :: put l bytes files

def writeAt (w : World) (text : String) (bytes : ByteArray) : Except PathFault World := do
  return { w with files := put (← w.target text) bytes w.files }

def store (text : String) (bytes : ByteArray) : StateM World (Except String Unit) := do
  match (← get).writeAt text bytes with
  | .ok w =>
    set w
    return .ok ()
  | .error fault => return .error fault.message

instance : Host (StateM World) where
  read text := return ((← get).readAt text).mapError PathFault.message
  create text := store text .empty
  write text bytes := store text bytes
  print bytes := do
    modify fun w => { w with printed := w.printed ++ bytes }
    return .ok ()
  log report := modify fun w => { w with reports := w.reports ++ [report] }

theorem lookup_put_self (l : Location) (bytes : ByteArray) (files : List (Location × ByteArray)) :
    (put l bytes files).lookup l = some bytes := by
  induction files with
  | nil => simp [put]
  | cons entry files ih =>
    obtain ⟨other, old⟩ := entry
    by_cases h : l = other
    · simp [put, h]
    · simp [put, h, List.lookup_cons, beq_eq_false_iff_ne.2 h, ih]

theorem lookup_put_of_ne {l other : Location} (h : other ≠ l) (bytes : ByteArray)
    (files : List (Location × ByteArray)) :
    (put l bytes files).lookup other = files.lookup other := by
  induction files with
  | nil => simp [put, List.lookup_cons, beq_eq_false_iff_ne.2 h]
  | cons entry files ih =>
    obtain ⟨first, old⟩ := entry
    by_cases hf : l = first
    · subst hf; simp [put, List.lookup_cons, beq_eq_false_iff_ne.2 h]
    · by_cases ho : other = first <;> simp [put, hf, ho, List.lookup_cons, ih]

end World

end SceneGrammar

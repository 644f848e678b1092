/-!
Paths: the steps from a directory to a file, and the texts that no host takes for a path.
-/

namespace SceneGrammar

inductive PathFault
  | holdsNul
  | tooLong
  | missing
  | isDirectory
  | notDirectory
  deriving DecidableEq, Repr

namespace PathFault

def message : PathFault → String
  | .holdsNul => "file name contained an unexpected NUL byte"
  | .tooLong => "File name too long (os error 36)"
  | .missing => "No such file or directory (os error 2)"
  | .isDirectory => "Is a directory (os error 21)"
  | .notDirectory => "Not a directory (os error 20)"

end PathFault

/-- What names are counted from: a directory so many levels above the working directory, or the
root. -/
inductive Base
  | above (levels : Nat)
  | root
  deriving DecidableEq, Repr

/-- A place by the names that lead to it, the innermost first. -/
structure Location where
  base : Base
  names : List String
  deriving DecidableEq, Repr

namespace Location

def working : Location := ⟨.above 0, []⟩

def root : Location := ⟨.root, []⟩

def child (l : Location) (name : String) : Location := ⟨l.base, name :: l.names⟩

/-- The root is above itself. -/
def parent : Location → Location
  | ⟨base, _ :: names⟩ => ⟨base, names⟩
  | ⟨.above levels, []⟩ => ⟨.above (levels + 1), []⟩
  | ⟨.root, []⟩ => root

def leadsTo (l inner : Location) : Bool :=
  l.base == inner.base && l.names.isSuffixOf inner.names

end Location

inductive PathStep
  | stay
  | up
  | enter (name : String)
  deriving DecidableEq, Repr

namespace PathStep

def ofName : String → PathStep
  | "." => .stay
  | ".." => .up
  | name => .enter name

end PathStep

/-- A path that ends in a slash is closed: it can only be a directory. -/
structure Path where
  start : Location
  folder : List PathStep
  last : PathStep
  closed : Bool
  deriving DecidableEq, Repr

namespace Path

/-- Lengths are counted in bytes. -/
def maxNameLength : Nat := 255
def maxLength : Nat := 4095

/-- Slashes that follow each other count as one. -/
def ofText (text : String) : Except PathFault Path :=
  if text.contains '\x00' then .error .holdsNul
  else if text.utf8ByteSize > maxLength then .error .tooLong
  else
    let steps := ((text.splitOn "/").filter (· != "")).map PathStep.ofName
    .ok ⟨if text.startsWith "/" then .root else .working, steps.dropLast,
      steps.getLast?.getD .stay, text.endsWith "/"⟩

end Path

end SceneGrammar

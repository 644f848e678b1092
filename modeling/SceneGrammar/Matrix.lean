import SceneGrammar.Number.Binary

/-!
Placements in space: affine matrices of single-precision numbers, held by columns. Every product and
sum is rounded on its own, in the order written here.
-/

namespace SceneGrammar

inductive Axis
  | x
  | y
  | z
  deriving DecidableEq, Repr

structure Column where
  x : Float32
  y : Float32
  z : Float32
  w : Float32
  deriving DecidableEq, Repr

namespace Column

def scale (c : Column) (s : Float32) : Column := ⟨c.x * s, c.y * s, c.z * s, c.w * s⟩

instance : Add Column := ⟨fun a b => ⟨a.x + b.x, a.y + b.y, a.z + b.z, a.w + b.w⟩⟩

def entries (c : Column) : List Float32 := [c.x, c.y, c.z, c.w]

end Column

structure Matrix where
  first : Column
  second : Column
  third : Column
  fourth : Column
  deriving DecidableEq, Repr

namespace Matrix

/-- The image of a column, summed from the left. -/
def apply (m : Matrix) (c : Column) : Column :=
  m.first.scale c.x + m.second.scale c.y + m.third.scale c.z + m.fourth.scale c.w

instance : Mul Matrix :=
  ⟨fun a b => ⟨a.apply b.first, a.apply b.second, a.apply b.third, a.apply b.fourth⟩⟩

def origin : Column := ⟨0, 0, 0, 1⟩

def diagonal (x y z : Float32) : Matrix :=
  ⟨⟨x, 0, 0, 0⟩, ⟨0, y, 0, 0⟩, ⟨0, 0, z, 0⟩, origin⟩

instance : One Matrix := ⟨diagonal 1 1 1⟩

/-- The unit vector of the axis times the distance: an infinite distance makes the other two
coordinates undefined, a negative one makes them negative zeros. -/
def shift (axis : Axis) (distance : Float32) : Matrix :=
  let along (a : Axis) : Float32 := (if a = axis then 1 else 0) * distance
  ⟨⟨1, 0, 0, 0⟩, ⟨0, 1, 0, 0⟩, ⟨0, 0, 1, 0⟩, ⟨along .x, along .y, along .z, 1⟩⟩

/-- The single-precision number nearest to π / 180. -/
def radiansPerDegree : Float32 := .ofBits 0x3c8efa35

def rotation (axis : Axis) (degrees : Float32) : Matrix :=
  let s := (degrees * radiansPerDegree).sin
  let c := (degrees * radiansPerDegree).cos
  match axis with
  | .x => ⟨⟨1, 0, 0, 0⟩, ⟨0, c, s, 0⟩, ⟨0, -s, c, 0⟩, origin⟩
  | .y => ⟨⟨c, 0, -s, 0⟩, ⟨0, 1, 0, 0⟩, ⟨s, 0, c, 0⟩, origin⟩
  | .z => ⟨⟨c, s, 0, 0⟩, ⟨-s, c, 0, 0⟩, ⟨0, 0, 1, 0⟩, origin⟩

def reflect : Axis → Matrix
  | .x => diagonal (-1) 1 1
  | .y => diagonal 1 (-1) 1
  | .z => diagonal 1 1 (-1)

/-- Each three numbers are the image of one axis. -/
def linear (v : Vector Float32 9) : Matrix :=
  ⟨⟨v[0], v[1], v[2], 0⟩, ⟨v[3], v[4], v[5], 0⟩, ⟨v[6], v[7], v[8], 0⟩, origin⟩

def entries (m : Matrix) : List Float32 :=
  m.first.entries ++ m.second.entries ++ m.third.entries ++ m.fourth.entries

theorem entries_length (m : Matrix) : m.entries.length = 16 := rfl

end Matrix

end SceneGrammar

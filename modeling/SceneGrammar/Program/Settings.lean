import SceneGrammar.Color.Pool

/-!
The settings of a program, and the changes to them that rules may make.
-/

namespace SceneGrammar

/-- Handed on to the renderer; what is absent is left to it. -/
structure Camera where
  offset : Option (Vector Float 3)
  rotation : Option (Vector Float 9)
  pivot : Option (Vector Float 3)
  scale : Option Float
  deriving DecidableEq

def Camera.unspecified : Camera := ⟨none, none, none, none⟩

structure Settings where
  maxDepth : UInt32
  maxObjects : Option Nat
  minSize : Float
  maxSize : Float
  seed : Option Int64
  background : Rgba
  camera : Camera
  pool : Pool
  deriving DecidableEq

inductive Setting
  | maxDepth (depth : UInt32)
  | maxObjects (count : Nat)
  | minSize (size : Float)
  | maxSize (size : Float)
  | seed (seed : Int64)
  | initialSeed
  | pool (pool : Pool)
  deriving DecidableEq

namespace Settings

def largestDouble : Float := .ofBits 0x7fefffffffffffff

/-- No size is excluded: the bounds start at the far ends. -/
def initial : Settings :=
  ⟨1000, none, largestDouble, -largestDouble, none, .white, .unspecified, .randomRgb⟩

/-- Returning to the first seed changes no setting. -/
def apply (s : Settings) : Setting → Settings
  | .maxDepth depth => { s with maxDepth := depth }
  | .maxObjects count => { s with maxObjects := some count }
  | .minSize size => { s with minSize := size }
  | .maxSize size => { s with maxSize := size }
  | .seed seed => { s with seed := some seed }
  | .initialSeed => s
  | .pool pool => { s with pool := pool }

/-- A program that sets no seed has the seed zero. -/
def seedInEffect (s : Settings) : Int64 := s.seed.getD 0

end Settings

end SceneGrammar

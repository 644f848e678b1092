import SceneGrammar.Random.Generator

/-!
Two independent streams of one seed: choosing a rule never disturbs the colours, nor the other way
round.
-/

namespace SceneGrammar

structure Streams where
  geometry : Generator
  color : Generator
  deriving DecidableEq, Repr

namespace Streams

/-- The colours come from the seed that follows, the greatest seed being followed by the least. -/
def ofSeed (seed : Int64) : Streams :=
  ⟨.ofSeed seed.toUInt64, .ofSeed (seed + 1).toUInt64⟩

def drawColor {α : Type} (streams : Streams) (draw : Draw α) : α × Streams :=
  let (value, color) := draw.run streams.color
  (value, { streams with color })

def drawGeometry {α : Type} (streams : Streams) (draw : Draw α) : α × Streams :=
  let (value, geometry) := draw.run streams.geometry
  (value, { streams with geometry })

@[simp] theorem drawColor_geometry {α : Type} (streams : Streams) (draw : Draw α) :
    (streams.drawColor draw).2.geometry = streams.geometry := rfl

@[simp] theorem drawGeometry_color {α : Type} (streams : Streams) (draw : Draw α) :
    (streams.drawGeometry draw).2.color = streams.color := rfl

end Streams

end SceneGrammar

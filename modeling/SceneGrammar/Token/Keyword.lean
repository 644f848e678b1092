import SceneGrammar.Matrix
import SceneGrammar.Primitive
import SceneGrammar.Trie

/-!
Reserved words and punctuation, with their spellings and the names that diagnostics call them by.
-/

namespace SceneGrammar

inductive Keyword
  | times
  | define
  | openBrace
  | closeBrace
  | openBracket
  | closeBracket
  | greater
  | comma
  | colon
  | set
  | rule
  | maxDepth
  | maxObjects
  | minSize
  | maxSize
  | seed
  | initial
  | background
  | weight
  | cameraOffset
  | cameraRotation
  | pivot
  | scale
  | move (axis : Axis)
  | turn (axis : Axis)
  | stretch
  | linear
  | reflect (axis : Axis)
  | hue
  | saturation
  | brightness
  | alpha
  | color
  | blend
  | random
  | colorPool
  | randomHue
  | randomRgb
  | greyscale
  | list
  | primitive (solid : Primitive)
  deriving DecidableEq, Repr

namespace Keyword

def name : Keyword → String
  | .times => "Mult"
  | .define => "Define"
  | .openBrace => "OpenBrace"
  | .closeBrace => "CloseBrace"
  | .openBracket => "OpenBracket"
  | .closeBracket => "CloseBracket"
  | .greater => "Greater"
  | .comma => "Comma"
  | .colon => "Colon"
  | .set => "Set"
  | .rule => "Rule"
  | .maxDepth => "MaxDepth"
  | .maxObjects => "MaxObjects"
  | .minSize => "MinSize"
  | .maxSize => "MaxSize"
  | .seed => "Seed"
  | .initial => "Initial"
  | .background => "Background"
  | .weight => "Weight"
  | .cameraOffset => "Translation"
  | .cameraRotation => "Rotation"
  | .pivot => "Pivot"
  | .scale => "Scale"
  | .move .x => "X"
  | .move .y => "Y"
  | .move .z => "Z"
  | .turn .x => "Rx"
  | .turn .y => "Ry"
  | .turn .z => "Rz"
  | .stretch => "S"
  | .linear => "M"
  | .reflect .x => "Fx"
  | .reflect .y => "Fy"
  | .reflect .z => "Fz"
  | .hue => "Hue"
  | .saturation => "Sat"
  | .brightness => "Brightness"
  | .alpha => "Alpha"
  | .color => "Color"
  | .blend => "Blend"
  | .random => "Random"
  | .colorPool => "ColorPool"
  | .randomHue => "RandomHue"
  | .randomRgb => "RandomRgb"
  | .greyscale => "Greyscale"
  | .list => "List"
  | .primitive .box => "Box"
  | .primitive .grid => "Grid"
  | .primitive .sphere => "Sphere"
  | .primitive .line => "Line"
  | .primitive .point => "Point"
  | .primitive .triangle => "Triangle"
  | .primitive .mesh => "Mesh"
  | .primitive .cylinder => "Cylinder"
  | .primitive .tube => "Tube"

def spellings : List (String × Keyword) := [
  ("*", .times), ("#define", .define), ("\x7b", .openBrace), ("\x7d", .closeBrace),
  ("[", .openBracket), ("]", .closeBracket), (">", .greater), (",", .comma), (":", .colon),
  ("set", .set), ("rule", .rule), ("maxdepth", .maxDepth), ("md", .maxDepth),
  ("maxobjects", .maxObjects), ("minsize", .minSize), ("maxsize", .maxSize), ("seed", .seed),
  ("initial", .initial), ("background", .background), ("weight", .weight), ("w", .weight),
  ("translation", .cameraOffset), ("rotation", .cameraRotation), ("pivot", .pivot),
  ("scale", .scale), ("x", .move .x), ("y", .move .y), ("z", .move .z), ("rx", .turn .x),
  ("ry", .turn .y), ("rz", .turn .z), ("s", .stretch), ("m", .linear), ("fx", .reflect .x),
  ("fy", .reflect .y), ("fz", .reflect .z), ("hue", .hue), ("sat", .saturation),
  ("brightness", .brightness), ("b", .brightness), ("alpha", .alpha), ("a", .alpha),
  ("color", .color), ("blend", .blend), ("random", .random), ("colorpool", .colorPool),
  ("randomhue", .randomHue), ("randomrgb", .randomRgb), ("greyscale", .greyscale),
  ("list", .list), ("box", .primitive .box), ("grid", .primitive .grid),
  ("sphere", .primitive .sphere), ("line", .primitive .line), ("point", .primitive .point),
  ("triangle", .primitive .triangle), ("mesh", .primitive .mesh),
  ("cylinder", .primitive .cylinder), ("tube", .primitive .tube)]

def trie : Trie Keyword := .ofList (spellings.map fun (word, keyword) => (word.toList, keyword))

end Keyword

end SceneGrammar

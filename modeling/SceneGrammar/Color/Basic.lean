/-!
Colours with eight bits a channel.
-/

namespace SceneGrammar

structure Rgba where
  red : UInt8
  green : UInt8
  blue : UInt8
  alpha : UInt8
  deriving DecidableEq, Repr

namespace Rgba

def opaqueOf (red green blue : UInt8) : Rgba := ⟨red, green, blue, 255⟩

def white : Rgba := opaqueOf 255 255 255
def pureRed : Rgba := opaqueOf 255 0 0

end Rgba

end SceneGrammar

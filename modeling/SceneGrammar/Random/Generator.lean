/-!
A permuted congruential generator: a 128-bit congruence whose state is folded to 64 bits by an
exclusive or and rotated by its top bits. Every kind of draw is made from whole words.
-/

namespace SceneGrammar

structure Generator where
  state : BitVec 128
  increment : BitVec 128
  deriving DecidableEq, Repr

/-- A computation that takes its chance from one generator. -/
abbrev Draw := StateM Generator

namespace Generator

def multiplier : BitVec 128 := 0x2360ED051FC65DA44385DF649FCCF645

def step (g : Generator) : Generator := { g with state := g.state * multiplier + g.increment }

def output (state : BitVec 128) : UInt64 :=
  let folded : BitVec 64 := (state >>> 64).setWidth 64 ^^^ state.setWidth 64
  .ofBitVec (folded.rotateRight (state >>> 122).toNat)

def stretch (seed : BitVec 64) : BitVec 64 := seed * 6364136223846793005 + 11634580027462260723

def stretchOutput (seed : BitVec 64) : BitVec 32 :=
  let folded : BitVec 32 := (((seed >>> 18) ^^^ seed) >>> 27).setWidth 32
  folded.rotateRight (seed >>> 59).toNat

/-- The words that a short seed is stretched into, each from one step of a 64-bit congruence. -/
def seedWords (seed : BitVec 64) : Nat → List (BitVec 32)
  | 0 => []
  | count + 1 => stretchOutput (stretch seed) :: seedWords (stretch seed) count

theorem seedWords_length (seed : BitVec 64) (count : Nat) :
    (seedWords seed count).length = count := by
  induction count generalizing seed with
  | zero => rfl
  | succ count ih => simp [seedWords, ih]

/-- The words of a number, the lowest first. -/
def joinWords (words : List (BitVec 32)) : BitVec 128 :=
  words.foldr (fun word high => (high <<< 32) ||| word.setWidth 128) 0

def ofSeed (seed : UInt64) : Generator :=
  let words := seedWords seed.toBitVec 8
  let increment := joinWords (words.drop 4) ||| 1
  step ⟨joinWords (words.take 4) + increment, increment⟩

end Generator

namespace Draw

def word : Draw UInt64 := fun g => (Generator.output g.step.state, g.step)

def half : Draw UInt32 := return (← word).toUInt32

def byte : Draw UInt8 := return (← half).toUInt8

/-- A multiple of `2 ^ -53` in `[0, 1)`. -/
def unit : Draw Float :=
  return .ofNat ((← word).toNat >>> 11) * .ofBits 0x3ca0000000000000

/-- A number below `count`: the high half of a product, corrected by a second draw where the low
half could carry into it. -/
def below (count : Nat) : Draw Nat := do
  let product := (← half).toNat * count
  let high := product / UInt32.size
  let low := product % UInt32.size
  if UInt32.size - count < low then
    let correction := (← half).toNat * count / UInt32.size
    return if UInt32.size ≤ low + correction then high + 1 else high
  else return high

end Draw

end SceneGrammar

import Cueflow.Chance.Keystream
/-!
# Draws — uniform numbers from the keystream

A `Generator` is a stream of words, such as the keystream of a seed, and the number of
words used so far. A draw from `[low, high]` takes one word, keeps its upper 23 bits as
the fraction of a number in `[0, 1)`, and scales that into the range. A range that is
reversed, undefined or too wide for its width to be finite cannot be drawn from; such a
draw takes no word.
-/

namespace Cueflow.Chance

/-- A place in a stream of words. -/
structure Generator where
  /-- The words of the stream. -/
  word : Nat → UInt32
  /-- How many of them have been used. -/
  position : Nat

namespace Generator

/-- The start of the keystream of a seed. -/
def ofSeed (seed : UInt64) : Generator := ⟨keystreamWord (keyOfSeed seed), 0⟩

/-- The next word of the stream. -/
def next (g : Generator) : UInt32 × Generator :=
  (g.word g.position, { g with position := g.position + 1 })

end Generator

/-- The number in `[0, 1)` whose fraction is the upper 23 bits of a word. -/
def unitFraction (word : UInt32) : Float32 :=
  Float32.ofBits ((0x3f800000 : UInt32) ||| (word >>> 9)) - 1

/-- The number of `[low, high]` that a word stands for. -/
def scaleWord (low high : Float32) (word : UInt32) : Float32 :=
  unitFraction word * (high - low) + low

/-- Whether a number can be drawn from `[low, high]`. -/
def drawable (low high : Float32) : Bool := low ≤ high && (high - low).isFinite

/-- A number from `[low, high]` and the generator after it, or nothing if the range
cannot be drawn from. -/
def Generator.draw? (g : Generator) (low high : Float32) : Option (Float32 × Generator) :=
  if drawable low high then
    let (word, g) := g.next
    some (scaleWord low high word, g)
  else none

/-- A draw takes the next word of the stream. -/
theorem Generator.draw?_of_drawable (g : Generator) {low high : Float32}
    (h : drawable low high = true) :
    g.draw? low high =
      some (scaleWord low high (g.word g.position), { g with position := g.position + 1 }) := by
  simp [Generator.draw?, h, Generator.next]

/-- Nothing is drawn from an impossible range. -/
theorem Generator.draw?_eq_none_iff {g : Generator} {low high : Float32} :
    g.draw? low high = none ↔ drawable low high = false := by
  simp [Generator.draw?]

example : unitFraction 0 = 0 := by decide +kernel

example : drawable 0 (1 / 0) = false := by decide +kernel

end Cueflow.Chance

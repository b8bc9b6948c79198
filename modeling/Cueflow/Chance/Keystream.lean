/-!
# The keystream — 32-bit words by position

The words of a seeded generator are the ChaCha keystream with twelve rounds: block `n`
is a function of the key and of `n` alone, and word `i` of the stream is word `i % 16`
of block `i / 16`. A key comes from a 64-bit seed by a linear congruential sequence
whose states are permuted down to 32 bits. Nothing here has a state of its own.
-/

namespace Cueflow.Chance

/-- Sixteen words: the state that is mixed, and a block of the stream. -/
abbrev Block := Vector UInt32 16

/-- The eight words of a key. -/
abbrev Key := Vector UInt32 8

/-- `x` with its bits moved left by `n` places, the high ones coming in at the low end. -/
def rotateLeft (x n : UInt32) : UInt32 := (x <<< n) ||| (x >>> (32 - n))

/-- Mixes four words of a block. -/
def quarterRound (a b c d : Fin 16) (s : Block) : Block :=
  let s := s.set a (s[a] + s[b])
  let s := s.set d (rotateLeft (s[d] ^^^ s[a]) 16)
  let s := s.set c (s[c] + s[d])
  let s := s.set b (rotateLeft (s[b] ^^^ s[c]) 12)
  let s := s.set a (s[a] + s[b])
  let s := s.set d (rotateLeft (s[d] ^^^ s[a]) 8)
  let s := s.set c (s[c] + s[d])
  s.set b (rotateLeft (s[b] ^^^ s[c]) 7)

/-- One round over the columns and one over the diagonals. -/
def doubleRound (s : Block) : Block :=
  let s := quarterRound 0 4 8 12 s
  let s := quarterRound 1 5 9 13 s
  let s := quarterRound 2 6 10 14 s
  let s := quarterRound 3 7 11 15 s
  let s := quarterRound 0 5 10 15 s
  let s := quarterRound 1 6 11 12 s
  let s := quarterRound 2 7 8 13 s
  quarterRound 3 4 9 14 s

/-- Six double rounds. -/
def mix (s : Block) : Block :=
  doubleRound (doubleRound (doubleRound (doubleRound (doubleRound (doubleRound s)))))

/-- The state of block `n` before mixing: four constants, the key, the 64-bit block
number and an empty nonce. -/
def initialBlock (key : Key) (n : UInt64) : Block :=
  #v[0x61707865, 0x3320646e, 0x79622d32, 0x6b206574,
     key[0], key[1], key[2], key[3], key[4], key[5], key[6], key[7],
     n.toUInt32, (n >>> 32).toUInt32, 0, 0]

/-- Block `n` of the stream: the mixed state added to the state it came from. -/
def keystreamBlock (key : Key) (n : UInt64) : Block :=
  let s := initialBlock key n
  (mix s).zipWith (· + ·) s

/-- Word `i` of the stream. -/
def keystreamWord (key : Key) (i : Nat) : UInt32 :=
  (keystreamBlock key (UInt64.ofNat (i / 16)))[i % 16]

/-- The next state of the sequence behind a key. -/
def nextSeedState (state : UInt64) : UInt64 :=
  state * 6364136223846793005 + 11634580027462260723

/-- The word that a state of that sequence stands for. -/
def seedWord (state : UInt64) : UInt32 :=
  let mixed := (((state >>> 18) ^^^ state) >>> 27).toUInt32
  let turn := (state >>> 59).toUInt32
  rotateLeft mixed ((32 - turn) % 32)

/-- State `i + 1` of the sequence that starts with `seed`. -/
def seedState (seed : UInt64) (i : Nat) : UInt64 :=
  Nat.repeat nextSeedState (i + 1) seed

/-- The key of a seed: eight consecutive words of its sequence. -/
def keyOfSeed (seed : UInt64) : Key := Vector.ofFn fun i => seedWord (seedState seed i)

end Cueflow.Chance

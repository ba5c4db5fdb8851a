/-!
# The random stream

A key determines an endless stream of 64-bit words: the twelve-round stream cipher with a 64-bit
block counter that starts at zero and a zero nonce. The word at an index depends on the key and the
index alone, so a position in the stream is just a number.
-/

namespace Sequencer.Random

/-- A key of 256 bits, as eight words. -/
abbrev Key := Vector UInt32 8

/-- The sixteen words that the cipher works on. -/
abbrev Block := Vector UInt32 16

def rotateLeft (x : UInt32) (n : UInt32) : UInt32 := (x <<< n) ||| (x >>> (32 - n))

namespace Block

/-- Adds word `b` to word `a`, and mixes the sum into word `d` by a rotation. -/
def mix (a b d : Fin 16) (n : UInt32) (s : Block) : Block :=
  let sum := s[a] + s[b]
  (s.set a sum).set d (rotateLeft (s[d] ^^^ sum) n)

def quarterRound (a b c d : Fin 16) (s : Block) : Block :=
  (((s.mix a b d 16).mix c d b 12).mix a b d 8).mix c d b 7

/-- A round on the columns of the four by four square, then one on its diagonals. -/
def doubleRound (s : Block) : Block :=
  let columns := s.quarterRound 0 4 8 12 |>.quarterRound 1 5 9 13
    |>.quarterRound 2 6 10 14 |>.quarterRound 3 7 11 15
  columns.quarterRound 0 5 10 15 |>.quarterRound 1 6 11 12
    |>.quarterRound 2 7 8 13 |>.quarterRound 3 4 9 14

end Block

/-- The block from which the output block number `counter` is computed. -/
def Key.initialBlock (key : Key) (counter : UInt64) : Block :=
  #v[0x61707865, 0x3320646e, 0x79622d32, 0x6b206574,
    key[0], key[1], key[2], key[3], key[4], key[5], key[6], key[7],
    counter.toUInt32, (counter >>> 32).toUInt32, 0, 0]

/-- Output block number `counter`: six double rounds, and the initial block added. -/
def Key.block (key : Key) (counter : UInt64) : Block :=
  let initial := key.initialBlock counter
  (Nat.repeat Block.doubleRound 6 initial).zipWith (· + ·) initial

/-- The word at `index` of the stream of 64-bit words; its low half comes first. -/
def Key.word (key : Key) (index : Nat) : UInt64 :=
  let block := key.block (UInt64.ofNat (index / 8))
  let low := block[2 * (index % 8)]
  let high := block[2 * (index % 8) + 1]
  low.toUInt64 ||| (high.toUInt64 <<< 32)

/-- One step of the linear congruence that spreads a seed over a key. -/
def advanceSeed (state : UInt64) : UInt64 :=
  state * 6364136223846793005 + 11634580027462260723

/-- The word taken from a state of the congruence. -/
def seedWord (state : UInt64) : UInt32 :=
  let mixed := (((state >>> 18) ^^^ state) >>> 27).toUInt32
  let turn := (state >>> 59).toUInt32
  (mixed >>> turn) ||| (mixed <<< ((32 - turn) % 32))

/-- The key that a seed stands for: eight successive words. -/
def Key.ofSeed (seed : UInt64) : Key :=
  Vector.ofFn fun i => seedWord (Nat.repeat advanceSeed (i.val + 1) seed)

instance : Coe UInt64 Key := ⟨Key.ofSeed⟩

end Sequencer.Random

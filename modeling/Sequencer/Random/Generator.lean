import Sequencer.Random.Stream

/-!
# Random draws

A generator is a position in the stream of its key. Each draw takes words from that position on:
a uniform index, an index by weight, or a chance. Nothing but a draw moves a generator.
-/

namespace Sequencer

def isProbability (p : Float) : Bool := 0 ≤ p && p ≤ 1

/-- A key and the number of words already taken from its stream. -/
structure Generator where
  key : Random.Key
  drawn : Nat
  deriving DecidableEq

namespace Generator

def ofSeed (seed : UInt64) : Generator := ⟨seed, 0⟩

/-- A generator at the start of the stream of its seed, or of a key of its own if it has none. -/
def ofSeedOr (key : Random.Key) : Option UInt64 → Generator
  | some seed => ofSeed seed
  | none => ⟨key, 0⟩

def next (g : Generator) : UInt64 × Generator :=
  (g.key.word g.drawn, { g with drawn := g.drawn + 1 })

/-- The largest low half of a product that a uniform draw below `n` accepts: the words that pass
are a multiple of `n`, so every index has the same share of them. -/
def acceptance (n : Nat) : Nat := n * Nat.pow 2 (63 - Nat.log2 n) - 1

/-- Draws words until one is accepted, at most `tries` further times. A word `w` stands for the
index `w * n / 2 ^ 64`. -/
def uniformWithin (n : Nat) : Nat → Generator → Nat × Generator
  | 0, g =>
    let (word, g) := g.next
    (word.toNat * n / Nat.pow 2 64, g)
  | tries + 1, g =>
    let (word, g) := g.next
    let product := word.toNat * n
    if product % Nat.pow 2 64 ≤ acceptance n then (product / Nat.pow 2 64, g)
    else uniformWithin n tries g

/-- How often a word may be rejected. A rejection is less likely than an acceptance, so the bound
is never met in practice. -/
def uniformTries : Nat := 255

/-- An index below `n`, each equally likely. -/
def uniform (n : Nat) (g : Generator) : Nat × Generator := uniformWithin n uniformTries g

def below (x : Float) : Float := Float.ofBits (x.toBits - 1)

/-- Two to the power of -52, the distance between the numbers from one to two. -/
def unitStep : Float := Float.ofBits 0x3cb0000000000000

/-- The factor that maps the numbers below one to numbers below `total`, also after rounding. One
step down is enough: the product falls short of a number of full precision by at least half a step,
and of a smaller one after the step. -/
def scale (total : Float) : Float :=
  if total * (1 - unitStep) ≥ total then below total else total

/-- A number from zero to below one, a multiple of `unitStep`. -/
def fraction (g : Generator) : Float × Generator :=
  let (word, g) := g.next
  ((word >>> 12).toFloat * unitStep, g)

/-- The sums of the weights up to each position, the last position left out. -/
def cumulative (weights : List Float) : List Float :=
  go 0 weights
where
  go (sum : Float) : List Float → List Float
    | [] => []
    | [_] => []
    | w :: rest => (sum + w) :: go (sum + w) rest

def total (weights : List Float) : Float := weights.foldl (· + ·) 0

/-- An index into `weights`, each likely in proportion to its weight. -/
def weighted (weights : List Float) (g : Generator) : Nat × Generator :=
  let (u, g) := g.fraction
  let x := u * scale (total weights) + 0
  ((cumulative weights).countP (· ≤ x), g)

/-- True with the given probability. A sure chance draws nothing. -/
def chance (probability : Float) (g : Generator) : Bool × Generator :=
  if probability == 1 then (true, g)
  else
    let (word, g) := g.next
    (word < (probability * 18446744073709551616).toUInt64, g)

end Generator

end Sequencer

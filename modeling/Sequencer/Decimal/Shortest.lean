import Sequencer.Decimal.Binary

/-!
# Shortest decimals

The text of a number has the fewest digits that still read back as the number. The decimals with a
given last place form a grid; `shortest` takes the coarsest grid with a point that rounds to the
number, and on it the point that is nearest to the number. Of two that are equally near it takes the
larger. Numbers are written in positional notation, however large or small.
-/

namespace Sequencer.Decimal

/-- The decimal `coefficient * 10 ^ exponent`. -/
structure Digits where
  coefficient : Nat
  exponent : Int
  deriving DecidableEq

/-- The decimals that read back as a number, in units of `num / den`: those between `low` and
`high`, the ends included if `closed`, around the number itself at `center`. -/
structure Interval where
  low : Nat
  center : Nat
  high : Nat
  closed : Bool
  num : Nat
  den : Nat

namespace Interval

/-- The interval around `coefficient * 2 ^ exponent`. It reaches half way to either neighbour; the
neighbour below a power of two is half as far away as the one above. -/
def around (f : Format) (coefficient : Nat) (exponent : Int) : Interval :=
  let boundary := coefficient == Nat.pow 2 f.fractionBits && f.minExponent < exponent
  let unit := exponent - 2
  { low := 4 * coefficient - if boundary then 1 else 2
    center := 4 * coefficient
    high := 4 * coefficient + 2
    closed := coefficient % 2 == 0
    num := Nat.pow 2 unit.toNat
    den := Nat.pow 2 (-unit).toNat }

def contains (i : Interval) (a b : Nat) : Bool :=
  let x := a * i.den
  let low := i.low * i.num * b
  let high := i.high * i.num * b
  if i.closed then low ≤ x && x ≤ high else low < x && x < high

/-- The point of the grid of multiples of `10 ^ place` that is nearest to the center, if the
interval holds a point of that grid. -/
def pointAt (i : Interval) (place : Int) : Option Nat :=
  let up := Nat.pow 10 place.toNat
  let down := Nat.pow 10 (-place).toNat
  let num := i.center * i.num * down
  let den := i.den * up
  let floor := num / den
  let below := i.contains (floor * up) down
  let above := i.contains ((floor + 1) * up) down
  match below, above with
  | false, false => none
  | true, false => some floor
  | false, true => some (floor + 1)
  | true, true => some (if 2 * (num % den) < den then floor else floor + 1)

/-- Searches the grids from `place` downwards, at most `grids` of them. -/
def coarsest (i : Interval) : Nat → Int → Digits
  | 0, place => ⟨0, place⟩
  | grids + 1, place =>
    match i.pointAt place with
    | some coefficient => ⟨coefficient, place⟩
    | none => coarsest i grids (place - 1)

end Interval

/-- A place above the first digit of `coefficient * 2 ^ exponent`. -/
def firstPlace (coefficient : Nat) (exponent : Int) : Int :=
  ((Nat.log2 coefficient : Int) + 1 + exponent) * 30103 / 100000 + 1

/-- The number of grids to search. A 64-bit number needs at most seventeen digits. -/
def maxGrids : Nat := 32

/-- The shortest decimal that reads back as `coefficient * 2 ^ exponent`. -/
def shortest (f : Format) (coefficient : Nat) (exponent : Int) : Digits :=
  if coefficient == 0 then ⟨0, 0⟩
  else (Interval.around f coefficient exponent).coarsest maxGrids (firstPlace coefficient exponent)

/-- Positional notation, without a point if the decimal is a whole number. -/
def Digits.positional (d : Digits) : String :=
  let digits := Nat.toDigits 10 d.coefficient
  if 0 ≤ d.exponent then .ofList (digits ++ List.replicate d.exponent.toNat '0')
  else
    let places := (-d.exponent).toNat
    let padded := List.replicate (places + 1 - digits.length) '0' ++ digits
    .ofList (padded.take (padded.length - places) ++ '.' :: padded.drop (padded.length - places))

def Reading.text (f : Format) : Reading → String
  | .finite negative coefficient exponent =>
    (if negative then "-" else "") ++ (shortest f coefficient exponent).positional
  | .infinite negative => if negative then "-inf" else "inf"
  | .notANumber => "NaN"

def Reading.isWhole : Reading → Bool
  | .finite _ coefficient exponent => coefficient % Nat.pow 2 (-exponent).toNat == 0
  | _ => false

/-- The shortest decimal text of a 64-bit number. -/
def text64 (x : Float) : String := (Format.double.decode x.toBits.toNat).text .double

def text32 (x : Float32) : String := (Format.single.decode x.toBits.toNat).text .single

end Sequencer.Decimal

/-!
# Numbers by their bits

A number written by its bits is exact. All bit patterns that are not a number are written alike.
-/

namespace Sequencer.Decimal

/-- Hexadecimal digits in lower case, filled with zeros up to a width. -/
def hexText (width bits : Nat) : String :=
  let digits := Nat.toDigits 16 bits
  .ofList (List.replicate (width - digits.length) '0' ++ digits)

def bitsText32 (x : Float32) : String := if x.isNaN then "nan" else hexText 8 x.toBits.toNat

def bitsText64 (x : Float) : String := if x.isNaN then "nan" else hexText 16 x.toBits.toNat

end Sequencer.Decimal

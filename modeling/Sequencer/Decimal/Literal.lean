import Sequencer.Decimal.Binary

/-!
# Decimal literals

Reads a decimal with an optional sign, point and exponent, and rounds it to a floating-point number.
There has to be a digit before or after the point.
-/

namespace Sequencer.Decimal

/-- A decimal as written: `coefficient * 10 ^ exponent`, negated if `negative`. -/
structure Literal where
  negative : Bool
  coefficient : Nat
  exponent : Int
  deriving DecidableEq

def digitsValue (digits : List Char) : Nat :=
  digits.foldl (fun value digit => 10 * value + (digit.toNat - '0'.toNat)) 0

namespace Literal

def takeSign : List Char → Bool × List Char
  | '-' :: rest => (true, rest)
  | '+' :: rest => (false, rest)
  | rest => (false, rest)

/-- The exponent after the mark `e`, which has at least one digit; no exponent is zero. -/
def readExponent : List Char → Option Int
  | [] => some 0
  | mark :: rest =>
    if mark == 'e' || mark == 'E' then
      let (negative, digits) := takeSign rest
      if digits.isEmpty || !digits.all Char.isDigit then none
      else
        let value : Int := digitsValue digits
        some (if negative then -value else value)
    else none

/-- Reads the whole of a text as a decimal. -/
def ofChars? (chars : List Char) : Option Literal :=
  let (negative, unsigned) := takeSign chars
  let whole := unsigned.takeWhile Char.isDigit
  let afterWhole := unsigned.dropWhile Char.isDigit
  let (fraction, rest) :=
    match afterWhole with
    | '.' :: more => (more.takeWhile Char.isDigit, more.dropWhile Char.isDigit)
    | more => ([], more)
  if whole.isEmpty && fraction.isEmpty then none
  else
    (readExponent rest).map fun exponent =>
      ⟨negative, digitsValue (whole ++ fraction), exponent - fraction.length⟩

/-- Decimals whose first digit is further than this from the point are infinite or zero in every
format. -/
def maxMagnitude : Int := 400

def bits (f : Format) (l : Literal) : Nat :=
  let magnitude : Int := (Nat.toDigits 10 l.coefficient).length + l.exponent
  let unsigned :=
    if l.coefficient == 0 || magnitude < -maxMagnitude then 0
    else if maxMagnitude < magnitude then f.infinityBits
    else f.nearest (l.coefficient * Nat.pow 10 l.exponent.toNat) (Nat.pow 10 (-l.exponent).toNat)
  if l.negative then unsigned + f.signBit else unsigned

def toFloat (l : Literal) : Float := Float.ofBits (UInt64.ofNat (l.bits .double))

def toFloat32 (l : Literal) : Float32 := Float32.ofBits (UInt32.ofNat (l.bits .single))

end Literal

end Sequencer.Decimal

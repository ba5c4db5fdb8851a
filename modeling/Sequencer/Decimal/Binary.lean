/-!
# Binary floating-point formats

A format is given by the widths of its two fields. `Format.decode` reads the bits of a number as a
coefficient times a power of two; `Format.nearest` finds the bits of the number nearest to a
quotient, and of two that are equally near the one with the even coefficient. Both are exact.
-/

namespace Sequencer.Decimal

/-- The widths of the fields of a binary floating-point format. -/
structure Format where
  fractionBits : Nat
  exponentBits : Nat

inductive Reading
  /-- The number `coefficient * 2 ^ exponent`, negated if `negative`. -/
  | finite (negative : Bool) (coefficient : Nat) (exponent : Int)
  | infinite (negative : Bool)
  | notANumber
  deriving DecidableEq

namespace Format

def single : Format := ⟨23, 8⟩

def double : Format := ⟨52, 11⟩

/-- The exponent that belongs to the last place of the smallest numbers. -/
def minExponent (f : Format) : Int := 2 - Nat.pow 2 (f.exponentBits - 1) - f.fractionBits

def infinityBits (f : Format) : Nat := (Nat.pow 2 f.exponentBits - 1) * Nat.pow 2 f.fractionBits

/-- The sign bit alone, which is negative zero. -/
def signBit (f : Format) : Nat := Nat.pow 2 (f.exponentBits + f.fractionBits)

def decode (f : Format) (bits : Nat) : Reading :=
  let negative := bits / f.signBit % 2 == 1
  let field := bits / Nat.pow 2 f.fractionBits % Nat.pow 2 f.exponentBits
  let fraction := bits % Nat.pow 2 f.fractionBits
  if field == Nat.pow 2 f.exponentBits - 1 then
    if fraction == 0 then .infinite negative else .notANumber
  else if field == 0 then .finite negative fraction f.minExponent
  else .finite negative (fraction + Nat.pow 2 f.fractionBits) (f.minExponent + (field - 1 : Nat))

/-- The quotient of two numbers rounded to a whole number, a half going to the even neighbour. -/
def roundDiv (num den : Nat) : Nat :=
  let quotient := num / den
  let twice := 2 * (num % den)
  if twice < den ∨ (twice = den ∧ quotient % 2 = 0) then quotient else quotient + 1

/-- The numerator and denominator of `num / den / 2 ^ exponent`. -/
def scaled (num den : Nat) (exponent : Int) : Nat × Nat :=
  (num * Nat.pow 2 (-exponent).toNat, den * Nat.pow 2 exponent.toNat)

/-- The bits of the number nearest to `num / den`, infinity if that is too large. The exponent is
chosen so that the coefficient fills the fraction field, but for the smallest numbers. -/
def nearest (f : Format) (num den : Nat) : Nat :=
  if num == 0 then 0
  else
    let guess : Int := (Nat.log2 num : Int) - Nat.log2 den - f.fractionBits - 1
    let (n, d) := scaled num den guess
    let fitting := if n / d < Nat.pow 2 (f.fractionBits + 1) then guess else guess + 1
    let exponent := max fitting f.minExponent
    let (n, d) := scaled num den exponent
    let bits := (exponent - f.minExponent).toNat * Nat.pow 2 f.fractionBits + roundDiv n d
    min bits f.infinityBits

end Format

end Sequencer.Decimal

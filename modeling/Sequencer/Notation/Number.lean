import Sequencer.Notation.Reader
import Sequencer.Decimal.Literal

/-!
# Numbers

Numbers are whole numbers in one of four bases, or decimals. The name of a type may follow the
digits; the number has to be one of that type then. Low lines may stand between digits.
-/

namespace Sequencer.Notation

def hexValue? (c : Char) : Option Nat :=
  if c.isDigit then some (c.toNat - '0'.toNat)
  else if 'a' ≤ c && c ≤ 'f' then some (c.toNat - 'a'.toNat + 10)
  else if 'A' ≤ c && c ≤ 'F' then some (c.toNat - 'A'.toNat + 10)
  else none

/-- A number runs on for as long as anything could belong to it. -/
def isNumberChar (c : Char) : Bool :=
  c.isAlphanum || c == '_' || c == '.' || c == '+' || c == '-'

structure WholeType where
  signed : Bool
  bits : Nat
  deriving DecidableEq

namespace WholeType

def natural32 : WholeType := ⟨false, 32⟩

def natural64 : WholeType := ⟨false, 64⟩

def all : List WholeType :=
  [⟨true, 8⟩, ⟨true, 16⟩, ⟨true, 32⟩, ⟨true, 64⟩, ⟨false, 8⟩, ⟨false, 16⟩, natural32, natural64]

def name (t : WholeType) : List Char := (if t.signed then 'i' else 'u') :: (Nat.repr t.bits).toList

def contains (t : WholeType) (n : Int) : Bool :=
  let half : Int := Nat.pow 2 (t.bits - 1)
  if t.signed then -half ≤ n && n < half else 0 ≤ n && n < Nat.pow 2 t.bits

end WholeType

/-- A whole number as it is written, with the name of its type if it has one. -/
structure Whole where
  value : Int
  type : Option WholeType

/-- Digits in a base, with low lines between them. -/
def digits? (base : Nat) (value : Nat) : List Char → Option Nat
  | [] => some value
  | '_' :: rest => digits? base value rest
  | c :: rest => do digits? base (base * value + (← (hexValue? c).filter (· < base))) rest

/-- At least one character, the first being a digit. -/
def natural? (base : Nat) : List Char → Option Nat
  | [] => none
  | '_' :: _ => none
  | digits => digits? base 0 digits

namespace Whole

/-- Digits in a base that is at most ten, perhaps with the name of a type. -/
def ofDigits? (base : Nat) (chars : List Char) : Option (Nat × Option WholeType) := do
  let value ← natural? base (chars.takeWhile fun c => c.isDigit || c == '_')
  match chars.dropWhile fun c => c.isDigit || c == '_' with
  | [] => return (value, none)
  | rest => return (value, some (← WholeType.all.find? fun t => t.name == rest))

/-- A number without a sign, in the base that its beginning says. No type may follow digits in the
bases eight and sixteen. -/
def ofUnsigned? : List Char → Option (Nat × Option WholeType)
  | '0' :: 'x' :: digits => (natural? 16 digits).map (·, none)
  | '0' :: 'o' :: digits => (natural? 8 digits).map (·, none)
  | '0' :: 'b' :: chars => ofDigits? 2 chars
  | chars => ofDigits? 10 chars

def ofChars? (chars : List Char) : Option Whole :=
  let (negative, rest) := Decimal.Literal.takeSign chars
  (ofUnsigned? rest).map fun (n, type) => ⟨if negative then -n else n, type⟩

/-- Whether the number is in the range of its type. Without the name of a type it has to be in that
of a type of 64 bits. -/
def inRange (w : Whole) : Bool :=
  match w.type with
  | some t => t.contains w.value
  | none => (⟨true, 64⟩ : WholeType).contains w.value || WholeType.natural64.contains w.value

/-- The number as one of a type of naturals. It may not name another type. -/
def toNat? (t : WholeType) (w : Whole) : Option Nat :=
  if w.type.all (· == t) && t.contains w.value then some w.value.toNat else none

end Whole

/-- Takes the low lines out of a decimal. They may stand after digits and marks of an exponent
only. -/
def withoutLowLines? (allowed : Bool) : List Char → Option (List Char)
  | [] => some []
  | c :: rest =>
    if c == '_' then if allowed then withoutLowLines? allowed rest else none
    else
      let allowed :=
        if c == '.' then false else if c.isDigit || c == 'e' || c == 'E' then true else allowed
      (withoutLowLines? allowed rest).map (c :: ·)

def notANumberBits (f : Decimal.Format) : Nat := f.infinityBits + Nat.pow 2 (f.fractionBits - 1)

/-- The bits of the number nearest to a decimal with an optional sign, or of a special number. -/
def bits? (f : Decimal.Format) (chars : List Char) : Option Nat :=
  let (negative, rest) := Decimal.Literal.takeSign chars
  if rest = "inf".toList then some (f.infinityBits + if negative then f.signBit else 0)
  else if rest = "NaN".toList then some (notANumberBits f)
  else do
    let chars ← withoutLowLines? false chars
    return (← Decimal.Literal.ofChars? chars).bits f

/-- The name of a type of floating-point numbers in a text. -/
def formatName (f : Decimal.Format) : List Char :=
  'f' :: (Nat.repr (f.exponentBits + f.fractionBits + 1)).toList

/-- The bits of a decimal that may name its type. -/
def typedBits? (f : Decimal.Format) (chars : List Char) : Option Nat :=
  if (formatName f).isSuffixOf chars then
    bits? f (chars.take (chars.length - (formatName f).length))
  else bits? f chars

/-- Whether a number can be read at some type. -/
def isNumber (chars : List Char) : Bool :=
  (Whole.ofChars? chars).any Whole.inRange || (typedBits? .single chars).isSome ||
    (typedBits? .double chars).isSome

open Reader

def nat (t : WholeType) : Reader Nat := do
  let some n := (Whole.ofChars? (← span isNumberChar)).bind (Whole.toNat? t) | failure
  return n

def bits (f : Decimal.Format) : Reader Nat := do
  let some n := typedBits? f (← span isNumberChar) | failure
  return n

def float : Reader Float := do return Float.ofBits (UInt64.ofNat (← bits .double))

def float32 : Reader Float32 := do return Float32.ofBits (UInt32.ofNat (← bits .single))

end Sequencer.Notation

import Sequencer.Decimal.Shortest

/-!
# How values are written

A record is written with a line for each of its fields, in parentheses and without its name. Four
blanks stand before a field for every record around it, and a comma after it.
-/

namespace Sequencer.Notation

def indent (depth : Nat) : String := "".pushn ' ' (4 * depth)

def fieldLine (depth : Nat) (field : String × String) : String :=
  indent depth ++ field.1 ++ ": " ++ field.2 ++ ",\n"

/-- The text of a record inside so many others, given the names of its fields and the texts of their
values. -/
def recordText (depth : Nat) (fields : List (String × String)) : String :=
  "(\n" ++ String.join (fields.map (fieldLine (depth + 1))) ++ indent depth ++ ")"

def boolText (b : Bool) : String := if b then "true" else "false"

def optionText : Option String → String
  | none => "None"
  | some text => "Some(" ++ text ++ ")"

/-- The text of a number of a floating-point format. A whole number ends in `.0`. -/
def readingText (f : Decimal.Format) (r : Decimal.Reading) : String :=
  r.text f ++ if r.isWhole then ".0" else ""

def floatText (x : Float) : String :=
  readingText .double (Decimal.Format.double.decode x.toBits.toNat)

def float32Text (x : Float32) : String :=
  readingText .single (Decimal.Format.single.decode x.toBits.toNat)

end Sequencer.Notation

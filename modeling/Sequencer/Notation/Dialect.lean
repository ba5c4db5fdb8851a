import Sequencer.Notation.Items
import Sequencer.Notation.Name

/-!
# Dialects

A text may begin with lines that enable other ways to write values, such as
`#![enable(implicit_some)]`.
-/

namespace Sequencer.Notation

open Reader

/-- How values may be written. -/
structure Dialect where
  /-- An optional value that is there may be written without `Some`. -/
  implicitSome : Bool := false
  /-- The name of a record has to be written. -/
  explicitNames : Bool := false
  /-- The parentheses after `Some` may be those of the record or of the tuple that is the value. -/
  mergedParentheses : Bool := false

namespace Dialect

/-- Reads the name of an extension. One of them concerns types that no record here has. -/
def extension (d : Dialect) : Reader Dialect := do
  match ← name with
  | "implicit_some" => return { d with implicitSome := true }
  | "explicit_struct_names" => return { d with explicitNames := true }
  | "unwrap_variant_newtypes" => return { d with mergedParentheses := true }
  | "unwrap_newtypes" => return d
  | _ => failure

def line (d : Dialect) : Reader Dialect := do
  expect '#'
  blanks
  expect '!'
  blanks
  expect '['
  blanks
  expectAll "enable".toList
  blanks
  expect '('
  blanks
  let d ← d.extension
  let d ← if ← comma then items extension ')' d else do
    expect ')'
    pure d
  blanks
  expect ']'
  blanks
  return d

def boundedLines : Nat → Dialect → Reader Dialect
  | 0, d => return d
  | bound + 1, d => do
    if ← nextIs (· == '#') then boundedLines bound (← d.line) else return d

/-- Reads the lines at the beginning of a text. -/
def lines : Reader Dialect := fun text => boundedLines text.length {} text

end Dialect

end Sequencer.Notation

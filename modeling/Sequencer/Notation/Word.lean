import Sequencer.Notation.Dialect

/-!
# Words that are values

A truth value is one of two words. An optional value is the word `None`, or the value in parentheses
after the word `Some`.
-/

namespace Sequencer.Notation

open Reader

variable {α : Type}

def bool : Reader Bool := do
  if ← acceptWord "true" then return true
  else if ← acceptWord "false" then return false
  else failure

/-- Reads a value and the parenthesis that closes after it. -/
def closed (value : Reader α) : Reader α := do
  let a ← value
  let _ ← comma
  expect ')'
  return a

/-- Reads what follows the word `Some`: a value in parentheses, by a reader that takes the closing
one too, or a bare value. -/
def someValue (d : Dialect) (enclosed bare : Reader α) : Reader α := do
  blanks
  if ← accept '(' then
    blanks
    enclosed
  else if d.implicitSome then bare
  else failure

def option (d : Dialect) (value : Reader α) : Reader (Option α) := do
  if ← acceptWord "None" then return none
  else if ← acceptWord "Some" then return some (← someValue d (closed value) value)
  else if d.implicitSome then return some (← value)
  else failure

end Sequencer.Notation

import Sequencer.Notation.AnyValue

/-!
# Records

A record is a list of named fields in parentheses, perhaps after the name of its type, such as
`(seed: Some(3), fast: true)`. Fields come in any order. A field that is missing keeps its standard
value, one that the type does not know is passed over, and none that it knows may come twice.
-/

namespace Sequencer.Notation

open Reader

structure KnownField (α : Type) where
  name : String
  /-- Reads the value of the field, and says what it does to the record. -/
  read : Reader (α → α)

/-- Values may be nested so deep in a text. -/
def maxLevels : Nat := 128

/-- The levels that a record takes: one for itself and one for the values of its fields. -/
def recordLevels : Nat := 2

variable {α : Type}

/-- Reads the name of a record, which may be left out in most dialects. -/
def recordName (d : Dialect) (type : String) : Reader Unit := do
  if ← nextIs isNameChar then
    unless (← name) == type do failure
  else if d.explicitNames then failure

/-- Reads a field. The state holds the names of the fields so far that the type knows. -/
def recordField (d : Dialect) (levels : Nat) (fields : List (KnownField α))
    (state : List String × α) : Reader (List String × α) := do
  let (seen, record) := state
  let fieldName ← name
  blanks
  expect ':'
  blanks
  match fields.find? (·.name == fieldName) with
  | none =>
    skip d levels
    return (seen, record)
  | some field =>
    if seen.contains fieldName then failure
    return (fieldName :: seen, (← field.read) record)

/-- Reads a record of a type, given its name, its fields and its standard value, that may be nested
so deep. -/
def record (d : Dialect) (levels : Nat) (type : String) (fields : List (KnownField α))
    (standard : α) : Reader α := do
  recordName d type
  blanks
  expect '('
  let (_, record) ← items (recordField d (levels - recordLevels) fields) ')' ([], standard)
  return record

/-- Reads a text that holds one value, with blanks around it. -/
def document (value : Dialect → Reader α) : Reader α := do
  blanks
  let d ← Dialect.lines
  let a ← value d
  blanks
  return a

def ofText? (value : Dialect → Reader α) (text : String) : Option α :=
  (document value).whole? text

end Sequencer.Notation

import Sequencer.Notation.Number
import Sequencer.Notation.Quoted
import Sequencer.Notation.Word

/-!
# Values that are passed over

A record may hold fields that it does not know. Their values have to be well formed, whatever they
are, and must not be nested too deep.
-/

namespace Sequencer.Notation

open Reader

/-- The words that are values by themselves. Nothing in parentheses may follow them. -/
def constants : List String :=
  ["true", "false", "None", "inf", "inff32", "inff64", "NaN", "NaNf32", "NaNf64"]

def isNumberStart (c : Char) : Bool := c.isDigit || c == '.' || c == '+' || c == '-'

def skipFieldName : Reader Unit := do
  blanks
  let _ ← name
  blanks
  expect ':'

/-- Passes over a field of a record, its value by a reader of its own. -/
def skipField (value : Reader Unit) : Reader Unit := do
  skipFieldName
  blanks
  value

def skipEntry (value : Reader Unit) : Reader Unit := do
  value
  blanks
  expect ':'
  blanks
  value

/-- Passes over what follows an opening parenthesis: the fields of a record, or values alone. -/
def skipGroup (value : Reader Unit) : Reader Unit := do
  let isRecord ← ahead skipFieldName
  items (fun _ => if isRecord then skipField value else value) ')' ()

/-- Passes over a value that starts with no name. Brackets may be opened only where there is a
reader for the values in them; `()` is a value everywhere. -/
def skipUnnamed (inner : Option (Reader Unit)) : Reader Unit := do
  if ← nextIs isNumberStart then
    unless isNumber (← span isNumberChar) do failure
  else
    match ← next, inner with
    | '(', none => expect ')'
    | '(', some value => skipGroup value
    | '[', some value => items (fun _ => value) ']' ()
    | '{', some value => items (fun _ => skipEntry value) '}' ()
    | '"', _ => quotedRest .text
    | '\'', _ => singleRest .character
    | 'r', _ => plainRest
    | 'b', _ =>
      match ← next with
      | '"' => quotedRest .bytes
      | '\'' => singleRest .byte
      | 'r' => plainRest
      | _ => failure
    | _, _ => failure

def skipQuoted : Reader Unit := do
  let _ ← attempt do
    expect '\''
    singleRest .character
  let _ ← attempt do
    if ← accept 'r' then plainRest
    else
      expect '"'
      quotedRest .text
  let _ ← attempt do
    expect 'b'
    if ← accept 'r' then plainRest
    else
      expect '"'
      quotedRest .bytes

/-- Looks for a comma that separates two values, at most `bound` characters ahead and inside so many
brackets. There is none if the brackets close first. -/
def boundedSeparator : Nat → Nat → Reader Unit
  | 0, _ => failure
  | bound + 1, depth => do
    blanks
    skipQuoted
    let c ← next
    if ['(', '[', '{'].contains c then boundedSeparator bound (depth + 1)
    else if [')', ']', '}'].contains c then
      if depth = 0 then failure else boundedSeparator bound (depth - 1)
    else if c = ',' && depth = 0 then
      blanks
      if ← nextIs (· == ')') then failure
    else boundedSeparator bound depth

/-- Looks for a comma that separates two values before the brackets close. -/
def separator : Reader Unit := fun text => boundedSeparator (text.length + 1) 0 text

/-- Passes over the value of an option and the parenthesis that closes after it. In some dialects
the parentheses may hold nothing, or the fields of a record, or more than one value. -/
def skipEnclosed (d : Dialect) (value : Reader Unit) (inner : Option (Reader Unit)) :
    Reader Unit := do
  if !d.mergedParentheses then closed value
  else if ← accept ')' then return
  else if ← ahead (skipFieldName <|> separator) then
    let some part := inner | failure
    skipGroup part
  else closed value

/-- How the values in brackets are passed over, given readers for the values one level deeper than
the brackets, two levels deeper and so on. Each of these values is two levels deeper. Where no level
is left there may be no brackets. -/
def bracketed? : List (Reader Unit) → Option (Reader Unit)
  | [] => none
  | _ :: deeper => some (deeper.headD failure)

/-- Passes over a value, given readers for the values one level deeper, two levels deeper and so on.
The value of an option is one level deeper than the option. -/
def skipValue (d : Dialect) (deeper : List (Reader Unit)) : Reader Unit := do
  if ← constants.anyM acceptWord then return
  else if ← acceptWord "Some" then
    match deeper with
    | [] => failure
    | value :: rest => someValue d (skipEnclosed d value (bracketed? rest)) value
  else if (← attempt name).isNone then skipUnnamed (bracketed? deeper)
  else
    blanks
    if ← accept '(' then
      let some part := bracketed? deeper | failure
      skipGroup part

/-- Readers for the values inside which there are fewer levels than `levels`, those with the most
first. -/
def deeperReaders (d : Dialect) : Nat → List (Reader Unit)
  | 0 => []
  | levels + 1 =>
    let deeper := deeperReaders d levels
    skipValue d deeper :: deeper

/-- Passes over a value that may be nested so deep. -/
def skip (d : Dialect) (levels : Nat) : Reader Unit := skipValue d (deeperReaders d levels)

end Sequencer.Notation

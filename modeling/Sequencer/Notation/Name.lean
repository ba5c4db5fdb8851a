import Sequencer.Notation.Blank
import Sequencer.Text.Identifier

/-!
# Names

Types, fields and constants have names. After the mark `r#` a name may also hold points and signs.
-/

namespace Sequencer.Notation

open Reader

def isNameStart (c : Char) : Bool := Text.isIdentifierStart c || c == '_'

def isNameChar (c : Char) : Bool := Text.isIdentifierChar c

/-- The characters that only a name with a mark may hold. -/
def isMarkedNameChar (c : Char) : Bool := isNameChar c || c == '.' || c == '+' || c == '-'

/-- What a text in quotes with a mark starts with. No name starts like that. -/
def quoteMarks : List String := ["r\"", "r#\"", "r##", "b\"", "b'", "br\"", "br#"]

def name : Reader String := do
  let text ← get
  if quoteMarks.any fun mark => mark.toList.isPrefixOf text then failure
  else if "r#".toList.isPrefixOf text then
    expectAll "r#".toList
    let chars ← span isMarkedNameChar
    if chars.isEmpty then failure
    return .ofList chars
  else
    unless ← nextIs isNameStart do failure
    let chars ← span isNameChar
    if ← nextIs isMarkedNameChar then failure
    return .ofList chars

/-- Takes a word that has a meaning of its own if it comes next, and says whether it did. -/
def acceptWord (word : String) : Reader Bool := do
  let found ← attempt do
    expectAll word.toList
    if ← nextIs isNameChar then failure
  return found.isSome

end Sequencer.Notation

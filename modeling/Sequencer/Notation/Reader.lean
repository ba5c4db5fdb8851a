/-!
# Readers

A reader takes what it reads off the front of a text and leaves what follows. It fails where the
text is not what it should be; there is one kind of failure only.
-/

namespace Sequencer.Notation

/-- Reads something at the front of a text. -/
abbrev Reader := StateT (List Char) Option

namespace Reader

variable {α : Type}

def whole? (read : Reader α) (text : String) : Option α :=
  match read text.toList with
  | some (a, []) => some a
  | _ => none

/-- What can be read, if anything. Otherwise the text is left as it is. -/
def attempt (read : Reader α) : Reader (Option α) := fun text =>
  match read text with
  | some (a, rest) => some (some a, rest)
  | none => some (none, text)

/-- Whether something could be read. The text is left as it is. -/
def ahead (read : Reader α) : Reader Bool := fun text => some ((read text).isSome, text)

def next : Reader Char := fun text =>
  match text with
  | [] => none
  | c :: rest => some (c, rest)

/-- Takes a character if it comes next, and says whether it did. -/
def accept (c : Char) : Reader Bool := fun text =>
  match text with
  | [] => some (false, [])
  | d :: rest => if c = d then some (true, rest) else some (false, d :: rest)

def expect (c : Char) : Reader Unit := do
  unless ← accept c do failure

def expectAll (chars : List Char) : Reader Unit := fun text =>
  if chars.isPrefixOf text then some ((), text.drop chars.length) else none

/-- The characters from here on that belong to a class. -/
def span (p : Char → Bool) : Reader (List Char) := fun text =>
  some (text.takeWhile p, text.dropWhile p)

/-- Whether the next character belongs to a class. At the end of the text there is none. -/
def nextIs (p : Char → Bool) : Reader Bool := fun text => some (text.head?.any p, text)

end Reader

end Sequencer.Notation

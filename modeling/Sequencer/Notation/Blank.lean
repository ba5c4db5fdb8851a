import Sequencer.Notation.Reader

/-!
# Blanks and comments

Blanks and comments may stand between the parts of a text. A comment runs from two slashes to the
end of its line, or from a slash and a star to a star and a slash; of the second kind one may stand
inside another.
-/

namespace Sequencer.Notation

/-- The characters that stand for nothing. -/
def isBlank (c : Char) : Bool :=
  c == ' ' || (0x09 ≤ c.toNat && c.toNat ≤ 0x0d) || c.toNat == 0x85 || c.toNat == 0x200e ||
    c.toNat == 0x200f || c.toNat == 0x2028 || c.toNat == 0x2029

/-- What is being passed over. -/
inductive Gap
  | blanks
  | lineComment
  /-- A comment inside so many others. -/
  | blockComment (depth : Nat)

/-- What follows a gap. A slash that opens no comment and a comment that is not closed are
errors. -/
def Gap.skip? : Gap → List Char → Option (List Char)
  | blanks, '/' :: '/' :: rest => lineComment.skip? rest
  | blanks, '/' :: '*' :: rest => (blockComment 0).skip? rest
  | blanks, '/' :: _ => none
  | blanks, c :: rest => if isBlank c then blanks.skip? rest else some (c :: rest)
  | blanks, [] => some []
  | lineComment, '\n' :: rest => blanks.skip? rest
  | lineComment, _ :: rest => lineComment.skip? rest
  | lineComment, [] => some []
  | blockComment depth, '/' :: '*' :: rest => (blockComment (depth + 1)).skip? rest
  | blockComment 0, '*' :: '/' :: rest => blanks.skip? rest
  | blockComment (depth + 1), '*' :: '/' :: rest => (blockComment depth).skip? rest
  | blockComment depth, _ :: rest => (blockComment depth).skip? rest
  | blockComment _, [] => none

def blanks : Reader Unit := fun text => (Gap.blanks.skip? text).map ((), ·)

end Sequencer.Notation

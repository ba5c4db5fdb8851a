import Sequencer.Text.Printable

/-!
# Quoted text

A text in double quotes. A quote and a backslash are escaped by a backslash, so are the usual
control characters by their letters, and every other character that is not printable by its code
point.
-/

namespace Sequencer.Text

/-- How a character is written between quotes. -/
def escape (c : Char) : List Char :=
  match c with
  | '"' => ['\\', '"']
  | '\\' => ['\\', '\\']
  | '\n' => ['\\', 'n']
  | '\r' => ['\\', 'r']
  | '\t' => ['\\', 't']
  | '\x00' => ['\\', '0']
  | c =>
    if isPrintable c then [c]
    else ['\\', 'u', '{'] ++ Nat.toDigits 16 c.toNat ++ ['}']

def quoted (text : String) : String :=
  .ofList ('"' :: text.toList.flatMap escape ++ ['"'])

end Sequencer.Text

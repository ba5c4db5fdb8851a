import Sequencer.Notation.Blank

/-!
# Items in brackets

The fields of a record, the items of a list and the like are separated by commas, and a comma may
follow the last one.
-/

namespace Sequencer.Notation

open Reader

/-- Passes over blanks and a comma with the blanks after it, and says whether there was a comma. -/
def comma : Reader Bool := do
  blanks
  let found ← accept ','
  if found then blanks
  return found

variable {σ : Type}

/-- Reads at most `bound` items up to the closing character; each item takes the state on. -/
def boundedItems (item : σ → Reader σ) (closing : Char) : Nat → σ → Reader σ
  | 0, _ => failure
  | bound + 1, state => do
    blanks
    if ← accept closing then return state
    let state ← item state
    if ← comma then boundedItems item closing bound state
    else
      expect closing
      return state

/-- Reads items up to the closing character. An item has at least one character, so the length of
the text bounds their number. -/
def items (item : σ → Reader σ) (closing : Char) (state : σ) : Reader σ := fun text =>
  boundedItems item closing (text.length + 1) state text

end Sequencer.Notation

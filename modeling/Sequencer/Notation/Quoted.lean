import Sequencer.Notation.Reader
import Sequencer.Notation.Number

/-!
# Text in quotes

Texts, single characters and bytes stand in quotes. No field of a record holds any of them, so they
are checked and passed over: the readers here have no result.
-/

namespace Sequencer.Notation

open Reader

inductive QuoteKind
  | text
  | character
  | bytes
  | byte
  deriving DecidableEq

def hexDigit : Reader Nat := do
  let some value := hexValue? (← next) | failure
  return value

def hexByte : Reader Nat := do return 16 * (← hexDigit) + (← hexDigit)

/-- So many more bytes of a character whose first bytes come to `code`. Each has six bits of its
own. -/
def codeAfter : Nat → Nat → Reader Nat
  | 0, code => return code
  | count + 1, code => do
    expectAll ['\\', 'x']
    let byte ← hexByte
    unless 0x80 ≤ byte && byte < 0xc0 do failure
    codeAfter count (64 * code + (byte - 0x80))

/-- The bytes of a character after its first one. The first byte says how many there are, and they
are as few as the character allows. -/
def characterAfter (first : Nat) : Reader Unit := do
  let (count, code, least) ←
    if first < 0x80 then pure (0, first, 0)
    else if 0xc0 ≤ first && first < 0xe0 then pure (1, first - 0xc0, 0x80)
    else if 0xe0 ≤ first && first < 0xf0 then pure (2, first - 0xe0, 0x800)
    else if 0xf0 ≤ first && first < 0xf8 then pure (3, first - 0xf0, 0x10000)
    else failure
  let code ← codeAfter count code
  unless least ≤ code && code.isValidChar do failure

/-- The hexadecimal digits of a character up to the closing brace, at most `bound` of them. -/
def braced : Nat → Nat → Reader Nat
  | 0, code => do expect '}'; return code
  | bound + 1, code => do
    if ← accept '}' then return code else braced bound (16 * code + (← hexDigit))

/-- A character by its code point in braces, which has one to six digits. -/
def codePoint : Reader Unit := do
  expect '{'
  let code ← braced 5 (← hexDigit)
  unless code.isValidChar do failure

/-- What follows a backslash. In a text the bytes given one after the other make up a character. -/
def escape (kind : QuoteKind) : Reader Unit := do
  let c ← next
  if ['\'', '"', '\\', 'n', 'r', 't', '0'].contains c then return ()
  else if c == 'x' then
    let byte ← hexByte
    match kind with
    | .text => characterAfter byte
    | .character => unless byte < 0x80 do failure
    | .bytes | .byte => return ()
  else if c == 'u' && kind ≠ .byte then codePoint
  else failure

/-- The rest of a text or of bytes up to the closing quote, at most `bound` characters or
escapes. -/
def boundedQuoted (kind : QuoteKind) : Nat → Reader Unit
  | 0 => failure
  | bound + 1 => do
    let c ← next
    if c == '"' then return ()
    if c == '\\' then escape kind
    boundedQuoted kind bound

def quotedRest (kind : QuoteKind) : Reader Unit := fun text =>
  boundedQuoted kind (text.length + 1) text

/-- The rest of a single character or byte. Any one character may stand between the quotes, but a
byte is one of ASCII. -/
def singleRest (kind : QuoteKind) : Reader Unit := do
  let c ← next
  if c == '\\' then escape kind
  else if kind = .byte && 0x80 ≤ c.toNat then failure
  expect '\''

/-- What follows the first quote that has so many number signs after it. -/
def afterQuote? (signs : List Char) : List Char → Option (List Char)
  | [] => none
  | c :: rest =>
    if c == '"' && signs.isPrefixOf rest then some (rest.drop signs.length)
    else afterQuote? signs rest

/-- The rest of a text without escapes: number signs, and between quotes anything up to a quote that
as many of them follow. -/
def plainRest : Reader Unit := do
  let signs ← span (· == '#')
  expect '"'
  let some rest := afterQuote? signs (← get) | failure
  set rest

end Sequencer.Notation

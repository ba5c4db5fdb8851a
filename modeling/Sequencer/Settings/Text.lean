import Sequencer.Settings
import Sequencer.Notation.Layout
import Sequencer.Notation.Record

/-!
# Settings as text

Settings are stored as a record. A field that is missing has its standard value; fields with other
names are passed over. Values are checked after the whole text has been read.
-/

namespace Sequencer.Settings

open Notation

/-- The text of settings inside so many records. -/
def textAt (depth : Nat) (s : Settings) : String :=
  recordText depth
    [("maybe_probability", floatText s.maybeProbability),
      ("seed", optionText (s.seed.map fun seed => Nat.repr seed.toNat)),
      ("warn_on_instant_loops", boolText s.warnOnInstantLoops)]

def toText (s : Settings) : String := s.textAt 0

def fields (d : Dialect) : List (KnownField Settings) :=
  [⟨"maybe_probability", do
      let maybeProbability ← float
      return fun s => { s with maybeProbability }⟩,
    ⟨"seed", do
      let seed ← option d (nat .natural64)
      return fun s => { s with seed := seed.map UInt64.ofNat }⟩,
    ⟨"warn_on_instant_loops", do
      let warnOnInstantLoops ← bool
      return fun s => { s with warnOnInstantLoops }⟩]

/-- Reads settings that may be nested so deep, without a check of their ranges. -/
def read (levels : Nat) (d : Dialect) : Reader Settings :=
  record d levels "SequencerSettings" (fields d) standard

def ofText (text : String) : Except SettingsError Settings :=
  match ofText? (read maxLevels) text with
  | none => .error .malformed
  | some settings => settings.validate.map fun () => settings

/-- Reads settings from the content of a file, if there is one. -/
def load (content : Option String) : Except SettingsError Settings :=
  match content with
  | none => .error .unreadable
  | some text => ofText text

end Sequencer.Settings

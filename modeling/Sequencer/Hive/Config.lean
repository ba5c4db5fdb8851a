import Sequencer.Builder.Basic
import Sequencer.Settings.Text

/-!
# The configuration of a hive

How long a hive is run, in steps of what length, and with how many bees. A configuration is stored
as a record, with the settings of the behaviors as a record inside it.
-/

namespace Sequencer.Hive

/-- How long to run the hive and with how many bees. -/
structure Config where
  ticks : Nat
  /-- Seconds per tick. -/
  deltaTime : Float32
  bees : Nat
  /-- The settings of every behavior in the hive. -/
  sequencer : Settings
  deriving DecidableEq

inductive HiveError
  /-- The file of the configuration could not be read. -/
  | unreadable
  /-- The text does not describe a configuration. -/
  | malformed
  | badDeltaTime (deltaTime : Float32)
  | noBees
  | settings (error : SettingsError)
  | builder (error : BuildError)
  | behavior (error : TickError)
  deriving DecidableEq

def HiveError.message : HiveError → String
  | unreadable => "IO error"
  | malformed => "Parse error"
  | badDeltaTime dt => "Invalid config: delta_time must be positive, got " ++ Decimal.text32 dt
  | noBees => "Invalid config: the hive needs at least one bee"
  | settings error => error.message
  | builder error => "Bad behavior definition: " ++ error.message
  | behavior error => "Behavior failed: " ++ error.message

namespace Config

open Notation

/-- The configuration that holds where nothing else is said. -/
def standard : Config := ⟨600, 0.1, 3, .standard⟩

instance : Inhabited Config := ⟨standard⟩

def validate (c : Config) : Except HiveError Unit :=
  if !(c.deltaTime.isFinite && c.deltaTime > 0) then .error (.badDeltaTime c.deltaTime)
  else if c.bees == 0 then .error .noBees
  else
    match c.sequencer.validate with
    | .error error => .error (.settings error)
    | .ok () => .ok ()

/-- The settings of one bee. With a seed, each bee has a seed of its own, so that they do not all
make the same choices. -/
def settingsFor (c : Config) (index : Nat) : Settings :=
  { c.sequencer with seed := c.sequencer.seed.map (· + UInt64.ofNat index) }

def toText (c : Config) : String :=
  recordText 0
    [("ticks", Nat.repr c.ticks), ("delta_time", float32Text c.deltaTime),
      ("bees", Nat.repr c.bees), ("sequencer", c.sequencer.textAt 1)]

def fields (levels : Nat) (d : Dialect) : List (KnownField Config) :=
  [⟨"ticks", do
      let ticks ← nat .natural32
      return fun c => { c with ticks }⟩,
    ⟨"delta_time", do
      let deltaTime ← float32
      return fun c => { c with deltaTime }⟩,
    ⟨"bees", do
      let bees ← nat .natural32
      return fun c => { c with bees }⟩,
    ⟨"sequencer", do
      let sequencer ← Settings.read (levels - recordLevels) d
      return fun c => { c with sequencer }⟩]

/-- Reads a configuration that may be nested so deep, without a check of its ranges. -/
def read (levels : Nat) (d : Dialect) : Reader Config :=
  record d levels "DemoConfig" (fields levels d) standard

def ofText (text : String) : Except HiveError Config :=
  match ofText? (read maxLevels) text with
  | none => .error .malformed
  | some config => config.validate.map fun () => config

/-- Reads a configuration from the content of a file, if there is one. -/
def load (content : Option String) : Except HiveError Config :=
  match content with
  | none => .error .unreadable
  | some text => ofText text

end Config

end Sequencer.Hive

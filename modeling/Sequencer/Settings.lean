import Sequencer.Decimal.Shortest
import Sequencer.Random.Generator

/-!
# Settings

The settings that a builder applies to the sequences it makes.
-/

namespace Sequencer

structure Settings where
  /-- The probability that a step which may be skipped is run. -/
  maybeProbability : Float
  /-- The seed of the random draws; without one, it is supplied from outside. -/
  seed : Option UInt64
  /-- Whether an endless loop that never waits is worth a warning. -/
  warnOnInstantLoops : Bool
  deriving DecidableEq

inductive SettingsError
  /-- The file could not be read. -/
  | unreadable
  /-- The text does not describe settings. -/
  | malformed
  | probabilityOutOfRange (probability : Float)
  deriving DecidableEq

def SettingsError.message : SettingsError → String
  | unreadable => "IO error"
  | malformed => "Parse error"
  | probabilityOutOfRange p =>
    "Invalid settings: maybe_probability " ++ Decimal.text64 p ++ " is outside [0, 1]"

namespace Settings

/-- The settings that hold where nothing else is said. -/
def standard : Settings := ⟨0.5, none, true⟩

instance : Inhabited Settings := ⟨standard⟩

/-- Standard settings with a fixed seed, for runs that can be repeated. -/
def seeded (seed : UInt64) : Settings := { standard with seed := some seed }

def validate (s : Settings) : Except SettingsError Unit :=
  if isProbability s.maybeProbability then .ok ()
  else .error (.probabilityOutOfRange s.maybeProbability)

end Settings

end Sequencer

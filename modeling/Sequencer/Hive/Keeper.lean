import Sequencer.Hive.Bee

/-!
# The keeper

The keeper waits for nectar, fans the combs and caps a cell side by side, and then makes honey.
-/

namespace Sequencer.Hive

def nectarPerHoney : Float32 := 10

/-- What the keeper can see and change: the count of its capped cells and the stores. -/
structure Keeping where
  capped : Nat
  ledger : Ledger
  deriving DecidableEq

namespace Keeping

def hasNectar (k : Keeping) : Bool := k.ledger.nectar ≥ nectarPerHoney

def capCell (k : Keeping) : Keeping := { k with capped := k.capped + 1 }

def makeHoney (k : Keeping) : Effect Keeping Report :=
  if k.ledger.nectar < nectarPerHoney then
    ⟨[], k, .error (.invalidContext "not enough nectar to brew")⟩
  else
    let honey := k.ledger.honey + 1
    ⟨[.honeyMade honey],
      { k with ledger := { k.ledger with nectar := k.ledger.nectar - nectarPerHoney, honey } },
      .ok ()⟩

end Keeping

/-- All that the keeper does is waiting and moments, so it has no actions of its own. -/
instance : Behavior Empty Keeping Report where
  reload action := nomatch action

abbrev KeeperSequence := Sequence Empty Keeping Report

def fan (settings : Settings) : Builder Empty Keeping Report :=
  ((Builder.new "fan").withSettings settings).wait 2

def capCells (settings : Settings) : Builder Empty Keeping Report :=
  (((Builder.new "cap cells").withSettings settings).wait 1).andThen
    (.leaf (.callback (.modifying Keeping.capCell)))

/-- The loop of the keeper, with what it does side by side. -/
def brewLoop (settings : Settings) (sideBySide : List KeeperSequence) :
    Builder Empty Keeping Report :=
  Builder.new "brew"
    |>.withSettings settings
    |>.waitUntil (.reads Keeping.hasNectar)
    |>.inParallel sideBySide
    |>.andThen (.leaf (.callback (.fallible fun _ => Keeping.makeHoney)))
    |>.repeatForever

/-- The endless loop of the keeper. It takes three serial numbers, from `serial` on. -/
def brew (settings : Settings) (entropy : Entropy) (serial : Nat) :
    Construction KeeperSequence := do
  let fanning ← (fan settings).done entropy serial
  let capping ← (capCells settings).done entropy (serial + 1)
  (brewLoop settings [fanning, capping]).done entropy (serial + 2)

end Sequencer.Hive

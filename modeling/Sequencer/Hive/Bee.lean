import Sequencer.Builder.Basic

/-!
# Bees

A bee flies to the field, gathers nectar until it is full, flies home and hands its load over to the
stores, again and again, while its wings beat. It reaches the stores through its context.
-/

namespace Sequencer.Hive

/-- Distance from the hive to the flower field. -/
def fieldDistance : Float32 := 10

/-- Flight speed in distance per second. -/
def beeSpeed : Float32 := 4

def beeCapacity : Float32 := 5

def restSeconds : Float32 := 1

def wingbeatPeriod : Float32 := 0.25

/-- The stores of the hive. The counts of a hive have no bound, and agree with counts of 32 bits as
long as they are below 2 ^ 32. Honey, capped cells and the wing beats of a bee grow by at most one
in a tick, so this is so for 2 ^ 32 - 1 ticks; for deposits and for the wing beats of all bees it is
so if the bees times the ticks are below 2 ^ 32. -/
structure Ledger where
  /-- Nectar that has not been made into honey yet. -/
  nectar : Float32
  /-- Honey made so far. -/
  honey : Nat
  /-- Loads handed over so far. -/
  deposits : Nat
  deriving DecidableEq

def Ledger.empty : Ledger := ⟨0, 0, 0⟩

structure Bee where
  name : String
  /-- Distance from the hive. -/
  position : Float32
  /-- Nectar carried. -/
  load : Float32
  wingbeats : Nat
  deriving DecidableEq

def Bee.new (name : String) : Bee := ⟨name, 0, 0, 0⟩

def Bee.isFull (b : Bee) : Bool := b.load ≥ beeCapacity

/-- What a bee can see and change: itself and the stores. -/
structure Foraging where
  bee : Bee
  ledger : Ledger
  deriving DecidableEq

inductive Report
  | nectarDeposited (bee : String) (load stored : Float32)
  | takingOff (bee : String) (position target : Float32)
  | gathering (bee flower : String)
  | full (bee flower : String) (gathered : Float32)
  | cameHomeShort (bee : String) (load : Float32)
  | honeyMade (honey : Nat)
  deriving DecidableEq

namespace Report

def level : Report → Level
  | nectarDeposited .. | honeyMade .. => .info
  | takingOff .. | gathering .. | full .. => .debug
  | cameHomeShort .. => .warn

def message : Report → String
  | nectarDeposited .. => "nectar deposited"
  | takingOff .. => "taking off"
  | gathering .. => "gathering"
  | full .. => "full"
  | cameHomeShort .. => "came home short, dropping load"
  | honeyMade .. => "honey made"

end Report

namespace Foraging

def deposit (f : Foraging) : List Report × Foraging :=
  let stored := f.ledger.nectar + f.bee.load
  ([.nectarDeposited f.bee.name f.bee.load stored],
    { bee := { f.bee with load := 0 }
      ledger := { f.ledger with nectar := stored, deposits := f.ledger.deposits + 1 } })

def dropLoad (f : Foraging) : List Report × Foraging :=
  ([.cameHomeShort f.bee.name f.bee.load], { f with bee := { f.bee with load := 0 } })

def beatWings (f : Foraging) : Foraging :=
  { f with bee := { f.bee with wingbeats := f.bee.wingbeats + 1 } }

end Foraging

/-- What takes a bee more than a moment. -/
inductive BeeAction
  /-- Fly in a straight line to a distance from the hive. -/
  | fly (target : Float32) (arrived : Bool)
  /-- Collect nectar from one kind of flower, at a rate per second, until full. -/
  | gather (flower : String) (rate : Float32) (gathered : Float32)
  deriving DecidableEq

namespace BeeAction

def flyTo (target : Float32) : BeeAction := fly target false

def gatherFrom (flower : String) (rate : Float32) : BeeAction := gather flower rate 0

/-- Whether the way from `position` to `target` leads down, told by the sign of the gap. The gap
between equal infinities is not a number and counts as negative. -/
def leadsDown (position target : Float32) : Bool :=
  let gap := target - position
  if gap.isNaN then !target.isNaN else gap.toBits >>> 31 == 1

/-- The position after `stride` of the way from `position` to `target`, if it is not reached. -/
def approach (position target stride : Float32) : Option Float32 :=
  if (target - position).abs ≤ stride then none
  else some (position + if leadsDown position target then -stride.abs else stride.abs)

def limitLoad (load : Float32) : Float32 := if load < beeCapacity then load else beeCapacity

instance : Behavior BeeAction Foraging Report where
  start action f :=
    match action with
    | fly target _ => ⟨[.takingOff f.bee.name f.bee.position target], action, f, .ok ()⟩
    | gather flower .. =>
      if f.bee.position < fieldDistance then
        ⟨[], action, f, .error (.invalidContext (f.bee.name ++ " is not at the field"))⟩
      else ⟨[.gathering f.bee.name flower], action, f, .ok ()⟩
  update action f dt :=
    match action with
    | fly target arrived =>
      match approach f.bee.position target (beeSpeed * dt) with
      | none => ⟨[], fly target true, { f with bee := { f.bee with position := target } }, .ok ()⟩
      | some position =>
        ⟨[], fly target arrived, { f with bee := { f.bee with position } }, .ok ()⟩
    | gather flower rate gathered =>
      let load := limitLoad (f.bee.load + rate * dt)
      ⟨[], gather flower rate (gathered + (load - f.bee.load)),
        { f with bee := { f.bee with load } }, .ok ()⟩
  check action f :=
    match action with
    | fly _ arrived => ⟨[], action, .ok arrived⟩
    | gather .. => ⟨[], action, .ok f.bee.isFull⟩
  finish action f :=
    match action with
    | fly .. => ⟨[], action, f, .ok ()⟩
    | gather flower _ gathered => ⟨[.full f.bee.name flower gathered], action, f, .ok ()⟩
  reload action :=
    match action with
    | fly target _ => ([], flyTo target)
    | gather flower rate _ => ([], gatherFrom flower rate)

end BeeAction

abbrev BeeStep := Step BeeAction Foraging Report

abbrev BeeSequence := Sequence BeeAction Foraging Report

namespace BeeStep

def flyTo (target : Float32) : BeeStep := .leaf (.custom (.flyTo target))

def gatherFrom (flower : String) (rate : Float32) : BeeStep :=
  .leaf (.custom (.gatherFrom flower rate))

def deposit : BeeStep := .leaf (.callback (.noting Foraging.deposit))

def dropLoad : BeeStep := .leaf (.callback (.noting Foraging.dropLoad))

def beatWings : BeeStep := .leaf (.callback (.modifying Foraging.beatWings))

def rest : BeeStep := .leaf (.wait (.ofSeconds restSeconds))

end BeeStep

def beeIsFull : Condition Foraging Report := .reads fun f => f.bee.isFull

def wingbeat (settings : Settings) : Builder BeeAction Foraging Report :=
  ((((Builder.new "wingbeat").withSettings settings).wait wingbeatPeriod).andThen
    BeeStep.beatWings).repeatForever

/-- The foraging of a bee, with its wings beating alongside. -/
def forageLoop (settings : Settings) (wings : BeeSequence) : Builder BeeAction Foraging Report :=
  Builder.new "forage"
    |>.withSettings settings
    |>.andThen (BeeStep.flyTo fieldDistance)
    |>.randomOneOfWeighted
      [(3, BeeStep.gatherFrom "clover" 1), (1, BeeStep.gatherFrom "lavender" 2.5)]
    |>.maybe BeeStep.rest
    |>.andThen (BeeStep.flyTo 0)
    |>.ifHolds beeIsFull
    |>.andThen BeeStep.deposit
    |>.otherwise BeeStep.dropLoad
    |>.alongside wings
    |>.repeatForever

/-- The endless foraging of a bee. It takes two serial numbers, from `serial` on. -/
def forage (settings : Settings) (entropy : Entropy) (serial : Nat) : Construction BeeSequence := do
  let wings ← (wingbeat settings).done entropy serial
  (forageLoop settings wings).done entropy (serial + 1)

end Sequencer.Hive

import Sequencer.Tick
import Sequencer.Hive.Config
import Sequencer.Hive.Keeper

/-!
# Running a hive

A hive has bees and a keeper around one store. On every tick the bees are driven in order, and the
keeper after them; each gets the store as the one before left it.
-/

namespace Sequencer.Hive

inductive Line
  | behavior (event : LogEvent)
  | report (report : Report)
  | hiveOpen (bees ticks : Nat)
  deriving DecidableEq

namespace Line

def level : Line → Level
  | behavior event => event.level
  | report r => r.level
  | hiveOpen .. => .info

def message : Line → String
  | behavior event => event.message
  | report r => r.message
  | hiveOpen .. => "hive open"

end Line

def journal (trace : Trace Report) : List Line :=
  trace.filterMap fun e => match e.event with
    | .log event => some (.behavior event)
    | .note r => some (.report r)
    | _ => none

structure Forager where
  bee : Bee
  behavior : BeeSequence

/-- Everyone in the hive, and the stores. -/
structure Colony where
  ledger : Ledger
  foragers : List Forager
  /-- Cells capped by the keeper. -/
  capped : Nat
  brewing : KeeperSequence

structure Totals where
  ticks : Nat
  ledger : Ledger
  /-- The wing beats of all bees. -/
  wingbeats : Nat
  capped : Nat
  deriving DecidableEq

def beeName (index : Nat) : String := "bee-" ++ Nat.repr index

/-- The bees from `index` on, `count` of them. Bee number `i` takes the serial numbers `2 * i` and
`2 * i + 1`. -/
def recruit (config : Config) (entropy : Entropy) (index : Nat) :
    Nat → Construction (List Forager)
  | 0 => pure []
  | count + 1 => do
    let behavior ← forage (config.settingsFor index) entropy (2 * index)
    let rest ← recruit config entropy (index + 1) count
    return ⟨.new (beeName index), behavior⟩ :: rest

/-- How many serial numbers a colony takes: two for each bee, and three for the keeper. -/
def serialsTaken (config : Config) : Nat := 2 * config.bees + 3

/-- A colony before its first tick. -/
def Colony.found (config : Config) (entropy : Entropy) : Construction Colony := do
  let foragers ← recruit config entropy 0 config.bees
  let brewing ← brew config.sequencer entropy (2 * config.bees)
  return { ledger := .empty, foragers, capped := 0, brewing }

structure ForagersTick where
  lines : List Line
  ledger : Ledger
  foragers : List Forager
  result : Except TickError Unit

/-- Drives bees in order, up to the first that fails. -/
def tickForagers (dt : Float32) (ledger : Ledger) : List Forager → ForagersTick
  | [] => ⟨[], ledger, [], .ok ()⟩
  | ⟨bee, behavior⟩ :: rest =>
    let ticked := behavior.advance dt ⟨bee, ledger⟩
    let forager : Forager := ⟨ticked.context.bee, ticked.sequence⟩
    match ticked.result with
    | .error e => ⟨journal ticked.trace, ticked.context.ledger, forager :: rest, .error e⟩
    | .ok _ =>
      let later := tickForagers dt ticked.context.ledger rest
      { later with
        lines := journal ticked.trace ++ later.lines
        foragers := forager :: later.foragers }

/-- What one or more ticks of a colony came to. -/
structure ColonyTick where
  lines : List Line
  colony : Colony
  result : Except TickError Unit

namespace Colony

def tick (c : Colony) (dt : Float32) : ColonyTick :=
  let bees := tickForagers dt c.ledger c.foragers
  match bees.result with
  | .error e =>
    ⟨bees.lines, { c with ledger := bees.ledger, foragers := bees.foragers }, .error e⟩
  | .ok () =>
    let keeper := c.brewing.advance dt ⟨c.capped, bees.ledger⟩
    { lines := bees.lines ++ journal keeper.trace
      colony :=
        { ledger := keeper.context.ledger
          foragers := bees.foragers
          capped := keeper.context.capped
          brewing := keeper.sequence }
      result := keeper.result.map fun _ => () }

/-- Drives the colony for a number of ticks, up to the first that fails. -/
def ticks (dt : Float32) : Nat → Colony → ColonyTick
  | 0, c => ⟨[], c, .ok ()⟩
  | count + 1, c =>
    let first := c.tick dt
    match first.result with
    | .error e => ⟨first.lines, first.colony, .error e⟩
    | .ok () =>
      let later := ticks dt count first.colony
      { later with lines := first.lines ++ later.lines }

def totals (c : Colony) (ticks : Nat) : Totals where
  ticks
  ledger := c.ledger
  wingbeats := c.foragers.foldl (fun total forager => total + forager.bee.wingbeats) 0
  capped := c.capped

end Colony

structure Run where
  lines : List Line
  result : Except HiveError Totals

def run (config : Config) (entropy : Entropy) : Run :=
  match config.validate with
  | .error error => ⟨[], .error error⟩
  | .ok () =>
    let founded := Colony.found config entropy
    let built := founded.log.map Line.behavior
    match founded.result with
    | .error error => ⟨built, .error (.builder error)⟩
    | .ok colony =>
      let ran := colony.ticks config.deltaTime config.ticks
      { lines := built ++ .hiveOpen config.bees config.ticks :: ran.lines
        result := match ran.result with
          | .error error => .error (.behavior error)
          | .ok () => .ok (ran.colony.totals config.ticks) }

end Sequencer.Hive

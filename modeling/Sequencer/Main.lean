import Sequencer.Hive.Run

/-!
# The hive on the command line

Runs a hive as a configuration file says, or as by default, and prints the journal and the totals.
-/

namespace Sequencer.Hive

/-- A line of the journal as it is printed: the level, the message and the particulars. -/
def Line.text (line : Line) : String :=
  let particulars := match line with
    | .behavior (.instantLoop name) => ["sequence=" ++ name]
    | .behavior _ => []
    | .report (.nectarDeposited bee load stored) =>
      ["bee=" ++ bee, "load=" ++ Decimal.text32 load, "stored=" ++ Decimal.text32 stored]
    | .report (.cameHomeShort bee load) => ["bee=" ++ bee, "load=" ++ Decimal.text32 load]
    | .report (.honeyMade honey) => ["honey=" ++ Nat.repr honey]
    | .report _ => []
    | .hiveOpen bees ticks => ["bees=" ++ Nat.repr bees, "ticks=" ++ Nat.repr ticks]
  " ".intercalate (line.level.name :: line.message :: particulars)

def Totals.text (t : Totals) : String :=
  " ".intercalate
    ["INFO", "hive closed", "ticks=" ++ Nat.repr t.ticks, "deposits=" ++ Nat.repr t.ledger.deposits,
      "nectar=" ++ Decimal.text32 t.ledger.nectar, "honey=" ++ Nat.repr t.ledger.honey,
      "capped=" ++ Nat.repr t.capped, "wingbeats=" ++ Nat.repr t.wingbeats]

/-- The journal lines that are shown: reports of importance and warnings. -/
def Line.isShown (line : Line) : Bool := Level.info.rank ≤ line.level.rank

/-- A key from the random source of the system. -/
def systemKey : IO Random.Key := do
  let bytes ← IO.getRandomBytes 32
  return Vector.ofFn fun word =>
    (List.range 4).foldr (fun i rest => rest <<< 8 ||| (bytes.get! (4 * word + i)).toUInt32) 0

end Sequencer.Hive

open Sequencer.Hive in
/-- Runs the hive of the first argument, a configuration file. The exit code is one if it failed. -/
def main (arguments : List String) : IO UInt32 := do
  let loaded ← match arguments with
    | [] => pure (Except.ok Config.standard)
    | path :: _ => do
      let content ← try some <$> IO.FS.readFile path catch _ => pure none
      pure (Config.load content)
  match loaded with
  | .error error =>
    IO.eprintln ("ERROR Failed to load: " ++ error.message)
    return 1
  | .ok config =>
    let keys ← (List.range (serialsTaken config)).mapM fun _ => systemKey
    let run := run config fun serial => keys.getD serial (.ofSeed 0)
    for line in run.lines do
      if line.isShown then IO.println line.text
    match run.result with
    | .error error =>
      IO.eprintln ("ERROR Hive crashed: " ++ error.message)
      return 1
    | .ok totals =>
      IO.println totals.text
      return 0

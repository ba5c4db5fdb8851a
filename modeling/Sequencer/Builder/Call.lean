import Sequencer.Builder.Basic

/-!
# Chains of builder calls

The calls of a builder as data, so that a whole chain is a list.
-/

namespace Sequencer

inductive Call (A C N : Type)
  | withSettings (settings : Settings)
  | seed (seed : UInt64)
  | run (step : Step A C N)
  | andThen (step : Step A C N)
  | ifHolds (guard : Condition C N)
  | ifAll (guards : List (Condition C N))
  | orIf (guard : Condition C N)
  | otherwise (step : Step A C N)
  | waitUntil (condition : Condition C N)
  | wait (seconds : Float32)
  | randomOneOf (options : List (Step A C N))
  | randomOneOfWeighted (options : List (Float × Step A C N))
  | maybe (step : Step A C N)
  | maybeWith (probability : Float) (step : Step A C N)
  | inParallel (sequences : List (Sequence A C N))
  | alongside (companion : Sequence A C N)
  | repeatTimes (count : Nat)
  | repeatUntil (condition : Condition C N)
  | repeatForever

namespace Builder

variable {A C N : Type}

def apply (b : Builder A C N) : Call A C N → Builder A C N
  | .withSettings settings => b.withSettings settings
  | .seed seed => b.seed seed
  | .run step => b.run step
  | .andThen step => b.andThen step
  | .ifHolds guard => b.ifHolds guard
  | .ifAll guards => b.ifAll guards
  | .orIf guard => b.orIf guard
  | .otherwise step => b.otherwise step
  | .waitUntil condition => b.waitUntil condition
  | .wait seconds => b.wait seconds
  | .randomOneOf options => b.randomOneOf options
  | .randomOneOfWeighted options => b.randomOneOfWeighted options
  | .maybe step => b.maybe step
  | .maybeWith probability step => b.maybeWith probability step
  | .inParallel sequences => b.inParallel sequences
  | .alongside companion => b.alongside companion
  | .repeatTimes count => b.repeatTimes count
  | .repeatUntil condition => b.repeatUntil condition
  | .repeatForever => b.repeatForever

def ofCalls (name : String) (calls : List (Call A C N)) : Builder A C N :=
  calls.foldl apply (new name)

/-- Makes a call and logs it if it is a misuse. A fatal misuse ends the construction. -/
def applyLogged (b : Builder A C N) (call : Call A C N) : Construction (Builder A C N) :=
  let called := b.apply call
  let fresh := called.misuses.drop b.misuses.length
  { log := fresh.map fun error => .misuse b.name error.message
    result := match fresh.find? BuildError.isFatal with
      | some error => .error error
      | none => .ok called }

/-- Finishes a definition whose calls have been logged already. -/
def doneLogged (b : Builder A C N) (entropy : Entropy) (serial : Nat) :
    Construction (Sequence A C N) :=
  ⟨b.fullLog.drop b.log.length, b.result entropy serial⟩

end Builder

end Sequencer

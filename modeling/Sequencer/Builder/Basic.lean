import Sequencer.Branch
import Sequencer.Group
import Sequencer.Settings

/-!
# Builders

A builder collects the definition of a sequence call by call. A guard opens a block of guarded arms;
the block is closed by its fallback, or by the next call that is not part of it. A call that makes
no sense is recorded as a misuse and otherwise passed over; `Builder.done` reports the first misuse
of the chain.
-/

namespace Sequencer

inductive BuildError
  | orWithoutIf
  | orIfWithoutIf
  | missingThen
  | emptyIf
  | repeatAlreadySet
  | zeroRepeatCount
  | choice (error : ChoiceError)
  | invalidDuration (seconds : Float32)
  deriving DecidableEq

def ChoiceError.message : ChoiceError → String
  | noAlternative => "random choice needs at least one alternative"
  | invalidProbability p => "probability " ++ Decimal.text64 p ++ " is outside [0, 1]"
  | invalidWeights fault => "invalid weights: " ++ fault.message

def BuildError.message : BuildError → String
  | orWithoutIf => "`or` used without a preceding `if_`/`then`"
  | orIfWithoutIf => "`or_if` used without a preceding `if_`/`then`"
  | missingThen => "`if_` guard is missing its `then`"
  | emptyIf => "`if_all` needs at least one guard"
  | repeatAlreadySet => "repetition policy already set"
  | zeroRepeatCount => "repeat count must be at least 1"
  | choice error => error.message
  | invalidDuration seconds => "invalid wait duration: " ++ Decimal.text32 seconds

/-- A choice by weights whose sum is infinite. No builder can go on after it: it is reported before
any other misuse. -/
def BuildError.isFatal : BuildError → Bool
  | choice (.invalidWeights .unbounded) => true
  | _ => false

/-- A block of guarded arms that is not closed yet. -/
structure OpenBlock (A C N : Type) where
  arms : List (Condition C N × Step A C N)
  /-- The guard that waits for its step. -/
  pending : Option (Condition C N)

/-- The definition of a sequence under construction. -/
structure Builder (A C N : Type) where
  name : String
  settings : Settings
  steps : List (Step A C N)
  policy : Option (Policy C N)
  companions : List (Sequence A C N)
  block : Option (OpenBlock A C N)
  /-- Every misuse so far, the earliest first. -/
  misuses : List BuildError

/-- The key of each sequence that is built without a seed, by its serial number. -/
abbrev Entropy := Nat → Random.Key

namespace Builder

variable {A C N : Type}

def new (name : String) : Builder A C N := ⟨name, .standard, [], none, [], none, []⟩

def fail (b : Builder A C N) (error : BuildError) : Builder A C N :=
  { b with misuses := b.misuses ++ [error] }

/-- Turns an open block into a branch without a fallback. -/
def closeBlock (b : Builder A C N) : Builder A C N :=
  match b.block with
  | none => b
  | some ⟨_, some _⟩ => { b with block := none }.fail .missingThen
  | some ⟨arms, none⟩ =>
    { b with block := none, steps := b.steps ++ [.branch (.guarded arms none)] }

def push (b : Builder A C N) (step : Step A C N) : Builder A C N :=
  let b := b.closeBlock
  { b with steps := b.steps ++ [step] }

/-- Closes an open block and sets the repetition policy, which can be done once. -/
def setPolicy (b : Builder A C N) (policy : Policy C N) : Builder A C N :=
  let b := b.closeBlock
  if b.policy.isSome then b.fail .repeatAlreadySet else { b with policy := some policy }

def openBlock (b : Builder A C N) (guard : Condition C N) : Builder A C N :=
  { b.closeBlock with block := some ⟨[], some guard⟩ }

def pushChoice (b : Builder A C N) (branch : Except ChoiceError (Branch A C N)) : Builder A C N :=
  match branch with
  | .ok branch => b.push (.branch branch)
  | .error error => b.fail (.choice error)

def withSettings (b : Builder A C N) (settings : Settings) : Builder A C N :=
  let b := match settings.validate with
    | .ok () => b
    | .error _ => b.fail (.choice (.invalidProbability settings.maybeProbability))
  { b with settings }

def seed (b : Builder A C N) (seed : UInt64) : Builder A C N :=
  { b with settings := { b.settings with seed := some seed } }

def run (b : Builder A C N) (step : Step A C N) : Builder A C N := b.push step

/-- Gives the waiting guard its step, or appends a step if no guard waits. -/
def andThen (b : Builder A C N) (step : Step A C N) : Builder A C N :=
  match b.block with
  | some ⟨arms, some guard⟩ => { b with block := some ⟨arms ++ [(guard, step)], none⟩ }
  | _ => b.push step

def ifHolds (b : Builder A C N) (guard : Condition C N) : Builder A C N := b.openBlock guard

/-- Opens a block whose first arm needs every guard. -/
def ifAll (b : Builder A C N) (guards : List (Condition C N)) : Builder A C N :=
  let b := if guards.isEmpty then b.fail .emptyIf else b
  b.openBlock (.all guards)

/-- Adds an arm to the open block. A block whose guard waits for its step is given up. -/
def orIf (b : Builder A C N) (guard : Condition C N) : Builder A C N :=
  match b.block with
  | none => b.fail .orIfWithoutIf
  | some ⟨_, some _⟩ => { b with block := none }.fail .missingThen
  | some ⟨arms, none⟩ => { b with block := some ⟨arms, some guard⟩ }

/-- Closes the open block with a step that runs when no guard holds. A block whose guard waits for
its step is given up. -/
def otherwise (b : Builder A C N) (step : Step A C N) : Builder A C N :=
  match b.block with
  | none => b.fail .orWithoutIf
  | some ⟨_, some _⟩ => { b with block := none }.fail .missingThen
  | some ⟨arms, none⟩ =>
    { b with block := none, steps := b.steps ++ [.branch (.guarded arms (some step))] }

def waitUntil (b : Builder A C N) (condition : Condition C N) : Builder A C N :=
  b.push (.leaf (.waitUntil condition))

/-- Appends a step that blocks for some seconds of tick time. -/
def wait (b : Builder A C N) (seconds : Float32) : Builder A C N :=
  if seconds.isFinite && seconds ≥ 0 then b.push (.leaf (.wait (.ofSeconds seconds)))
  else b.fail (.invalidDuration seconds)

def randomOneOf (b : Builder A C N) (options : List (Step A C N)) : Builder A C N :=
  b.pushChoice (Branch.uniform options)

def randomOneOfWeighted (b : Builder A C N) (options : List (Float × Step A C N)) :
    Builder A C N :=
  b.pushChoice (Branch.weighted options)

/-- Appends a step that is run with the given probability. -/
def maybeWith (b : Builder A C N) (probability : Float) (step : Step A C N) : Builder A C N :=
  b.pushChoice (Branch.chance probability step)

/-- Appends a step that is run with the probability of the settings. -/
def maybe (b : Builder A C N) (step : Step A C N) : Builder A C N :=
  b.maybeWith b.settings.maybeProbability step

def inParallel (b : Builder A C N) (sequences : List (Sequence A C N)) : Builder A C N :=
  b.push (.parallel (.ofList .all sequences))

/-- Adds a companion, which is ticked after the sequence on every tick. -/
def alongside (b : Builder A C N) (companion : Sequence A C N) : Builder A C N :=
  { b with companions := b.companions ++ [companion] }

def repeatTimes (b : Builder A C N) (count : Nat) : Builder A C N :=
  if count == 0 then b.fail .zeroRepeatCount else b.setPolicy (.count count)

def repeatUntil (b : Builder A C N) (condition : Condition C N) : Builder A C N :=
  b.setPolicy (.untilHolds condition)

def repeatForever (b : Builder A C N) : Builder A C N := b.setPolicy .forever

/-- The misuse that is reported: a fatal one if there is any, else the first. -/
def fault? (b : Builder A C N) : Option BuildError :=
  b.misuses.find? BuildError.isFatal <|> b.misuses.head?

/-- The sequence that the builder describes. The serial number has to be a new one. -/
def toSequence (b : Builder A C N) (entropy : Entropy) (serial : Nat) : Sequence A C N where
  id := .serial serial
  name := b.name
  steps := b.steps
  policy := b.policy.getD .once
  companions := (Group.ofList .never b.companions).members
  generator := .ofSeedOr (entropy serial) b.settings.seed
  warnOnInstantLoops := b.settings.warnOnInstantLoops
  warned := false
  progress := .initial (b.policy.getD .once)

def log (b : Builder A C N) : List LogEvent :=
  b.misuses.map fun error => .misuse b.name error.message

def result (b : Builder A C N) (entropy : Entropy) (serial : Nat) :
    Except BuildError (Sequence A C N) :=
  let b := b.closeBlock
  match b.fault? with
  | some error => .error error
  | none => .ok (b.toSequence entropy serial)

/-- The log lines of the whole chain, with the line of the finished sequence if there is one. -/
def fullLog (b : Builder A C N) : List LogEvent :=
  let b := b.closeBlock
  b.log ++ if b.fault?.isNone then [.built b.name b.steps.length] else []

end Builder

structure Construction (α : Type) where
  log : List LogEvent
  result : Except BuildError α

namespace Construction

def andThen {α β : Type} (c : Construction α) (next : α → Construction β) : Construction β :=
  match c.result with
  | .error error => ⟨c.log, .error error⟩
  | .ok a => ⟨c.log ++ (next a).log, (next a).result⟩

instance : Monad Construction where
  pure a := ⟨[], .ok a⟩
  bind := andThen

end Construction

/-- Finishes the definition, with the log lines of the whole chain. -/
def Builder.done {A C N : Type} (b : Builder A C N) (entropy : Entropy) (serial : Nat) :
    Construction (Sequence A C N) :=
  ⟨b.fullLog, b.result entropy serial⟩

end Sequencer

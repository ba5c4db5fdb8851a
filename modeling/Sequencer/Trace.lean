import Sequencer.TickError

/-!
# What happened during a tick

Everything observable that a tick does is an `Event`: log lines, the notes that actions and
conditions leave, hook calls with their results, guard evaluations and random draws. An `Entry`
says where in the tree the event took place, and a `Trace` lists the entries in the order of time.
-/

namespace Sequencer

inductive StepShape
  | leaf
  | nested
  | parallel
  | branch
  deriving DecidableEq

def StepShape.name : StepShape → String
  | leaf => "leaf"
  | nested => "nested"
  | parallel => "parallel"
  | branch => "branch"

inductive PolicyName
  | once
  | count
  | untilHolds
  | forever
  deriving DecidableEq

def PolicyName.text : PolicyName → String
  | once => "once"
  | count => "count"
  | untilHolds => "until"
  | forever => "forever"

/-- How important a log line is, from the least to the most. -/
inductive Level
  | trace
  | debug
  | info
  | warn
  deriving DecidableEq

def Level.name : Level → String
  | trace => "TRACE"
  | debug => "DEBUG"
  | info => "INFO"
  | warn => "WARN"

/-- The rank of a level; a reader who asks for a level also gets all of higher rank. -/
def Level.rank : Level → Nat
  | trace => 0
  | debug => 1
  | info => 2
  | warn => 3

/-- A log line of a sequence or of its construction. -/
inductive LogEvent
  | misuse (sequence : String) (message : String)
  | built (sequence : String) (steps : Nat)
  | sequenceStarted (sequence : String) (steps : Nat) (policy : PolicyName)
  | sequenceComplete (sequence : String) (passes : Nat)
  | sequenceWrapped (sequence : String) (pass : Nat)
  | instantLoop (sequence : String)
  | branchSelected (chosen : Option Nat)
  | stepActivated (shape : StepShape)
  | stepComplete (shape : StepShape)
  deriving DecidableEq

namespace LogEvent

def level : LogEvent → Level
  | instantLoop .. => .warn
  | branchSelected .. | stepActivated .. | stepComplete .. => .trace
  | misuse .. | built .. | sequenceStarted .. | sequenceComplete .. | sequenceWrapped .. => .debug

def message : LogEvent → String
  | misuse .. => "builder misuse"
  | built .. => "sequence built"
  | sequenceStarted .. => "sequence started"
  | sequenceComplete .. => "sequence complete"
  | sequenceWrapped .. => "sequence wrapped"
  | instantLoop .. => "every step of a repeat-forever pass completed on its first update; " ++
      "add a wait so the loop spans ticks"
  | branchSelected .. => "branch selected"
  | stepActivated .. => "step activated"
  | stepComplete .. => "step complete"

end LogEvent

/-- Something observable that takes place during a tick. `N` is the type of the notes that the
actions and conditions of an application leave. -/
inductive Event (N : Type)
  | log (line : LogEvent)
  | note (n : N)
  /-- A step or a sequence was ticked. -/
  | ticked
  /-- A base condition was asked, and answered. -/
  | tested (answer : Except TickError Bool)
  /-- The function of a callback was run. -/
  | ran (result : Except TickError Unit)
  /-- An action was made ready for another activation. -/
  | reloaded
  | started (result : Except TickError Unit)
  | updated (result : Except TickError Unit)
  | checked (answer : Except TickError Bool)
  | ended (result : Except TickError Unit)
  /-- The guard of an arm of a branch was evaluated. -/
  | guarded (arm : Nat) (answer : Except TickError Bool)
  /-- A branch consulted its random source. -/
  | drew
  /-- The condition that ends a repetition was evaluated. -/
  | repeatChecked (answer : Except TickError Bool)

/-- One edge of the tree of sequences and steps, from the outside in. -/
inductive Hop
  | step (index : Nat)
  | body
  | member (index : Nat)
  | companion (index : Nat)
  | child (index : Nat)
  deriving DecidableEq

/-- An event and the place where it happened, as the path from the root of the tree. -/
structure Entry (N : Type) where
  path : List Hop
  event : Event N

/-- The entries of a tick, the earliest first. -/
abbrev Trace (N : Type) := List (Entry N)

namespace Trace

variable {N : Type}

/-- Events at the root of the tree. -/
def here (events : List (Event N)) : Trace N := events.map fun e => ⟨[], e⟩

@[simp] theorem here_nil : here ([] : List (Event N)) = [] := rfl

def line (event : LogEvent) : Trace N := [⟨[], .log event⟩]

/-- A trace of a subtree, seen from one hop further out. -/
def under (hop : Hop) (trace : Trace N) : Trace N :=
  trace.map fun e => ⟨hop :: e.path, e.event⟩

/-- The events that took place exactly at `path`. -/
def eventsAt (path : List Hop) (trace : Trace N) : List (Event N) :=
  (trace.filter fun e => e.path = path).map Entry.event

def notes (trace : Trace N) : List N :=
  trace.filterMap fun e => match e.event with
    | .note n => some n
    | _ => none

def log (trace : Trace N) : List LogEvent :=
  trace.filterMap fun e => match e.event with
    | .log line => some line
    | _ => none

@[simp] theorem notes_append (t u : Trace N) : notes (t ++ u) = notes t ++ notes u := by
  simp [notes]

@[simp] theorem log_append (t u : Trace N) : log (t ++ u) = log t ++ log u := by
  simp [log]

@[simp] theorem notes_under (hop : Hop) (t : Trace N) : notes (t.under hop) = notes t := by
  rw [notes, under, List.filterMap_map]
  rfl

@[simp] theorem log_under (hop : Hop) (t : Trace N) : log (t.under hop) = log t := by
  rw [log, under, List.filterMap_map]
  rfl

end Trace

end Sequencer

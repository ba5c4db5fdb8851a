import Sequencer.Action
import Sequencer.Random.Generator

/-!
# The tree of sequences and steps

A sequence is a list of steps with a repetition policy. A step holds an action, another sequence, a
group of sequences that run side by side, or a branch that picks one of several steps. The tree
holds the definition and the state of its run together: what never changes, such as the policy,
stands beside what a tick moves on, such as the cursor.
-/

namespace Sequencer

/-- What tells a sequence apart from all others: a number that its owner gave it, or the serial
number under which it was built. -/
inductive SequenceId
  | given (number : Nat)
  | serial (number : Nat)
  deriving DecidableEq

/-- The state of a step within one activation. -/
inductive StepState
  /-- Not entered yet, or to be entered again. -/
  | notStarted
  /-- Entered, and driven on every tick. -/
  | active
  /-- Finished for this activation. -/
  | complete
  deriving DecidableEq

inductive Status
  /-- Never ticked, or reset. -/
  | notStarted
  | running
  /-- Finished; only the companions are still ticked. -/
  | complete
  deriving DecidableEq

/-- What a tick came to: more ticks are needed, or none. -/
inductive Outcome
  | running
  | complete
  deriving DecidableEq

/-- What happens when the last step of a pass has completed. -/
inductive Policy (C N : Type)
  | once
  /-- Run this many passes in all. -/
  | count (passes : Nat)
  /-- Run again until the condition holds at the end of a pass. -/
  | untilHolds (condition : Condition C N)
  | forever

def Policy.name {C N : Type} : Policy C N → PolicyName
  | once => .once
  | count _ => .count
  | untilHolds _ => .untilHolds
  | forever => .forever

/-- When a group counts as complete. -/
inductive Completion
  /-- Once every member is complete. -/
  | all
  /-- Once some member is complete. -/
  | any
  | never
  deriving DecidableEq

/-- Whether a group of `size` members, `complete` of them complete, counts as complete. -/
def Completion.isMet (complete size : Nat) : Completion → Bool
  | all => complete == size
  | any => 0 < complete
  | never => false

/-- How a branch picks its child. -/
inductive Selector (C N : Type)
  /-- The child at the index of the first guard that holds; else the fallback, which is the child
  after all guarded ones; else none. -/
  | guarded (guards : List (Condition C N)) (fallback : Bool)
  /-- Every child equally likely. -/
  | uniform
  /-- Each child with a likelihood in proportion to its weight. -/
  | weighted (weights : List Float)
  /-- The single child with this probability, else none. -/
  | chance (probability : Float)

/-- Where a sequence stands since it was last started. -/
structure Progress where
  status : Status
  /-- The index of the step that is driven. -/
  cursor : Nat
  /-- The number of finished passes. -/
  passes : Nat
  /-- The passes that a counted repetition has left, the running one included. -/
  remaining : Nat
  /-- Whether some step of this pass did not complete when it was ticked. -/
  blocked : Bool
  deriving DecidableEq

mutual

structure Step (A C N : Type) where
  state : StepState
  kind : StepKind A C N

inductive StepKind (A C N : Type)
  | leaf (action : Action A C N)
  | nested (body : Sequence A C N)
  | parallel (group : Group A C N)
  | branch (branch : Branch A C N)

/-- A choice between steps, made once per activation. -/
structure Branch (A C N : Type) where
  selector : Selector C N
  children : List (Step A C N)
  /-- The index that the latest selection picked. -/
  chosen : Option Nat

/-- Sequences that run side by side, in the order in which they are ticked. -/
structure Group (A C N : Type) where
  completion : Completion
  members : List (Sequence A C N)

/-- A list of steps that run one after the other, repeated as the policy says. -/
structure Sequence (A C N : Type) where
  id : SequenceId
  name : String
  steps : List (Step A C N)
  policy : Policy C N
  /-- Sequences that are ticked after this one on every tick. -/
  companions : List (Sequence A C N)
  generator : Generator
  /-- Whether an endless loop that never waits is worth a warning. -/
  warnOnInstantLoops : Bool
  /-- Whether that warning has been given. -/
  warned : Bool
  progress : Progress

end

variable {A C N : Type}

def StepKind.shape : StepKind A C N → StepShape
  | leaf _ => .leaf
  | nested _ => .nested
  | parallel _ => .parallel
  | branch _ => .branch

namespace Step

/-- A step that has not been entered. -/
def ofKind (kind : StepKind A C N) : Step A C N := ⟨.notStarted, kind⟩

def leaf (action : Action A C N) : Step A C N := ofKind (.leaf action)

def nested (body : Sequence A C N) : Step A C N := ofKind (.nested body)

def parallel (group : Group A C N) : Step A C N := ofKind (.parallel group)

def branch (branch : Branch A C N) : Step A C N := ofKind (.branch branch)

/-- Forgets the activation, so that the next tick enters the step again. No hook is called. -/
def reset (s : Step A C N) : Step A C N := { s with state := .notStarted }

end Step

namespace Branch

def size (b : Branch A C N) : Nat := b.children.length

def isEmpty (b : Branch A C N) : Bool := b.children.isEmpty

/-- The step that the latest selection picked. -/
def chosenStep? (b : Branch A C N) : Option (Step A C N) := b.chosen.bind (b.children[·]?)

end Branch

namespace Sequence

def status (s : Sequence A C N) : Status := s.progress.status

def isComplete (s : Sequence A C N) : Bool := s.status == .complete

def cursor (s : Sequence A C N) : Nat := s.progress.cursor

def passes (s : Sequence A C N) : Nat := s.progress.passes

def size (s : Sequence A C N) : Nat := s.steps.length

def isEmpty (s : Sequence A C N) : Bool := s.steps.isEmpty

def stepState? (s : Sequence A C N) (index : Nat) : Option StepState :=
  s.steps[index]?.map Step.state

/-- The companions as a group, if there are any. Companions never complete as a group. -/
def companionGroup? (s : Sequence A C N) : Option (Group A C N) :=
  if s.companions.isEmpty then none else some ⟨.never, s.companions⟩

end Sequence

namespace Progress

/-- The progress of a sequence that has not been ticked since its last reset. -/
def initial (policy : Policy C N) : Progress where
  status := .notStarted
  cursor := 0
  passes := 0
  remaining := match policy with
    | .count n => n
    | _ => 0
  blocked := false

end Progress

mutual

/-- Throws the state of the run away, so that the next tick starts from scratch. No hook is called,
and what the steps hold is reset only when they are entered. -/
def Sequence.reset : Sequence A C N → Sequence A C N
  | ⟨id, name, steps, policy, companions, generator, warnOnInstantLoops, warned, _⟩ =>
    ⟨id, name, steps.map Step.reset, policy, resetAll companions, generator, warnOnInstantLoops,
      warned, .initial policy⟩

def resetAll : List (Sequence A C N) → List (Sequence A C N)
  | [] => []
  | s :: rest => s.reset :: resetAll rest

end

theorem Step.reset_reset (s : Step A C N) : s.reset.reset = s.reset := rfl

theorem Step.reset_comp_reset :
    (Step.reset ∘ Step.reset : Step A C N → Step A C N) = Step.reset := rfl

mutual

theorem Sequence.reset_reset (s : Sequence A C N) : s.reset.reset = s.reset := by
  obtain ⟨id, name, steps, policy, companions, generator, warnOnInstantLoops, warned, progress⟩ := s
  simp only [Sequence.reset, List.map_map, Step.reset_comp_reset, resetAll_resetAll companions]
termination_by structural s

theorem resetAll_resetAll (ss : List (Sequence A C N)) : resetAll (resetAll ss) = resetAll ss := by
  match ss with
  | [] => rfl
  | s :: rest => simp only [resetAll, Sequence.reset_reset s, resetAll_resetAll rest]
termination_by structural ss

end

theorem resetAll_eq_map (ss : List (Sequence A C N)) : resetAll ss = ss.map Sequence.reset := by
  induction ss with
  | nil => simp [resetAll]
  | cons s rest ih => simp [resetAll, ih]

def Group.reset (g : Group A C N) : Group A C N := { g with members := resetAll g.members }

end Sequencer

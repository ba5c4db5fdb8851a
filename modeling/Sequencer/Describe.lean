import Sequencer.Tree
import Sequencer.Text.Quoted

/-!
# Descriptions

One-line texts of sequences and groups, for people who look for a mistake. The text of an identity
is left to the caller.
-/

namespace Sequencer

def commaSeparated (texts : List String) : String := ", ".intercalate texts

def StepState.name : StepState → String
  | notStarted => "NotStarted"
  | active => "Active"
  | complete => "Complete"

def Status.name : Status → String
  | notStarted => "NotStarted"
  | running => "Running"
  | complete => "Complete"

def Outcome.name : Outcome → String
  | running => "Running"
  | complete => "Complete"

def Completion.name : Completion → String
  | all => "All"
  | any => "Any"
  | never => "Never"

variable {A C N : Type}

/-- A condition shows nothing of what it asks. -/
def Condition.describe (_ : Condition C N) : String := "Condition"

/-- A policy in a word; a counted one with its count. -/
def Policy.describe : Policy C N → String
  | count n => "Count(" ++ Nat.repr n ++ ")"
  | policy => policy.name.text

def Step.describe (s : Step A C N) : String :=
  "Step \x7b kind: " ++ Text.quoted s.kind.shape.name ++ ", state: " ++ s.state.name ++ " \x7d"

def Sequence.describe (idText : SequenceId → String) (s : Sequence A C N) : String :=
  "Sequence \x7b id: SequenceId(" ++ idText s.id ++ "), name: " ++ Text.quoted s.name ++
    ", steps: [" ++ commaSeparated (s.steps.map Step.describe) ++ "], repeat: " ++
    s.policy.describe ++ ", status: " ++ s.status.name ++ ", cursor: " ++ Nat.repr s.cursor ++
    ", passes: " ++ Nat.repr s.passes ++ " \x7d"

def Group.describe (idText : SequenceId → String) (g : Group A C N) : String :=
  "ParallelGroup \x7b members: [" ++ commaSeparated (g.members.map (·.describe idText)) ++
    "], completion: " ++ g.completion.name ++ " \x7d"

end Sequencer

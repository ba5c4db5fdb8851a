import Sequencer.Tree

/-!
# Making branches

The four kinds of branch, with the conditions under which they can be made. Every branch that these
functions make has a child for every index that a selection can pick.
-/

namespace Sequencer

inductive WeightFault
  /-- Some weight is negative or not a number. -/
  | notAWeight
  | allZero
  /-- The sum of the weights is infinite. -/
  | unbounded
  deriving DecidableEq

def WeightFault.message : WeightFault → String
  | notAWeight => "A weight is invalid in distribution"
  | allZero => "All weights are zero in distribution"
  | unbounded => "The total weight is not finite in distribution"

def checkWeights (weights : List Float) : Except WeightFault Unit :=
  if weights.any fun w => !(w ≥ 0) then .error .notAWeight
  else
    let total := Generator.total weights
    if total == 0 then .error .allZero
    else if total.isFinite then .ok ()
    else .error .unbounded

inductive ChoiceError
  | noAlternative
  | invalidProbability (probability : Float)
  | invalidWeights (fault : WeightFault)
  deriving DecidableEq

namespace Branch

variable {A C N : Type}

/-- Guarded arms in order, and what runs when no guard holds. -/
def guarded (arms : List (Condition C N × Step A C N)) (otherwise : Option (Step A C N)) :
    Branch A C N where
  selector := .guarded (arms.map Prod.fst) otherwise.isSome
  children := arms.map Prod.snd ++ otherwise.toList
  chosen := none

def uniform (options : List (Step A C N)) : Except ChoiceError (Branch A C N) :=
  if options.isEmpty then .error .noAlternative
  else .ok ⟨.uniform, options, none⟩

/-- One of the options, each as likely as its weight says. -/
def weighted (options : List (Float × Step A C N)) : Except ChoiceError (Branch A C N) :=
  if options.isEmpty then .error .noAlternative
  else
    match checkWeights (options.map Prod.fst) with
    | .error fault => .error (.invalidWeights fault)
    | .ok () => .ok ⟨.weighted (options.map Prod.fst), options.map Prod.snd, none⟩

/-- The step with the given probability, else nothing. -/
def chance (probability : Float) (step : Step A C N) : Except ChoiceError (Branch A C N) :=
  if isProbability probability then .ok ⟨.chance probability, [step], none⟩
  else .error (.invalidProbability probability)

end Branch

end Sequencer

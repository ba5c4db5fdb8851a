import Sequencer.Trace

/-!
# Conditions

A condition is a predicate on the context that may also fail. Conditions combine by `all`, `any`
and `not`; evaluation goes from left to right and stops at the first condition that decides the
answer, a failure included.
-/

namespace Sequencer

/-- The answer of a base condition, with the notes it left while deciding. -/
structure Verdict (N : Type) where
  notes : List N
  answer : Except TickError Bool

/-- A predicate on contexts of type `C`. -/
inductive Condition (C N : Type)
  | test (predicate : C → Verdict N)
  | all (conditions : List (Condition C N))
  | any (conditions : List (Condition C N))
  | not (condition : Condition C N)

/-- The answer of a condition and everything that happened on the way to it. -/
structure Evaluation (N : Type) where
  events : List (Event N)
  answer : Except TickError Bool

namespace Evaluation

variable {N : Type}

def after (earlier : List (Event N)) (e : Evaluation N) : Evaluation N :=
  ⟨earlier ++ e.events, e.answer⟩

def negate (e : Evaluation N) : Evaluation N :=
  ⟨e.events, e.answer.map (!·)⟩

end Evaluation

namespace Condition

variable {C N : Type}

def reads (predicate : C → Bool) : Condition C N :=
  test fun ctx => ⟨[], .ok (predicate ctx)⟩

/-- A condition that may reject the context. -/
def fallible (predicate : C → Except TickError Bool) : Condition C N :=
  test fun ctx => ⟨[], predicate ctx⟩

def const (answer : Bool) : Condition C N := reads fun _ => answer

def always : Condition C N := const true

def never : Condition C N := const false

mutual

def evaluate (ctx : C) : Condition C N → Evaluation N
  | test predicate =>
    let verdict := predicate ctx
    ⟨verdict.notes.map .note ++ [.tested verdict.answer], verdict.answer⟩
  | all conditions => evaluateAll ctx conditions
  | any conditions => evaluateAny ctx conditions
  | not condition => (evaluate ctx condition).negate

/-- Whether every condition holds; stops at the first that does not, or that fails. -/
def evaluateAll (ctx : C) : List (Condition C N) → Evaluation N
  | [] => ⟨[], .ok true⟩
  | condition :: rest =>
    let first := evaluate ctx condition
    match first.answer with
    | .ok true => (evaluateAll ctx rest).after first.events
    | .ok false => first
    | .error _ => first

/-- Whether some condition holds; stops at the first that does, or that fails. -/
def evaluateAny (ctx : C) : List (Condition C N) → Evaluation N
  | [] => ⟨[], .ok false⟩
  | condition :: rest =>
    let first := evaluate ctx condition
    match first.answer with
    | .ok false => (evaluateAny ctx rest).after first.events
    | .ok true => first
    | .error _ => first

end

end Condition

end Sequencer

import Sequencer.Condition

/-!
# The algebra of conditions

Conditions combine as truth values do, although their evaluation stops early and may fail: the laws
of De Morgan hold, lists of conditions that are joined alike may be flattened, and two negations
cancel. The two sides of a law cannot be told apart: they have the same answer, failures included,
and they consult the same base conditions in the same order. Of a list, the conditions up to the
one that decides are consulted, and none after it.
-/

namespace Sequencer

variable {C N : Type}

namespace Evaluation

/-- An evaluation that is the last one unless it answers `goOn`. -/
def thenUnless (goOn : Bool) (e later : Evaluation N) : Evaluation N :=
  match e.answer with
  | .ok answer => if answer = goOn then later.after e.events else e
  | .error _ => e

variable {goOn : Bool} {e : Evaluation N}

theorem thenUnless_of_goOn (h : e.answer = .ok goOn) (later : Evaluation N) :
    e.thenUnless goOn later = later.after e.events := by
  simp [thenUnless, h]

theorem thenUnless_of_ne (h : e.answer ≠ .ok goOn) (later : Evaluation N) :
    e.thenUnless goOn later = e := by
  unfold thenUnless
  split
  case h_1 answer ha =>
    refine if_neg fun (hanswer : answer = goOn) => h ?_
    rw [ha, hanswer]
  case h_2 => rfl

def still (answer : Bool) : Evaluation N := ⟨[], .ok answer⟩

@[simp] theorem after_after (e : Evaluation N) (earlier later : List (Event N)) :
    (e.after later).after earlier = e.after (earlier ++ later) := by
  simp [after]

@[simp] theorem still_thenUnless (goOn : Bool) (later : Evaluation N) :
    (still goOn).thenUnless goOn later = later :=
  thenUnless_of_goOn rfl later

theorem thenUnless_assoc (goOn : Bool) (e later last : Evaluation N) :
    (e.thenUnless goOn later).thenUnless goOn last =
      e.thenUnless goOn (later.thenUnless goOn last) := by
  by_cases he : e.answer = .ok goOn
  · rw [thenUnless_of_goOn he, thenUnless_of_goOn he]
    by_cases hl : later.answer = .ok goOn
    · have hafter : (later.after e.events).answer = .ok goOn := hl
      rw [thenUnless_of_goOn hl, thenUnless_of_goOn hafter, after_after]
      rfl
    · have hafter : (later.after e.events).answer ≠ .ok goOn := hl
      rw [thenUnless_of_ne hl, thenUnless_of_ne hafter]
  · rw [thenUnless_of_ne he, thenUnless_of_ne he, thenUnless_of_ne he]

@[simp] theorem negate_negate (e : Evaluation N) : e.negate.negate = e := by
  obtain ⟨events, answer⟩ := e
  cases answer <;> simp [negate, Except.map]

theorem negate_answer_iff {answer : Bool} :
    e.negate.answer = .ok !answer ↔ e.answer = .ok answer := by
  obtain ⟨events, given⟩ := e
  cases given <;> simp [negate, Except.map]

/-- What goes on after an answer goes on after its opposite in the negation. -/
theorem negate_thenUnless (goOn : Bool) (e later : Evaluation N) :
    (e.thenUnless goOn later).negate = e.negate.thenUnless (!goOn) later.negate := by
  by_cases h : e.answer = .ok goOn
  · rw [thenUnless_of_goOn h, thenUnless_of_goOn (negate_answer_iff.mpr h)]
    rfl
  · rw [thenUnless_of_ne h, thenUnless_of_ne fun hn => h (negate_answer_iff.mp hn)]

def notes (e : Evaluation N) : List N :=
  e.events.filterMap fun event => match event with
    | .note n => some n
    | _ => none

@[simp] theorem notes_negate (e : Evaluation N) : e.negate.notes = e.notes := rfl

theorem notes_after (e later : Evaluation N) :
    (later.after e.events).notes = e.notes ++ later.notes :=
  List.filterMap_append

end Evaluation

namespace Condition

/-- Conditions of which all have to hold if `goOn`, and else any. -/
def joined (goOn : Bool) (conditions : List (Condition C N)) : Condition C N :=
  if goOn then all conditions else any conditions

/-- Evaluates conditions one after the other for as long as they answer `goOn`. -/
def evaluateRow (ctx : C) (goOn : Bool) : List (Condition C N) → Evaluation N
  | [] => .still goOn
  | condition :: rest => (condition.evaluate ctx).thenUnless goOn (evaluateRow ctx goOn rest)

theorem evaluateAll_eq (ctx : C) (cs : List (Condition C N)) :
    evaluateAll ctx cs = evaluateRow ctx true cs := by
  induction cs with
  | nil => rfl
  | cons c rest ih =>
    simp only [evaluateAll, evaluateRow, Evaluation.thenUnless, ih]
    match (c.evaluate ctx).answer with
    | .ok true => rfl
    | .ok false => rfl
    | .error e => rfl

theorem evaluateAny_eq (ctx : C) (cs : List (Condition C N)) :
    evaluateAny ctx cs = evaluateRow ctx false cs := by
  induction cs with
  | nil => rfl
  | cons c rest ih =>
    simp only [evaluateAny, evaluateRow, Evaluation.thenUnless, ih]
    match (c.evaluate ctx).answer with
    | .ok true => rfl
    | .ok false => rfl
    | .error e => rfl

theorem evaluate_joined (ctx : C) (goOn : Bool) (cs : List (Condition C N)) :
    (joined goOn cs).evaluate ctx = evaluateRow ctx goOn cs := by
  cases goOn with
  | true => exact evaluateAll_eq ctx cs
  | false => exact evaluateAny_eq ctx cs

theorem evaluateRow_append (ctx : C) (goOn : Bool) (cs ds : List (Condition C N)) :
    evaluateRow ctx goOn (cs ++ ds) =
      (evaluateRow ctx goOn cs).thenUnless goOn (evaluateRow ctx goOn ds) := by
  induction cs with
  | nil => exact (Evaluation.still_thenUnless goOn _).symm
  | cons c rest ih =>
    rw [List.cons_append, evaluateRow, ih, evaluateRow, Evaluation.thenUnless_assoc]

theorem negate_evaluateRow (ctx : C) (goOn : Bool) (cs : List (Condition C N)) :
    (evaluateRow ctx goOn cs).negate = evaluateRow ctx (!goOn) (cs.map not) := by
  induction cs with
  | nil => rfl
  | cons c rest ih => rw [evaluateRow, Evaluation.negate_thenUnless, ih]; rfl

mutual

/-- The same condition, but for the notes: each of its base conditions leaves itself. -/
def signed : Condition C N → Condition C (C → Verdict N)
  | test predicate => test fun ctx => ⟨[predicate], (predicate ctx).answer⟩
  | all conditions => all (signedAll conditions)
  | any conditions => any (signedAll conditions)
  | not condition => not (signed condition)

def signedAll : List (Condition C N) → List (Condition C (C → Verdict N))
  | [] => []
  | condition :: rest => signed condition :: signedAll rest

end

theorem signedAll_eq (cs : List (Condition C N)) : signedAll cs = cs.map signed := by
  induction cs with
  | nil => rfl
  | cons c rest ih => rw [signedAll, ih, List.map_cons]

/-- The base conditions that the evaluation of a condition consults, in order. -/
def consulted (ctx : C) (c : Condition C N) : List (C → Verdict N) :=
  (c.signed.evaluate ctx).notes

theorem signed_joined (goOn : Bool) (cs : List (Condition C N)) :
    (joined goOn cs).signed = joined goOn (cs.map signed) := by
  cases goOn <;> simp [joined, signed, signedAll_eq]

theorem consulted_joined (ctx : C) (goOn : Bool) (cs : List (Condition C N)) :
    (joined goOn cs).consulted ctx = (evaluateRow ctx goOn (cs.map signed)).notes := by
  rw [consulted, signed_joined, evaluate_joined]

@[simp] theorem consulted_not (ctx : C) (c : Condition C N) :
    (not c).consulted ctx = c.consulted ctx := rfl

/-- Whether an evaluation comes to the same as one by signed conditions: it has the same answer, and
its events are those of the base conditions that signed. -/
def Signs (ctx : C) (e : Evaluation N) (record : Evaluation (C → Verdict N)) : Prop :=
  record.answer = e.answer ∧
    e.events = record.notes.flatMap fun predicate => ((test predicate).evaluate ctx).events

theorem Signs.thenUnless {ctx : C} {e later : Evaluation N}
    {record laterRecord : Evaluation (C → Verdict N)} (h : Signs ctx e record)
    (hlater : Signs ctx later laterRecord) (goOn : Bool) :
    Signs ctx (e.thenUnless goOn later) (record.thenUnless goOn laterRecord) := by
  by_cases hgo : e.answer = .ok goOn
  · rw [Evaluation.thenUnless_of_goOn hgo, Evaluation.thenUnless_of_goOn (h.1.trans hgo)]
    refine ⟨hlater.1, ?_⟩
    rw [Evaluation.notes_after, List.flatMap_append, ← h.2, ← hlater.2]
    rfl
  · rw [Evaluation.thenUnless_of_ne hgo, Evaluation.thenUnless_of_ne (h.1 ▸ hgo)]
    exact h

mutual

theorem signs_evaluate (ctx : C) (c : Condition C N) :
    Signs ctx (c.evaluate ctx) (c.signed.evaluate ctx) := by
  match c with
  | test predicate => exact ⟨rfl, (List.append_nil _).symm⟩
  | all cs =>
    rw [signed, signedAll_eq, evaluate, evaluate, evaluateAll_eq, evaluateAll_eq]
    exact signs_evaluateRow ctx true cs
  | any cs =>
    rw [signed, signedAll_eq, evaluate, evaluate, evaluateAny_eq, evaluateAny_eq]
    exact signs_evaluateRow ctx false cs
  | not c =>
    obtain ⟨ha, he⟩ := signs_evaluate ctx c
    exact ⟨congrArg (Except.map (!·)) ha, he⟩
termination_by structural c

theorem signs_evaluateRow (ctx : C) (goOn : Bool) (cs : List (Condition C N)) :
    Signs ctx (evaluateRow ctx goOn cs) (evaluateRow ctx goOn (cs.map signed)) := by
  match cs with
  | [] => exact ⟨rfl, rfl⟩
  | c :: rest => exact (signs_evaluate ctx c).thenUnless (signs_evaluateRow ctx goOn rest) goOn
termination_by structural cs

end

/-- Whether two conditions cannot be told apart: in every context they have the same answer and
leave the same events, and they consult the same base conditions in the same order. -/
structure Alike (c d : Condition C N) : Prop where
  evaluate : ∀ ctx, c.evaluate ctx = d.evaluate ctx
  consulted : ∀ ctx, c.consulted ctx = d.consulted ctx

theorem alike_not_joined (goOn : Bool) (cs : List (Condition C N)) :
    Alike (not (joined goOn cs)) (joined (!goOn) (cs.map not)) where
  evaluate ctx := by
    rw [evaluate, evaluate_joined, evaluate_joined, negate_evaluateRow]
  consulted ctx := by
    have hcomm : (cs.map not).map signed = (cs.map signed).map not := by
      simp only [List.map_map]
      rfl
    rw [consulted_not, consulted_joined, consulted_joined, hcomm, ← negate_evaluateRow,
      Evaluation.notes_negate]

theorem evaluateRow_joined (ctx : C) (goOn : Bool) (before cs after : List (Condition C N)) :
    evaluateRow ctx goOn (before ++ joined goOn cs :: after) =
      evaluateRow ctx goOn (before ++ cs ++ after) := by
  rw [List.append_assoc, evaluateRow_append, evaluateRow, evaluate_joined, evaluateRow_append,
    evaluateRow_append]

theorem alike_joined_splice (goOn : Bool) (before cs after : List (Condition C N)) :
    Alike (joined goOn (before ++ joined goOn cs :: after))
      (joined goOn (before ++ cs ++ after)) where
  evaluate ctx := by rw [evaluate_joined, evaluate_joined, evaluateRow_joined]
  consulted ctx := by
    simp only [consulted_joined, List.map_append, List.map_cons, signed_joined, evaluateRow_joined]

theorem alike_not_not (c : Condition C N) : Alike (not (not c)) c where
  evaluate ctx := by rw [evaluate, evaluate, Evaluation.negate_negate]
  consulted _ := rfl

/-- The answer of joined conditions, and the base conditions that they consult. -/
inductive Settles (ctx : C) (goOn : Bool) :
    List (Condition C N) → Except TickError Bool → List (C → Verdict N) → Prop
  /-- The first condition that does not answer `goOn` gives the answer, be it a failure. Of the
  conditions after it, none is consulted. -/
  | decided {before : List (Condition C N)} {decider : Condition C N}
      (after : List (Condition C N))
      (hbefore : ∀ c ∈ before, (c.evaluate ctx).answer = .ok goOn)
      (h : (decider.evaluate ctx).answer ≠ .ok goOn) :
      Settles ctx goOn (before ++ decider :: after) (decider.evaluate ctx).answer
        (before.flatMap (consulted ctx) ++ decider.consulted ctx)
  /-- Every condition answers `goOn`, and all are consulted. -/
  | undecided {cs : List (Condition C N)} (h : ∀ c ∈ cs, (c.evaluate ctx).answer = .ok goOn) :
      Settles ctx goOn cs (.ok goOn) (cs.flatMap (consulted ctx))

theorem Settles.cons {ctx : C} {goOn : Bool} {c : Condition C N} {cs : List (Condition C N)}
    {answer : Except TickError Bool} {bases : List (C → Verdict N)}
    (hc : (c.evaluate ctx).answer = .ok goOn) (h : Settles ctx goOn cs answer bases) :
    Settles ctx goOn (c :: cs) answer (c.consulted ctx ++ bases) := by
  cases h with
  | decided after hbefore h =>
    have hs := Settles.decided after (List.forall_mem_cons.mpr ⟨hc, hbefore⟩) h
    rwa [List.flatMap_cons, List.append_assoc] at hs
  | undecided h => exact .undecided (List.forall_mem_cons.mpr ⟨hc, h⟩)

theorem settles_evaluateRow (ctx : C) (goOn : Bool) (cs : List (Condition C N)) :
    Settles ctx goOn cs (evaluateRow ctx goOn cs).answer
      (evaluateRow ctx goOn (cs.map signed)).notes := by
  induction cs with
  | nil => exact .undecided (List.forall_mem_nil _)
  | cons c rest ih =>
    have hsigned := (signs_evaluate ctx c).1
    rw [List.map_cons, evaluateRow, evaluateRow]
    by_cases hc : (c.evaluate ctx).answer = .ok goOn
    · rw [Evaluation.thenUnless_of_goOn hc, Evaluation.thenUnless_of_goOn (hsigned.trans hc),
        Evaluation.notes_after]
      exact ih.cons hc
    · rw [Evaluation.thenUnless_of_ne hc, Evaluation.thenUnless_of_ne (hsigned ▸ hc)]
      exact .decided rest (List.forall_mem_nil _) hc

theorem settles_joined (ctx : C) (goOn : Bool) (cs : List (Condition C N)) :
    Settles ctx goOn cs ((joined goOn cs).evaluate ctx).answer
      ((joined goOn cs).consulted ctx) := by
  rw [evaluate_joined, consulted_joined]
  exact settles_evaluateRow ctx goOn cs

/-- Conditions of any depth combine as truth values do, although each of them may fail. The laws of
De Morgan, the flattening of conditions that are joined alike and the cancelling of two negations
give conditions that cannot be told apart. Joined conditions are consulted up to the first that
decides, and what is consulted is all that an evaluation leaves events of. -/
theorem combine_lawfully :
    (∀ cs : List (Condition C N), Alike (not (all cs)) (any (cs.map not)) ∧
        Alike (not (any cs)) (all (cs.map not))) ∧
      (∀ before cs after : List (Condition C N),
        Alike (all (before ++ all cs :: after)) (all (before ++ cs ++ after)) ∧
          Alike (any (before ++ any cs :: after)) (any (before ++ cs ++ after))) ∧
      (∀ c : Condition C N, Alike (not (not c)) c) ∧
      ∀ ctx : C,
        (∀ cs : List (Condition C N),
          Settles ctx true cs ((all cs).evaluate ctx).answer ((all cs).consulted ctx) ∧
            Settles ctx false cs ((any cs).evaluate ctx).answer ((any cs).consulted ctx)) ∧
        ∀ c : Condition C N, (not c).consulted ctx = c.consulted ctx ∧
          (c.evaluate ctx).events =
            (c.consulted ctx).flatMap fun predicate => ((test predicate).evaluate ctx).events := by
  refine ⟨fun cs => ?deMorgan, fun before cs after => ?splice, alike_not_not, fun ctx => ?settled⟩
  case deMorgan => exact ⟨alike_not_joined true cs, alike_not_joined false cs⟩
  case splice =>
    exact ⟨alike_joined_splice true before cs after, alike_joined_splice false before cs after⟩
  case settled =>
    refine ⟨fun cs => ⟨settles_joined ctx true cs, settles_joined ctx false cs⟩, fun c => ?_⟩
    exact ⟨consulted_not ctx c, (signs_evaluate ctx c).2⟩

end Condition

end Sequencer

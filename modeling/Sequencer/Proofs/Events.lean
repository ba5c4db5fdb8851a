import Sequencer.Proofs.TickEquations

/-!
# Views of a trace

A trace seen from one place of the tree: `Trace.inside` keeps what happened behind one hop, and
`Trace.within` what happened behind a whole path, both with the hops taken off. Conditions, and with
them selections and repetition policies, leave nothing but events of their decisions: all log lines
and all hook calls are those of sequences and steps.
-/

namespace Sequencer

variable {A C N : Type}

namespace Trace

/-- The entries behind a hop, as seen from there. -/
def inside (hop : Hop) (trace : Trace N) : Trace N :=
  trace.filterMap fun e => match e.path with
    | [] => none
    | first :: place => if first = hop then some ⟨place, e.event⟩ else none

/-- The entries at a path and behind it, as seen from there. -/
def within : List Hop → Trace N → Trace N
  | [], trace => trace
  | hop :: path, trace => within path (trace.inside hop)

@[simp] theorem inside_append (hop : Hop) (t u : Trace N) :
    inside hop (t ++ u) = inside hop t ++ inside hop u := by
  simp [inside]

theorem inside_cons_own (hop : Hop) (event : Event N) (t : Trace N) :
    inside hop (⟨[], event⟩ :: t) = inside hop t := rfl

theorem inside_cons_of_ne {hop other : Hop} (h : other ≠ hop) (place : List Hop) (event : Event N)
    (t : Trace N) : inside hop (⟨other :: place, event⟩ :: t) = inside hop t := by
  simp [inside, h]

@[simp] theorem inside_under_self (hop : Hop) (t : Trace N) : inside hop (t.under hop) = t := by
  induction t with
  | nil => rfl
  | cons e t ih =>
    have hcons : under hop (e :: t) = [⟨hop :: e.path, e.event⟩] ++ under hop t := rfl
    have hfirst : inside hop [⟨hop :: e.path, e.event⟩] = [e] := by simp [inside]
    rw [hcons, inside_append, hfirst, ih, List.singleton_append]

theorem eventsAt_within (path place : List Hop) (t : Trace N) :
    eventsAt place (within path t) = eventsAt (path ++ place) t := by
  induction path generalizing t with
  | nil => rfl
  | cons hop path ih =>
    rw [within, ih]
    unfold eventsAt inside
    induction t with
    | nil => rfl
    | cons e t iht =>
      obtain ⟨found, event⟩ := e
      cases found with
      | nil => simpa using iht
      | cons first found =>
        by_cases h : first = hop
        · by_cases hp : found = path ++ place <;> simp [h, hp, iht]
        · simp [h, iht]

end Trace

/-- Whether an event belongs to the making of a decision: by a condition, a branch or a policy. -/
def Event.isDecision : Event N → Bool
  | .note _ | .tested _ | .guarded .. | .drew | .repeatChecked _ => true
  | _ => false

/-- Whether an event belongs to the evaluation of a condition. -/
def Event.isQuestion : Event N → Bool
  | .note _ | .tested _ => true
  | _ => false

/-- A reading of events that has no use for decisions finds nothing in them. -/
theorem filterMap_of_isDecision {β : Type} {f : Event N → Option β}
    (hf : ∀ e : Event N, e.isDecision = true → f e = none) {events : List (Event N)}
    (h : ∀ e ∈ events, e.isDecision = true) : events.filterMap f = [] :=
  List.filterMap_eq_nil_iff.mpr fun e he => hf e (h e he)

theorem Event.isDecision_of_isQuestion {e : Event N} (h : e.isQuestion = true) :
    e.isDecision = true := by
  cases e with
  | note n => rfl
  | tested answer => rfl
  | _ => cases h

mutual

theorem Condition.isQuestion_evaluate (ctx : C) (c : Condition C N) :
    ∀ e ∈ (c.evaluate ctx).events, e.isQuestion = true := by
  match c with
  | .test predicate =>
    intro e he
    simp only [Condition.evaluate, List.mem_append, List.mem_map, List.mem_singleton] at he
    rcases he with ⟨n, _, rfl⟩ | rfl <;> rfl
  | .all conditions =>
    simpa only [Condition.evaluate] using Condition.isQuestion_evaluateAll ctx conditions
  | .any conditions =>
    simpa only [Condition.evaluate] using Condition.isQuestion_evaluateAny ctx conditions
  | .not condition =>
    simpa only [Condition.evaluate, Evaluation.negate] using
      Condition.isQuestion_evaluate ctx condition
termination_by structural c

theorem Condition.isQuestion_evaluateAll (ctx : C) (cs : List (Condition C N)) :
    ∀ e ∈ (Condition.evaluateAll ctx cs).events, e.isQuestion = true := by
  match cs with
  | [] => simp [Condition.evaluateAll]
  | c :: rest =>
    have hc := Condition.isQuestion_evaluate ctx c
    have hr := Condition.isQuestion_evaluateAll ctx rest
    intro e he
    simp only [Condition.evaluateAll] at he
    split at he
    · rcases List.mem_append.mp he with he | he
      · exact hc e he
      · exact hr e he
    · exact hc e he
    · exact hc e he
termination_by structural cs

theorem Condition.isQuestion_evaluateAny (ctx : C) (cs : List (Condition C N)) :
    ∀ e ∈ (Condition.evaluateAny ctx cs).events, e.isQuestion = true := by
  match cs with
  | [] => simp [Condition.evaluateAny]
  | c :: rest =>
    have hc := Condition.isQuestion_evaluate ctx c
    have hr := Condition.isQuestion_evaluateAny ctx rest
    intro e he
    simp only [Condition.evaluateAny] at he
    split at he
    · rcases List.mem_append.mp he with he | he
      · exact hc e he
      · exact hr e he
    · exact hc e he
    · exact hc e he
termination_by structural cs

end

/-- All that a condition leaves is part of its decision. -/
theorem Condition.isDecision_evaluate (ctx : C) (c : Condition C N) :
    ∀ e ∈ (c.evaluate ctx).events, e.isDecision = true :=
  fun e he => Event.isDecision_of_isQuestion (c.isQuestion_evaluate ctx e he)

theorem isDecision_firstHolding (ctx : C) (generator : Generator) (otherwise : Option Nat)
    (index : Nat) (guards : List (Condition C N)) :
    ∀ e ∈ (firstHolding ctx generator otherwise index guards).events, e.isDecision = true := by
  induction guards generalizing index with
  | nil => simp [firstHolding]
  | cons guard rest ih =>
    have hg : ∀ e ∈ (guard.evaluate ctx).events ++
        [.guarded index (guard.evaluate ctx).answer], e.isDecision = true := by
      intro e he
      rcases List.mem_append.mp he with he | he
      · exact guard.isDecision_evaluate ctx e he
      · rw [List.mem_singleton.mp he]; rfl
    intro e he
    simp only [firstHolding] at he
    split at he
    · exact hg e he
    · exact hg e he
    · rcases List.mem_append.mp he with he | he
      · exact hg e he
      · exact ih (index + 1) e he

theorem Selector.isDecision_select (selector : Selector C N) (size : Nat) (ctx : C)
    (generator : Generator) :
    ∀ e ∈ (selector.select size ctx generator).events, e.isDecision = true := by
  intro e he
  cases selector with
  | guarded guards fallback => exact isDecision_firstHolding ctx generator _ 0 guards e he
  | uniform => rw [List.mem_singleton.mp he]; rfl
  | weighted weights => rw [List.mem_singleton.mp he]; rfl
  | chance probability => rw [List.mem_singleton.mp he]; rfl

theorem Policy.isDecision_again (policy : Policy C N) (remaining : Nat) (ctx : C) :
    ∀ e ∈ (policy.again remaining ctx).events, e.isDecision = true := by
  intro e he
  cases policy with
  | once => simp [Policy.again] at he
  | count n => simp [Policy.again] at he
  | untilHolds condition =>
    rcases List.mem_append.mp he with he | he
    · exact condition.isDecision_evaluate ctx e he
    · rw [List.mem_singleton.mp he]; rfl
  | forever => simp [Policy.again] at he

end Sequencer

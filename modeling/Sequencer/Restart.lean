import Sequencer.Tick

/-!
# Restarting

The flags of the functions that tick say the same as a reset: a part that is ticked as fresh is
ticked as if it had been reset before. So entering a step and driving it, which a tick does in one
go, is first `Step.activate` and then a tick of what the step holds (`StepKind.tick_true`).
-/

namespace Sequencer

variable {A C N : Type} [Behavior A C N]

theorem Step.tick_reset (fresh : Bool) (dt : Float32) (s : Step A C N) :
    Step.tick fresh dt s.reset = Step.tick true dt s := by
  obtain ⟨state, kind⟩ := s
  funext ctx generator
  cases fresh <;> simp [Step.reset, Step.tick]

theorem cascade_map_reset (dt : Float32) (steps : List (Step A C N)) (index : Nat) :
    cascade true dt index (steps.map Step.reset) 0 = cascade true dt index steps 0 := by
  induction steps generalizing index with
  | nil => rfl
  | cons step rest ih =>
    funext ctx generator
    simp only [List.map_cons, cascade, Step.tick_reset, ih, List.map_map, Step.reset_comp_reset,
      ↓reduceIte]

mutual

theorem Sequence.advanceFrom_reset (restart : Bool) (dt : Float32) (s : Sequence A C N) :
    s.reset.advanceFrom restart dt = s.advanceFrom true dt := by
  obtain ⟨id, name, steps, policy, companions, generator, warnOnInstantLoops, warned, progress⟩ := s
  have beside := advanceAll_resetAll true dt .companion companions 0
  funext ctx
  simp only [Sequence.reset, Sequence.advanceFrom, Progress.initial, Bool.true_or,
    beq_self_eq_true, Bool.or_true, ↓reduceIte, beside, resetAll_resetAll, List.map_map,
    Step.reset_comp_reset, Sequence.cursor, cascade_map_reset]
termination_by structural s

theorem advanceAll_resetAll (fresh : Bool) (dt : Float32) (hop : Nat → Hop)
    (members : List (Sequence A C N)) (index : Nat) :
    advanceAll fresh dt hop index (resetAll members) = advanceAll true dt hop index members := by
  match members with
  | [] => rfl
  | member :: rest =>
    have first := Sequence.advanceFrom_reset fresh dt member
    have later := advanceAll_resetAll fresh dt hop rest (index + 1)
    funext ctx
    simp only [resetAll, advanceAll, first, later, resetAll_resetAll, ite_self, ↓reduceIte]
termination_by structural members

end

theorem tickChild_modify_reset (dt : Float32) (children : List (Step A C N)) (index : Nat) :
    tickChild false dt (children.modify index Step.reset) index =
      tickChild true dt children index := by
  induction children generalizing index with
  | nil => cases index <;> rfl
  | cons step rest ih =>
    funext ctx generator
    cases index with
    | zero => simp [tickChild, Step.tick_reset]
    | succ index => simp [tickChild, ih]

def StepTick.after (earlier : Trace N) (t : StepTick A C N) : StepTick A C N :=
  { t with trace := earlier ++ t.trace }

omit [Behavior A C N] in
@[simp] theorem StepTick.after_ofDriven (earlier : Trace N) (shape : StepShape) (trace : Trace N)
    (ctx : C) (generator : Generator) (kind : StepKind A C N) (result : Except TickError Bool) :
    (StepTick.ofDriven shape trace ctx generator kind result).after earlier =
      .ofDriven shape (earlier ++ trace) ctx generator kind result := by
  unfold StepTick.ofDriven StepTick.after
  split <;> simp

/-- Ticking what a step holds, and entering it first, is `Step.activate` followed by a tick of what
it holds then. -/
theorem StepKind.tick_true (dt : Float32) (kind : StepKind A C N) (ctx : C)
    (generator : Generator) :
    StepKind.tick true dt kind ctx generator =
      let entered := (Step.ofKind kind).activate ctx generator
      match entered.result with
      | .error e =>
        ⟨entered.trace, entered.context, entered.generator, entered.step, .error e⟩
      | .ok () =>
        (StepKind.tick false dt entered.step.kind entered.context entered.generator).after
          entered.trace := by
  match kind with
  | .leaf action =>
    simp only [StepKind.tick, StepTick.ofAction, Step.activate, Step.ofKind, ↓reduceIte]
    cases (action.enter ctx).result with
    | error e => simp
    | ok entered => simp [activation, StepKind.tick, StepTick.ofAction]
  | .nested body =>
    simp [StepKind.tick, Step.activate, Step.ofKind, Sequence.advanceFrom_reset, StepTick.ofBody,
      activation]
  | .parallel ⟨completion, members⟩ =>
    simp [StepKind.tick, Step.activate, Step.ofKind, Group.reset, advanceAll_resetAll,
      StepTick.ofRound, activation]
  | .branch ⟨selector, children, chosen⟩ =>
    simp only [StepKind.tick, Step.activate, Step.ofKind, StepTick.ofBranch, ↓reduceIte]
    cases (selector.select children.length ctx generator).result with
    | error e => rfl
    | ok picked =>
      cases picked with
      | none => simp [Branch.choose, StepKind.tick, StepTick.ofBranch, StepTick.ofChosen]
      | some index =>
        simp [Branch.choose, StepKind.tick, StepTick.ofBranch, StepTick.ofChosen,
          tickChild_modify_reset]

end Sequencer

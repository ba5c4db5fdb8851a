import Sequencer.Tree

/-!
# Ticks

`Sequence.advance` drives a sequence for one tick. Steps cascade: a step that completes lets the
next one run in the same tick. A tick never goes back: when a pass ends and another follows, the
first step is entered at once but driven from the next tick on. A failure ends the tick where it
happens, and nothing that was done before it is undone.

A sequence inside a step is reset when the step is entered and driven right after. Both happen in
one recursion over the tree: the flag `fresh` of the functions below says that the part at hand is
to be taken as if it had just been reset.
-/

namespace Sequencer

variable {A C N : Type}

structure Selection (N : Type) where
  events : List (Event N)
  generator : Generator
  result : Except TickError (Option Nat)

/-- The index of the first guard that holds, counted from `index`, or else `otherwise`. A guard that
fails ends the search. -/
def firstHolding (ctx : C) (generator : Generator) (otherwise : Option Nat) (index : Nat) :
    List (Condition C N) → Selection N
  | [] => ⟨[], generator, .ok otherwise⟩
  | guard :: rest =>
    let verdict := guard.evaluate ctx
    let events := verdict.events ++ [.guarded index verdict.answer]
    match verdict.answer with
    | .error e => ⟨events, generator, .error e⟩
    | .ok true => ⟨events, generator, .ok (some index)⟩
    | .ok false =>
      let later := firstHolding ctx generator otherwise (index + 1) rest
      { later with events := events ++ later.events }

/-- Picks one of `size` children, or none. -/
def Selector.select (selector : Selector C N) (size : Nat) (ctx : C) (generator : Generator) :
    Selection N :=
  match selector with
  | guarded guards fallback =>
    firstHolding ctx generator (if fallback then some guards.length else none) 0 guards
  | uniform =>
    let (index, generator) := generator.uniform size
    ⟨[.drew], generator, .ok (some index)⟩
  | weighted weights =>
    let (index, generator) := generator.weighted weights
    ⟨[.drew], generator, .ok (some index)⟩
  | chance probability =>
    let (hit, generator) := generator.chance probability
    ⟨[.drew], generator, .ok (if hit then some 0 else none)⟩

/-- What a selection shows in the log, with the entering of its step. -/
def Selection.trace (s : Selection N) (chosen : Option Nat) : Trace N :=
  Trace.here s.events ++ Trace.line (.branchSelected chosen) ++ Trace.line (.stepActivated .branch)

structure Entrance (A C N : Type) where
  trace : Trace N
  context : C
  generator : Generator
  step : Step A C N
  result : Except TickError Unit

/-- Applies `change` to the child that was picked. -/
def Branch.choose (b : Branch A C N) (chosen : Option Nat) : Branch A C N where
  selector := b.selector
  children := match chosen with
    | none => b.children
    | some index => b.children.modify index Step.reset
  chosen

/-- Enters a step: its action is reloaded and started, its sequences are reset, or its branch
selects a child. The step is active only if all of that succeeded; otherwise the next tick enters
it again from the beginning. -/
def Step.activate [Behavior A C N] (s : Step A C N) (ctx : C) (generator : Generator) :
    Entrance A C N :=
  match s.kind with
  | .leaf action =>
    let entered := action.enter ctx
    match entered.result with
    | .error e =>
      ⟨Trace.here entered.events, entered.context, generator, ⟨s.state, .leaf entered.action⟩,
        .error e⟩
    | .ok () =>
      ⟨Trace.here entered.events ++ Trace.line (.stepActivated .leaf), entered.context, generator,
        ⟨.active, .leaf entered.action⟩, .ok ()⟩
  | .nested body =>
    ⟨Trace.line (.stepActivated .nested), ctx, generator, ⟨.active, .nested body.reset⟩, .ok ()⟩
  | .parallel group =>
    ⟨Trace.line (.stepActivated .parallel), ctx, generator, ⟨.active, .parallel group.reset⟩,
      .ok ()⟩
  | .branch branch =>
    let selection := branch.selector.select branch.children.length ctx generator
    match selection.result with
    | .error e => ⟨Trace.here selection.events, ctx, selection.generator, s, .error e⟩
    | .ok chosen =>
      ⟨selection.trace chosen, ctx, selection.generator, ⟨.active, .branch (branch.choose chosen)⟩,
        .ok ()⟩

structure Advance (A C N : Type) where
  trace : Trace N
  context : C
  sequence : Sequence A C N
  result : Except TickError Outcome

/-- The number of passes is held at the largest 32-bit number once it gets there. -/
def maxPasses : Nat := Nat.pow 2 32 - 1

/-- Whether another pass follows, when `remaining` passes were left at the start of this one. -/
def Policy.again (remaining : Nat) (ctx : C) : Policy C N → Evaluation N
  | once => ⟨[], .ok false⟩
  | count _ => ⟨[], .ok (1 < remaining)⟩
  | untilHolds condition =>
    let verdict := condition.evaluate ctx
    ⟨verdict.events ++ [.repeatChecked verdict.answer], verdict.answer.map (!·)⟩
  | forever => ⟨[], .ok true⟩

/-- The progress at the beginning of the pass that follows this one. -/
def Progress.wrap (p : Progress) (policy : Policy C N) : Progress where
  status := p.status
  cursor := 0
  passes := min (p.passes + 1) maxPasses
  remaining := match policy with
    | .count _ => p.remaining - 1
    | _ => p.remaining
  blocked := false

/-- Whether the pass that just ended shows a loop that never waits, which has not been reported. -/
def Sequence.isInstantLoop (s : Sequence A C N) : Bool :=
  s.policy.name == .forever && !s.progress.blocked && s.warnOnInstantLoops && !s.warned

/-- Starts the next pass: every step is to be entered again, and the first one is entered at
once. -/
def Sequence.wrap [Behavior A C N] (s : Sequence A C N) (ctx : C) : Advance A C N :=
  let instant := s.isInstantLoop
  let progress := s.progress.wrap s.policy
  let lines := (if instant then Trace.line (.instantLoop s.name) else []) ++
    Trace.line (.sequenceWrapped s.name progress.passes)
  let wrapped := { s with steps := s.steps.map Step.reset, warned := s.warned || instant, progress }
  match wrapped.steps with
  | [] => ⟨lines, ctx, wrapped, .ok .running⟩
  | first :: rest =>
    let entered := first.activate ctx s.generator
    ⟨lines ++ entered.trace.under (.step 0), entered.context,
      { wrapped with steps := entered.step :: rest, generator := entered.generator },
      entered.result.map fun () => .running⟩

/-- Applies the repetition policy after the last step. When its condition fails, nothing changes,
and the next tick asks again. -/
def Sequence.finishPass [Behavior A C N] (s : Sequence A C N) (ctx : C) : Advance A C N :=
  let verdict := s.policy.again s.progress.remaining ctx
  match verdict.answer with
  | .error e => ⟨Trace.here verdict.events, ctx, s, .error e⟩
  | .ok true =>
    let wrapped := s.wrap ctx
    { wrapped with trace := Trace.here verdict.events ++ wrapped.trace }
  | .ok false =>
    let passes := min (s.progress.passes + 1) maxPasses
    ⟨Trace.here verdict.events ++ Trace.line (.sequenceComplete s.name passes), ctx,
      { s with progress := { s.progress with status := .complete, passes } }, .ok .complete⟩

/-! ### The parts of a tick

Each part is a function of what the tick of a smaller part came to, or of a function that ticks it.
-/

/-- What ticking a step came to; the answer says whether the step has finished. -/
structure StepTick (A C N : Type) where
  trace : Trace N
  context : C
  generator : Generator
  step : Step A C N
  result : Except TickError Bool

structure ChildTick (A C N : Type) where
  trace : Trace N
  context : C
  generator : Generator
  children : List (Step A C N)
  result : Except TickError Bool

/-- What ticking steps one after the other came to: the answer says whether all of them completed,
and `cursor` is the index of the first that did not. -/
structure Cascade (A C N : Type) where
  trace : Trace N
  context : C
  generator : Generator
  steps : List (Step A C N)
  cursor : Nat
  result : Except TickError Bool

/-- What ticking sequences side by side came to; the answer is how many reported completion. -/
structure Round (A C N : Type) where
  trace : Trace N
  context : C
  members : List (Sequence A C N)
  result : Except TickError Nat

/-- The state in which driving an active step leaves it. -/
def StepState.ofDriven : Except TickError Bool → StepState
  | .ok true => .complete
  | _ => .active

/-- The tick of an active step, from what driving its inside came to. -/
def StepTick.ofDriven (shape : StepShape) (trace : Trace N) (context : C) (generator : Generator)
    (kind : StepKind A C N) (result : Except TickError Bool) : StepTick A C N :=
  match result with
  | .ok true =>
    ⟨trace ++ Trace.line (.stepComplete shape), context, generator, ⟨.complete, kind⟩, .ok true⟩
  | .ok false => ⟨trace, context, generator, ⟨.active, kind⟩, .ok false⟩
  | .error e => ⟨trace, context, generator, ⟨.active, kind⟩, .error e⟩

/-- The tick of a step, marked as such in its trace. -/
def StepTick.marked (t : StepTick A C N) : StepTick A C N :=
  { t with trace := ⟨[], .ticked⟩ :: t.trace }

/-- The log line of a step that has been entered. -/
def activation (entering : Bool) (shape : StepShape) : Trace N :=
  if entering then Trace.line (.stepActivated shape) else []

/-- The tick of a step with an action, which is entered first if asked for. -/
def StepTick.ofAction [Behavior A C N] (entering : Bool) (dt : Float32) (action : Action A C N)
    (ctx : C) (generator : Generator) : StepTick A C N :=
  let entered := if entering then action.enter ctx else ⟨[], action, ctx, .ok ()⟩
  match entered.result with
  | .error e =>
    ⟨Trace.here entered.events, entered.context, generator, ⟨.notStarted, .leaf entered.action⟩,
      .error e⟩
  | .ok () =>
    let driven := entered.action.drive dt entered.context
    .ofDriven .leaf (Trace.here entered.events ++ activation entering .leaf ++
        Trace.here driven.events)
      driven.context generator (.leaf driven.action) driven.result

def StepTick.ofBody (entering : Bool) (generator : Generator) (inner : Advance A C N) :
    StepTick A C N :=
  .ofDriven .nested (activation entering .nested ++ inner.trace.under .body) inner.context
    generator (.nested inner.sequence) (inner.result.map (· == .complete))

def StepTick.ofRound (entering : Bool) (generator : Generator) (completion : Completion)
    (inner : Round A C N) : StepTick A C N :=
  .ofDriven .parallel (activation entering .parallel ++ inner.trace) inner.context generator
    (.parallel ⟨completion, inner.members⟩)
    (inner.result.map (completion.isMet · inner.members.length))

/-- The tick of a branch that has made its choice, after the events of `earlier`. A branch with
nothing chosen has finished. -/
def StepTick.ofChosen (earlier : Trace N) (b : Branch A C N) (chosen : Option Nat)
    (tickChild : Nat → C → Generator → ChildTick A C N) (ctx : C) (generator : Generator) :
    StepTick A C N :=
  match chosen with
  | none => .ofDriven .branch earlier ctx generator (.branch { b with chosen := none }) (.ok true)
  | some index =>
    let inner := tickChild index ctx generator
    .ofDriven .branch (earlier ++ inner.trace.under (.child index)) inner.context inner.generator
      (.branch { b with children := inner.children, chosen := some index }) inner.result

/-- The tick of a step with a branch, which makes its choice first if it is entered. -/
def StepTick.ofBranch (entering : Bool) (b : Branch A C N)
    (tickChild : Nat → C → Generator → ChildTick A C N) (ctx : C) (generator : Generator) :
    StepTick A C N :=
  if entering then
    let selection := b.selector.select b.children.length ctx generator
    match selection.result with
    | .error e =>
      ⟨Trace.here selection.events, ctx, selection.generator, ⟨.notStarted, .branch b⟩, .error e⟩
    | .ok chosen =>
      .ofChosen (selection.trace chosen) b chosen tickChild ctx selection.generator
  else .ofChosen [] b b.chosen tickChild ctx generator

/-- The tick of the chosen one of some steps that come before `rest`. -/
def StepTick.inFrontOf (t : StepTick A C N) (rest : List (Step A C N)) : ChildTick A C N :=
  ⟨t.trace, t.context, t.generator, t.step :: rest, t.result⟩

/-- The tick of the chosen one of some steps that come after `first`. -/
def ChildTick.behind (first : Step A C N) (t : ChildTick A C N) : ChildTick A C N :=
  { t with children := first :: t.children }

/-- The cascade that starts with the step at `index`: when that step has finished, the rest follows;
else the rest is left as `waiting`. -/
def StepTick.andThen (index : Nat) (t : StepTick A C N) (waiting : List (Step A C N))
    (later : C → Generator → Cascade A C N) : Cascade A C N :=
  let trace := t.trace.under (.step index)
  match t.result with
  | .ok true =>
    let after := later t.context t.generator
    { after with trace := trace ++ after.trace, steps := t.step :: after.steps }
  | .ok false => ⟨trace, t.context, t.generator, t.step :: waiting, index, .ok false⟩
  | .error e => ⟨trace, t.context, t.generator, t.step :: waiting, index, .error e⟩

/-- A cascade through steps that come after `first`, which has been finished before. -/
def Cascade.behind (first : Step A C N) (c : Cascade A C N) : Cascade A C N :=
  { c with steps := first :: c.steps }

/-- The body of a sequence that is running: the cascade from the cursor on, and the end of the pass
if it gets there. -/
def Sequence.runBody [Behavior A C N] (s : Sequence A C N) (ctx : C)
    (run : C → Generator → Cascade A C N) : Advance A C N :=
  let driven := run ctx s.generator
  let stopped := { s with
    steps := driven.steps
    generator := driven.generator
    progress := { s.progress with cursor := driven.cursor } }
  match driven.result with
  | .ok true =>
    let finished := stopped.finishPass driven.context
    { finished with trace := driven.trace ++ finished.trace }
  | .ok false =>
    ⟨driven.trace, driven.context,
      { stopped with progress := { stopped.progress with blocked := true } }, .ok .running⟩
  | .error e => ⟨driven.trace, driven.context, stopped, .error e⟩

/-- The body of a sequence as the tick finds it: one that has just been reset is started, which is
logged, and one that is complete does nothing. -/
def Sequence.body [Behavior A C N] (fresh : Bool) (s : Sequence A C N) (ctx : C)
    (run : C → Generator → Cascade A C N) : Advance A C N :=
  if fresh then
    let ran := { s with progress := { s.progress with status := .running } }.runBody ctx run
    { ran with
      trace := Trace.line (.sequenceStarted s.name s.steps.length s.policy.name) ++ ran.trace }
  else if s.isComplete then ⟨[], ctx, s, .ok .complete⟩
  else s.runBody ctx run

/-- The tick of a sequence from that of its body, marked as such in its trace: the companions are
ticked after the body, unless it has failed. -/
def Advance.beside (body : Advance A C N) (companions : C → Round A C N) : Advance A C N :=
  let trace := ⟨[], .ticked⟩ :: body.trace
  match body.result with
  | .error e => ⟨trace, body.context, body.sequence, .error e⟩
  | .ok outcome =>
    let round := companions body.context
    ⟨trace ++ round.trace, round.context,
      { body.sequence with companions := round.members }, round.result.map fun _ => outcome⟩

/-- The round that starts with the sequence at `hop`: if it has not failed, the rest follows; else
the rest is left as `waiting`. -/
def Advance.andThen (hop : Hop) (a : Advance A C N) (waiting : List (Sequence A C N))
    (later : C → Round A C N) : Round A C N :=
  let trace := a.trace.under hop
  match a.result with
  | .error e => ⟨trace, a.context, a.sequence :: waiting, .error e⟩
  | .ok outcome =>
    let after := later a.context
    ⟨trace ++ after.trace, after.context, a.sequence :: after.members,
      after.result.map fun complete => if outcome == .complete then complete + 1 else complete⟩

mutual

/-- Ticks what a step holds, and enters it first if asked for. -/
def StepKind.tick [Behavior A C N] (entering : Bool) (dt : Float32) :
    StepKind A C N → C → Generator → StepTick A C N
  | .leaf action, ctx, generator => .ofAction entering dt action ctx generator
  | .nested body, ctx, generator =>
    .ofBody entering generator (Sequence.advanceFrom entering dt body ctx)
  | .parallel ⟨completion, members⟩, ctx, generator =>
    .ofRound entering generator completion (advanceAll entering dt .member 0 members ctx)
  | .branch ⟨selector, children, chosen⟩, ctx, generator =>
    .ofBranch entering ⟨selector, children, chosen⟩ (tickChild entering dt children) ctx generator

/-- Ticks a step: it is entered if need be, and then driven. A complete step stays as it is. -/
def Step.tick [Behavior A C N] (fresh : Bool) (dt : Float32) :
    Step A C N → C → Generator → StepTick A C N
  | ⟨state, kind⟩, ctx, generator =>
    match if fresh then .notStarted else state with
    | .notStarted => (StepKind.tick true dt kind ctx generator).marked
    | .active => (StepKind.tick false dt kind ctx generator).marked
    | .complete => .marked ⟨[], ctx, generator, ⟨.complete, kind⟩, .ok true⟩

/-- Ticks the step at an index. A missing step counts as finished. -/
def tickChild [Behavior A C N] (fresh : Bool) (dt : Float32) :
    List (Step A C N) → Nat → C → Generator → ChildTick A C N
  | [], _, ctx, generator => ⟨[], ctx, generator, [], .ok true⟩
  | step :: rest, 0, ctx, generator => (Step.tick fresh dt step ctx generator).inFrontOf rest
  | step :: rest, index + 1, ctx, generator =>
    (tickChild fresh dt rest index ctx generator).behind step

/-- Ticks the steps after the first `skip` ones, one after the other, for as long as they complete.
The first step of the list has the given index. -/
def cascade [Behavior A C N] (fresh : Bool) (dt : Float32) (index : Nat) :
    List (Step A C N) → Nat → C → Generator → Cascade A C N
  | [], _, ctx, generator => ⟨[], ctx, generator, [], index, .ok true⟩
  | step :: rest, 0, ctx, generator =>
    (Step.tick fresh dt step ctx generator).andThen index
      (if fresh then rest.map Step.reset else rest) (cascade fresh dt (index + 1) rest 0)
  | step :: rest, skip + 1, ctx, generator =>
    (cascade fresh dt (index + 1) rest skip ctx generator).behind step

/-- Ticks a sequence, and its companions after it. With `restart` the sequence is reset first. -/
def Sequence.advanceFrom [Behavior A C N] (restart : Bool) (dt : Float32) :
    Sequence A C N → C → Advance A C N
  | ⟨id, name, steps, policy, companions, generator, warnOnInstantLoops, warned, progress⟩, ctx =>
    let fresh := restart || progress.status == .notStarted
    let s : Sequence A C N :=
      ⟨id, name, steps, policy, companions, generator, warnOnInstantLoops, warned, progress⟩
    let entry := if fresh then s.reset else s
    (entry.body fresh ctx (cascade fresh dt 0 steps entry.cursor)).beside
      (advanceAll fresh dt .companion 0 companions)

/-- Ticks sequences in order, up to the first that fails. The first has the given index. -/
def advanceAll [Behavior A C N] (fresh : Bool) (dt : Float32) (hop : Nat → Hop) (index : Nat) :
    List (Sequence A C N) → C → Round A C N
  | [], ctx => ⟨[], ctx, [], .ok 0⟩
  | member :: rest, ctx =>
    (Sequence.advanceFrom fresh dt member ctx).andThen (hop index)
      (if fresh then resetAll rest else rest) (advanceAll fresh dt hop (index + 1) rest)

end

/-- Drives a sequence for one tick of `dt` seconds. -/
def Sequence.advance [Behavior A C N] (s : Sequence A C N) (dt : Float32) (ctx : C) :
    Advance A C N :=
  s.advanceFrom false dt ctx

structure GroupAdvance (A C N : Type) where
  trace : Trace N
  context : C
  group : Group A C N
  result : Except TickError Outcome

/-- Drives every member of a group for one tick, in order, up to the first that fails. -/
def Group.advance [Behavior A C N] (g : Group A C N) (dt : Float32) (ctx : C) :
    GroupAdvance A C N :=
  let round := advanceAll false dt .member 0 g.members ctx
  ⟨round.trace, round.context, { g with members := round.members },
    round.result.map fun complete =>
      if g.completion.isMet complete round.members.length then .complete else .running⟩

end Sequencer

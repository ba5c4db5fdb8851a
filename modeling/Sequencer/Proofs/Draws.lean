import Sequencer.Proofs.TickEquations

/-!
# Steps that never draw

A step draws from the random source of the sequence that holds it only if it is a random branch, or
a branch with such a step among its children. Any other step is ticked in the same way whatever the
source is, leaves the source as it is, and stays a step that never draws.
-/

namespace Sequencer

variable {A C N : Type}

def Selector.IsGuarded : Selector C N → Prop
  | guarded .. => True
  | _ => False

mutual

/-- Whether what a step holds draws from the random source of the sequence around it, be it now or
later. A sequence inside has a source of its own. -/
def StepKind.NeverDraws : StepKind A C N → Prop
  | .branch ⟨selector, children, _⟩ => selector.IsGuarded ∧ NoneDraws children
  | .leaf _ | .nested _ | .parallel _ => True

def Step.NeverDraws : Step A C N → Prop
  | ⟨_, kind⟩ => kind.NeverDraws

def NoneDraws : List (Step A C N) → Prop
  | [] => True
  | step :: rest => step.NeverDraws ∧ NoneDraws rest

end

theorem Step.neverDraws_iff {s : Step A C N} : s.NeverDraws ↔ s.kind.NeverDraws := by
  cases s; exact Iff.rfl

theorem StepKind.neverDraws_branch {b : Branch A C N} :
    (branch b).NeverDraws ↔ b.selector.IsGuarded ∧ NoneDraws b.children := by
  cases b; exact Iff.rfl

theorem noneDraws_iff {steps : List (Step A C N)} :
    NoneDraws steps ↔ ∀ step ∈ steps, step.NeverDraws := by
  induction steps with
  | nil => simp [NoneDraws]
  | cons step rest ih => simp [NoneDraws, ih]

theorem NoneDraws.map_reset {steps : List (Step A C N)} (h : NoneDraws steps) :
    NoneDraws (steps.map Step.reset) := by
  rw [noneDraws_iff] at h ⊢
  intro step hs
  obtain ⟨old, ho, rfl⟩ := List.mem_map.mp hs
  have hold := Step.neverDraws_iff.mp (h old ho)
  exact Step.neverDraws_iff.mpr hold

/-- Whether a tick of a step, as a function of the random source, makes no use of it, nor will a
later one. -/
structure StepTick.DrawsNothing (tick : Generator → StepTick A C N) : Prop where
  step : ∀ g, (tick g).step.NeverDraws
  generator : ∀ g g', tick g' = { tick g with generator := g' }

structure ChildTick.DrawsNothing (tick : Generator → ChildTick A C N) : Prop where
  children : ∀ g, NoneDraws (tick g).children
  generator : ∀ g g', tick g' = { tick g with generator := g' }

structure Cascade.DrawsNothing (run : Generator → Cascade A C N) : Prop where
  steps : ∀ g, NoneDraws (run g).steps
  generator : ∀ g g', run g' = { run g with generator := g' }

theorem firstHolding_generator (ctx : C) (g g' : Generator) (otherwise : Option Nat) (index : Nat)
    (guards : List (Condition C N)) :
    firstHolding ctx g' otherwise index guards =
      { firstHolding ctx g otherwise index guards with generator := g' } := by
  induction guards generalizing index with
  | nil => rfl
  | cons guard rest ih =>
    simp only [firstHolding]
    split
    · rfl
    · rfl
    · rw [ih]

theorem Selector.IsGuarded.select {selector : Selector C N} (h : selector.IsGuarded) (size : Nat)
    (ctx : C) (g g' : Generator) :
    selector.select size ctx g' = { selector.select size ctx g with generator := g' } := by
  cases selector with
  | guarded guards fallback => exact firstHolding_generator ctx g g' _ 0 guards
  | _ => exact h.elim

namespace StepTick

theorem generator_ofDriven (shape : StepShape) (trace : Trace N) (ctx : C) (g g' : Generator)
    (kind : StepKind A C N) (result : Except TickError Bool) :
    ofDriven shape trace ctx g' kind result =
      { ofDriven shape trace ctx g kind result with generator := g' } := by
  unfold ofDriven
  split <;> rfl

theorem drawsNothing_ofDriven (shape : StepShape) (trace : Trace N) (ctx : C)
    {kind : StepKind A C N} (h : kind.NeverDraws) (result : Except TickError Bool) :
    DrawsNothing fun g => ofDriven shape trace ctx g kind result where
  step g := by
    unfold ofDriven
    split <;> exact h
  generator g g' := generator_ofDriven ..

theorem DrawsNothing.marked {tick : Generator → StepTick A C N} (h : DrawsNothing tick) :
    DrawsNothing fun g => (tick g).marked where
  step := h.step
  generator g g' := by simp only [h.generator g g', StepTick.marked]

theorem drawsNothing_ofChosen (earlier : Trace N) {b : Branch A C N}
    (hb : (StepKind.branch b).NeverDraws) (chosen : Option Nat)
    {tickChild : Nat → C → Generator → ChildTick A C N}
    (h : ∀ index ctx, ChildTick.DrawsNothing (tickChild index ctx)) (ctx : C) :
    DrawsNothing (ofChosen earlier b chosen tickChild ctx) := by
  have hkept (children : List (Step A C N)) (picked : Option Nat) (hc : NoneDraws children) :
      (StepKind.branch { b with children, chosen := picked }).NeverDraws :=
    StepKind.neverDraws_branch.mpr ⟨(StepKind.neverDraws_branch.mp hb).1, hc⟩
  cases chosen with
  | none =>
    exact drawsNothing_ofDriven .branch earlier ctx
      (hkept b.children none (StepKind.neverDraws_branch.mp hb).2) (.ok true)
  | some index =>
    constructor
    · intro g
      exact (drawsNothing_ofDriven .branch _ _
        (hkept _ (some index) ((h index ctx).children g)) _).step _
    · intro g g'
      simp only [ofChosen, (h index ctx).generator g g']
      exact generator_ofDriven ..

theorem drawsNothing_ofBranch (entering : Bool) {b : Branch A C N}
    (hb : (StepKind.branch b).NeverDraws) {tickChild : Nat → C → Generator → ChildTick A C N}
    (h : ∀ index ctx, ChildTick.DrawsNothing (tickChild index ctx)) (ctx : C) :
    DrawsNothing (ofBranch entering b tickChild ctx) := by
  cases entering with
  | false => exact drawsNothing_ofChosen [] hb b.chosen h ctx
  | true =>
    have hsel := (StepKind.neverDraws_branch.mp hb).1.select b.children.length ctx
    constructor
    · intro g
      simp only [ofBranch, ↓reduceIte]
      split
      · exact hb
      · exact (drawsNothing_ofChosen _ hb _ h ctx).step _
    · intro g g'
      simp only [ofBranch, ↓reduceIte, hsel g g']
      split
      · rfl
      · exact (drawsNothing_ofChosen _ hb _ h ctx).generator _ _

theorem drawsNothing_ofAction [Behavior A C N] (entering : Bool) (dt : Float32)
    (action : Action A C N) (ctx : C) : DrawsNothing (ofAction entering dt action ctx) where
  step g := by
    simp only [ofAction]
    split
    · trivial
    · exact (drawsNothing_ofDriven .leaf _ _ (by trivial) _).step _
  generator g g' := by
    simp only [ofAction]
    split
    · rfl
    · exact generator_ofDriven ..

end StepTick

section Ticks

variable [Behavior A C N]

mutual

theorem StepKind.NeverDraws.tick {kind : StepKind A C N} (h : kind.NeverDraws) (entering : Bool)
    (dt : Float32) (ctx : C) : StepTick.DrawsNothing (StepKind.tick entering dt kind ctx) := by
  match kind with
  | .leaf action => exact StepTick.drawsNothing_ofAction entering dt action ctx
  | .nested body => exact StepTick.drawsNothing_ofDriven .nested _ _ (by trivial) _
  | .parallel ⟨completion, members⟩ =>
    exact StepTick.drawsNothing_ofDriven .parallel _ _ (by trivial) _
  | .branch ⟨selector, children, chosen⟩ =>
    exact StepTick.drawsNothing_ofBranch entering h
      (fun index ctx => NoneDraws.tickChild h.2 entering dt index ctx) ctx
termination_by structural kind

/-- A step that never draws is ticked without the random source, and stays such a step. -/
theorem Step.NeverDraws.tick {s : Step A C N} (h : s.NeverDraws) (fresh : Bool) (dt : Float32)
    (ctx : C) : StepTick.DrawsNothing (Step.tick fresh dt s ctx) := by
  obtain ⟨state, kind⟩ := s
  have hdriven (entering : Bool) := (StepKind.NeverDraws.tick h entering dt ctx).marked
  constructor
  · intro g
    simp only [Step.tick]
    split
    · exact (hdriven true).step g
    · exact (hdriven false).step g
    · exact h
  · intro g g'
    simp only [Step.tick]
    split
    · exact (hdriven true).generator g g'
    · exact (hdriven false).generator g g'
    · rfl
termination_by structural s

theorem NoneDraws.tickChild {children : List (Step A C N)} (h : NoneDraws children) (fresh : Bool)
    (dt : Float32) (index : Nat) (ctx : C) :
    ChildTick.DrawsNothing (tickChild fresh dt children index ctx) := by
  match children, index with
  | [], _ => exact ⟨fun _ => trivial, fun _ _ => rfl⟩
  | step :: rest, 0 =>
    have ht := Step.NeverDraws.tick h.1 fresh dt ctx
    refine ⟨fun g => ⟨ht.step g, h.2⟩, ?_⟩
    intro g g'
    simp only [Sequencer.tickChild, ht.generator g g', StepTick.inFrontOf]
  | step :: rest, index + 1 =>
    have ht := NoneDraws.tickChild h.2 fresh dt index ctx
    refine ⟨fun g => ⟨h.1, ht.children g⟩, ?_⟩
    intro g g'
    simp only [Sequencer.tickChild, ht.generator g g', ChildTick.behind]
termination_by structural children

end

theorem NoneDraws.cascade {steps : List (Step A C N)} (h : NoneDraws steps) (dt : Float32)
    (index skip : Nat) (ctx : C) :
    Cascade.DrawsNothing (cascade false dt index steps skip ctx) := by
  induction steps generalizing index skip ctx with
  | nil => exact ⟨fun _ => trivial, fun _ _ => rfl⟩
  | cons first rest ih =>
    cases skip with
    | zero =>
      have ht := Step.NeverDraws.tick h.1 false dt ctx
      constructor
      · intro g
        simp only [Sequencer.cascade, StepTick.andThen]
        split
        · exact ⟨ht.step g, (ih h.2 _ _ _).steps _⟩
        · exact ⟨ht.step g, h.2⟩
        · exact ⟨ht.step g, h.2⟩
      · intro g g'
        simp only [Sequencer.cascade, StepTick.andThen, ht.generator g g']
        split
        · rw [(ih h.2 _ _ _).generator _ g']
        · rfl
        · rfl
    | succ skip =>
      have hk := ih h.2 (index + 1) skip ctx
      refine ⟨fun g => ⟨h.1, hk.steps g⟩, ?_⟩
      intro g g'
      simp only [Sequencer.cascade, hk.generator g g', Cascade.behind]

end Ticks

end Sequencer

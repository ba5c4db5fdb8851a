import Sequencer.Proofs.TickEquations

/-!
# What a behavior does not look at

A behavior may be given contexts that differ in something it never looks at. If its conditions
answer alike on such contexts, and its actions and callbacks do alike and leave contexts that again
differ in nothing else, then so does every tick: the result and the state that is left are the same,
though what is noted on the way may differ.
-/

namespace Sequencer

variable {A C N : Type}

section Relation

/- The contexts that are not told apart. -/
variable (R : C → C → Prop)

def Condition.Ignores (c : Condition C N) : Prop :=
  ∀ ctx ctx', R ctx ctx' → (c.evaluate ctx).answer = (c.evaluate ctx').answer

def Callback.Ignores (c : Callback C N) : Prop :=
  ∀ runs ctx ctx', R ctx ctx' →
    R (c.run runs ctx).context (c.run runs ctx').context ∧
      (c.run runs ctx).result = (c.run runs ctx').result

/-- Whether two replies of a hook differ in nothing but their notes and what is not looked at. -/
structure Reply.Agrees (r r' : Reply A C N) : Prop where
  action : r.action = r'.action
  context : R r.context r'.context
  result : r.result = r'.result

/-- Whether no action of an application looks. -/
structure Behavior.Ignores [Behavior A C N] : Prop where
  start (a : A) {ctx ctx' : C} (h : R ctx ctx') :
    (Behavior.start a ctx : Reply A C N).Agrees R (Behavior.start a ctx')
  update (a : A) (dt : Float32) {ctx ctx' : C} (h : R ctx ctx') :
    (Behavior.update a ctx dt : Reply A C N).Agrees R (Behavior.update a ctx' dt)
  check (a : A) {ctx ctx' : C} (h : R ctx ctx') :
    (Behavior.check a ctx : Check A N).action = (Behavior.check a ctx' : Check A N).action ∧
      (Behavior.check a ctx : Check A N).answer = (Behavior.check a ctx' : Check A N).answer
  finish (a : A) {ctx ctx' : C} (h : R ctx ctx') :
    (Behavior.finish a ctx : Reply A C N).Agrees R (Behavior.finish a ctx')

/-- Whether what an action has been given does not look. -/
def Action.Ignores : Action A C N → Prop
  | idle | wait _ | custom _ => True
  | waitUntil condition => condition.Ignores R
  | callback c => c.Ignores R

def Selector.Ignores : Selector C N → Prop
  | guarded guards _ => ∀ guard ∈ guards, guard.Ignores R
  | _ => True

def Policy.Ignores : Policy C N → Prop
  | untilHolds condition => condition.Ignores R
  | _ => True

mutual

def Sequence.Ignores : Sequence A C N → Prop
  | ⟨_, _, steps, policy, companions, _, _, _, _⟩ =>
    policy.Ignores R ∧ Step.AllIgnore steps ∧ Sequence.AllIgnore companions

def Step.Ignores : Step A C N → Prop
  | ⟨_, kind⟩ => StepKind.Ignores kind

def StepKind.Ignores : StepKind A C N → Prop
  | .leaf action => action.Ignores R
  | .nested body => Sequence.Ignores body
  | .parallel ⟨_, members⟩ => Sequence.AllIgnore members
  | .branch ⟨selector, children, _⟩ => selector.Ignores R ∧ Step.AllIgnore children

def Step.AllIgnore : List (Step A C N) → Prop
  | [] => True
  | s :: rest => Step.Ignores s ∧ Step.AllIgnore rest

def Sequence.AllIgnore : List (Sequence A C N) → Prop
  | [] => True
  | s :: rest => Sequence.Ignores s ∧ Sequence.AllIgnore rest

end

theorem Step.allIgnore_iff {steps : List (Step A C N)} :
    Step.AllIgnore R steps ↔ ∀ s ∈ steps, s.Ignores R := by
  induction steps with
  | nil => simp [Step.AllIgnore]
  | cons s rest ih => simp [Step.AllIgnore, ih]

theorem Sequence.allIgnore_iff {ss : List (Sequence A C N)} :
    Sequence.AllIgnore R ss ↔ ∀ s ∈ ss, s.Ignores R := by
  induction ss with
  | nil => simp [Sequence.AllIgnore]
  | cons s rest ih => simp [Sequence.AllIgnore, ih]

end Relation

variable {R : C → C → Prop}

theorem Sequence.ignores_iff {s : Sequence A C N} :
    s.Ignores R ↔
      s.policy.Ignores R ∧ Step.AllIgnore R s.steps ∧ Sequence.AllIgnore R s.companions := by
  cases s
  rfl

theorem StepKind.ignores_parallel {g : Group A C N} :
    (StepKind.parallel g).Ignores R ↔ Sequence.AllIgnore R g.members := by
  cases g
  rfl

theorem StepKind.ignores_branch {b : Branch A C N} :
    (StepKind.branch b).Ignores R ↔ b.selector.Ignores R ∧ Step.AllIgnore R b.children := by
  cases b
  rfl

theorem Step.Ignores.reset {s : Step A C N} (h : s.Ignores R) : s.reset.Ignores R := by
  cases s
  exact h

theorem Step.allIgnore_map_reset {steps : List (Step A C N)} (h : Step.AllIgnore R steps) :
    Step.AllIgnore R (steps.map Step.reset) := by
  induction steps with
  | nil => trivial
  | cons s rest ih =>
    exact ⟨h.1.reset, ih h.2⟩

mutual

theorem Sequence.Ignores.reset (s : Sequence A C N) (h : s.Ignores R) : s.reset.Ignores R := by
  obtain ⟨id, name, steps, policy, companions, generator, warns, warned, progress⟩ := s
  exact ⟨h.1, Step.allIgnore_map_reset h.2.1, Sequence.allIgnore_resetAll companions h.2.2⟩
termination_by structural s

theorem Sequence.allIgnore_resetAll (ss : List (Sequence A C N)) (h : Sequence.AllIgnore R ss) :
    Sequence.AllIgnore R (resetAll ss) := by
  match ss with
  | [] => trivial
  | s :: rest => exact ⟨Sequence.Ignores.reset s h.1, Sequence.allIgnore_resetAll rest h.2⟩
termination_by structural ss

end

theorem Step.allIgnore_waiting {fresh : Bool} {steps : List (Step A C N)}
    (h : Step.AllIgnore R steps) :
    Step.AllIgnore R (if fresh then steps.map Step.reset else steps) := by
  cases fresh with
  | true => exact Step.allIgnore_map_reset h
  | false => exact h

theorem Sequence.allIgnore_waiting {fresh : Bool} {ss : List (Sequence A C N)}
    (h : Sequence.AllIgnore R ss) : Sequence.AllIgnore R (if fresh then resetAll ss else ss) := by
  cases fresh with
  | true => exact Sequence.allIgnore_resetAll ss h
  | false => exact h

theorem Sequence.ignores_entry (fresh : Bool) {s : Sequence A C N} (h : s.Ignores R) :
    (if fresh then s.reset else s).Ignores R := by
  cases fresh with
  | true => exact Sequence.Ignores.reset s h
  | false => exact h

theorem Branch.allIgnore_choose {b : Branch A C N} (h : Step.AllIgnore R b.children)
    (chosen : Option Nat) : Step.AllIgnore R (b.choose chosen).children := by
  cases chosen with
  | none => exact h
  | some index =>
    refine (Step.allIgnore_iff R).mpr fun s hs => ?_
    obtain ⟨i, hi, rfl⟩ := List.mem_iff_getElem.mp hs
    have hlength : i < b.children.length := by simpa [Branch.choose] using hi
    have hchild := (Step.allIgnore_iff R).mp h b.children[i] (List.getElem_mem hlength)
    simp only [Branch.choose, List.getElem_modify]
    split
    · exact hchild.reset
    · exact hchild

structure Selection.Agrees (s s' : Selection N) : Prop where
  generator : s.generator = s'.generator
  result : s.result = s'.result

theorem agrees_firstHolding {guards : List (Condition C N)} (h : ∀ guard ∈ guards, guard.Ignores R)
    {ctx ctx' : C} (hR : R ctx ctx') (generator : Generator) (otherwise : Option Nat)
    (index : Nat) :
    (firstHolding ctx generator otherwise index guards).Agrees
      (firstHolding ctx' generator otherwise index guards) := by
  induction guards generalizing index with
  | nil => exact ⟨rfl, rfl⟩
  | cons guard rest ih =>
    obtain ⟨hguard, hrest⟩ := List.forall_mem_cons.mp h
    have hanswer := hguard ctx ctx' hR
    simp only [firstHolding, hanswer]
    match (guard.evaluate ctx').answer with
    | .error e => exact ⟨rfl, rfl⟩
    | .ok true => exact ⟨rfl, rfl⟩
    | .ok false =>
      obtain ⟨hgenerator, hresult⟩ := ih hrest (index + 1)
      exact ⟨hgenerator, hresult⟩

theorem Selector.Ignores.select {selector : Selector C N} (h : selector.Ignores R) (size : Nat)
    {ctx ctx' : C} (hR : R ctx ctx') (generator : Generator) :
    (selector.select size ctx generator).Agrees (selector.select size ctx' generator) := by
  cases selector with
  | guarded guards fallback => exact agrees_firstHolding h hR generator _ 0
  | uniform => exact ⟨rfl, rfl⟩
  | weighted weights => exact ⟨rfl, rfl⟩
  | chance probability => exact ⟨rfl, rfl⟩

theorem Policy.Ignores.again {policy : Policy C N} (h : policy.Ignores R) (remaining : Nat)
    {ctx ctx' : C} (hR : R ctx ctx') :
    (policy.again remaining ctx).answer = (policy.again remaining ctx').answer := by
  cases policy with
  | untilHolds condition => exact congrArg (Except.map (!·)) (h ctx ctx' hR)
  | _ => rfl

section Actions

variable (R) in
/-- Whether two hooks of an action come to the same but for what is not looked at. -/
structure Hooked.Agrees {α : Type} (k k' : Hooked A C N α) : Prop where
  action : k.action = k'.action
  context : R k.context k'.context
  result : k.result = k'.result
  ignores : k.action.Ignores R

variable [Behavior A C N] (hB : Behavior.Ignores (A := A) (N := N) R)

namespace Action

variable {a : Action A C N} (h : a.Ignores R) {ctx ctx' : C} (hR : R ctx ctx')

include h in
theorem ignores_reload : a.reload.2.Ignores R := by
  cases a with
  | waitUntil condition => exact h
  | callback c => exact h
  | _ => trivial

include hB h hR

theorem agrees_start : (a.start ctx).Agrees R (a.start ctx') := by
  cases a with
  | custom action =>
    obtain ⟨haction, hcontext, hresult⟩ := hB.start action hR
    exact ⟨congrArg custom haction, hcontext, hresult, trivial⟩
  | _ => exact ⟨rfl, hR, rfl, h⟩

theorem agrees_update (dt : Float32) : (a.update dt ctx).Agrees R (a.update dt ctx') := by
  cases a with
  | callback c =>
    simp only [update]
    split
    · exact ⟨rfl, hR, rfl, h⟩
    · obtain ⟨hcontext, hresult⟩ := h c.runs ctx ctx' hR
      exact ⟨by simp only [hresult], hcontext, hresult, h⟩
  | custom action =>
    obtain ⟨haction, hcontext, hresult⟩ := hB.update action dt hR
    exact ⟨congrArg custom haction, hcontext, hresult, trivial⟩
  | _ => exact ⟨rfl, hR, rfl, h⟩

theorem agrees_check : (a.check ctx).Agrees R (a.check ctx') := by
  cases a with
  | waitUntil condition => exact ⟨rfl, hR, h ctx ctx' hR, h⟩
  | custom action =>
    obtain ⟨haction, hanswer⟩ := hB.check action hR
    exact ⟨congrArg custom haction, hR, hanswer, trivial⟩
  | _ => exact ⟨rfl, hR, rfl, h⟩

theorem agrees_finish : (a.finish ctx).Agrees R (a.finish ctx') := by
  cases a with
  | custom action =>
    obtain ⟨haction, hcontext, hresult⟩ := hB.finish action hR
    exact ⟨congrArg custom haction, hcontext, hresult, trivial⟩
  | _ => exact ⟨rfl, hR, rfl, h⟩

theorem agrees_enter : (a.enter ctx).Agrees R (a.enter ctx') := by
  obtain ⟨haction, hcontext, hresult, hignores⟩ :=
    agrees_start (a := a.reload.2) hB (ignores_reload h) hR
  exact ⟨haction, hcontext, hresult, hignores⟩

theorem agrees_drive (dt : Float32) : (a.drive dt ctx).Agrees R (a.drive dt ctx') := by
  have hupdated := agrees_update hB h hR dt
  simp only [drive]
  generalize a.update dt ctx = updated at hupdated ⊢
  generalize a.update dt ctx' = updated' at hupdated ⊢
  obtain ⟨_, action, context, result⟩ := updated
  obtain ⟨_, _, context', _⟩ := updated'
  obtain ⟨rfl, hcontext, rfl, hignores⟩ := hupdated
  match result with
  | .error e => exact ⟨rfl, hcontext, rfl, hignores⟩
  | .ok () =>
    have hchecked := agrees_check hB hignores hcontext
    dsimp only at hchecked ⊢
    generalize action.check context = checked at hchecked ⊢
    generalize action.check context' = checked' at hchecked ⊢
    obtain ⟨_, action, context, result⟩ := checked
    obtain ⟨_, _, context', _⟩ := checked'
    obtain ⟨rfl, hcontext, rfl, hignores⟩ := hchecked
    match result with
    | .error e => exact ⟨rfl, hcontext, rfl, hignores⟩
    | .ok false => exact ⟨rfl, hcontext, rfl, hignores⟩
    | .ok true =>
      obtain ⟨haction, hended, hresult, hleft⟩ := agrees_finish hB hignores hcontext
      exact ⟨haction, hended, congrArg (Except.map fun () => true) hresult, hleft⟩

end Action

end Actions

section Parts

variable (R)

structure Entrance.Agrees (e e' : Entrance A C N) : Prop where
  context : R e.context e'.context
  generator : e.generator = e'.generator
  step : e.step = e'.step
  result : e.result = e'.result
  ignores : e.step.Ignores R

structure StepTick.Agrees (t t' : StepTick A C N) : Prop where
  context : R t.context t'.context
  generator : t.generator = t'.generator
  step : t.step = t'.step
  result : t.result = t'.result
  ignores : t.step.Ignores R

structure ChildTick.Agrees (t t' : ChildTick A C N) : Prop where
  context : R t.context t'.context
  generator : t.generator = t'.generator
  children : t.children = t'.children
  result : t.result = t'.result
  ignores : Step.AllIgnore R t.children

structure Cascade.Agrees (k k' : Cascade A C N) : Prop where
  context : R k.context k'.context
  generator : k.generator = k'.generator
  steps : k.steps = k'.steps
  cursor : k.cursor = k'.cursor
  result : k.result = k'.result
  ignores : Step.AllIgnore R k.steps

structure Round.Agrees (r r' : Round A C N) : Prop where
  context : R r.context r'.context
  members : r.members = r'.members
  result : r.result = r'.result
  ignores : Sequence.AllIgnore R r.members

structure Advance.Agrees (a a' : Advance A C N) : Prop where
  context : R a.context a'.context
  sequence : a.sequence = a'.sequence
  result : a.result = a'.result
  ignores : a.sequence.Ignores R

variable {R}

theorem StepTick.agrees_ofDriven (shape : StepShape) (trace trace' : Trace N) {ctx ctx' : C}
    (hR : R ctx ctx') (generator : Generator) {kind : StepKind A C N} (h : kind.Ignores R)
    (result : Except TickError Bool) :
    (ofDriven shape trace ctx generator kind result).Agrees R
      (ofDriven shape trace' ctx' generator kind result) := by
  unfold ofDriven
  split <;> exact ⟨hR, rfl, rfl, rfl, h⟩

theorem StepTick.Agrees.marked {t t' : StepTick A C N} (h : t.Agrees R t') :
    t.marked.Agrees R t'.marked :=
  ⟨h.context, h.generator, h.step, h.result, h.ignores⟩

theorem StepTick.agrees_ofBody (entering : Bool) (generator : Generator)
    {inner inner' : Advance A C N} (h : inner.Agrees R inner') :
    (ofBody entering generator inner).Agrees R (ofBody entering generator inner') := by
  obtain ⟨hcontext, hsequence, hresult, hignores⟩ := h
  simp only [ofBody, ← hsequence, ← hresult]
  have hkind : (StepKind.nested inner.sequence).Ignores R := hignores
  exact agrees_ofDriven _ _ _ hcontext _ hkind _

theorem StepTick.agrees_ofRound (entering : Bool) (generator : Generator) (completion : Completion)
    {inner inner' : Round A C N} (h : inner.Agrees R inner') :
    (ofRound entering generator completion inner).Agrees R
      (ofRound entering generator completion inner') := by
  obtain ⟨hcontext, hmembers, hresult, hignores⟩ := h
  simp only [ofRound, ← hmembers, ← hresult]
  exact agrees_ofDriven _ _ _ hcontext _ (StepKind.ignores_parallel.mpr hignores) _

theorem StepTick.agrees_ofChosen (earlier earlier' : Trace N) {b : Branch A C N}
    (hselector : b.selector.Ignores R) (hchildren : Step.AllIgnore R b.children)
    (chosen : Option Nat) {tickChild tickChild' : Nat → C → Generator → ChildTick A C N}
    {ctx ctx' : C} (hR : R ctx ctx') (generator : Generator)
    (htick : ∀ index, (tickChild index ctx generator).Agrees R (tickChild' index ctx' generator)) :
    (ofChosen earlier b chosen tickChild ctx generator).Agrees R
      (ofChosen earlier' b chosen tickChild' ctx' generator) := by
  cases chosen with
  | none =>
    have hkind : (StepKind.branch { b with chosen := none }).Ignores R :=
      StepKind.ignores_branch.mpr ⟨hselector, hchildren⟩
    simp only [ofChosen]
    exact agrees_ofDriven _ _ _ hR _ hkind _
  | some index =>
    obtain ⟨hcontext, hgenerator, hleft, hresult, hignores⟩ := htick index
    have hkind : (StepKind.branch { b with
        children := (tickChild index ctx generator).children, chosen := some index }).Ignores R :=
      StepKind.ignores_branch.mpr ⟨hselector, hignores⟩
    simp only [ofChosen, ← hgenerator, ← hleft, ← hresult]
    exact agrees_ofDriven _ _ _ hcontext _ hkind _

theorem StepTick.agrees_ofBranch (entering : Bool) {b : Branch A C N}
    (hselector : b.selector.Ignores R) (hchildren : Step.AllIgnore R b.children)
    {tickChild tickChild' : Nat → C → Generator → ChildTick A C N} {ctx ctx' : C}
    (hR : R ctx ctx') (generator : Generator)
    (htick : ∀ index generator,
      (tickChild index ctx generator).Agrees R (tickChild' index ctx' generator)) :
    (ofBranch entering b tickChild ctx generator).Agrees R
      (ofBranch entering b tickChild' ctx' generator) := by
  unfold ofBranch
  cases entering with
  | false =>
    exact agrees_ofChosen _ _ hselector hchildren b.chosen hR generator
      fun index => htick index generator
  | true =>
    obtain ⟨hgenerator, hresult⟩ := hselector.select b.children.length hR generator
    simp only [↓reduceIte, hgenerator, hresult]
    match (b.selector.select b.children.length ctx' generator).result with
    | .error e =>
      exact ⟨hR, rfl, rfl, rfl, StepKind.ignores_branch.mpr ⟨hselector, hchildren⟩⟩
    | .ok chosen =>
      exact agrees_ofChosen _ _ hselector hchildren chosen hR _ fun index => htick index _

theorem StepTick.Agrees.inFrontOf {t t' : StepTick A C N} (h : t.Agrees R t')
    {rest : List (Step A C N)} (hrest : Step.AllIgnore R rest) :
    (t.inFrontOf rest).Agrees R (t'.inFrontOf rest) :=
  ⟨h.context, h.generator, congrArg (· :: rest) h.step, h.result, h.ignores, hrest⟩

theorem ChildTick.Agrees.behind {t t' : ChildTick A C N} (h : t.Agrees R t') {first : Step A C N}
    (hfirst : first.Ignores R) : (t.behind first).Agrees R (t'.behind first) :=
  ⟨h.context, h.generator, congrArg (first :: ·) h.children, h.result, hfirst, h.ignores⟩

theorem Cascade.Agrees.behind {k k' : Cascade A C N} (h : k.Agrees R k') {first : Step A C N}
    (hfirst : first.Ignores R) : (k.behind first).Agrees R (k'.behind first) :=
  ⟨h.context, h.generator, congrArg (first :: ·) h.steps, h.cursor, h.result, hfirst, h.ignores⟩

theorem StepTick.Agrees.andThen {t t' : StepTick A C N} (h : t.Agrees R t') (index : Nat)
    {waiting : List (Step A C N)} (hwaiting : Step.AllIgnore R waiting)
    {later later' : C → Generator → Cascade A C N}
    (hlater : ∀ ctx ctx' generator, R ctx ctx' →
      (later ctx generator).Agrees R (later' ctx' generator)) :
    (t.andThen index waiting later).Agrees R (t'.andThen index waiting later') := by
  obtain ⟨_, context, generator, step, result⟩ := t
  obtain ⟨_, context', _, _, _⟩ := t'
  obtain ⟨hcontext, rfl, rfl, rfl, hignores⟩ := h
  unfold StepTick.andThen
  match result with
  | .error e => exact ⟨hcontext, rfl, rfl, rfl, rfl, hignores, hwaiting⟩
  | .ok false => exact ⟨hcontext, rfl, rfl, rfl, rfl, hignores, hwaiting⟩
  | .ok true =>
    obtain ⟨hc, hg, hs, hcur, hr, hi⟩ := hlater context context' generator hcontext
    exact ⟨hc, hg, congrArg (step :: ·) hs, hcur, hr, hignores, hi⟩

theorem Advance.Agrees.andThen {a a' : Advance A C N} (h : a.Agrees R a') (hop : Hop)
    {waiting : List (Sequence A C N)} (hwaiting : Sequence.AllIgnore R waiting)
    {later later' : C → Round A C N}
    (hlater : ∀ ctx ctx', R ctx ctx' → (later ctx).Agrees R (later' ctx')) :
    (a.andThen hop waiting later).Agrees R (a'.andThen hop waiting later') := by
  obtain ⟨_, context, sequence, result⟩ := a
  obtain ⟨_, context', _, _⟩ := a'
  obtain ⟨hcontext, rfl, rfl, hignores⟩ := h
  unfold Advance.andThen
  match result with
  | .error e => exact ⟨hcontext, rfl, rfl, hignores, hwaiting⟩
  | .ok outcome =>
    obtain ⟨hc, hm, hr, hi⟩ := hlater context context' hcontext
    exact ⟨hc, congrArg (sequence :: ·) hm, congrArg (Except.map _) hr, hignores, hi⟩

theorem Advance.Agrees.beside {body body' : Advance A C N} (h : body.Agrees R body')
    {companions companions' : C → Round A C N}
    (hc : ∀ ctx ctx', R ctx ctx' → (companions ctx).Agrees R (companions' ctx')) :
    (body.beside companions).Agrees R (body'.beside companions') := by
  obtain ⟨_, context, sequence, result⟩ := body
  obtain ⟨_, context', _, _⟩ := body'
  obtain ⟨hcontext, rfl, rfl, hignores⟩ := h
  unfold Advance.beside
  match result with
  | .error e => exact ⟨hcontext, rfl, rfl, hignores⟩
  | .ok outcome =>
    obtain ⟨hctx, hmembers, hresult, hi⟩ := hc context context' hcontext
    obtain ⟨hpolicy, hsteps, -⟩ := Sequence.ignores_iff.mp hignores
    refine ⟨hctx, ?_, congrArg (Except.map _) hresult,
      Sequence.ignores_iff.mpr ⟨hpolicy, hsteps, hi⟩⟩
    simp only [hmembers]

variable [Behavior A C N] (hB : Behavior.Ignores (A := A) (N := N) R)

include hB

theorem Step.agrees_activate {s : Step A C N} (h : s.Ignores R) {ctx ctx' : C} (hR : R ctx ctx')
    (generator : Generator) : (s.activate ctx generator).Agrees R (s.activate ctx' generator) := by
  obtain ⟨state, kind⟩ := s
  cases kind with
  | leaf action =>
    obtain ⟨haction, hcontext, hresult, hignores⟩ := Action.agrees_enter hB h hR
    simp only [Step.activate, ← haction, ← hresult]
    split <;> exact ⟨hcontext, rfl, rfl, rfl, hignores⟩
  | nested body => exact ⟨hR, rfl, rfl, rfl, Sequence.Ignores.reset body h⟩
  | parallel group =>
    exact ⟨hR, rfl, rfl, rfl, Sequence.allIgnore_resetAll _ (StepKind.ignores_parallel.mp h)⟩
  | branch branch =>
    obtain ⟨hselector, hchildren⟩ := StepKind.ignores_branch.mp h
    obtain ⟨hgenerator, hresult⟩ := hselector.select branch.children.length hR generator
    simp only [Step.activate, ← hgenerator, ← hresult]
    split
    · exact ⟨hR, rfl, rfl, rfl, h⟩
    · exact ⟨hR, rfl, rfl, rfl, hselector, Branch.allIgnore_choose hchildren _⟩

theorem StepTick.agrees_ofAction (entering : Bool) (dt : Float32) {action : Action A C N}
    (h : action.Ignores R) {ctx ctx' : C} (hR : R ctx ctx') (generator : Generator) :
    (ofAction entering dt action ctx generator).Agrees R
      (ofAction entering dt action ctx' generator) := by
  have hentered : (if entering then action.enter ctx else ⟨[], action, ctx, .ok ()⟩ :
      Hooked A C N Unit).Agrees R
        (if entering then action.enter ctx' else ⟨[], action, ctx', .ok ()⟩) := by
    cases entering with
    | true => exact Action.agrees_enter hB h hR
    | false => exact ⟨rfl, hR, rfl, h⟩
  simp only [ofAction]
  generalize (if entering then action.enter ctx else ⟨[], action, ctx, .ok ()⟩ :
    Hooked A C N Unit) = entered at hentered ⊢
  generalize (if entering then action.enter ctx' else ⟨[], action, ctx', .ok ()⟩ :
    Hooked A C N Unit) = entered' at hentered ⊢
  obtain ⟨_, action, context, result⟩ := entered
  obtain ⟨_, _, context', _⟩ := entered'
  obtain ⟨rfl, hcontext, rfl, hignores⟩ := hentered
  cases result with
  | error e => exact ⟨hcontext, rfl, rfl, rfl, hignores⟩
  | ok u =>
    obtain ⟨haction, hdriven, hresult, hleft⟩ := Action.agrees_drive hB hignores hcontext dt
    dsimp only at haction hresult ⊢
    rw [← haction, ← hresult]
    have hkind : (StepKind.leaf (action.drive dt context).action).Ignores R := hleft
    exact agrees_ofDriven _ _ _ hdriven _ hkind _

namespace Sequence

variable {s : Sequence A C N} (h : s.Ignores R) {ctx ctx' : C}

include h

theorem agrees_wrap (hR : R ctx ctx') : (s.wrap ctx).Agrees R (s.wrap ctx') := by
  obtain ⟨hpolicy, hsteps, hcompanions⟩ := ignores_iff.mp h
  cases hs : s.steps with
  | nil =>
    rw [wrap_of_nil hs, wrap_of_nil hs]
    exact ⟨hR, rfl, rfl, ignores_iff.mpr ⟨hpolicy, Step.allIgnore_map_reset hsteps, hcompanions⟩⟩
  | cons first rest =>
    have hreset := Step.allIgnore_map_reset hsteps
    rw [hs] at hreset
    obtain ⟨hcontext, hgenerator, hstep, hresult, hignores⟩ :=
      Step.agrees_activate hB hreset.1 hR s.generator
    rw [wrap_of_cons hs, wrap_of_cons hs]
    refine ⟨hcontext, ?_, congrArg (Except.map _) hresult,
      ignores_iff.mpr ⟨hpolicy, ⟨hignores, hreset.2⟩, hcompanions⟩⟩
    simp only [hgenerator, hstep]

theorem agrees_finishPass (hR : R ctx ctx') :
    (s.finishPass ctx).Agrees R (s.finishPass ctx') := by
  obtain ⟨hpolicy, hsteps, hcompanions⟩ := ignores_iff.mp h
  have hanswer := hpolicy.again s.progress.remaining hR
  match ha : (s.verdict ctx).answer with
  | .error e =>
    rw [finishPass_of_error ha, finishPass_of_error (hanswer.symm.trans ha)]
    exact ⟨hR, rfl, rfl, h⟩
  | .ok true =>
    rw [finishPass_of_again ha, finishPass_of_again (hanswer.symm.trans ha)]
    obtain ⟨hcontext, hsequence, hresult, hignores⟩ := agrees_wrap hB h hR
    exact ⟨hcontext, hsequence, hresult, hignores⟩
  | .ok false =>
    rw [finishPass_of_over ha, finishPass_of_over (hanswer.symm.trans ha)]
    exact ⟨hR, rfl, rfl, ignores_iff.mpr ⟨hpolicy, hsteps, hcompanions⟩⟩

theorem agrees_runBody {run run' : C → Generator → Cascade A C N}
    (hrun : (run ctx s.generator).Agrees R (run' ctx' s.generator)) :
    (s.runBody ctx run).Agrees R (s.runBody ctx' run') := by
  obtain ⟨hpolicy, -, hcompanions⟩ := ignores_iff.mp h
  simp only [runBody]
  generalize run ctx s.generator = driven at hrun ⊢
  generalize run' ctx' s.generator = driven' at hrun ⊢
  obtain ⟨_, context, generator, steps, cursor, result⟩ := driven
  obtain ⟨_, context', _, _, _, _⟩ := driven'
  obtain ⟨hcontext, rfl, rfl, rfl, rfl, hsteps⟩ := hrun
  match result with
  | .error e => exact ⟨hcontext, rfl, rfl, ignores_iff.mpr ⟨hpolicy, hsteps, hcompanions⟩⟩
  | .ok false => exact ⟨hcontext, rfl, rfl, ignores_iff.mpr ⟨hpolicy, hsteps, hcompanions⟩⟩
  | .ok true =>
    have hstopped : ({ s with
        steps, generator, progress := { s.progress with cursor } } : Sequence A C N).Ignores R :=
      ignores_iff.mpr ⟨hpolicy, hsteps, hcompanions⟩
    obtain ⟨hleft, hsequence, hresult, hignores⟩ := agrees_finishPass hB hstopped hcontext
    exact ⟨hleft, hsequence, hresult, hignores⟩

theorem agrees_body (hR : R ctx ctx') (fresh : Bool) {run run' : C → Generator → Cascade A C N}
    (hrun : (run ctx s.generator).Agrees R (run' ctx' s.generator)) :
    (s.body fresh ctx run).Agrees R (s.body fresh ctx' run') := by
  cases fresh with
  | true =>
    have hrunning : ({ s with
        progress := { s.progress with status := .running } } : Sequence A C N).Ignores R :=
      ignores_iff.mpr ⟨(ignores_iff.mp h).1, (ignores_iff.mp h).2⟩
    obtain ⟨hcontext, hsequence, hresult, hignores⟩ := agrees_runBody hB hrunning hrun
    exact ⟨hcontext, hsequence, hresult, hignores⟩
  | false =>
    simp only [body, Bool.false_eq_true, ↓reduceIte]
    split
    · exact ⟨hR, rfl, rfl, h⟩
    · exact agrees_runBody hB h hrun

end Sequence

end Parts

/-! ### One tick -/

section Ticks

variable [Behavior A C N]

mutual

theorem StepKind.agrees_tick (hB : Behavior.Ignores (A := A) (N := N) R)
    (entering : Bool) (dt : Float32) (kind : StepKind A C N) (h : kind.Ignores R) {ctx ctx' : C}
    (hR : R ctx ctx') (generator : Generator) :
    (StepKind.tick entering dt kind ctx generator).Agrees R
      (StepKind.tick entering dt kind ctx' generator) := by
  cases kind with
  | leaf action => exact StepTick.agrees_ofAction hB entering dt h hR generator
  | nested body =>
    exact StepTick.agrees_ofBody entering generator
      (Sequence.agrees_advanceFrom hB entering dt body h hR)
  | parallel group =>
    obtain ⟨completion, members⟩ := group
    exact StepTick.agrees_ofRound entering generator completion
      (agrees_advanceAll hB entering dt .member 0 members h hR)
  | branch branch =>
    obtain ⟨selector, children, chosen⟩ := branch
    exact StepTick.agrees_ofBranch entering (b := ⟨selector, children, chosen⟩) h.1 h.2 hR generator
      fun index generator => agrees_tickChild hB entering dt children h.2 index hR generator
termination_by structural kind

theorem Step.agrees_tick (hB : Behavior.Ignores (A := A) (N := N) R) (fresh : Bool)
    (dt : Float32) (s : Step A C N) (h : s.Ignores R) {ctx ctx' : C} (hR : R ctx ctx')
    (generator : Generator) :
    (Step.tick fresh dt s ctx generator).Agrees R (Step.tick fresh dt s ctx' generator) := by
  obtain ⟨state, kind⟩ := s
  simp only [Step.tick]
  split
  · exact (StepKind.agrees_tick hB true dt kind h hR generator).marked
  · exact (StepKind.agrees_tick hB false dt kind h hR generator).marked
  · exact ⟨hR, rfl, rfl, rfl, h⟩
termination_by structural s

theorem agrees_tickChild (hB : Behavior.Ignores (A := A) (N := N) R) (fresh : Bool)
    (dt : Float32) (children : List (Step A C N))
    (h : Step.AllIgnore R children) (index : Nat) {ctx ctx' : C} (hR : R ctx ctx')
    (generator : Generator) :
    (tickChild fresh dt children index ctx generator).Agrees R
      (tickChild fresh dt children index ctx' generator) := by
  match children, index with
  | [], _ => exact ⟨hR, rfl, rfl, rfl, trivial⟩
  | step :: rest, 0 =>
    exact (Step.agrees_tick hB fresh dt step h.1 hR generator).inFrontOf h.2
  | step :: rest, index + 1 =>
    exact (agrees_tickChild hB fresh dt rest h.2 index hR generator).behind h.1
termination_by structural children

theorem agrees_cascade (hB : Behavior.Ignores (A := A) (N := N) R) (fresh : Bool)
    (dt : Float32) (index : Nat) (steps : List (Step A C N))
    (h : Step.AllIgnore R steps) (skip : Nat) {ctx ctx' : C} (hR : R ctx ctx')
    (generator : Generator) :
    (cascade fresh dt index steps skip ctx generator).Agrees R
      (cascade fresh dt index steps skip ctx' generator) := by
  match steps, skip with
  | [], _ => exact ⟨hR, rfl, rfl, rfl, rfl, trivial⟩
  | step :: rest, 0 =>
    exact (Step.agrees_tick hB fresh dt step h.1 hR generator).andThen index
      (Step.allIgnore_waiting h.2)
      fun _ _ generator hlater => agrees_cascade hB fresh dt (index + 1) rest h.2 0 hlater generator
  | step :: rest, skip + 1 =>
    exact (agrees_cascade hB fresh dt (index + 1) rest h.2 skip hR generator).behind h.1
termination_by structural steps

theorem Sequence.agrees_advanceFrom (hB : Behavior.Ignores (A := A) (N := N) R)
    (restart : Bool) (dt : Float32) (s : Sequence A C N) (h : s.Ignores R) {ctx ctx' : C}
    (hR : R ctx ctx') :
    (s.advanceFrom restart dt ctx).Agrees R (s.advanceFrom restart dt ctx') := by
  obtain ⟨id, name, steps, policy, companions, generator, warns, warned, progress⟩ := s
  simp only [Sequence.advanceFrom]
  have hentry := Sequence.ignores_entry (restart || progress.status == .notStarted) h
  refine .beside (Sequence.agrees_body hB hentry hR _ ?_)
    fun _ _ hlater => agrees_advanceAll hB _ dt .companion 0 companions h.2.2 hlater
  exact agrees_cascade hB _ dt 0 steps h.2.1 _ hR _
termination_by structural s

theorem agrees_advanceAll (hB : Behavior.Ignores (A := A) (N := N) R) (fresh : Bool)
    (dt : Float32) (hop : Nat → Hop) (index : Nat)
    (members : List (Sequence A C N)) (h : Sequence.AllIgnore R members) {ctx ctx' : C}
    (hR : R ctx ctx') :
    (advanceAll fresh dt hop index members ctx).Agrees R
      (advanceAll fresh dt hop index members ctx') := by
  match members with
  | [] => exact ⟨hR, rfl, rfl, trivial⟩
  | member :: rest =>
    exact (Sequence.agrees_advanceFrom hB fresh dt member h.1 hR).andThen (hop index)
      (Sequence.allIgnore_waiting h.2)
      fun _ _ hlater => agrees_advanceAll hB fresh dt hop (index + 1) rest h.2 hlater
termination_by structural members

end

/-- On contexts that a behavior does not tell apart its tick comes to the same, and leaves contexts
and a behavior of which the same holds again. -/
theorem Sequence.agrees_advance (hB : Behavior.Ignores (A := A) (N := N) R)
    {s : Sequence A C N} (h : s.Ignores R) (dt : Float32) {ctx ctx' : C} (hR : R ctx ctx') :
    (s.advance dt ctx).Agrees R (s.advance dt ctx') :=
  Sequence.agrees_advanceFrom hB false dt s h hR

end Ticks

end Sequencer

import Sequencer.Restart

/-!
# Ticks as plain steps

A tick enters and drives parts of the tree in one recursion, which carries the flag that a part is
to be taken as reset. The equations here say the same without flags: a sequence that was not started
is begun, a step that was not entered is activated, and what follows is a tick of the part that this
leaves. Every later proof about ticks starts from these equations.
-/

namespace Sequencer

variable {A C N : Type} [Behavior A C N]

section Reset

omit [Behavior A C N]

@[simp] theorem Sequence.steps_reset (s : Sequence A C N) :
    s.reset.steps = s.steps.map Step.reset := by
  cases s; rfl

@[simp] theorem Sequence.companions_reset (s : Sequence A C N) :
    s.reset.companions = s.companions.map Sequence.reset := by
  cases s; exact resetAll_eq_map _

@[simp] theorem Sequence.progress_reset (s : Sequence A C N) :
    s.reset.progress = .initial s.policy := by
  cases s; rfl

@[simp] theorem Sequence.policy_reset (s : Sequence A C N) : s.reset.policy = s.policy := by
  cases s; rfl

@[simp] theorem Sequence.status_reset (s : Sequence A C N) : s.reset.status = .notStarted := by
  cases s; rfl

end Reset

section Driven

omit [Behavior A C N]

variable (shape : StepShape) (trace : Trace N) (ctx : C) (generator : Generator)
  (kind : StepKind A C N) (result : Except TickError Bool)

theorem StepTick.step_ofDriven :
    (ofDriven shape trace ctx generator kind result).step = ⟨.ofDriven result, kind⟩ := by
  unfold ofDriven
  split <;> rfl

theorem StepTick.kind_ofDriven :
    (ofDriven shape trace ctx generator kind result).step.kind = kind := by
  rw [step_ofDriven]

theorem StepTick.result_ofDriven :
    (ofDriven shape trace ctx generator kind result).result = result := by
  unfold ofDriven
  split <;> rfl

end Driven

theorem cascade_true (dt : Float32) (steps : List (Step A C N)) (index : Nat) :
    cascade true dt index steps 0 = cascade false dt index (steps.map Step.reset) 0 := by
  induction steps generalizing index with
  | nil => rfl
  | cons step rest ih =>
    funext ctx generator
    simp only [List.map_cons, cascade, Step.tick_reset, ih, ↓reduceIte, Bool.false_eq_true]

theorem tickChild_of_some {dt : Float32} {children : List (Step A C N)} {index : Nat}
    {child : Step A C N} (h : children[index]? = some child) (ctx : C) (generator : Generator) :
    tickChild false dt children index ctx generator =
      let t := Step.tick false dt child ctx generator
      ⟨t.trace, t.context, t.generator, children.set index t.step, t.result⟩ := by
  induction children generalizing index with
  | nil => simp at h
  | cons first rest ih =>
    cases index with
    | zero =>
      obtain rfl : first = child := by simpa using h
      rfl
    | succ index => simp [tickChild, ih (by simpa using h), ChildTick.behind]

theorem tickChild_of_none {dt : Float32} {children : List (Step A C N)} {index : Nat}
    (h : children[index]? = none) (ctx : C) (generator : Generator) :
    tickChild false dt children index ctx generator =
      ⟨[], ctx, generator, children, .ok true⟩ := by
  induction children generalizing index with
  | nil => rfl
  | cons first rest ih =>
    cases index with
    | zero => simp at h
    | succ index => simp [tickChild, ih (by simpa using h), ChildTick.behind]

theorem advanceAll_true (dt : Float32) (hop : Nat → Hop) (members : List (Sequence A C N))
    (index : Nat) :
    advanceAll true dt hop index members = advanceAll false dt hop index (resetAll members) :=
  (advanceAll_resetAll false dt hop members index).symm

def Advance.after (earlier : Trace N) (a : Advance A C N) : Advance A C N :=
  { a with trace := earlier ++ a.trace }

omit [Behavior A C N] in
/-- A sequence as its tick goes on with it: one that was not started is reset and runs. -/
def Sequence.begun (s : Sequence A C N) : Sequence A C N :=
  if s.status = .notStarted then
    { s.reset with progress := { s.reset.progress with status := .running } }
  else s

omit [Behavior A C N] in
def Sequence.opening (s : Sequence A C N) : Trace N :=
  if s.status = .notStarted then
    Trace.line (.sequenceStarted s.name s.steps.length s.policy.name)
  else []

omit [Behavior A C N] in
theorem Sequence.path_of_mem_opening {s : Sequence A C N} {e : Entry N} (h : e ∈ s.opening) :
    e.path = [] := by
  unfold Sequence.opening at h
  split at h
  · rw [List.mem_singleton.mp h]
  · cases h

/-- The tick of the body of a sequence that has begun. -/
def Sequence.resume (s : Sequence A C N) (dt : Float32) (ctx : C) : Advance A C N :=
  if s.isComplete then ⟨[], ctx, s, .ok .complete⟩
  else s.runBody ctx (cascade false dt 0 s.steps s.cursor)

omit [Behavior A C N] in
theorem Sequence.begun_of_ne {s : Sequence A C N} (h : s.status ≠ .notStarted) : s.begun = s :=
  if_neg h

omit [Behavior A C N] in
theorem Sequence.begun_status_ne (s : Sequence A C N) : s.begun.status ≠ .notStarted := by
  unfold Sequence.begun
  split
  case isTrue => exact Status.noConfusion
  case isFalse h => exact h

omit [Behavior A C N] in
theorem Sequence.policy_begun (s : Sequence A C N) : s.begun.policy = s.policy := by
  unfold Sequence.begun
  split
  · exact s.policy_reset
  · rfl

omit [Behavior A C N] in
theorem Sequence.companions_begun_of_nil {s : Sequence A C N} (h : s.companions = []) :
    s.begun.companions = [] := by
  unfold Sequence.begun
  split
  · simp [h]
  · exact h

/-- A tick of a sequence: it begins if it has to, its body is driven, and its companions follow. -/
theorem Sequence.advance_eq (s : Sequence A C N) (dt : Float32) (ctx : C) :
    s.advance dt ctx =
      ((s.begun.resume dt ctx).after s.opening).beside
        (advanceAll false dt .companion 0 s.begun.companions) := by
  obtain ⟨id, name, steps, policy, companions, generator, warns, warned, progress⟩ := s
  by_cases hs : progress.status = .notStarted
  · simp [Sequence.advance, Sequence.advanceFrom, Sequence.begun, Sequence.opening,
      Sequence.resume, Sequence.status, Sequence.isComplete, Sequence.body, Sequence.cursor, hs,
      Sequence.reset, Progress.initial, cascade_true, advanceAll_true, Advance.after]
  · by_cases hc : progress.status = .complete
    · have hb : (Status.complete == Status.notStarted) = false := rfl
      simp [Sequence.advance, Sequence.advanceFrom, Sequence.begun, Sequence.opening,
        Sequence.resume, Sequence.status, Sequence.isComplete, Sequence.body, Advance.after, hb, hc]
    · have hb : (progress.status == .notStarted) = false := beq_eq_false_iff_ne.mpr hs
      simp [Sequence.advance, Sequence.advanceFrom, Sequence.begun, Sequence.opening,
        Sequence.resume, Sequence.status, Sequence.isComplete, Sequence.body, Sequence.cursor,
        Advance.after, hs, hb, hc]

omit [Behavior A C N] in
/-- The log lines at the end of a pass that another one follows. -/
def Sequence.wrapLines (s : Sequence A C N) : Trace N :=
  (if s.isInstantLoop then Trace.line (.instantLoop s.name) else []) ++
    Trace.line (.sequenceWrapped s.name (s.progress.wrap s.policy).passes)

omit [Behavior A C N] in
/-- A sequence at the beginning of the pass that follows, before its first step is entered. -/
def Sequence.rewound (s : Sequence A C N) : Sequence A C N :=
  { s with
    steps := s.steps.map Step.reset
    warned := s.warned || s.isInstantLoop
    progress := s.progress.wrap s.policy }

theorem Sequence.wrap_of_nil {s : Sequence A C N} (h : s.steps = []) (ctx : C) :
    s.wrap ctx = ⟨s.wrapLines, ctx, s.rewound, .ok .running⟩ := by
  simp [Sequence.wrap, Sequence.wrapLines, Sequence.rewound, h]

theorem Sequence.wrap_of_cons {s : Sequence A C N} {first : Step A C N} {rest : List (Step A C N)}
    (h : s.steps = first :: rest) (ctx : C) :
    s.wrap ctx =
      let entered := first.reset.activate ctx s.generator
      ⟨s.wrapLines ++ entered.trace.under (.step 0), entered.context,
        { s.rewound with
          steps := entered.step :: rest.map Step.reset, generator := entered.generator },
        entered.result.map fun () => .running⟩ := by
  simp [Sequence.wrap, Sequence.wrapLines, Sequence.rewound, h]

theorem Sequence.advance_of_error {s : Sequence A C N} {dt : Float32} {ctx : C} {e : TickError}
    (h : (s.begun.resume dt ctx).result = .error e) :
    s.advance dt ctx =
      let body := s.begun.resume dt ctx
      ⟨⟨[], .ticked⟩ :: (s.opening ++ body.trace), body.context, body.sequence, .error e⟩ := by
  rw [Sequence.advance_eq]
  simp [Advance.beside, Advance.after, h]

theorem Sequence.advance_of_ok {s : Sequence A C N} {dt : Float32} {ctx : C} {o : Outcome}
    (h : (s.begun.resume dt ctx).result = .ok o) :
    s.advance dt ctx =
      let body := s.begun.resume dt ctx
      let round := advanceAll false dt .companion 0 s.begun.companions body.context
      ⟨⟨[], .ticked⟩ :: (s.opening ++ body.trace ++ round.trace), round.context,
        { body.sequence with companions := round.members }, round.result.map fun _ => o⟩ := by
  rw [Sequence.advance_eq]
  simp [Advance.beside, Advance.after, h]

omit [Behavior A C N] in
def Sequence.verdict (s : Sequence A C N) (ctx : C) : Evaluation N :=
  s.policy.again s.progress.remaining ctx

omit [Behavior A C N] in
def Sequence.finished (s : Sequence A C N) : Sequence A C N :=
  { s with progress :=
    { s.progress with status := .complete, passes := min (s.progress.passes + 1) maxPasses } }

theorem Sequence.finishPass_of_error {s : Sequence A C N} {ctx : C} {e : TickError}
    (h : (s.verdict ctx).answer = .error e) :
    s.finishPass ctx = ⟨Trace.here (s.verdict ctx).events, ctx, s, .error e⟩ := by
  unfold Sequence.verdict at h ⊢
  simp [Sequence.finishPass, h]

theorem Sequence.finishPass_of_again {s : Sequence A C N} {ctx : C}
    (h : (s.verdict ctx).answer = .ok true) :
    s.finishPass ctx = (s.wrap ctx).after (Trace.here (s.verdict ctx).events) := by
  unfold Sequence.verdict at h ⊢
  simp [Sequence.finishPass, h, Advance.after]

theorem Sequence.finishPass_of_over {s : Sequence A C N} {ctx : C}
    (h : (s.verdict ctx).answer = .ok false) :
    s.finishPass ctx =
      ⟨Trace.here (s.verdict ctx).events ++
          Trace.line (.sequenceComplete s.name s.finished.progress.passes),
        ctx, s.finished, .ok .complete⟩ := by
  unfold Sequence.verdict at h ⊢
  simp [Sequence.finishPass, h, Sequence.finished]

/-- The cascade of a sequence from its cursor on. -/
def Sequence.walk (s : Sequence A C N) (dt : Float32) (ctx : C) : Cascade A C N :=
  cascade false dt 0 s.steps s.cursor ctx s.generator

omit [Behavior A C N] in
def Sequence.stopped (s : Sequence A C N) (k : Cascade A C N) : Sequence A C N :=
  { s with
    steps := k.steps
    generator := k.generator
    progress := { s.progress with cursor := k.cursor } }

omit [Behavior A C N] in
/-- A sequence one of whose steps needs another tick. -/
def Sequence.held (s : Sequence A C N) : Sequence A C N :=
  { s with progress := { s.progress with blocked := true } }

theorem Sequence.status_wrap (s : Sequence A C N) (ctx : C) :
    (s.wrap ctx).sequence.status = s.status := by
  cases h : s.steps with
  | nil => rw [Sequence.wrap_of_nil h]; rfl
  | cons first rest => rw [Sequence.wrap_of_cons h]; rfl

theorem Sequence.resume_of_complete {s : Sequence A C N} (h : s.status = .complete)
    (dt : Float32) (ctx : C) : s.resume dt ctx = ⟨[], ctx, s, .ok .complete⟩ := by
  simp [Sequence.resume, Sequence.isComplete, h]

theorem Sequence.resume_of_passed {s : Sequence A C N} {dt : Float32} {ctx : C}
    (hs : s.status ≠ .complete) (h : (s.walk dt ctx).result = .ok true) :
    s.resume dt ctx =
      ((s.stopped (s.walk dt ctx)).finishPass (s.walk dt ctx).context).after
        (s.walk dt ctx).trace := by
  unfold Sequence.walk at h ⊢
  simp [Sequence.resume, Sequence.isComplete, hs, Sequence.runBody, h, Advance.after,
    Sequence.stopped]

theorem Sequence.resume_of_held {s : Sequence A C N} {dt : Float32} {ctx : C}
    (hs : s.status ≠ .complete) (h : (s.walk dt ctx).result = .ok false) :
    s.resume dt ctx =
      ⟨(s.walk dt ctx).trace, (s.walk dt ctx).context, (s.stopped (s.walk dt ctx)).held,
        .ok .running⟩ := by
  unfold Sequence.walk at h ⊢
  simp [Sequence.resume, Sequence.isComplete, hs, Sequence.runBody, h, Sequence.held,
    Sequence.stopped]

theorem Sequence.resume_of_error {s : Sequence A C N} {dt : Float32} {ctx : C} {e : TickError}
    (hs : s.status ≠ .complete) (h : (s.walk dt ctx).result = .error e) :
    s.resume dt ctx =
      ⟨(s.walk dt ctx).trace, (s.walk dt ctx).context, s.stopped (s.walk dt ctx), .error e⟩ := by
  unfold Sequence.walk at h ⊢
  simp [Sequence.resume, Sequence.isComplete, hs, Sequence.runBody, h, Sequence.stopped]

theorem Sequence.status_resume_ne {s : Sequence A C N} (h : s.status ≠ .notStarted) (dt : Float32)
    (ctx : C) : (s.resume dt ctx).sequence.status ≠ .notStarted := by
  by_cases hs : s.status = .complete
  · rw [Sequence.resume_of_complete hs]
    exact h
  match hr : (s.walk dt ctx).result with
  | .error e =>
    rw [Sequence.resume_of_error hs hr]
    exact h
  | .ok false =>
    rw [Sequence.resume_of_held hs hr]
    exact h
  | .ok true =>
    rw [Sequence.resume_of_passed hs hr]
    match ha : ((s.stopped (s.walk dt ctx)).verdict (s.walk dt ctx).context).answer with
    | .error e =>
      rw [Sequence.finishPass_of_error ha]
      exact h
    | .ok true =>
      rw [Sequence.finishPass_of_again ha]
      exact fun hw => h (((s.stopped _).status_wrap _).symm.trans hw)
    | .ok false =>
      rw [Sequence.finishPass_of_over ha]
      exact Status.noConfusion

theorem Sequence.status_advance_ne (s : Sequence A C N) (dt : Float32) (ctx : C) :
    (s.advance dt ctx).sequence.status ≠ .notStarted := by
  have h := Sequence.status_resume_ne s.begun_status_ne dt ctx
  match hr : (s.begun.resume dt ctx).result with
  | .error e =>
    rw [Sequence.advance_of_error hr]
    exact h
  | .ok o =>
    rw [Sequence.advance_of_ok hr]
    exact h

theorem Sequence.companions_finishPass (s : Sequence A C N) (ctx : C) :
    (s.finishPass ctx).sequence.companions = s.companions := by
  match ha : (s.verdict ctx).answer with
  | .error e => rw [Sequence.finishPass_of_error ha]
  | .ok true =>
    rw [Sequence.finishPass_of_again ha]
    cases hs : s.steps with
    | nil => rw [Sequence.wrap_of_nil hs]; rfl
    | cons first rest => rw [Sequence.wrap_of_cons hs]; rfl
  | .ok false => rw [Sequence.finishPass_of_over ha]; rfl

theorem Sequence.companions_resume (s : Sequence A C N) (dt : Float32) (ctx : C) :
    (s.resume dt ctx).sequence.companions = s.companions := by
  by_cases hs : s.status = .complete
  · rw [Sequence.resume_of_complete hs]
  match hr : (s.walk dt ctx).result with
  | .ok true =>
    rw [Sequence.resume_of_passed hs hr]
    exact Sequence.companions_finishPass _ _
  | .ok false => rw [Sequence.resume_of_held hs hr]; rfl
  | .error e => rw [Sequence.resume_of_error hs hr]; rfl

/-- Without companions, a tick is that of the body. -/
theorem Sequence.advance_of_companions_nil {s : Sequence A C N} (h : s.companions = [])
    (dt : Float32) (ctx : C) :
    s.advance dt ctx = (s.begun.resume dt ctx).after (⟨[], .ticked⟩ :: s.opening) := by
  have hbegun := Sequence.companions_begun_of_nil h
  have hbody := (s.begun.companions_resume dt ctx).trans hbegun
  cases hr : (s.begun.resume dt ctx).result with
  | error e =>
    rw [Sequence.advance_of_error hr]
    simp [Advance.after, hr]
  | ok outcome =>
    rw [Sequence.advance_of_ok hr, hbegun]
    generalize s.begun.resume dt ctx = body at hbody hr
    obtain ⟨trace, context, sequence, result⟩ := body
    cases sequence
    cases hbody
    cases hr
    simp [Advance.after, advanceAll, Except.map]

theorem Step.state_activate_of_ok (s : Step A C N) {ctx : C} {generator : Generator} {u : Unit}
    (h : (s.activate ctx generator).result = .ok u) :
    (s.activate ctx generator).step.state = .active := by
  obtain ⟨state, kind⟩ := s
  cases kind with
  | leaf action =>
    simp only [Step.activate] at h ⊢
    split at h <;> simp_all
  | nested body => rfl
  | parallel group => rfl
  | branch branch =>
    simp only [Step.activate] at h ⊢
    split at h <;> simp_all

theorem Step.tick_of_entry_error {s : Step A C N} {ctx : C} {generator : Generator} {e : TickError}
    (hs : s.state = .notStarted) (h : (s.activate ctx generator).result = .error e)
    (dt : Float32) :
    Step.tick false dt s ctx generator =
      let entered := s.activate ctx generator
      ⟨⟨[], .ticked⟩ :: entered.trace, entered.context, entered.generator, entered.step,
        .error e⟩ := by
  obtain ⟨state, kind⟩ := s
  subst hs
  have ht := StepKind.tick_true dt kind ctx generator
  simp only [Step.ofKind, h] at ht
  exact congrArg StepTick.marked ht

/-- A step that has been entered is driven in the same tick. -/
theorem Step.tick_of_entry {s : Step A C N} {ctx : C} {generator : Generator} {u : Unit}
    (hs : s.state = .notStarted) (h : (s.activate ctx generator).result = .ok u) (dt : Float32) :
    Step.tick false dt s ctx generator =
      let entered := s.activate ctx generator
      let driven := StepKind.tick false dt entered.step.kind entered.context entered.generator
      ⟨⟨[], .ticked⟩ :: (entered.trace ++ driven.trace), driven.context, driven.generator,
        driven.step, driven.result⟩ := by
  obtain ⟨state, kind⟩ := s
  subst hs
  have ht := StepKind.tick_true dt kind ctx generator
  simp only [Step.ofKind, h] at ht
  exact congrArg StepTick.marked ht

theorem Step.tick_of_active {s : Step A C N} (h : s.state = .active) (dt : Float32) (ctx : C)
    (generator : Generator) :
    Step.tick false dt s ctx generator =
      let driven := StepKind.tick false dt s.kind ctx generator
      ⟨⟨[], .ticked⟩ :: driven.trace, driven.context, driven.generator, driven.step,
        driven.result⟩ := by
  obtain ⟨state, kind⟩ := s
  subst h
  rfl

theorem Step.tick_of_complete {s : Step A C N} (h : s.state = .complete) (dt : Float32) (ctx : C)
    (generator : Generator) :
    Step.tick false dt s ctx generator = ⟨[⟨[], .ticked⟩], ctx, generator, s, .ok true⟩ := by
  obtain ⟨state, kind⟩ := s
  subst h
  rfl

/-- Whether a property of steps lasts, whatever is done to the step: it is reset, entered, or driven
while it is active. -/
structure Step.IsLasting (P : Step A C N → Prop) : Prop where
  reset : ∀ {s}, P s → P s.reset
  enter : ∀ {s} ctx generator, P s → P (s.activate ctx generator).step
  drive : ∀ {kind} dt ctx generator, P ⟨.active, kind⟩ →
    P (StepKind.tick false dt kind ctx generator).step

/-- A property that lasts also lasts through ticks. -/
theorem Step.IsLasting.tick {P : Step A C N → Prop} (h : Step.IsLasting P) {s : Step A C N}
    (hs : P s) (dt : Float32) (ctx : C) (generator : Generator) :
    P (Step.tick false dt s ctx generator).step := by
  match hstate : s.state with
  | .complete =>
    rw [Step.tick_of_complete hstate]
    exact hs
  | .active =>
    obtain ⟨state, kind⟩ := s
    obtain rfl : state = .active := hstate
    exact h.drive dt ctx generator hs
  | .notStarted =>
    have hentered := h.enter ctx generator hs
    cases hr : (s.activate ctx generator).result with
    | error e =>
      rw [Step.tick_of_entry_error hstate hr]
      exact hentered
    | ok entered =>
      have hactive := s.state_activate_of_ok hr
      rw [Step.tick_of_entry hstate hr]
      generalize s.activate ctx generator = entrance at hentered hactive
      obtain ⟨trace, context, generator', ⟨state, kind⟩, result⟩ := entrance
      obtain rfl : state = .active := hactive
      exact h.drive dt context generator' hentered

end Sequencer

import Sequencer.Proofs.Faces

/-!
# Ticks of what looks alike

A tick depends on no more than the face of what it ticks: parts of one face come to the same, leave
the same entries except for warnings, and have one face again. What a part does with the tick of a
smaller part commutes with faces; so the proof is an induction along the recursion of a tick, and
the hooks of actions are the only place where something happens.
-/

namespace Sequencer

variable {A C N : Type}

def Event.isWarning : Event N → Bool
  | .log (.instantLoop _) => true
  | _ => false

namespace Trace

/-- A trace without the warnings about loops that never wait. -/
def quiet (trace : Trace N) : Trace N := trace.filter fun e => !e.event.isWarning

@[simp] theorem quiet_append (t u : Trace N) : quiet (t ++ u) = quiet t ++ quiet u := by
  simp [quiet]

@[simp] theorem quiet_cons_ticked (path : List Hop) (t : Trace N) :
    quiet (⟨path, .ticked⟩ :: t) = ⟨path, .ticked⟩ :: quiet t := rfl

@[simp] theorem quiet_under (hop : Hop) (t : Trace N) :
    quiet (t.under hop) = (quiet t).under hop := by
  simp [quiet, under, List.filter_map, Function.comp_def]

@[simp] theorem quiet_activation (entering : Bool) (shape : StepShape) :
    quiet (activation entering shape : Trace N) = activation entering shape := by
  cases entering <;> rfl

@[simp] theorem quiet_stepComplete (shape : StepShape) :
    quiet (line (.stepComplete shape) : Trace N) = line (.stepComplete shape) := rfl

theorem quiet_wrapLines (s : Sequence A C N) :
    s.wrapLines.quiet =
      line (.sequenceWrapped s.name (s.progress.wrap s.policy).passes) := by
  unfold Sequence.wrapLines
  split <;> rfl

end Trace

section Results

variable [Behavior A C N]

def Hooked.face {α : Type} (h : Hooked A C N α) : Hooked (Face A N) C N α :=
  ⟨h.events, h.action.face false, h.context, h.result⟩

def Entrance.face (e : Entrance A C N) : Entrance (Face A N) C N :=
  ⟨e.trace.quiet, e.context, e.generator, e.step.face false, e.result⟩

def Advance.face (a : Advance A C N) : Advance (Face A N) C N :=
  ⟨a.trace.quiet, a.context, a.sequence.face false, a.result⟩

def StepTick.face (t : StepTick A C N) : StepTick (Face A N) C N :=
  ⟨t.trace.quiet, t.context, t.generator, t.step.face false, t.result⟩

def ChildTick.face (index : Nat) (t : ChildTick A C N) : ChildTick (Face A N) C N :=
  ⟨t.trace.quiet, t.context, t.generator, Step.facesFor (some index) t.children, t.result⟩

def Cascade.face (c : Cascade A C N) : Cascade (Face A N) C N :=
  ⟨c.trace.quiet, c.context, c.generator, Step.faces false c.steps, c.cursor, c.result⟩

def Round.face (r : Round A C N) : Round (Face A N) C N :=
  ⟨r.trace.quiet, r.context, Sequence.faces false r.members, r.result⟩

theorem Sequence.length_faces (stale : Bool) (ss : List (Sequence A C N)) :
    (Sequence.faces stale ss).length = ss.length := by
  induction ss with
  | nil => rfl
  | cons s rest ih => simp [Sequence.faces, ih]

theorem Step.face_active (kind : StepKind A C N) :
    (⟨.active, kind⟩ : Step A C N).face false = ⟨.active, kind.face false⟩ := rfl

theorem Step.face_complete (kind : StepKind A C N) :
    (⟨.complete, kind⟩ : Step A C N).face false = ⟨.complete, kind.face false⟩ := rfl

theorem Step.face_notStarted (stale : Bool) (kind : StepKind A C N) :
    (⟨.notStarted, kind⟩ : Step A C N).face stale = ⟨.notStarted, kind.face true⟩ := by
  cases stale <;> rfl

@[simp] theorem StepTick.face_ofDriven (shape : StepShape) (trace : Trace N) (ctx : C)
    (generator : Generator) (kind : StepKind A C N) (result : Except TickError Bool) :
    (StepTick.ofDriven shape trace ctx generator kind result).face =
      .ofDriven shape trace.quiet ctx generator (kind.face false) result := by
  unfold StepTick.ofDriven
  split <;> simp [StepTick.face, Step.face_active, Step.face_complete]

@[simp] theorem StepTick.face_marked (t : StepTick A C N) : t.marked.face = t.face.marked := rfl

theorem StepTick.face_ofBody (entering : Bool) (generator : Generator) (inner : Advance A C N) :
    (StepTick.ofBody entering generator inner).face = .ofBody entering generator inner.face := by
  simp [StepTick.ofBody, Advance.face, StepKind.face]

theorem StepTick.face_ofRound (entering : Bool) (generator : Generator) (completion : Completion)
    (inner : Round A C N) :
    (StepTick.ofRound entering generator completion inner).face =
      .ofRound entering generator completion inner.face := by
  simp [StepTick.ofRound, Round.face, StepKind.face, Sequence.length_faces]

theorem StepTick.face_inFrontOf (t : StepTick A C N) (rest : List (Step A C N)) :
    (t.inFrontOf rest).face 0 = t.face.inFrontOf (Step.faces true rest) := by
  simp [StepTick.inFrontOf, ChildTick.face, StepTick.face, Step.facesFor, chosenLater]

theorem ChildTick.face_behind (first : Step A C N) (t : ChildTick A C N) (index : Nat) :
    (t.behind first).face (index + 1) = (t.face index).behind (first.face true) := by
  have hn : (some (index + 1) != some 0) = true := by simp
  simp [ChildTick.behind, ChildTick.face, Step.facesFor, chosenLater, hn]

theorem StepTick.face_andThen (index : Nat) (t : StepTick A C N) (waiting : List (Step A C N))
    (later : C → Generator → Cascade A C N) :
    (t.andThen index waiting later).face =
      t.face.andThen index (Step.faces false waiting) fun ctx generator =>
        (later ctx generator).face := by
  unfold StepTick.andThen
  cases h : t.result with
  | error e => simp [StepTick.face, Cascade.face, Step.faces, h]
  | ok finished => cases finished <;> simp [StepTick.face, Cascade.face, Step.faces, h]

theorem Cascade.face_behind (first : Step A C N) (c : Cascade A C N) :
    (c.behind first).face = c.face.behind (first.face false) := rfl

theorem Advance.face_andThen (hop : Hop) (a : Advance A C N) (waiting : List (Sequence A C N))
    (later : C → Round A C N) :
    (a.andThen hop waiting later).face =
      a.face.andThen hop (Sequence.faces false waiting) fun ctx => (later ctx).face := by
  unfold Advance.andThen
  cases h : a.result <;> simp [Advance.face, Round.face, Sequence.faces, h]

end Results

namespace Action

variable [Behavior A C N] {a a' : Action A C N}

/-- Actions of one face are the same but for how often a function ran that a callback runs. -/
theorem eq_or_callback_of_face (h : a.face false = a'.face false) :
    a = a' ∨ ∃ c c', a = callback c ∧ a' = callback c' ∧ c.fired = c'.fired ∧
      ∀ n, c.run (c.runs + n) = c'.run (c'.runs + n) := by
  cases a with
  | callback c =>
    cases a' with
    | callback c' =>
      simp only [face, Bool.not_false, Bool.true_and, callback.injEq, Callback.mk.injEq,
        true_and] at h
      exact .inr ⟨c, c', rfl, rfl, h.2, congrFun h.1⟩
    | _ => simp [face] at h
  | _ => cases a' <;> simp_all [face]

theorem face_enter (h : a.face true = a'.face true) (ctx : C) :
    (a.enter ctx).face = (a'.enter ctx).face := by
  cases a with
  | callback c =>
    cases a' with
    | callback c' =>
      simp only [face, callback.injEq, Callback.mk.injEq] at h
      simp [enter, reload, start, Hooked.face, face, h.1]
    | _ => simp [face] at h
  | wait w =>
    cases a' with
    | wait w' => simp_all [face, enter, reload, start, Hooked.face]
    | _ => simp [face] at h
  | custom action =>
    cases a' with
    | custom action' =>
      simp only [face, ↓reduceIte, custom.injEq, Face.reloaded.injEq] at h
      simp [enter, reload, h.1, h.2]
    | _ => simp [face] at h
  | _ => cases a' <;> simp_all [face]

theorem face_update (h : a.face false = a'.face false) (dt : Float32) (ctx : C) :
    (a.update dt ctx).face = (a'.update dt ctx).face := by
  rcases eq_or_callback_of_face h with rfl | ⟨c, c', rfl, rfl, hfired, hrun⟩
  · rfl
  · have hnow : c.run c.runs = c'.run c'.runs := hrun 0
    have hnext (n : Nat) : c.run (c.runs + 1 + n) = c'.run (c'.runs + 1 + n) := by
      rw [Nat.add_assoc, Nat.add_assoc]
      exact hrun (1 + n)
    cases hf : c'.fired <;> simp [update, hfired, hf, Hooked.face, face, hnow, hnext, hrun]

theorem face_check (h : a.face false = a'.face false) (ctx : C) :
    (a.check ctx).face = (a'.check ctx).face := by
  rcases eq_or_callback_of_face h with rfl | ⟨c, c', rfl, rfl, hfired, hrun⟩
  · rfl
  · simp [check, hfired, Hooked.face, face, hrun]

theorem face_finish (h : a.face false = a'.face false) (ctx : C) :
    (a.finish ctx).face = (a'.finish ctx).face := by
  rcases eq_or_callback_of_face h with rfl | ⟨c, c', rfl, rfl, hfired, hrun⟩
  · rfl
  · simp [finish, hfired, Hooked.face, face, hrun]

theorem face_drive (h : a.face false = a'.face false) (dt : Float32) (ctx : C) :
    (a.drive dt ctx).face = (a'.drive dt ctx).face := by
  have hu := face_update h dt ctx
  unfold drive
  generalize a.update dt ctx = updated at hu ⊢
  generalize a'.update dt ctx = updated' at hu ⊢
  obtain ⟨events, b, ctx₁, result⟩ := updated
  obtain ⟨events', b', ctx₁', result'⟩ := updated'
  simp only [Hooked.face, Hooked.mk.injEq] at hu
  obtain ⟨rfl, hb, rfl, rfl⟩ := hu
  cases result with
  | error e => simp [Hooked.face, hb]
  | ok entered =>
    have hc := face_check hb ctx₁
    simp only
    generalize b.check ctx₁ = checked at hc ⊢
    generalize b'.check ctx₁ = checked' at hc ⊢
    obtain ⟨events₂, d, ctx₂, result⟩ := checked
    obtain ⟨events₂', d', ctx₂', result'⟩ := checked'
    simp only [Hooked.face, Hooked.mk.injEq] at hc
    obtain ⟨rfl, hd, rfl, rfl⟩ := hc
    cases result with
    | error e => simp [Hooked.face, hd]
    | ok finished =>
      have he := face_finish hd ctx₂
      simp only [Hooked.face, Hooked.mk.injEq] at he
      cases finished <;> simp [Hooked.face, hd, he]

end Action

section Steps

variable [Behavior A C N]

theorem StepTick.face_ofAction {entering : Bool} {a a' : Action A C N}
    (h : a.face entering = a'.face entering) (dt : Float32) (ctx : C) (generator : Generator) :
    (StepTick.ofAction entering dt a ctx generator).face =
      (StepTick.ofAction entering dt a' ctx generator).face := by
  have he : (if entering then a.enter ctx else ⟨[], a, ctx, .ok ()⟩).face =
      (if entering then a'.enter ctx else ⟨[], a', ctx, .ok ()⟩).face := by
    cases entering with
    | true => exact Action.face_enter h ctx
    | false => simpa [Hooked.face] using h
  unfold StepTick.ofAction
  generalize (if entering then a.enter ctx else ⟨[], a, ctx, .ok ()⟩) = entered at he ⊢
  generalize (if entering then a'.enter ctx else ⟨[], a', ctx, .ok ()⟩) = entered' at he ⊢
  obtain ⟨events, b, ctx, result⟩ := entered
  obtain ⟨events', b', ctx', result'⟩ := entered'
  simp only [Hooked.face, Hooked.mk.injEq] at he
  obtain ⟨rfl, hb, rfl, rfl⟩ := he
  cases result with
  | error e =>
    simp [StepTick.face, Step.face_notStarted, StepKind.face, Action.face_true_of_face hb]
  | ok entered =>
    have hd := Action.face_drive hb dt ctx
    simp only [Hooked.face, Hooked.mk.injEq] at hd
    simp [StepKind.face, hd]

theorem StepTick.face_ofChosen {earlier : Trace N} {selector : Selector C N}
    {children children' : List (Step A C N)} {before before' chosen : Option Nat}
    {tickChild tickChild' : Nat → C → Generator → ChildTick A C N} {ctx : C} {generator : Generator}
    (h : Step.faces true children = Step.faces true children')
    (ht : ∀ index, chosen = some index →
      (tickChild index ctx generator).face index = (tickChild' index ctx generator).face index) :
    (StepTick.ofChosen earlier ⟨selector, children, before⟩ chosen tickChild ctx generator).face =
      (StepTick.ofChosen earlier ⟨selector, children', before'⟩ chosen tickChild' ctx
        generator).face := by
  cases chosen with
  | none => simp [StepTick.ofChosen, StepKind.face, h]
  | some index =>
    have hi := ht index rfl
    simp only [ChildTick.face, ChildTick.mk.injEq] at hi
    simp [StepTick.ofChosen, StepKind.face, hi]

theorem StepTick.face_ofBranch {entering : Bool} {selector : Selector C N}
    {children children' : List (Step A C N)} {chosen chosen' : Option Nat}
    {tickChild tickChild' : Nat → C → Generator → ChildTick A C N}
    (h : Step.faces true children = Step.faces true children')
    (hchosen : entering = false → chosen = chosen')
    (ht : ∀ index, (entering = false → chosen = some index) → ∀ ctx generator,
      (tickChild index ctx generator).face index = (tickChild' index ctx generator).face index)
    (ctx : C) (generator : Generator) :
    (StepTick.ofBranch entering ⟨selector, children, chosen⟩ tickChild ctx generator).face =
      (StepTick.ofBranch entering ⟨selector, children', chosen'⟩ tickChild' ctx
        generator).face := by
  cases entering with
  | false =>
    obtain rfl := hchosen rfl
    exact face_ofChosen h fun index hi => ht index (fun _ => hi) ctx generator
  | true =>
    simp only [StepTick.ofBranch, ↓reduceIte, Step.length_of_faces h]
    generalize selector.select children'.length ctx generator = selection
    cases selection.result with
    | error e => simp [StepTick.face, Step.face_notStarted, StepKind.face, h]
    | ok picked =>
      exact face_ofChosen h fun index _ => ht index (fun hf => Bool.noConfusion hf) ctx _

theorem Step.facesFor_modify_reset (children : List (Step A C N)) (index : Nat) :
    Step.facesFor (some index) (children.modify index Step.reset) = Step.faces true children := by
  induction children generalizing index with
  | nil => cases index <;> rfl
  | cons child rest ih =>
    cases index with
    | zero => simp [Step.facesFor, Step.faces, chosenLater]
    | succ index =>
      have hn : (some (index + 1) != some 0) = true := by simp
      simp [Step.facesFor, Step.faces, chosenLater, ih, hn]

/-- A branch that has made its choice shows its children as if all had been reset. -/
theorem Branch.face_choose (b : Branch A C N) (chosen : Option Nat) :
    (StepKind.branch (b.choose chosen)).face false =
      .branch ⟨b.selector, Step.faces true b.children, chosen⟩ := by
  cases chosen with
  | none => simp [Branch.choose, StepKind.face]
  | some index => simp [Branch.choose, StepKind.face, Step.facesFor_modify_reset]

theorem Step.face_activate {s s' : Step A C N} (h : s.face true = s'.face true) (ctx : C)
    (generator : Generator) :
    (s.reset.activate ctx generator).face = (s'.reset.activate ctx generator).face := by
  obtain ⟨state, kind⟩ := s
  obtain ⟨state', kind'⟩ := s'
  replace h : kind.face true = kind'.face true := by simpa [Step.face] using h
  match kind with
  | .leaf action =>
    obtain ⟨action', rfl, ha⟩ := StepKind.exists_of_face_leaf h
    have he := Action.face_enter ha ctx
    simp only [Step.reset, Step.activate]
    generalize action.enter ctx = entered at he ⊢
    generalize action'.enter ctx = entered' at he ⊢
    obtain ⟨events, b, ctx, result⟩ := entered
    obtain ⟨events', b', ctx', result'⟩ := entered'
    simp only [Hooked.face, Hooked.mk.injEq] at he
    obtain ⟨rfl, hb, rfl, rfl⟩ := he
    cases result with
    | error e =>
      simp [Entrance.face, Step.face_notStarted, StepKind.face, Action.face_true_of_face hb]
    | ok entered => simp [Entrance.face, Step.face_active, StepKind.face, hb]
  | .nested body =>
    obtain ⟨body', rfl, hb⟩ := StepKind.exists_of_face_nested h
    simp [Step.reset, Step.activate, Entrance.face, Step.face_active, StepKind.face, hb]
  | .parallel ⟨completion, members⟩ =>
    obtain ⟨members', rfl, hm⟩ := StepKind.exists_of_face_parallel h
    simp [Step.reset, Step.activate, Entrance.face, Step.face_active, StepKind.face, Group.reset,
      hm]
  | .branch ⟨selector, children, chosen⟩ =>
    obtain ⟨children', chosen', rfl, -, hc⟩ := StepKind.exists_of_face_branch h
    simp only [↓reduceIte, Step.facesFor_none] at hc
    simp only [Step.reset, Step.activate, Step.length_of_faces hc]
    generalize selector.select children'.length ctx generator = selection
    cases selection.result with
    | error e => simp [Entrance.face, Step.face_notStarted, StepKind.face, hc]
    | ok picked => simp [Entrance.face, Step.face_active, Branch.face_choose, hc]

end Steps

namespace Sequence

variable [Behavior A C N] {s s' : Sequence A C N}

theorem face_withCompanions (h : s.face false = s'.face false) {cs cs' : List (Sequence A C N)}
    (hc : Sequence.faces false cs = Sequence.faces false cs') :
    ({ s with companions := cs } : Sequence A C N).face false =
      ({ s' with companions := cs' } : Sequence A C N).face false := by
  have ha := face_eq_iff.mp h
  refine face_eq_iff.mpr ⟨ha.isStale, ha.name, ha.steps, ha.policy, ?_, ha.generator,
    ha.warnOnInstantLoops, ha.progress⟩
  generalize isStale false _ = stale
  cases stale with
  | false => exact hc
  | true => exact faces_true_of_faces hc

theorem face_beside {a a' : Advance A C N} {companions companions' : C → Round A C N}
    (h : a.face = a'.face) (hc : ∀ ctx, (companions ctx).face = (companions' ctx).face) :
    (a.beside companions).face = (a'.beside companions').face := by
  obtain ⟨trace, ctx, s, result⟩ := a
  obtain ⟨trace', ctx', s', result'⟩ := a'
  simp only [Advance.face, Advance.mk.injEq] at h
  obtain ⟨ht, rfl, hs, rfl⟩ := h
  cases result with
  | error e => simp [Advance.beside, Advance.face, ht, hs]
  | ok outcome =>
    have hr := hc ctx
    simp only [Round.face, Round.mk.injEq] at hr
    simp [Advance.beside, Advance.face, ht, hr, face_withCompanions hs hr.2.2.1]

theorem Alike.of_ne (h : s.status ≠ .notStarted) (ha : s.Alike false s') :
    s.progress = s'.progress ∧ Step.faces false s.steps = Step.faces false s'.steps ∧
      Sequence.faces false s.companions = Sequence.faces false s'.companions := by
  have hf : s.isStale false = false := beq_eq_false_iff_ne.mpr h
  have hsteps := ha.steps
  have hcompanions := ha.companions
  rw [hf] at hsteps hcompanions
  exact ⟨ha.progress hf, hsteps, hcompanions⟩

variable (hs : s.status ≠ .notStarted) (h : s.face false = s'.face false)

include hs h

theorem face_withRun {xs ys : List (Step A C N)}
    (hsteps : Step.faces false xs = Step.faces false ys) {g g' : Generator} (hg : g = g')
    {w w' : Bool} {p p' : Progress} (hp : p = p') :
    ({ s with steps := xs, generator := g, warned := w, progress := p } :
        Sequence A C N).face false =
      ({ s' with steps := ys, generator := g', warned := w', progress := p' } :
        Sequence A C N).face false := by
  have ha := face_eq_iff.mp h
  obtain ⟨-, -, hcompanions⟩ := ha.of_ne hs
  refine face_eq_iff.mpr ⟨congrArg (fun q : Progress => q.status == .notStarted) hp, ha.name, ?_,
    ha.policy, ?_, hg, ha.warnOnInstantLoops, fun _ => hp⟩
  · generalize isStale false _ = stale
    cases stale with
    | false => exact hsteps
    | true => exact Step.faces_true_of_faces hsteps
  · generalize isStale false _ = stale
    cases stale with
    | false => exact hcompanions
    | true => exact faces_true_of_faces hcompanions

theorem face_wrap (ctx : C) : (s.wrap ctx).face = (s'.wrap ctx).face := by
  have ha := face_eq_iff.mp h
  obtain ⟨hprogress, hsteps, -⟩ := ha.of_ne hs
  have hwrap : s.progress.wrap s.policy = s'.progress.wrap s'.policy := by
    rw [hprogress, ha.policy]
  have hlines : s.wrapLines.quiet = s'.wrapLines.quiet := by
    rw [Trace.quiet_wrapLines, Trace.quiet_wrapLines, ha.name, hwrap]
  match hx : s.steps, hy : s'.steps with
  | [], [] =>
    have hr : s.rewound.face false = s'.rewound.face false :=
      face_withRun hs h (by rw [hx, hy]) ha.generator hwrap
    rw [wrap_of_nil hx, wrap_of_nil hy]
    simp [Advance.face, hlines, hr]
  | x :: xs, y :: ys =>
    simp only [hx, hy, Step.faces, List.cons.injEq] at hsteps
    have he := Step.face_activate (Step.face_true_of_face hsteps.1) ctx s.generator
    have hrest := Step.faces_true_of_faces hsteps.2
    rw [wrap_of_cons hx, wrap_of_cons hy, ← ha.generator]
    generalize x.reset.activate ctx s.generator = entered at he ⊢
    generalize y.reset.activate ctx s.generator = entered' at he ⊢
    simp only [Entrance.face, Entrance.mk.injEq] at he
    obtain ⟨ht, hctx, hg, hstep, hresult⟩ := he
    simp only [Advance.face, Trace.quiet_append, Trace.quiet_under, hlines, ht, hctx, hresult,
      Advance.mk.injEq, true_and, and_true]
    exact face_withRun hs h (by simp [Step.faces, hstep, hrest]) hg hwrap
  | [], y :: ys => simp [hx, hy, Step.faces] at hsteps
  | x :: xs, [] => simp [hx, hy, Step.faces] at hsteps

theorem face_finishPass (ctx : C) : (s.finishPass ctx).face = (s'.finishPass ctx).face := by
  have hw := face_wrap hs h ctx
  have ha := face_eq_iff.mp h
  obtain ⟨hprogress, hsteps, -⟩ := ha.of_ne hs
  have hv : s.verdict ctx = s'.verdict ctx := by rw [verdict, verdict, ha.policy, hprogress]
  match hr : (s'.verdict ctx).answer with
  | .error e =>
    rw [finishPass_of_error hr, finishPass_of_error (hv ▸ hr), hv]
    simp [Advance.face, h]
  | .ok true =>
    rw [finishPass_of_again hr, finishPass_of_again (hv ▸ hr), hv]
    simp only [Advance.face, Advance.mk.injEq] at hw
    simp [Advance.face, Advance.after, hw]
  | .ok false =>
    have hp : s.finished.progress = s'.finished.progress := by simp [finished, hprogress]
    have hd : s.finished.face false = s'.finished.face false :=
      face_withRun hs h hsteps ha.generator hp
    rw [finishPass_of_over hr, finishPass_of_over (hv ▸ hr), hv]
    simp only [Advance.face, hd, ha.name, hp]

theorem face_runBody {run run' : C → Generator → Cascade A C N} {ctx : C}
    (hk : (run ctx s.generator).face = (run' ctx s'.generator).face) :
    (s.runBody ctx run).face = (s'.runBody ctx run').face := by
  obtain ⟨hprogress, -, -⟩ := (face_eq_iff.mp h).of_ne hs
  unfold runBody
  generalize run ctx s.generator = driven at hk ⊢
  generalize run' ctx s'.generator = driven' at hk ⊢
  simp only [Cascade.face, Cascade.mk.injEq] at hk
  obtain ⟨ht, hctx, hg, hsteps, hcursor, hresult⟩ := hk
  have hstopped : (s.stopped driven).face false = (s'.stopped driven').face false :=
    face_withRun hs h hsteps hg (by rw [hprogress, hcursor])
  have hheld : (s.stopped driven).held.face false = (s'.stopped driven').held.face false :=
    face_withRun hs h hsteps hg (by simp [stopped, hprogress, hcursor])
  have hf := face_finishPass (s := s.stopped driven) hs hstopped driven.context
  simp only [hresult]
  match driven'.result with
  | .ok true =>
    change (((s.stopped driven).finishPass driven.context).after driven.trace).face =
      (((s'.stopped driven').finishPass driven'.context).after driven'.trace).face
    rw [← hctx]
    simp only [Advance.face, Advance.mk.injEq] at hf
    simp [Advance.face, Advance.after, ht, hf]
  | .ok false =>
    simp only [Advance.face, ht, hctx, Advance.mk.injEq, true_and, and_true]
    exact hheld
  | .error e =>
    simp only [Advance.face, ht, hctx, Advance.mk.injEq, true_and, and_true]
    exact hstopped

omit [Behavior A C N] hs h in
/-- A sequence that has just been reset, as its body goes on with it. -/
def restarted (s : Sequence A C N) : Sequence A C N :=
  { s.reset with progress := { s.reset.progress with status := .running } }

omit hs h in
theorem face_restarted (h : s.face true = s'.face true) :
    s.restarted.face false = s'.restarted.face false := by
  have ha := face_eq_iff.mp h
  obtain ⟨id, name, steps, policy, companions, generator, warns, warned, progress⟩ := s
  obtain ⟨id', name', steps', policy', companions', generator', warns', warned', progress'⟩ := s'
  have hsteps : Step.faces true steps = Step.faces true steps' := ha.steps
  have hcompanions : faces true companions = faces true companions' := ha.companions
  obtain rfl : policy = policy' := ha.policy
  exact face_eq_iff.mpr ⟨rfl, ha.name, by simpa [restarted] using hsteps, rfl,
    by simpa [restarted, reset] using hcompanions, ha.generator, ha.warnOnInstantLoops,
    fun _ => rfl⟩

omit hs h in
theorem face_body {restart : Bool} (h : s.face restart = s'.face restart)
    {run run' : C → Generator → Cascade A C N} {ctx : C}
    (hk : (run ctx s.generator).face = (run' ctx s'.generator).face) :
    ((if s.isStale restart then s.reset else s).body (s.isStale restart) ctx run).face =
      ((if s'.isStale restart then s'.reset else s').body (s'.isStale restart) ctx run').face := by
  have ha := face_eq_iff.mp h
  rw [← ha.isStale]
  match hf : s.isStale restart with
  | true =>
    have hsteps := ha.steps
    rw [hf] at hsteps
    have hr := face_restarted (face_true_of_face h)
    obtain ⟨id, name, steps, policy, companions, generator, warns, warned, progress⟩ := s
    obtain ⟨id', name', steps', policy', companions', generator', warns', warned', progress'⟩ := s'
    have hb := face_runBody Status.noConfusion hr hk
    have hline : (steps.map Step.reset).length = (steps'.map Step.reset).length := by
      simpa using Step.length_of_faces hsteps
    obtain rfl : name = name' := ha.name
    obtain rfl : policy = policy' := ha.policy
    simp only [Advance.face, Advance.mk.injEq] at hb
    simp only [body, ↓reduceIte, reset, Advance.face, Advance.mk.injEq, Trace.quiet_append, hline]
    exact ⟨congrArg _ hb.1, hb.2⟩
  | false =>
    have hs : s.status ≠ .notStarted := by
      intro hn
      simp [isStale, hn] at hf
    have hfalse : restart = false := (Bool.or_eq_false_iff.mp hf).1
    subst hfalse
    have hb := face_runBody hs h hk
    obtain ⟨hprogress, -, -⟩ := ha.of_ne hs
    have hc : s.isComplete = s'.isComplete :=
      congrArg (fun p : Progress => p.status == .complete) hprogress
    simp only [body, Bool.false_eq_true, ↓reduceIte, hc]
    split
    · simp [Advance.face, h]
    · exact hb

end Sequence

/-! ### One tick -/

section Ticks

variable [Behavior A C N]

/-- A list that is reset when it is used again, as it is left behind. -/
theorem Step.faces_waiting (fresh : Bool) (steps : List (Step A C N)) :
    Step.faces false (if fresh then steps.map Step.reset else steps) = Step.faces fresh steps := by
  cases fresh <;> simp

theorem Sequence.faces_waiting (fresh : Bool) (ss : List (Sequence A C N)) :
    Sequence.faces false (if fresh then resetAll ss else ss) = Sequence.faces fresh ss := by
  cases fresh <;> simp

mutual

theorem StepKind.face_tick {entering : Bool} (dt : Float32) {kind kind' : StepKind A C N}
    (h : kind.face entering = kind'.face entering) (ctx : C) (generator : Generator) :
    (StepKind.tick entering dt kind ctx generator).face =
      (StepKind.tick entering dt kind' ctx generator).face := by
  match kind with
  | .leaf action =>
    obtain ⟨action', rfl, ha⟩ := StepKind.exists_of_face_leaf h
    simp only [StepKind.tick, StepTick.face_ofAction ha]
  | .nested body =>
    obtain ⟨body', rfl, hb⟩ := StepKind.exists_of_face_nested h
    simp only [StepKind.tick, StepTick.face_ofBody, Sequence.face_advanceFrom dt hb]
  | .parallel ⟨completion, members⟩ =>
    obtain ⟨members', rfl, hm⟩ := StepKind.exists_of_face_parallel h
    simp only [StepKind.tick, StepTick.face_ofRound, face_advanceAll dt .member hm]
  | .branch ⟨selector, children, chosen⟩ =>
    obtain ⟨children', chosen', rfl, hchosen, hc⟩ := StepKind.exists_of_face_branch h
    simp only [StepKind.tick]
    refine StepTick.face_ofBranch (Step.faces_true_of_facesFor hc) ?_ ?_ ctx generator
    · rintro rfl
      exact hchosen
    · intro index hi ctx generator
      refine face_tickChild dt ?_ ctx generator
      cases entering with
      | true => exact hc
      | false =>
        obtain rfl : chosen = chosen' := hchosen
        rw [hi rfl] at hc
        exact hc
termination_by structural kind

theorem Step.face_tick {fresh : Bool} (dt : Float32) {s s' : Step A C N}
    (h : s.face fresh = s'.face fresh) (ctx : C) (generator : Generator) :
    (Step.tick fresh dt s ctx generator).face = (Step.tick fresh dt s' ctx generator).face := by
  obtain ⟨state, kind⟩ := s
  obtain ⟨state', kind'⟩ := s'
  simp only [Step.face, Step.mk.injEq] at h
  obtain ⟨hstate, hkind⟩ := h
  cases fresh with
  | true =>
    have ht := StepKind.face_tick dt hkind ctx generator
    simp only [Bool.true_or] at ht
    simp only [Step.tick, ↓reduceIte, StepTick.face_marked, ht]
  | false =>
    obtain rfl : state = state' := by cases state <;> cases state' <;> simp_all
    have ht := StepKind.face_tick dt hkind ctx generator
    cases state with
    | notStarted => exact congrArg StepTick.marked ht
    | active => exact congrArg StepTick.marked ht
    | complete =>
      have hk : kind.face false = kind'.face false := hkind
      simp [Step.tick, StepTick.marked, StepTick.face, Step.face_complete, hk]
termination_by structural s

theorem face_tickChild {fresh : Bool} (dt : Float32) {xs ys : List (Step A C N)} {index : Nat}
    (h : Step.facesFor (if fresh then none else some index) xs =
      Step.facesFor (if fresh then none else some index) ys) (ctx : C) (generator : Generator) :
    (tickChild fresh dt xs index ctx generator).face index =
      (tickChild fresh dt ys index ctx generator).face index := by
  match xs, ys, index with
  | [], [], index => rfl
  | x :: xs, y :: ys, 0 =>
    simp only [Step.facesFor, List.cons.injEq] at h
    have hx : x.face fresh = y.face fresh := by cases fresh <;> exact h.1
    have hrest : Step.faces true xs = Step.faces true ys := Step.faces_true_of_facesFor h.2
    simp only [tickChild, StepTick.face_inFrontOf, Step.face_tick dt hx ctx generator, hrest]
  | x :: xs, y :: ys, index + 1 =>
    simp only [Step.facesFor, List.cons.injEq] at h
    have hx : x.face true = y.face true := Step.face_true_of_face h.1
    have hrest : Step.facesFor (if fresh then none else some index) xs =
        Step.facesFor (if fresh then none else some index) ys := by cases fresh <;> exact h.2
    simp only [tickChild, ChildTick.face_behind, face_tickChild dt hrest ctx generator, hx]
termination_by structural xs

theorem face_cascade {fresh : Bool} (dt : Float32) {xs ys : List (Step A C N)}
    (h : Step.faces fresh xs = Step.faces fresh ys) (index : Nat) {skip : Nat}
    (hskip : fresh = true → skip = 0) (ctx : C) (generator : Generator) :
    (cascade fresh dt index xs skip ctx generator).face =
      (cascade fresh dt index ys skip ctx generator).face := by
  match xs, ys, skip with
  | [], [], skip => rfl
  | x :: xs, y :: ys, 0 =>
    simp only [Step.faces, List.cons.injEq] at h
    have hlater : (fun ctx generator => (cascade fresh dt (index + 1) xs 0 ctx generator).face) =
        fun ctx generator => (cascade fresh dt (index + 1) ys 0 ctx generator).face :=
      funext fun ctx => funext fun generator =>
        face_cascade dt h.2 (index + 1) (fun _ => rfl) ctx generator
    simp only [cascade, StepTick.face_andThen, Step.faces_waiting, h.2, hlater,
      Step.face_tick dt h.1 ctx generator]
  | x :: xs, y :: ys, skip + 1 =>
    cases fresh with
    | true => cases hskip rfl
    | false =>
      simp only [Step.faces, List.cons.injEq] at h
      simp only [cascade, Cascade.face_behind, h.1,
        face_cascade dt h.2 (index + 1) (fun hf => Bool.noConfusion hf) ctx generator]
termination_by structural xs

theorem Sequence.face_advanceFrom {restart : Bool} (dt : Float32) {s s' : Sequence A C N}
    (h : s.face restart = s'.face restart) (ctx : C) :
    (s.advanceFrom restart dt ctx).face = (s'.advanceFrom restart dt ctx).face := by
  have ha := Sequence.face_eq_iff.mp h
  obtain ⟨id, name, steps, policy, companions, generator, warns, warned, progress⟩ := s
  obtain ⟨id', name', steps', policy', companions', generator', warns', warned', progress'⟩ := s'
  have hfresh : (restart || progress.status == .notStarted) =
      (restart || progress'.status == .notStarted) := ha.isStale
  have hsteps := ha.steps
  have hcompanions := ha.companions
  simp only [Sequence.isStale, Sequence.status] at hsteps hcompanions
  rw [Sequence.advanceFrom, Sequence.advanceFrom]
  refine Sequence.face_beside (Sequence.face_body h ?_) ?_
  · obtain rfl : generator = generator' := ha.generator
    have hprogress := ha.progress
    simp only [Sequence.isStale, Sequence.status] at hprogress
    simp only [← hfresh]
    cases hf : restart || progress.status == .notStarted with
    | true =>
      rw [hf] at hsteps
      exact face_cascade dt hsteps 0 (fun _ => rfl) ctx generator
    | false =>
      rw [hf] at hsteps
      obtain rfl : progress = progress' := hprogress hf
      exact face_cascade dt hsteps 0 (fun hn => Bool.noConfusion hn) ctx generator
  · intro ctx
    simp only [← hfresh]
    exact face_advanceAll dt .companion hcompanions 0 ctx
termination_by structural s

theorem face_advanceAll {fresh : Bool} (dt : Float32) (hop : Nat → Hop)
    {xs ys : List (Sequence A C N)} (h : Sequence.faces fresh xs = Sequence.faces fresh ys)
    (index : Nat) (ctx : C) :
    (advanceAll fresh dt hop index xs ctx).face = (advanceAll fresh dt hop index ys ctx).face := by
  match xs, ys with
  | [], [] => rfl
  | x :: xs, y :: ys =>
    simp only [Sequence.faces, List.cons.injEq] at h
    have hlater : (fun ctx => (advanceAll fresh dt hop (index + 1) xs ctx).face) =
        fun ctx => (advanceAll fresh dt hop (index + 1) ys ctx).face :=
      funext fun ctx => face_advanceAll dt hop h.2 (index + 1) ctx
    simp only [advanceAll, Advance.face_andThen, Sequence.faces_waiting, h.2, hlater,
      Sequence.face_advanceFrom dt h.1 ctx]
termination_by structural xs

end

end Ticks

end Sequencer

import Sequencer.Rehearsal
import Sequencer.Tick

/-!
# Failures

A tick fails if and only if something that it calls does, and then at once: the failure is the last
thing that happens, and its error is the result. So of all hooks and conditions that a tick comes
to, at most one fails, and nothing is called or drawn after it. A condition that is put together
from others fails because one of those did, and a callback because its function did; such a failure
stands right before the one that it causes.
-/

namespace Sequencer

variable {A C N : Type}

def Event.failure? : Event N → Option TickError
  | .tested (.error e) | .ran (.error e) => some e
  | .started (.error e) | .updated (.error e) | .checked (.error e) | .ended (.error e) => some e
  | .guarded _ (.error e) | .repeatChecked (.error e) => some e
  | _ => none

/-- The events with which a hook or a condition fails: what failed inside it, if that is known, and
its own result. -/
inductive Failure (e : TickError) : List (Event N) → Prop
  | started : Failure e [.started (.error e)]
  | updated : Failure e [.updated (.error e)]
  | ran : Failure e [.ran (.error e), .updated (.error e)]
  | checked : Failure e [.checked (.error e)]
  | waited : Failure e [.tested (.error e), .checked (.error e)]
  | ended : Failure e [.ended (.error e)]
  | guarded (arm : Nat) : Failure e [.tested (.error e), .guarded arm (.error e)]
  | repeatChecked : Failure e [.tested (.error e), .repeatChecked (.error e)]

theorem Failure.exists_last {e : TickError} {events : List (Event N)} (h : Failure e events) :
    ∃ before last, events = before ++ [last] ∧ last.failure? = some e := by
  cases h with
  | started | updated | checked | ended => exact ⟨[], _, rfl, rfl⟩
  | ran | waited | guarded | repeatChecked => exact ⟨[_], _, rfl, rfl⟩

namespace Trace

def Succeeds (t : Trace N) : Prop := ∀ entry ∈ t, entry.event.failure? = none

/-- The trace ends with a failure, and nothing failed before. -/
def FailsWith (t : Trace N) (e : TickError) : Prop :=
  ∃ before path ending, t = before ++ ending.map (Entry.mk path) ∧ before.Succeeds ∧
    Failure e ending

/-- Whether the result of something agrees with its trace. -/
def Tells {α : Type} (t : Trace N) : Except TickError α → Prop
  | .ok _ => t.Succeeds
  | .error e => t.FailsWith e

@[simp] theorem succeeds_nil : Succeeds ([] : Trace N) := fun _ h => nomatch h

@[simp] theorem succeeds_cons {entry : Entry N} {t : Trace N} :
    Succeeds (entry :: t) ↔ entry.event.failure? = none ∧ t.Succeeds := by
  simp [Succeeds]

@[simp] theorem succeeds_append {t u : Trace N} :
    Succeeds (t ++ u) ↔ t.Succeeds ∧ u.Succeeds := by
  simp [Succeeds, or_imp, forall_and]

@[simp] theorem succeeds_under {hop : Hop} {t : Trace N} :
    Succeeds (t.under hop) ↔ t.Succeeds := by
  simp [Succeeds, under]

@[simp] theorem succeeds_here {events : List (Event N)} :
    Succeeds (here events) ↔ ∀ event ∈ events, event.failure? = none := by
  simp [Succeeds, here]

@[simp] theorem succeeds_line (line : LogEvent) : Succeeds (Trace.line line : Trace N) := by
  simp [Trace.line, Event.failure?]

@[simp] theorem succeeds_notes (notes : List N) : Succeeds (here (notes.map .note)) := by
  simp [Event.failure?]

@[simp] theorem succeeds_activation (entering : Bool) (shape : StepShape) :
    Succeeds (activation entering shape : Trace N) := by
  cases entering <;> simp [activation]

theorem here_append (events later : List (Event N)) :
    here (events ++ later) = here events ++ here later :=
  List.map_append

theorem FailsWith.under {t : Trace N} {e : TickError} (h : t.FailsWith e) (hop : Hop) :
    (t.under hop).FailsWith e := by
  obtain ⟨before, path, ending, rfl, hb, hf⟩ := h
  refine ⟨before.under hop, hop :: path, ending, ?_, succeeds_under.mpr hb, hf⟩
  simp [Trace.under, Function.comp_def]

theorem FailsWith.behind {t u : Trace N} {e : TickError} (ht : t.Succeeds) (h : u.FailsWith e) :
    (t ++ u).FailsWith e := by
  obtain ⟨before, path, ending, rfl, hb, hf⟩ := h
  exact ⟨t ++ before, path, ending, by simp, succeeds_append.mpr ⟨ht, hb⟩, hf⟩

theorem FailsWith.exists_last {t : Trace N} {e : TickError} (h : t.FailsWith e) :
    ∃ earlier last, t = earlier ++ [last] ∧ last.event.failure? = some e := by
  obtain ⟨before, path, ending, rfl, -, hf⟩ := h
  obtain ⟨events, last, rfl, hlast⟩ := hf.exists_last
  exact ⟨before ++ events.map (Entry.mk path), ⟨path, last⟩, by simp, hlast⟩

theorem FailsWith.unique {t : Trace N} {e e' : TickError} (h : t.FailsWith e)
    (h' : t.FailsWith e') : e = e' := by
  obtain ⟨earlier, last, rfl, hlast⟩ := h.exists_last
  obtain ⟨earlier', last', ht, hlast'⟩ := h'.exists_last
  obtain ⟨-, rfl⟩ := List.append_inj' ht rfl |>.imp_right List.singleton_inj.mp
  exact Option.some.inj (hlast.symm.trans hlast')

theorem FailsWith.not_succeeds {t : Trace N} {e : TickError} (h : t.FailsWith e) :
    ¬t.Succeeds := by
  obtain ⟨earlier, last, rfl, hlast⟩ := h.exists_last
  intro hs
  simp [hlast] at hs

namespace Tells

variable {α β : Type} {t u : Trace N} {r : Except TickError α}

theorem map (h : t.Tells r) (f : α → β) : t.Tells (r.map f) := by
  cases r <;> exact h

theorem under (h : t.Tells r) (hop : Hop) : (t.under hop).Tells r := by
  cases r with
  | error e => exact FailsWith.under h hop
  | ok a => exact succeeds_under.mpr h

theorem behind (ht : t.Succeeds) (h : u.Tells r) : (t ++ u).Tells r := by
  cases r with
  | error e => exact FailsWith.behind ht h
  | ok a => exact succeeds_append.mpr ⟨ht, h⟩

theorem error_iff (h : t.Tells r) (e : TickError) : r = .error e ↔ t.FailsWith e := by
  cases r with
  | error e' =>
    constructor
    · rintro ⟨⟩
      exact h
    · intro hf
      rw [FailsWith.unique h hf]
  | ok a =>
    constructor
    · rintro ⟨⟩
    · intro hf
      exact absurd h hf.not_succeeds

theorem exists_error_iff (h : t.Tells r) :
    (∃ e, r = .error e) ↔ ∃ entry ∈ t, entry.event.failure? ≠ none := by
  cases r with
  | error e =>
    obtain ⟨earlier, last, rfl, hlast⟩ := FailsWith.exists_last h
    refine ⟨fun _ => ⟨last, by simp, by simp [hlast]⟩, fun _ => ⟨e, rfl⟩⟩
  | ok a =>
    constructor
    · rintro ⟨e, ⟨⟩⟩
    · rintro ⟨entry, hm, hf⟩
      exact absurd (h entry hm) hf

end Tells

end Trace

/-- Whether a condition fails if and only if a base condition did, which was the last to be
asked. -/
def Evaluation.Tells (v : Evaluation N) : Prop :=
  match v.answer with
  | .ok _ => (Trace.here v.events).Succeeds
  | .error e => ∃ before, v.events = before ++ [.tested (.error e)] ∧ (Trace.here before).Succeeds

namespace Evaluation

theorem Tells.after {v : Evaluation N} (h : v.Tells) {earlier : List (Event N)}
    (hs : (Trace.here earlier).Succeeds) : (v.after earlier).Tells := by
  obtain ⟨events, answer⟩ := v
  cases answer with
  | error e =>
    obtain ⟨before, rfl, hb⟩ := h
    refine ⟨earlier ++ before, by simp [Evaluation.after], ?_⟩
    rw [Trace.here_append]
    exact Trace.succeeds_append.mpr ⟨hs, hb⟩
  | ok answer =>
    show (Trace.here (earlier ++ events)).Succeeds
    rw [Trace.here_append]
    exact Trace.succeeds_append.mpr ⟨hs, h⟩

theorem Tells.negate {v : Evaluation N} (h : v.Tells) : v.negate.Tells := by
  obtain ⟨events, answer⟩ := v
  cases answer <;> exact h

theorem Tells.reported {v : Evaluation N} (h : v.Tells) {report : Except TickError Bool → Event N}
    (hok : ∀ answer, (report (.ok answer)).failure? = none)
    (herror : ∀ e, Failure e [.tested (.error e), report (.error e)]) :
    (Trace.here (v.events ++ [report v.answer])).Tells v.answer := by
  obtain ⟨events, answer⟩ := v
  cases answer with
  | error e =>
    obtain ⟨before, rfl, hb⟩ := h
    exact ⟨Trace.here before, [], _, by simp [Trace.here], hb, herror e⟩
  | ok answer =>
    show (Trace.here (events ++ [report (.ok answer)])).Succeeds
    rw [Trace.here_append]
    exact Trace.succeeds_append.mpr ⟨h, by simp [hok]⟩

end Evaluation

mutual

theorem Condition.tells_evaluate (ctx : C) (c : Condition C N) : (c.evaluate ctx).Tells := by
  match c with
  | .test predicate =>
    cases h : (predicate ctx).answer with
    | error e => simp [Condition.evaluate, Evaluation.Tells, h, Event.failure?]
    | ok answer =>
      simp [Condition.evaluate, Evaluation.Tells, h, or_imp, forall_and, Event.failure?]
  | .all conditions =>
    simpa only [Condition.evaluate] using Condition.tells_evaluateAll ctx conditions
  | .any conditions =>
    simpa only [Condition.evaluate] using Condition.tells_evaluateAny ctx conditions
  | .not condition =>
    simpa only [Condition.evaluate] using (Condition.tells_evaluate ctx condition).negate
termination_by structural c

theorem Condition.tells_evaluateAll (ctx : C) (cs : List (Condition C N)) :
    (Condition.evaluateAll ctx cs).Tells := by
  match cs with
  | [] => simp [Condition.evaluateAll, Evaluation.Tells]
  | c :: rest =>
    have hc := Condition.tells_evaluate ctx c
    have hr := Condition.tells_evaluateAll ctx rest
    simp only [Condition.evaluateAll]
    split
    case h_1 ha =>
      rw [Evaluation.Tells, ha] at hc
      exact hr.after hc
    all_goals exact hc
termination_by structural cs

theorem Condition.tells_evaluateAny (ctx : C) (cs : List (Condition C N)) :
    (Condition.evaluateAny ctx cs).Tells := by
  match cs with
  | [] => simp [Condition.evaluateAny, Evaluation.Tells]
  | c :: rest =>
    have hc := Condition.tells_evaluate ctx c
    have hr := Condition.tells_evaluateAny ctx rest
    simp only [Condition.evaluateAny]
    split
    case h_1 ha =>
      rw [Evaluation.Tells, ha] at hc
      exact hr.after hc
    all_goals exact hc
termination_by structural cs

end

def Selection.Tells (s : Selection N) : Prop := (Trace.here s.events).Tells s.result

theorem tells_firstHolding (ctx : C) (generator : Generator) (otherwise : Option Nat)
    (index : Nat) (guards : List (Condition C N)) :
    (firstHolding ctx generator otherwise index guards).Tells := by
  induction guards generalizing index with
  | nil => exact Trace.succeeds_nil
  | cons guard rest ih =>
    have hg : (Trace.here ((guard.evaluate ctx).events ++
        [.guarded index (guard.evaluate ctx).answer])).Tells (guard.evaluate ctx).answer :=
      (guard.tells_evaluate ctx).reported (fun _ => rfl) fun e => .guarded index
    simp only [firstHolding]
    split
    case h_1 e ha =>
      rw [ha] at hg ⊢
      exact hg
    case h_2 ha =>
      rw [ha] at hg ⊢
      exact hg
    case h_3 ha =>
      rw [ha] at hg ⊢
      rw [Selection.Tells, Trace.here_append]
      exact .behind hg (ih (index + 1))

/-- A selection fails if and only if one of its guards does, which is the last to be evaluated. -/
theorem Selector.tells_select (selector : Selector C N) (size : Nat) (ctx : C)
    (generator : Generator) : (selector.select size ctx generator).Tells := by
  cases selector with
  | guarded guards fallback => exact tells_firstHolding ctx generator _ 0 guards
  | uniform => simp [Selector.select, Selection.Tells, Trace.Tells, Event.failure?]
  | weighted weights => simp [Selector.select, Selection.Tells, Trace.Tells, Event.failure?]
  | chance probability => simp [Selector.select, Selection.Tells, Trace.Tells, Event.failure?]

theorem Policy.tells_again (policy : Policy C N) (remaining : Nat) (ctx : C) :
    let v := policy.again remaining ctx
    (Trace.here v.events).Tells v.answer := by
  cases policy with
  | untilHolds condition =>
    exact ((condition.tells_evaluate ctx).reported (fun _ => rfl) fun e => .repeatChecked).map _
  | once | count passes | forever => exact Trace.succeeds_nil

theorem Trace.tells_noted {α : Type} (notes : List N) {report : Except TickError α → Event N}
    (hok : ∀ a, (report (.ok a)).failure? = none)
    (herror : ∀ e, Failure e [report (.error e)]) (result : Except TickError α) :
    (Trace.here (notes.map .note ++ [report result])).Tells result := by
  rw [Trace.here_append]
  refine Tells.behind (Trace.succeeds_notes notes) ?_
  cases result with
  | error e => exact ⟨[], [], _, rfl, Trace.succeeds_nil, herror e⟩
  | ok a => simp [Tells, hok]

/-- Whether a hook fails if and only if its trace says so. -/
def Hooked.Tells {α : Type} (h : Hooked A C N α) : Prop := (Trace.here h.events).Tells h.result

namespace Action

variable [Behavior A C N]

theorem succeeds_reload (a : Action A C N) : (Trace.here a.reload.1).Succeeds := by
  cases a with
  | custom action => simp [reload, or_imp, forall_and, Event.failure?]
  | _ => simp [reload, Event.failure?]

theorem tells_start (a : Action A C N) (ctx : C) : (a.start ctx).Tells := by
  cases a with
  | custom action => exact Trace.tells_noted _ (fun _ => rfl) (fun _ => .started) _
  | _ => simp [start, Hooked.Tells, Trace.Tells, Event.failure?]

theorem tells_update (a : Action A C N) (dt : Float32) (ctx : C) : (a.update dt ctx).Tells := by
  cases a with
  | callback c =>
    simp only [update]
    split
    · simp [Hooked.Tells, Trace.Tells, Event.failure?]
    · cases hr : (c.run c.runs ctx).result with
      | error e =>
        exact ⟨Trace.here ((c.run c.runs ctx).notes.map .note), [], _, by simp [Trace.here],
          Trace.succeeds_notes _, .ran⟩
      | ok u => simp [Hooked.Tells, Trace.Tells, or_imp, forall_and, Event.failure?]
  | custom action => exact Trace.tells_noted _ (fun _ => rfl) (fun _ => .updated) _
  | _ => simp [update, Hooked.Tells, Trace.Tells, Event.failure?]

theorem tells_check (a : Action A C N) (ctx : C) : (a.check ctx).Tells := by
  cases a with
  | waitUntil condition =>
    exact (condition.tells_evaluate ctx).reported (fun _ => rfl) fun _ => .waited
  | custom action => exact Trace.tells_noted _ (fun _ => rfl) (fun _ => .checked) _
  | _ => simp [check, Hooked.Tells, Trace.Tells, Event.failure?]

theorem tells_finish (a : Action A C N) (ctx : C) : (a.finish ctx).Tells := by
  cases a with
  | custom action => exact Trace.tells_noted _ (fun _ => rfl) (fun _ => .ended) _
  | _ => simp [finish, Hooked.Tells, Trace.Tells, Event.failure?]

theorem tells_enter (a : Action A C N) (ctx : C) : (a.enter ctx).Tells := by
  show (Trace.here (a.reload.1 ++ (a.reload.2.start ctx).events)).Tells _
  rw [Trace.here_append]
  exact .behind a.succeeds_reload (a.reload.2.tells_start ctx)

/-- Driving an action calls its hooks up to the first that fails. -/
theorem tells_drive (a : Action A C N) (dt : Float32) (ctx : C) : (a.drive dt ctx).Tells := by
  have hu := a.tells_update dt ctx
  simp only [drive]
  split
  case h_1 e hr =>
    rw [Hooked.Tells, hr] at hu
    exact hu
  case h_2 hr =>
    rw [Hooked.Tells, hr] at hu
    have hc := (a.update dt ctx).action.tells_check (a.update dt ctx).context
    split
    case h_1 e hk =>
      rw [Hooked.Tells, hk] at hc
      rw [Hooked.Tells, Trace.here_append]
      exact .behind hu hc
    case h_2 hk =>
      rw [Hooked.Tells, hk] at hc
      rw [Hooked.Tells, Trace.here_append]
      exact .behind hu hc
    case h_3 hk =>
      rw [Hooked.Tells, hk] at hc
      rw [Hooked.Tells, Trace.here_append, Trace.here_append]
      exact .behind (Trace.succeeds_append.mpr ⟨hu, hc⟩) ((tells_finish _ _).map _)

end Action

/-! ### The parts of a tick -/

section Parts

def Entrance.Tells (e : Entrance A C N) : Prop := e.trace.Tells e.result

def StepTick.Tells (t : StepTick A C N) : Prop := t.trace.Tells t.result

def ChildTick.Tells (t : ChildTick A C N) : Prop := t.trace.Tells t.result

def Cascade.Tells (k : Cascade A C N) : Prop := k.trace.Tells k.result

def Round.Tells (r : Round A C N) : Prop := r.trace.Tells r.result

def Advance.Tells (a : Advance A C N) : Prop := a.trace.Tells a.result

theorem Selection.Tells.trace {s : Selection N} (h : s.Tells) {chosen : Option Nat}
    (hr : s.result = .ok chosen) : (s.trace chosen).Succeeds := by
  rw [Selection.Tells, hr] at h
  exact Trace.succeeds_append.mpr
    ⟨Trace.succeeds_append.mpr ⟨h, Trace.succeeds_line _⟩, Trace.succeeds_line _⟩

theorem StepTick.tells_ofDriven {trace : Trace N} {result : Except TickError Bool}
    (h : trace.Tells result) (shape : StepShape) (ctx : C) (generator : Generator)
    (kind : StepKind A C N) : (StepTick.ofDriven shape trace ctx generator kind result).Tells := by
  match result with
  | .ok true => exact Trace.succeeds_append.mpr ⟨h, Trace.succeeds_line _⟩
  | .ok false => exact h
  | .error e => exact h

theorem StepTick.Tells.marked {t : StepTick A C N} (h : t.Tells) : t.marked.Tells :=
  Trace.Tells.behind (t := [⟨[], .ticked⟩]) (by simp [Event.failure?]) h

theorem StepTick.tells_ofBody (entering : Bool) (generator : Generator) {inner : Advance A C N}
    (h : inner.Tells) : (StepTick.ofBody entering generator inner).Tells :=
  tells_ofDriven (.behind (Trace.succeeds_activation _ _) ((Trace.Tells.under h _).map _)) ..

theorem StepTick.tells_ofRound (entering : Bool) (generator : Generator) (completion : Completion)
    {inner : Round A C N} (h : inner.Tells) :
    (StepTick.ofRound entering generator completion inner).Tells :=
  tells_ofDriven (.behind (Trace.succeeds_activation _ _) (Trace.Tells.map h _)) ..

theorem StepTick.tells_ofChosen {earlier : Trace N} (he : earlier.Succeeds) (b : Branch A C N)
    (chosen : Option Nat) {tickChild : Nat → C → Generator → ChildTick A C N}
    (h : ∀ index ctx generator, (tickChild index ctx generator).Tells) (ctx : C)
    (generator : Generator) :
    (StepTick.ofChosen earlier b chosen tickChild ctx generator).Tells := by
  cases chosen with
  | none =>
    have hr : earlier.Tells (.ok true : Except TickError Bool) := he
    exact tells_ofDriven hr _ _ _ _
  | some index => exact tells_ofDriven (.behind he ((h index ctx generator).under _)) ..

theorem StepTick.tells_ofBranch (entering : Bool) (b : Branch A C N)
    {tickChild : Nat → C → Generator → ChildTick A C N}
    (h : ∀ index ctx generator, (tickChild index ctx generator).Tells) (ctx : C)
    (generator : Generator) : (StepTick.ofBranch entering b tickChild ctx generator).Tells := by
  simp only [StepTick.ofBranch]
  split
  · have hs := b.selector.tells_select b.children.length ctx generator
    split
    case h_1 e hr =>
      rw [Selection.Tells, hr] at hs
      exact hs
    case h_2 chosen hr => exact tells_ofChosen (hs.trace hr) b chosen h ctx _
  · exact tells_ofChosen Trace.succeeds_nil b b.chosen h ctx generator

theorem StepTick.tells_andThen (index : Nat) {t : StepTick A C N} (h : t.Tells)
    (waiting : List (Step A C N)) {later : C → Generator → Cascade A C N}
    (hl : ∀ ctx generator, (later ctx generator).Tells) :
    (t.andThen index waiting later).Tells := by
  have hu : (t.trace.under (.step index)).Tells t.result := Trace.Tells.under h _
  unfold StepTick.andThen
  split
  case h_1 hr =>
    rw [hr] at hu
    exact .behind hu (hl _ _)
  case h_2 hr =>
    rw [hr] at hu
    exact hu
  case h_3 e hr =>
    rw [hr] at hu
    exact hu

theorem Advance.tells_andThen (hop : Hop) {a : Advance A C N} (h : a.Tells)
    (waiting : List (Sequence A C N)) {later : C → Round A C N} (hl : ∀ ctx, (later ctx).Tells) :
    (a.andThen hop waiting later).Tells := by
  have hu : (a.trace.under hop).Tells a.result := Trace.Tells.under h _
  unfold Advance.andThen
  split
  case h_1 e hr =>
    rw [hr] at hu
    exact hu
  case h_2 o hr =>
    rw [hr] at hu
    exact .behind hu ((hl _).map _)

theorem Advance.Tells.beside {body : Advance A C N} (h : body.Tells) {companions : C → Round A C N}
    (hc : ∀ ctx, (companions ctx).Tells) : (body.beside companions).Tells := by
  have hb : Trace.Tells (⟨[], .ticked⟩ :: body.trace) body.result :=
    Trace.Tells.behind (t := [⟨[], .ticked⟩]) (by simp [Event.failure?]) h
  unfold Advance.beside
  split
  case h_1 e hr =>
    rw [hr] at hb
    exact hb
  case h_2 o hr =>
    rw [hr] at hb
    exact .behind hb ((hc _).map _)

variable [Behavior A C N]

theorem Step.tells_activate (s : Step A C N) (ctx : C) (generator : Generator) :
    (s.activate ctx generator).Tells := by
  obtain ⟨state, kind⟩ := s
  cases kind with
  | leaf action =>
    have ha := action.tells_enter ctx
    simp only [Step.activate]
    split
    case h_1 e hr =>
      rw [Hooked.Tells, hr] at ha
      exact ha
    case h_2 hr =>
      rw [Hooked.Tells, hr] at ha
      exact Trace.succeeds_append.mpr ⟨ha, Trace.succeeds_line _⟩
  | nested body => exact Trace.succeeds_line _
  | parallel group => exact Trace.succeeds_line _
  | branch branch =>
    have hs := branch.selector.tells_select branch.children.length ctx generator
    simp only [Step.activate]
    split
    case h_1 e hr =>
      rw [Selection.Tells, hr] at hs
      exact hs
    case h_2 chosen hr => exact hs.trace hr

theorem StepTick.tells_ofAction (entering : Bool) (dt : Float32) (action : Action A C N) (ctx : C)
    (generator : Generator) : (StepTick.ofAction entering dt action ctx generator).Tells := by
  have he : (if entering then action.enter ctx else ⟨[], action, ctx, .ok ()⟩ :
      Hooked A C N Unit).Tells := by
    cases entering with
    | true => exact action.tells_enter ctx
    | false => exact Trace.succeeds_nil
  simp only [StepTick.ofAction]
  split
  case h_1 e hr =>
    rw [Hooked.Tells, hr] at he
    exact he
  case h_2 hr =>
    rw [Hooked.Tells, hr] at he
    exact tells_ofDriven (.behind
      (Trace.succeeds_append.mpr ⟨he, Trace.succeeds_activation _ _⟩) (Action.tells_drive ..)) ..

theorem Sequence.tells_wrap (s : Sequence A C N) (ctx : C) : (s.wrap ctx).Tells := by
  have hlines (instant : Bool) (passes : Nat) : ((if instant then
      Trace.line (.instantLoop s.name) else []) ++
        Trace.line (.sequenceWrapped s.name passes) : Trace N).Succeeds := by
    cases instant <;> simp
  simp only [Sequence.wrap]
  split
  · exact hlines _ _
  · exact .behind (hlines _ _) ((Trace.Tells.under (Step.tells_activate ..) _).map _)

theorem Sequence.tells_finishPass (s : Sequence A C N) (ctx : C) : (s.finishPass ctx).Tells := by
  have hv := s.policy.tells_again s.progress.remaining ctx
  simp only [Sequence.finishPass]
  split
  case h_1 e ha =>
    simp only [ha] at hv
    exact hv
  case h_2 ha =>
    simp only [ha] at hv
    exact .behind hv (s.tells_wrap ctx)
  case h_3 ha =>
    simp only [ha] at hv
    exact Trace.succeeds_append.mpr ⟨hv, Trace.succeeds_line _⟩

theorem Sequence.tells_runBody (s : Sequence A C N) (ctx : C) {run : C → Generator → Cascade A C N}
    (h : (run ctx s.generator).Tells) : (s.runBody ctx run).Tells := by
  simp only [Sequence.runBody]
  split
  case h_1 hr =>
    rw [Cascade.Tells, hr] at h
    exact .behind h (Sequence.tells_finishPass ..)
  case h_2 hr =>
    rw [Cascade.Tells, hr] at h
    exact h
  case h_3 e hr =>
    rw [Cascade.Tells, hr] at h
    exact h

theorem Sequence.tells_body (fresh : Bool) (s : Sequence A C N) (ctx : C)
    {run : C → Generator → Cascade A C N} (h : (run ctx s.generator).Tells) :
    (s.body fresh ctx run).Tells := by
  unfold Sequence.body
  split
  · exact .behind (Trace.succeeds_line _) (Sequence.tells_runBody _ ctx h)
  · split
    · exact Trace.succeeds_nil
    · exact s.tells_runBody ctx h

end Parts

section Ticks

variable [Behavior A C N]

mutual

theorem StepKind.tells_tick (entering : Bool) (dt : Float32) (kind : StepKind A C N) (ctx : C)
    (generator : Generator) : (StepKind.tick entering dt kind ctx generator).Tells := by
  cases kind with
  | leaf action => exact StepTick.tells_ofAction entering dt action ctx generator
  | nested body =>
    exact StepTick.tells_ofBody entering generator (Sequence.tells_advanceFrom entering dt body ctx)
  | parallel group =>
    obtain ⟨completion, members⟩ := group
    exact StepTick.tells_ofRound entering generator completion
      (tells_advanceAll entering dt .member 0 members ctx)
  | branch branch =>
    obtain ⟨selector, children, chosen⟩ := branch
    exact StepTick.tells_ofBranch entering ⟨selector, children, chosen⟩
      (tells_tickChild entering dt children) ctx generator
termination_by structural kind

theorem Step.tells_tick (fresh : Bool) (dt : Float32) (s : Step A C N) (ctx : C)
    (generator : Generator) : (Step.tick fresh dt s ctx generator).Tells := by
  obtain ⟨state, kind⟩ := s
  simp only [Step.tick]
  split
  · exact (StepKind.tells_tick true dt kind ctx generator).marked
  · exact (StepKind.tells_tick false dt kind ctx generator).marked
  · exact StepTick.Tells.marked Trace.succeeds_nil
termination_by structural s

theorem tells_tickChild (fresh : Bool) (dt : Float32) (children : List (Step A C N)) (index : Nat)
    (ctx : C) (generator : Generator) :
    (tickChild fresh dt children index ctx generator).Tells := by
  match children, index with
  | [], _ => exact Trace.succeeds_nil
  | step :: rest, 0 => exact Step.tells_tick fresh dt step ctx generator
  | step :: rest, index + 1 => exact tells_tickChild fresh dt rest index ctx generator
termination_by structural children

theorem tells_cascade (fresh : Bool) (dt : Float32) (index : Nat) (steps : List (Step A C N))
    (skip : Nat) (ctx : C) (generator : Generator) :
    (cascade fresh dt index steps skip ctx generator).Tells := by
  match steps, skip with
  | [], _ => exact Trace.succeeds_nil
  | step :: rest, 0 =>
    exact StepTick.tells_andThen index (Step.tells_tick fresh dt step ctx generator) _
      (tells_cascade fresh dt (index + 1) rest 0)
  | step :: rest, skip + 1 => exact tells_cascade fresh dt (index + 1) rest skip ctx generator
termination_by structural steps

theorem Sequence.tells_advanceFrom (restart : Bool) (dt : Float32) (s : Sequence A C N) (ctx : C) :
    (s.advanceFrom restart dt ctx).Tells := by
  obtain ⟨id, name, steps, policy, companions, generator, warns, warned, progress⟩ := s
  rw [Sequence.advanceFrom]
  exact .beside (Sequence.tells_body _ _ ctx (tells_cascade _ dt 0 steps _ ctx _))
    (tells_advanceAll _ dt .companion 0 companions)
termination_by structural s

theorem tells_advanceAll (fresh : Bool) (dt : Float32) (hop : Nat → Hop) (index : Nat)
    (members : List (Sequence A C N)) (ctx : C) :
    (advanceAll fresh dt hop index members ctx).Tells := by
  match members with
  | [] => exact Trace.succeeds_nil
  | member :: rest =>
    exact Advance.tells_andThen (hop index) (Sequence.tells_advanceFrom fresh dt member ctx) _
      (tells_advanceAll fresh dt hop (index + 1) rest)
termination_by structural members

end

theorem Sequence.succeeds_of_ok {s : Sequence A C N} {dt : Float32} {ctx : C} {outcome : Outcome}
    (h : (s.advance dt ctx).result = .ok outcome) : (s.advance dt ctx).trace.Succeeds := by
  have htells : (s.advance dt ctx).Tells := s.tells_advanceFrom false dt ctx
  rwa [Advance.Tells, h] at htells

/-- A tick fails if and only if some hook or condition that it comes to does. Then that is the only
one that fails and the last thing that happens in the tick, and the error is the result. -/
theorem Sequence.error_iff_failsWith (s : Sequence A C N) (dt : Float32) (ctx : C) :
    ((∃ e, (s.advance dt ctx).result = .error e) ↔
        ∃ entry ∈ (s.advance dt ctx).trace, entry.event.failure? ≠ none) ∧
      ∀ e, (s.advance dt ctx).result = .error e ↔ (s.advance dt ctx).trace.FailsWith e := by
  have h : (s.advance dt ctx).Tells := s.tells_advanceFrom false dt ctx
  exact ⟨h.exists_error_iff, h.error_iff⟩

end Ticks

end Sequencer

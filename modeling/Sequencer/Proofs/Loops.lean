import Sequencer.Proofs.CountedPasses
import Sequencer.Proofs.Replays
import Sequencer.Proofs.Splicing

/-!
# Loops with a step of their own kind at the end

The contracts of all steps but the last say what the context is like when a loop gets to its end.
What the last step does there is no matter of contracts: it may fail, or one may want to know more
about it. A tick of such a loop either stops before the last step or ticks it, in a context that
the contracts describe.
-/

namespace Sequencer

open Contract

variable {A C N : Type} [Behavior A C N] {R : C → C → Prop} {gives : C → Prop}
  {c : Contract A C N} {cs : List (Contract A C N)} {front : List (Step A C N)} {last : Step A C N}
  {s : Sequence A C N} {ctx : C}

/-- What a cascade of a loop comes to, in the context `ctx`, if the contracts of all steps but the
last are kept. The cascade through these steps alone is `k`. -/
inductive Sequence.WalksTo (R : C → C → Prop) (gives : C → Prop) (cs : List (Contract A C N))
    (last : Step A C N) (dt : Float32) (ctx : C) (k : Cascade A C N) :
    Cascade A C N → Prop
  | stopped (result : k.result = .ok false) (effect : R ctx k.context)
      (course : Course gives k.context cs k.steps k.cursor) :
      WalksTo R gives cs last dt ctx k { k with steps := k.steps ++ [last] }
  | passed (effect : R ctx k.context) (course : Course gives k.context cs k.steps cs.length)
      {t : StepTick A C N} (tick : t = Step.tick false dt last k.context k.generator) :
      WalksTo R gives cs last dt ctx k
        ⟨k.trace ++ t.trace.under (.step cs.length), t.context, t.generator, k.steps ++ [t.step],
          cs.length + if t.result = .ok true then 1 else 0, t.result⟩

namespace Sequence

theorem walk_of_front (hsteps : s.steps = front ++ [last]) (hcursor : s.cursor = front.length)
    (dt : Float32) (ctx : C) :
    s.walk dt ctx =
      let t := Step.tick false dt last ctx s.generator
      ⟨t.trace.under (.step front.length), t.context, t.generator, front ++ [t.step],
        front.length + if t.result = .ok true then 1 else 0, t.result⟩ := by
  have hpassed := cascade_of_length dt front 0 ctx s.generator
  have hwalk := cascade_concat_of_ok (Nat.le_refl _) (by rw [hpassed]) last
  rw [hpassed] at hwalk
  rw [walk, hsteps, hcursor, hwalk]
  simp

/-- A cascade of a loop stops before its last step, or gets there as the contracts say. -/
theorem walksTo_walk (hsteps : s.steps = front ++ [last])
    (hcourse : Course gives ctx cs front s.cursor) (hR : IsEffect R) (hkept : ∀ c ∈ cs, c.Kept R)
    (hfit : Fit gives cs) (dt : Float32) :
    WalksTo R gives cs last dt ctx (cascade false dt 0 front s.cursor ctx s.generator)
      (s.walk dt ctx) := by
  have hlength : cs.length = front.length := (hcourse.allHold hkept).length_eq
  obtain ⟨heffect, place, hplace, hcourse', hresult⟩ :=
    hcourse.cascade hR hkept hfit dt 0 s.generator
  rw [Nat.zero_add] at hplace
  rcases hresult with hr | ⟨hr, rfl⟩
  · have hwalk := cascade_append hcourse.le_length dt 0 [last] ctx s.generator
    rw [Cascade.andThen_of_ne (by simp [hr]), ← hsteps] at hwalk
    rw [walk, hwalk]
    exact .stopped hr heffect (hplace ▸ hcourse')
  · have hwalk := cascade_concat_of_ok hcourse.le_length hr last
    rw [← hsteps, Nat.zero_add, ← hlength] at hwalk
    rw [walk, hwalk]
    exact .passed heffect hcourse' rfl

theorem exists_wrap_concat (gives : C → Prop) (hsteps : s.steps = front ++ [last])
    (hfront : AllHold (c :: cs) front) (hkept : c.Kept R) (hneeds : c.needs ctx) :
    let t := s.wrap ctx
    t.result = .ok .running ∧ R ctx t.context ∧
      (∀ M, (∀ event ctx, M ⟨[], event⟩ ctx ctx) → c.Tells (behind (.step 0) M) →
        Replays M ctx t.trace t.context) ∧
      ∃ front' generator, Course gives t.context (c :: cs) front' 0 ∧
        t.sequence = { s.rewound with steps := front' ++ [last.reset], generator } := by
  cases hfront with
  | @cons _ first _ rest hfirst hrest =>
    obtain ⟨hr, heffect, hb⟩ := hkept.enter hfirst hneeds s.generator
    have hactive := Step.state_activate_of_ok _ hr
    have hcourse : Course gives ((Step.ofKind first.kind).activate ctx s.generator).context
        (c :: cs) (((Step.ofKind first.kind).activate ctx s.generator).step :: rest.map Step.reset)
        0 := .here (.inr ⟨hactive, hb⟩) (AllHold.reset hrest)
    rw [wrap_of_cons hsteps]
    refine ⟨congrArg (Except.map fun () => Outcome.running) hr, heffect, ?replays, _,
      ((Step.ofKind first.kind).activate ctx s.generator).generator, hcourse, ?next⟩
    case replays =>
      intro M hM htells
      refine .append (.still ?_) (htells.enter hfirst hneeds s.generator).under
      rintro ⟨path, event⟩ he
      obtain rfl : path = [] := (mem_wrapLines he).1
      exact hM event ctx
    case next => simp [Step.reset, Step.ofKind]

/-- A tick that gets behind the last step of an endless loop ends the pass and begins another. -/
theorem exists_resume_of_last (gives : C → Prop) (hs : s.status = .running)
    (hpolicy : s.policy = .forever) {dt : Float32} {k : Cascade A C N} (hwalk : s.walk dt ctx = k)
    (hr : k.result = .ok true) (hsteps : k.steps = front ++ [last])
    (hfront : AllHold (c :: cs) front) (hkept : c.Kept R) (hneeds : c.needs k.context) :
    let t := s.resume dt ctx
    t.result = .ok .running ∧ R k.context t.context ∧
      (∃ entering, t.trace = k.trace ++ entering ∧ entering.passesEnded = 1 ∧
        ∀ M, (∀ event ctx, M ⟨[], event⟩ ctx ctx) → c.Tells (behind (.step 0) M) →
          Replays M k.context entering t.context) ∧
      ∃ front' generator, Course gives t.context (c :: cs) front' 0 ∧ t.sequence =
        { (s.stopped k).rewound with steps := front' ++ [last.reset], generator } := by
  subst hwalk
  have hc : s.status ≠ .complete := hs ▸ Status.noConfusion
  have hverdict : (s.stopped (s.walk dt ctx)).verdict (s.walk dt ctx).context = ⟨[], .ok true⟩ := by
    change s.policy.again _ _ = _
    rw [hpolicy]
    rfl
  have hsteps' : (s.stopped (s.walk dt ctx)).steps = front ++ [last] := hsteps
  obtain ⟨hresult, heffect, hreplays, hnext⟩ :=
    exists_wrap_concat gives hsteps' hfront hkept hneeds
  rw [resume_of_passed hc hr, finishPass_of_again (by rw [hverdict]), hverdict]
  exact ⟨hresult, heffect, ⟨_, rfl, passesEnded_wrap _ _, hreplays⟩, hnext⟩

end Sequence

/-- Whether a sequence is on its course through an endless loop. The contracts say where its first
steps stand, and the last one is as `IsLast` says. All that its companions do is within `Q`. -/
structure Sequence.Loops (Q : C → C → Prop) (gives : C → Prop) (cs : List (Contract A C N))
    (IsLast : Step A C N → Prop) (s : Sequence A C N) (ctx : C) : Prop where
  policy : s.policy = .forever
  companions : ∀ c ∈ s.companions, c.Harmless Q
  status : s.status ≠ .complete
  stage : ∃ front last, s.begun.steps = front ++ [last] ∧
    Course gives ctx cs front s.begun.cursor ∧ IsLast last

namespace Sequence.Loops

variable {Q : C → C → Prop} {IsLast : Step A C N → Prop}

theorem of_running (hs : s.status = .running) (hpolicy : s.policy = .forever)
    (hcompanions : ∀ c ∈ s.companions, c.Harmless Q) (hsteps : s.steps = front ++ [last])
    (hcourse : Course gives ctx cs front s.cursor) (hlast : IsLast last) :
    s.Loops Q gives cs IsLast ctx := by
  have hbegun : s.begun = s := begun_of_ne (hs ▸ Status.noConfusion)
  refine ⟨hpolicy, hcompanions, hs ▸ Status.noConfusion, front, last, ?_, ?_, hlast⟩
  · rwa [hbegun]
  · rwa [hbegun]

theorem of_notStarted (hs : s.status = .notStarted) (hpolicy : s.policy = .forever)
    (hcompanions : ∀ c ∈ s.companions, c.Harmless Q) (hsteps : s.steps = front ++ [last])
    (hfront : AllHold cs front) (hentry : entry gives cs ctx) (hlast : IsLast last.reset) :
    s.Loops Q gives cs IsLast ctx := by
  refine ⟨hpolicy, hcompanions, hs ▸ Status.noConfusion, front.map Step.reset, last.reset, ?_, ?_,
    hlast⟩
  · simp [Sequence.begun, hs, hsteps]
  · have hstart := Course.start hfront.reset hentry
    simpa [Sequence.begun, hs, Sequence.cursor, Progress.initial] using hstart

theorem stage_of_running (h : s.Loops Q gives cs IsLast ctx) (hs : s.status = .running) :
    ∃ front last, s.steps = front ++ [last] ∧ Course gives ctx cs front s.cursor ∧ IsLast last := by
  have hstage := h.stage
  rwa [begun_of_ne (hs ▸ Status.noConfusion)] at hstage

theorem begun (h : s.Loops Q gives cs IsLast ctx) :
    s.begun.Loops Q gives cs IsLast ctx ∧ s.begun.status = .running := by
  obtain ⟨front, last, hsteps, hcourse, hlast⟩ := h.stage
  have hs : s.begun.status = .running := status_begun h.status
  have hcompanions := harmless_companions_begun h.companions
  exact ⟨of_running hs (s.policy_begun.trans h.policy) hcompanions hsteps hcourse hlast, hs⟩

theorem withCompanions (h : s.Loops Q gives cs IsLast ctx) (hs : s.status ≠ .notStarted)
    {companions : List (Sequence A C N)} (hcompanions : ∀ c ∈ companions, c.Harmless Q) :
    Loops Q gives cs IsLast { s with companions } ctx := by
  have hrunning : s.status = .running := begun_of_ne hs ▸ status_begun h.status
  obtain ⟨front, last, hsteps, hcourse, hlast⟩ := h.stage_of_running hrunning
  exact of_running hrunning h.policy hcompanions hsteps hcourse hlast

theorem of_survives {S : C → C → Prop} {ctx' : C} (h : s.Loops Q gives cs IsLast ctx)
    (hsurvives : ∀ c ∈ cs, c.Survives S) (hgives : gives ctx → gives ctx') (hS : S ctx ctx') :
    s.Loops Q gives cs IsLast ctx' := by
  obtain ⟨front, last, hsteps, hcourse, hlast⟩ := h.stage
  exact ⟨h.policy, h.companions, h.status, front, last, hsteps,
    hcourse.of_survives hsurvives hgives hS, hlast⟩

end Sequence.Loops

end Sequencer

import Sequencer.Proofs.Failures
import Sequencer.Proofs.TickDiscipline

/-!
# Where a failure leaves a sequence

The body of a sequence fails in a step, in the condition at the end of a pass, or when the first
step is entered for another pass. The last event of the tick tells which it was, and what is left of
the sequence is the same whatever has failed there: nothing is lost and nothing counted twice, and
the next tick begins with what failed.
-/

namespace Sequencer

variable {A C N : Type}

/-- Whether an event says that a step could not be entered. -/
def Event.refusesEntry : Event N → Bool
  | .started (.error _) | .guarded _ (.error _) => true
  | _ => false

/-- The state that a failure leaves a step in, by the last entry of a tick of the step. -/
def Entry.stateLeft (last : Entry N) : StepState :=
  if last.path = [] ∧ last.event.refusesEntry = true then .notStarted else .active

theorem Entry.stateLeft_of_path_ne {last : Entry N} (h : last.path ≠ []) :
    last.stateLeft = .active :=
  if_neg fun hl => h hl.1

theorem Trace.FailsWith.getLast? {t : Trace N} {e : TickError} (h : t.FailsWith e) :
    ∃ last, List.getLast? t = some last ∧ last.event.failure? = some e := by
  obtain ⟨earlier, last, rfl, hlast⟩ := h.exists_last
  exact ⟨last, by simp, hlast⟩

theorem Trace.getLast?_append_of_some {t u : Trace N} {last : Entry N}
    (h : List.getLast? u = some last) : List.getLast? (t ++ u) = some last := by
  simp [List.getLast?_append, h]

theorem Trace.getLast?_under {t : Trace N} {last : Entry N} (h : List.getLast? t = some last)
    (hop : Hop) : List.getLast? (t.under hop) = some ⟨hop :: last.path, last.event⟩ := by
  simp [Trace.under, h]

theorem Trace.getLast?_here {events : List (Event N)} {event : Event N}
    (h : events.getLast? = some event) : List.getLast? (Trace.here events) = some ⟨[], event⟩ := by
  simp [Trace.here, h]

/-- The guards of a branch are evaluated up to the first that fails. -/
theorem getLast?_firstHolding {ctx : C} {generator : Generator} {otherwise : Option Nat}
    {index : Nat} {guards : List (Condition C N)} {e : TickError}
    (h : (firstHolding ctx generator otherwise index guards).result = .error e) :
    ∃ arm, (firstHolding ctx generator otherwise index guards).events.getLast? =
      some (.guarded arm (.error e)) := by
  induction guards generalizing index with
  | nil => cases h
  | cons guard rest ih =>
    simp only [firstHolding] at h ⊢
    split at h
    case h_1 e' ha =>
      obtain rfl : e' = e := Except.error.inj h
      exact ⟨index, by simp [ha]⟩
    case h_2 => cases h
    case h_3 ha =>
      obtain ⟨arm, hl⟩ := ih h
      refine ⟨arm, ?_⟩
      simp only [ha]
      rw [List.getLast?_append, hl]
      rfl

section Steps

variable [Behavior A C N]

namespace Action

theorem getLast?_start (a : Action A C N) (ctx : C) :
    (a.start ctx).events.getLast? = some (.started (a.start ctx).result) := by
  cases a <;> simp [start]

theorem getLast?_update (a : Action A C N) (dt : Float32) (ctx : C) :
    (a.update dt ctx).events.getLast? = some (.updated (a.update dt ctx).result) := by
  cases a with
  | callback c =>
    simp only [update]
    split <;> simp
  | _ => simp [update]

theorem getLast?_check (a : Action A C N) (ctx : C) :
    (a.check ctx).events.getLast? = some (.checked (a.check ctx).result) := by
  cases a <;> simp [check]

theorem getLast?_finish (a : Action A C N) (ctx : C) :
    (a.finish ctx).events.getLast? = some (.ended (a.finish ctx).result) := by
  cases a <;> simp [finish]

theorem exists_getLast?_drive (a : Action A C N) (dt : Float32) (ctx : C) :
    ∃ event, (a.drive dt ctx).events.getLast? = some event ∧ event.refusesEntry = false := by
  simp only [drive]
  split
  case h_1 => exact ⟨_, getLast?_update a dt ctx, rfl⟩
  case h_2 =>
    split
    case h_1 | h_2 => exact ⟨_, by rw [List.getLast?_append, getLast?_check]; rfl, rfl⟩
    case h_3 => exact ⟨_, by rw [List.getLast?_append, getLast?_finish]; rfl, rfl⟩

end Action

theorem Step.getLast?_activate {s : Step A C N} {ctx : C} {generator : Generator} {e : TickError}
    (h : (s.activate ctx generator).result = .error e) :
    ∃ event, List.getLast? (s.activate ctx generator).trace = some ⟨[], event⟩ ∧
      event.failure? = some e ∧ event.refusesEntry = true := by
  obtain ⟨state, kind⟩ := s
  cases kind with
  | leaf action =>
    simp only [Step.activate] at h ⊢
    split at h
    case h_1 e' hr =>
      obtain rfl : e' = e := Except.error.inj h
      have hs : (action.reload.2.start ctx).result = .error e' := hr
      have hl := action.reload.2.getLast?_start ctx
      rw [hs] at hl
      exact ⟨.started (.error e'), Trace.getLast?_here (by simp [Action.enter, hl]), rfl, rfl⟩
    case h_2 => cases h
  | nested body => cases h
  | parallel group => cases h
  | branch branch =>
    simp only [Step.activate] at h ⊢
    split at h
    case h_1 e' hr =>
      obtain rfl : e' = e := Except.error.inj h
      cases hsel : branch.selector with
      | guarded guards fallback =>
        rw [hsel] at hr
        obtain ⟨arm, hl⟩ := getLast?_firstHolding hr
        exact ⟨.guarded arm (.error e'), Trace.getLast?_here hl, rfl, rfl⟩
      | uniform | weighted | chance =>
        rw [hsel] at hr
        cases hr
    case h_2 => cases h

/-- Driving a step ends with a hook of its action, or inside the step. -/
theorem StepKind.exists_ofDriven_tick (kind : StepKind A C N) (dt : Float32) (ctx : C)
    (generator : Generator) :
    ∃ shape trace ctx' generator' kind' result,
      StepKind.tick false dt kind ctx generator =
        .ofDriven shape trace ctx' generator' kind' result ∧
      ∀ last, List.getLast? trace = some last → last.stateLeft = .active := by
  have inside {hop : Hop} {t : Trace N} {last : Entry N}
      (h : List.getLast? (t.under hop) = some last) : last.stateLeft = .active := by
    obtain ⟨inner, -, rfl⟩ := List.mem_map.mp (List.mem_of_getLast? h)
    exact Entry.stateLeft_of_path_ne (List.cons_ne_nil _ _)
  match kind with
  | .leaf action =>
    obtain ⟨event, hl, hentry⟩ := action.exists_getLast?_drive dt ctx
    refine ⟨_, Trace.here (action.drive dt ctx).events, _, _, _, _, rfl, ?_⟩
    intro last hlast
    obtain rfl := Option.some.inj ((Trace.getLast?_here hl).symm.trans hlast)
    simp [Entry.stateLeft, hentry]
  | .nested body => exact ⟨_, _, _, _, _, _, rfl, fun _ => inside⟩
  | .parallel ⟨completion, members⟩ =>
    refine ⟨_, _, _, _, _, _, rfl, ?_⟩
    intro last hlast
    obtain ⟨k, place, hp⟩ := exists_hop_of_mem_advanceAll dt .member members 0 ctx last
      (List.mem_of_getLast? hlast)
    exact Entry.stateLeft_of_path_ne (hp ▸ List.cons_ne_nil _ _)
  | .branch ⟨selector, children, none⟩ =>
    refine ⟨.branch, [], ctx, generator, .branch ⟨selector, children, none⟩, .ok true, rfl, ?_⟩
    intro last hlast
    cases hlast
  | .branch ⟨selector, children, some index⟩ => exact ⟨_, _, _, _, _, _, rfl, fun _ => inside⟩

theorem StepKind.getLast?_tick {kind : StepKind A C N} {dt : Float32} {ctx : C}
    {generator : Generator} {e : TickError}
    (h : (StepKind.tick false dt kind ctx generator).result = .error e) :
    ∃ last, List.getLast? (StepKind.tick false dt kind ctx generator).trace = some last ∧
      last.event.failure? = some e ∧
      (StepKind.tick false dt kind ctx generator).step.state = last.stateLeft := by
  have ht := StepKind.tells_tick false dt kind ctx generator
  rw [StepTick.Tells, h] at ht
  obtain ⟨last, hl, hf⟩ := ht.getLast?
  obtain ⟨shape, trace, ctx', generator', kind', result, htick, hleft⟩ :=
    kind.exists_ofDriven_tick dt ctx generator
  rw [htick] at h hl ⊢
  rw [StepTick.result_ofDriven] at h
  subst h
  exact ⟨last, hl, hf, (hleft last hl).symm⟩

/-- The last event of a step that fails tells the state in which it is left. -/
theorem Step.getLast?_tick {s : Step A C N} {dt : Float32} {ctx : C} {generator : Generator}
    {e : TickError} (h : (Step.tick false dt s ctx generator).result = .error e) :
    ∃ last, List.getLast? (Step.tick false dt s ctx generator).trace = some last ∧
      last.event.failure? = some e ∧
      (Step.tick false dt s ctx generator).step.state = last.stateLeft := by
  match hs : s.state with
  | .complete =>
    rw [Step.tick_of_complete hs] at h
    cases h
  | .active =>
    rw [Step.tick_of_active hs] at h ⊢
    obtain ⟨last, hl, hf, hleft⟩ := StepKind.getLast?_tick h
    exact ⟨last, Trace.getLast?_append_of_some (t := [_]) hl, hf, hleft⟩
  | .notStarted =>
    match hr : (s.activate ctx generator).result with
    | .error e' =>
      rw [Step.tick_of_entry_error hs hr] at h ⊢
      obtain rfl : e' = e := Except.error.inj h
      obtain ⟨event, hl, hf, hentry⟩ := Step.getLast?_activate hr
      refine ⟨_, Trace.getLast?_append_of_some (t := [_]) hl, hf, ?_⟩
      exact (s.state_activate_of_error hr).trans (hs.trans (if_pos ⟨rfl, hentry⟩).symm)
    | .ok () =>
      rw [Step.tick_of_entry hs hr] at h ⊢
      obtain ⟨last, hl, hf, hleft⟩ := StepKind.getLast?_tick h
      exact ⟨last, Trace.getLast?_append_of_some (t := _ :: _) hl, hf, hleft⟩

theorem cascade_of_error {dt : Float32} {steps : List (Step A C N)} {index skip : Nat} {ctx : C}
    {generator : Generator} {e : TickError}
    (h : (cascade false dt index steps skip ctx generator).result = .error e) :
    let k := cascade false dt index steps skip ctx generator
    ∃ place step ctx' generator' earlier,
      let t := Step.tick false dt step ctx' generator'
      k.cursor = index + place ∧ t.result = .error e ∧ k.steps[place]? = some t.step ∧
        k.trace = earlier ++ t.trace.under (.step (index + place)) := by
  induction steps generalizing index skip ctx generator with
  | nil => cases h
  | cons first rest ih =>
    cases skip with
    | zero =>
      rw [cascade_cons_zero] at h ⊢
      match hr : (Step.tick false dt first ctx generator).result with
      | .error e' =>
        simp only [StepTick.andThen, hr] at h ⊢
        exact ⟨0, first, ctx, generator, [], rfl, hr.trans h, rfl, rfl⟩
      | .ok false =>
        simp only [StepTick.andThen, hr] at h
        cases h
      | .ok true =>
        simp only [StepTick.andThen, hr] at h ⊢
        obtain ⟨place, step, ctx', generator', earlier, hc, ht, hstep, htrace⟩ := ih h
        rw [Nat.add_right_comm] at hc htrace
        refine ⟨place + 1, step, ctx', generator',
          (Step.tick false dt first ctx generator).trace.under (.step index) ++ earlier, hc, ht,
          by simpa using hstep, ?_⟩
        rw [htrace, List.append_assoc]
        rfl
    | succ skip =>
      rw [cascade_cons_succ] at h ⊢
      obtain ⟨place, step, ctx', generator', earlier, hc, ht, hstep, htrace⟩ := ih h
      rw [Nat.add_right_comm] at hc htrace
      exact ⟨place + 1, step, ctx', generator', earlier, hc, ht,
        by simpa [Cascade.behind] using hstep, htrace⟩

/-! ### Going on -/

/-- What a tick of a step begins with: the step is entered if it is not, and else driven. -/
def Step.resumption (s : Step A C N) (dt : Float32) (ctx : C) (generator : Generator) : Trace N :=
  match s.state with
  | .notStarted => (s.activate ctx generator).trace
  | .active => (StepKind.tick false dt s.kind ctx generator).trace
  | .complete => []

theorem Step.exists_later_tick (s : Step A C N) (dt : Float32) (ctx : C) (generator : Generator) :
    ∃ later, (Step.tick false dt s ctx generator).trace =
      ⟨[], .ticked⟩ :: (s.resumption dt ctx generator ++ later) := by
  unfold Step.resumption
  match hs : s.state with
  | .complete =>
    rw [Step.tick_of_complete hs]
    exact ⟨[], rfl⟩
  | .active =>
    rw [Step.tick_of_active hs]
    exact ⟨[], by simp⟩
  | .notStarted =>
    match hr : (s.activate ctx generator).result with
    | .error e =>
      rw [Step.tick_of_entry_error hs hr]
      exact ⟨[], by simp⟩
    | .ok () =>
      rw [Step.tick_of_entry hs hr]
      exact ⟨_, rfl⟩

theorem exists_later_cascade {steps : List (Step A C N)} {skip : Nat} {step : Step A C N}
    (h : steps[skip]? = some step) (dt : Float32) (index : Nat) (ctx : C)
    (generator : Generator) :
    ∃ later, (cascade false dt index steps skip ctx generator).trace =
      (Step.tick false dt step ctx generator).trace.under (.step (index + skip)) ++ later := by
  induction steps generalizing index skip with
  | nil => simp at h
  | cons first rest ih =>
    cases skip with
    | zero =>
      obtain rfl : first = step := by simpa using h
      rw [cascade_cons_zero, StepTick.andThen]
      split
      · exact ⟨_, rfl⟩
      · exact ⟨[], (List.append_nil _).symm⟩
      · exact ⟨[], (List.append_nil _).symm⟩
    | succ skip =>
      obtain ⟨later, hl⟩ := ih (by simpa using h) (index + 1)
      rw [Nat.add_right_comm] at hl
      exact ⟨later, hl⟩

namespace Sequence

/-- Whether the next tick, whatever its context, begins with the step at an index. -/
def ResumesAt (s : Sequence A C N) (index : Nat) : Prop :=
  ∃ step, s.steps[index]? = some step ∧ step.state ≠ .complete ∧
    ∀ (dt : Float32) (ctx : C), ∃ later, (s.advance dt ctx).trace =
      ⟨[], .ticked⟩ ::
        (Trace.under (.step index) (⟨[], .ticked⟩ :: step.resumption dt ctx s.generator) ++ later)

/-- Whether the next tick, whatever its context, begins with the condition at the end of the pass
and ticks no step. -/
def ResumesAtEnd (s : Sequence A C N) : Prop :=
  ∃ condition, s.policy = .untilHolds condition ∧ ∀ (dt : Float32) (ctx : C),
    (s.advance dt ctx).trace.stepsTicked = [] ∧
    let verdict := condition.evaluate ctx
    ∃ later, (s.advance dt ctx).trace =
      ⟨[], .ticked⟩ :: (Trace.here (verdict.events ++ [.repeatChecked verdict.answer]) ++ later)

theorem exists_later_advance {s : Sequence A C N} (hs : s.status = .running) (dt : Float32)
    (ctx : C) : ∃ later, (s.advance dt ctx).trace =
      ⟨[], .ticked⟩ :: ((s.resume dt ctx).trace ++ later) := by
  have hne : s.status ≠ .notStarted := hs ▸ Status.noConfusion
  obtain ⟨beside, -, ht, -⟩ := s.exists_beside dt ctx
  have hopening : s.opening = [] := if_neg hne
  exact ⟨beside, by simp only [ht, begun_of_ne hne, hopening, List.nil_append]⟩

theorem resumesAt_cursor {s : Sequence A C N} (hs : s.status = .running) {step : Step A C N}
    (h : s.steps[s.cursor]? = some step) (hstep : step.state ≠ .complete) :
    s.ResumesAt s.cursor := by
  refine ⟨step, h, hstep, ?_⟩
  intro dt ctx
  obtain ⟨beside, ht⟩ := exists_later_advance hs dt ctx
  obtain ⟨tail, htail, -⟩ := s.exists_tail_of_resume dt ctx (hs ▸ Status.noConfusion)
  obtain ⟨rest, hrest⟩ := exists_later_cascade h dt 0 ctx s.generator
  obtain ⟨driven, hdriven⟩ := step.exists_later_tick dt ctx s.generator
  rw [Nat.zero_add, hdriven] at hrest
  refine ⟨driven.under (.step s.cursor) ++ rest ++ tail ++ beside, ?_⟩
  rw [ht, htail, walk, hrest]
  simp [Trace.under]

theorem resumesAtEnd_of_cursor {s : Sequence A C N} (hs : s.status = .running)
    (hc : s.cursor = s.size) {condition : Condition C N} (hp : s.policy = .untilHolds condition) :
    s.ResumesAtEnd := by
  have hnc : s.status ≠ .complete := hs ▸ Status.noConfusion
  refine ⟨condition, hp, ?_⟩
  intro dt ctx
  have hwalk : s.walk dt ctx = ⟨[], ctx, s.generator, s.steps, 0 + s.size, .ok true⟩ := by
    rw [walk, hc]
    exact cascade_of_length dt s.steps 0 ctx s.generator
  constructor
  · rw [stepsTicked_advance hnc, begun_of_ne (hs ▸ Status.noConfusion), hwalk]
    rfl
  · obtain ⟨beside, ht⟩ := exists_later_advance hs dt ctx
    have hverdict : (s.stopped (s.walk dt ctx)).verdict ctx =
        (Policy.untilHolds condition).again s.progress.remaining ctx := by
      rw [verdict, ← hp]
      rfl
    have hend : ∃ later, ((s.stopped (s.walk dt ctx)).finishPass ctx).trace =
        Trace.here ((s.stopped (s.walk dt ctx)).verdict ctx).events ++ later := by
      cases ha : ((s.stopped (s.walk dt ctx)).verdict ctx).answer with
      | error e =>
        rw [finishPass_of_error ha]
        exact ⟨[], (List.append_nil _).symm⟩
      | ok again =>
        cases again with
        | true =>
          rw [finishPass_of_again ha]
          exact ⟨_, rfl⟩
        | false =>
          rw [finishPass_of_over ha]
          exact ⟨_, rfl⟩
    obtain ⟨later, hlater⟩ := hend
    rw [resume_of_passed hnc (by rw [hwalk])] at ht
    have hctx : (s.walk dt ctx).context = ctx := by rw [hwalk]
    have htrace : (s.walk dt ctx).trace = [] := by rw [hwalk]
    refine ⟨later ++ beside, ?_⟩
    rw [ht, hctx, htrace, Advance.after, hlater, hverdict]
    simp [Policy.again]

end Sequence

/-! ### What a failure leaves -/

/-- Where the body of a sequence can fail. -/
inductive FailurePoint
  | step (index : Nat)
  | passEnd
  | reentry

namespace Sequence

/-- Whether a tick fails in the body: it fails, and the last event is not one of a companion. -/
def BodyFails (s : Sequence A C N) (dt : Float32) (ctx : C) (e : TickError) : Prop :=
  (s.advance dt ctx).result = .error e ∧
    ∀ last, List.getLast? (s.advance dt ctx).trace = some last →
      ∀ index place, last.path ≠ .companion index :: place

/-- The body fails in the step at an index. The counts are those of `s.begun`: what they were when
the tick began, or new ones if the tick starts the sequence. -/
structure FailsInStep (s : Sequence A C N) (dt : Float32) (ctx : C) (e : TickError)
    (index : Nat) : Prop where
  /-- The last event shows the state in which the step is left. -/
  latest : ∃ place event,
    List.getLast? (s.advance dt ctx).trace = some ⟨.step index :: place, event⟩ ∧
      event.failure? = some e ∧
      (s.advance dt ctx).sequence.stepState? index = some (Entry.stateLeft ⟨place, event⟩)
  passGoesOn : .passEnd ∉ (s.advance dt ctx).trace.marks []
  status : (s.advance dt ctx).sequence.status = .running
  cursor : (s.advance dt ctx).sequence.cursor = index
  earlier : ∀ i < index, (s.advance dt ctx).sequence.stepState? i = some .complete
  passes : (s.advance dt ctx).sequence.passes = s.begun.passes
  remaining : (s.advance dt ctx).sequence.progress.remaining = s.begun.progress.remaining
  resumes : (s.advance dt ctx).sequence.ResumesAt index

/-- The body fails in the condition at the end of a pass. -/
structure FailsAtEnd (s : Sequence A C N) (dt : Float32) (ctx : C) (e : TickError) : Prop where
  latest : List.getLast? (s.advance dt ctx).trace = some ⟨[], .repeatChecked (.error e)⟩
  status : (s.advance dt ctx).sequence.status = .running
  cursor : (s.advance dt ctx).sequence.cursor = s.size
  steps : ∀ i < s.size, (s.advance dt ctx).sequence.stepState? i = some .complete
  passes : (s.advance dt ctx).sequence.passes = s.begun.passes
  remaining : (s.advance dt ctx).sequence.progress.remaining = s.begun.progress.remaining
  resumes : (s.advance dt ctx).sequence.ResumesAtEnd

/-- The body fails when the first step is entered for another pass. -/
structure FailsInReentry (s : Sequence A C N) (dt : Float32) (ctx : C) (e : TickError) : Prop where
  latest : ∃ event, List.getLast? (s.advance dt ctx).trace = some ⟨[.step 0], event⟩ ∧
    event.failure? = some e ∧ event.refusesEntry = true
  passEnds : .passEnd ∈ (s.advance dt ctx).trace.marks []
  status : (s.advance dt ctx).sequence.status = .running
  cursor : (s.advance dt ctx).sequence.cursor = 0
  steps : ∀ i < s.size, (s.advance dt ctx).sequence.stepState? i = some .notStarted
  passes : (s.advance dt ctx).sequence.passes = min (s.begun.passes + 1) maxPasses
  remaining : ∀ n, s.policy = .count n →
    (s.advance dt ctx).sequence.progress.remaining + 1 = s.begun.progress.remaining
  resumes : (s.advance dt ctx).sequence.ResumesAt 0

def FailsAt (s : Sequence A C N) (dt : Float32) (ctx : C) (e : TickError) : FailurePoint → Prop
  | .step index => s.FailsInStep dt ctx e index
  | .passEnd => s.FailsAtEnd dt ctx e
  | .reentry => s.FailsInReentry dt ctx e

/-- A body fails in a single place. -/
theorem FailsAt.unique {s : Sequence A C N} {dt : Float32} {ctx : C} {e : TickError}
    {point other : FailurePoint} (h : s.FailsAt dt ctx e point) (k : s.FailsAt dt ctx e other) :
    other = point := by
  have hends : s.FailsAtEnd dt ctx e → ¬s.FailsInReentry dt ctx e := by
    intro ha hb
    obtain ⟨event, hl, -⟩ := hb.latest
    cases ha.latest.symm.trans hl
  have hstep {index : Nat} : s.FailsInStep dt ctx e index → ¬s.FailsAtEnd dt ctx e := by
    intro ha hb
    obtain ⟨place, event, hl, -⟩ := ha.latest
    cases hb.latest.symm.trans hl
  match point, other with
  | .step i, .step j => exact congrArg _ (k.cursor.symm.trans h.cursor)
  | .step i, .passEnd => exact absurd k (hstep h)
  | .step i, .reentry => exact absurd k.passEnds h.passGoesOn
  | .passEnd, .step j => exact absurd h (hstep k)
  | .passEnd, .passEnd => rfl
  | .passEnd, .reentry => exact absurd k (hends h)
  | .reentry, .step j => exact absurd h.passEnds k.passGoesOn
  | .reentry, .passEnd => exact absurd h (hends k)
  | .reentry, .reentry => rfl

section Cases

variable {s : Sequence A C N} {dt : Float32} {ctx : C} {e : TickError}

theorem getLast?_of_error (h : (s.begun.resume dt ctx).result = .error e) {last : Entry N}
    (hl : List.getLast? (s.begun.resume dt ctx).trace = some last) :
    List.getLast? (s.advance dt ctx).trace = some last := by
  rw [advance_of_error h]
  exact Trace.getLast?_append_of_some (t := ⟨[], .ticked⟩ :: s.opening) hl

theorem passEnd_mem_of_error (h : (s.begun.resume dt ctx).result = .error e) :
    .passEnd ∈ (s.advance dt ctx).trace.marks [] ↔
      .passEnd ∈ (s.begun.resume dt ctx).trace.marks [] := by
  rw [advance_of_error h]
  simp [Trace.marks_cons_here, Event.mark?, s.marks_opening]

theorem sequence_of_error (h : (s.begun.resume dt ctx).result = .error e) :
    (s.advance dt ctx).sequence = (s.begun.resume dt ctx).sequence := by
  rw [advance_of_error h]

theorem failsInStep (h : s.Consistent) (hs : s.status ≠ .complete)
    (he : (s.begun.walk dt ctx).result = .error e) :
    s.FailsInStep dt ctx e (s.begun.walk dt ctx).cursor := by
  have hrunning := status_begun hs
  have hbody := resume_of_error (hrunning ▸ Status.noConfusion) he
  have herror : (s.begun.resume dt ctx).result = .error e := by rw [hbody]
  have hleft : (s.advance dt ctx).sequence = s.begun.stopped (s.begun.walk dt ctx) :=
    (sequence_of_error herror).trans (by rw [hbody])
  obtain ⟨place, step, ctx', generator', before, hcursor, htick, hstep, htrace⟩ :=
    cascade_of_error he
  obtain ⟨last, hlast, hfail, hstate⟩ := Step.getLast?_tick htick
  have hsettled := Step.isSettled_tick false dt step ctx' generator'
  generalize Step.tick false dt step ctx' generator' = t at *
  rw [StepTick.IsSettled, htick] at hsettled
  have hlined : Lined ((s.begun.walk dt ctx).steps.map Step.state)
      (s.begun.walk dt ctx).cursor := by
    obtain ⟨place', hcursor', -, hl, -⟩ := lined_cascade dt s.begun.steps 0 s.begun.cursor ctx
      s.begun.generator ((consistent_running_iff hrunning).mp (consistent_begun h))
    rw [Nat.zero_add] at hcursor'
    exact hcursor' ▸ hl
  rw [Nat.zero_add] at hcursor htrace
  have hat : (s.begun.walk dt ctx).steps[(s.begun.walk dt ctx).cursor]? = some t.step :=
    hcursor ▸ hstep
  refine ⟨?latest, ?passGoesOn, ?status, ?cursor, ?earlier, ?passes, ?remaining, ?resumes⟩
  case latest =>
    refine ⟨last.path, last.event, ?_, hfail, ?_⟩
    · apply getLast?_of_error herror
      rw [hbody]
      show List.getLast? (s.begun.walk dt ctx).trace = _
      rw [walk, htrace]
      exact Trace.getLast?_append_of_some (hcursor ▸ Trace.getLast?_under hlast _)
    · rw [hleft]
      exact (congrArg (Option.map Step.state) hat).trans (congrArg some hstate)
  case passGoesOn =>
    rw [passEnd_mem_of_error herror, hbody]
    exact (marks_walk s.begun dt ctx).symm ▸ List.not_mem_nil
  case earlier =>
    intro i hi
    rw [hleft, stepState?_eq]
    have hlt : i < ((s.begun.walk dt ctx).steps.map Step.state).length :=
      Nat.lt_of_lt_of_le hi hlined.le_length
    have hget := List.getElem?_eq_getElem hlt
    exact hget.trans (congrArg some ((hlined.getElem hget).1 hi))
  case resumes =>
    rw [hleft]
    exact resumesAt_cursor hrunning hat hsettled
  case status => exact hleft ▸ hrunning
  case cursor => exact hleft ▸ rfl
  case passes => exact hleft ▸ rfl
  case remaining => exact hleft ▸ rfl

theorem stopped_of_passed (h : s.Consistent) (hs : s.status ≠ .complete)
    (hw : (s.begun.walk dt ctx).result = .ok true) :
    let passed := s.begun.stopped (s.begun.walk dt ctx)
    passed.size = s.size ∧ passed.cursor = s.size ∧
      ∀ i < s.size, passed.stepState? i = some .complete := by
  intro passed
  have hlen : (s.begun.walk dt ctx).steps.length = s.size :=
    (length_cascade ..).trans (SameFrame.begun s).steps
  obtain ⟨place, hcursor, -, hl, hstops⟩ := lined_cascade dt s.begun.steps 0 s.begun.cursor ctx
    s.begun.generator ((consistent_running_iff (status_begun hs)).mp (consistent_begun h))
  have hplace : place = (s.begun.walk dt ctx).steps.length := by
    have hend : (s.begun.walk dt ctx).StopsAt place := hstops
    rwa [Cascade.StopsAt, hw] at hend
  refine ⟨hlen, hcursor.trans (by omega), ?_⟩
  intro i hi
  have hget := List.getElem?_eq_getElem
    (show i < (passed.steps.map Step.state).length by simpa [passed, stopped, hlen] using hi)
  rw [stepState?_eq, hget]
  exact congrArg some ((hl.getElem hget).1 (by omega))

theorem failsAtEnd (h : s.Consistent) (hs : s.status ≠ .complete)
    (hw : (s.begun.walk dt ctx).result = .ok true)
    (hv : ((s.begun.stopped (s.begun.walk dt ctx)).verdict (s.begun.walk dt ctx).context).answer =
      .error e) : s.FailsAtEnd dt ctx e := by
  have hrunning := status_begun hs
  obtain ⟨hsize, hcursor, hsteps⟩ := stopped_of_passed h hs hw
  have hbody := resume_of_passed (hrunning ▸ Status.noConfusion) hw
  rw [finishPass_of_error hv] at hbody
  have herror : (s.begun.resume dt ctx).result = .error e := by rw [hbody]; rfl
  have hleft : (s.advance dt ctx).sequence = s.begun.stopped (s.begun.walk dt ctx) :=
    (sequence_of_error herror).trans (by rw [hbody]; rfl)
  obtain ⟨hname, events, hevents⟩ := Policy.events_again_of_error hv
  refine ⟨?latest, ?status, ?cursor, ?steps, ?passes, ?remaining, ?resumes⟩
  case latest =>
    apply getLast?_of_error herror
    rw [hbody, verdict, hevents]
    exact Trace.getLast?_append_of_some (Trace.getLast?_here (by simp))
  case status => exact hleft ▸ hrunning
  case cursor => exact hleft ▸ hcursor
  case steps => exact hleft ▸ hsteps
  case passes => exact hleft ▸ rfl
  case remaining => exact hleft ▸ rfl
  case resumes =>
    rw [hleft]
    cases hp : s.begun.policy with
    | untilHolds condition =>
      exact resumesAtEnd_of_cursor hrunning (hcursor.trans hsize.symm) hp
    | once | count | forever =>
      rw [verdict, show (s.begun.stopped (s.begun.walk dt ctx)).policy = _ from hp] at hv
      cases hv

/-- A pass that follows begins with a failure only if its first step cannot be entered. -/
theorem wrap_of_error {s : Sequence A C N} {ctx : C} {e : TickError}
    (h : (s.wrap ctx).result = .error e) :
    ∃ first rest, let entered := first.reset.activate ctx s.generator
      s.steps = first :: rest ∧ entered.result = .error e ∧
        (s.wrap ctx).trace = s.wrapLines ++ entered.trace.under (.step 0) ∧
        (s.wrap ctx).sequence = { s.rewound with
          steps := entered.step :: rest.map Step.reset, generator := entered.generator } := by
  cases hs : s.steps with
  | nil =>
    rw [wrap_of_nil hs] at h
    cases h
  | cons first rest =>
    rw [wrap_of_cons hs] at h ⊢
    refine ⟨first, rest, rfl, ?_, rfl, rfl⟩
    cases hr : (first.reset.activate ctx s.generator).result with
    | error e' =>
      simp only [hr] at h
      exact congrArg _ (Except.error.inj h)
    | ok entered =>
      simp only [hr] at h
      cases h

omit [Behavior A C N] in
theorem remaining_wrap {s : Sequence A C N} {ctx : C} {n : Nat} (hp : s.policy = .count n)
    (hv : (s.verdict ctx).answer = .ok true) :
    (s.progress.wrap s.policy).remaining + 1 = s.progress.remaining := by
  have hmore : 1 < s.progress.remaining := by
    rw [verdict, hp] at hv
    exact of_decide_eq_true (Except.ok.inj hv)
  rw [hp]
  exact Nat.sub_add_cancel (Nat.le_of_lt hmore)

theorem failsInReentry (h : s.Consistent) (hs : s.status ≠ .complete)
    (hw : (s.begun.walk dt ctx).result = .ok true)
    (hv : ((s.begun.stopped (s.begun.walk dt ctx)).verdict (s.begun.walk dt ctx).context).answer =
      .ok true)
    (he : ((s.begun.stopped (s.begun.walk dt ctx)).wrap (s.begun.walk dt ctx).context).result =
      .error e) : s.FailsInReentry dt ctx e := by
  have hrunning := status_begun hs
  obtain ⟨hsize, -, -⟩ := stopped_of_passed h hs hw
  have hbody := resume_of_passed (hrunning ▸ Status.noConfusion) hw
  rw [finishPass_of_again hv] at hbody
  have herror : (s.begun.resume dt ctx).result = .error e := by rw [hbody]; exact he
  obtain ⟨first, rest, hsteps, hentry, htrace, hwrapped⟩ := wrap_of_error he
  generalize hk : s.begun.walk dt ctx = k at *
  generalize hpassed : s.begun.stopped k = passed at *
  generalize hentered : first.reset.activate k.context passed.generator = entered at *
  have hleft : (s.advance dt ctx).sequence =
      { passed.rewound with
        steps := entered.step :: rest.map Step.reset
        generator := entered.generator } := by
    rw [sequence_of_error herror, hbody]
    exact hwrapped
  obtain ⟨event, hlast, hfail, hrefuses⟩ := Step.getLast?_activate (hentered ▸ hentry)
  have hstate : entered.step.state = .notStarted := by
    rw [← hentered]
    exact first.reset.state_activate_of_error (hentered ▸ hentry)
  refine ⟨?latest, ?passEnds, ?status, ?cursor, ?steps, ?passes, ?remaining, ?resumes⟩
  case latest =>
    refine ⟨event, getLast?_of_error herror ?_, hfail, hrefuses⟩
    rw [hbody, Advance.after, Advance.after, htrace]
    iterate 3 apply Trace.getLast?_append_of_some
    exact Trace.getLast?_under (hentered ▸ hlast) (.step 0)
  case passEnds =>
    rw [passEnd_mem_of_error herror, hbody, Advance.after, Advance.after]
    simp [passed.marks_wrap]
  case status =>
    rw [hleft, ← hpassed]
    exact hrunning
  case cursor => exact hleft ▸ rfl
  case steps =>
    intro i hi
    rw [← hsize, size, hsteps] at hi
    rw [hleft, stepState?]
    cases i with
    | zero => exact congrArg some hstate
    | succ i =>
      have hlt : i < rest.length := Nat.lt_of_succ_lt_succ hi
      simp [List.getElem?_eq_getElem hlt, Step.reset]
  case passes =>
    rw [hleft, ← hpassed]
    rfl
  case remaining =>
    intro n hn
    have hcount : passed.policy = .count n := by
      rw [← hpassed]
      exact (SameFrame.begun s).policy.trans hn
    have hsame : passed.progress.remaining = s.begun.progress.remaining := by
      rw [← hpassed]
      rfl
    rw [hleft]
    exact (remaining_wrap hcount hv).trans hsame
  case resumes =>
    rw [hleft]
    have hne : entered.step.state ≠ .complete := hstate ▸ StepState.noConfusion
    refine resumesAt_cursor ?_ rfl hne
    rw [← hpassed]
    exact hrunning

/-- A body that fails does so in one of three places. -/
theorem exists_failsAt (h : s.Consistent) (he : (s.begun.resume dt ctx).result = .error e) :
    ∃ point, s.FailsAt dt ctx e point := by
  have hs : s.status ≠ .complete := by
    intro hc
    rw [begun_of_ne (hc ▸ Status.noConfusion), resume_of_complete hc] at he
    cases he
  have hnc : s.begun.status ≠ .complete := status_begun hs ▸ Status.noConfusion
  match hw : (s.begun.walk dt ctx).result with
  | .error e' =>
    rw [resume_of_error hnc hw] at he
    obtain rfl : e' = e := Except.error.inj he
    exact ⟨.step _, failsInStep h hs hw⟩
  | .ok false =>
    rw [resume_of_held hnc hw] at he
    cases he
  | .ok true =>
    rw [resume_of_passed hnc hw] at he
    match hv : ((s.begun.stopped (s.begun.walk dt ctx)).verdict
        (s.begun.walk dt ctx).context).answer with
    | .error e' =>
      rw [finishPass_of_error hv] at he
      obtain rfl : e' = e := Except.error.inj he
      exact ⟨.passEnd, failsAtEnd h hs hw hv⟩
    | .ok true =>
      rw [finishPass_of_again hv] at he
      exact ⟨.reentry, failsInReentry h hs hw hv he⟩
    | .ok false =>
      rw [finishPass_of_over hv] at he
      cases he

theorem resume_of_bodyFails (h : s.BodyFails dt ctx e) :
    (s.begun.resume dt ctx).result = .error e := by
  obtain ⟨herror, hlast⟩ := h
  match hr : (s.begun.resume dt ctx).result with
  | .error e' =>
    rw [advance_of_error hr] at herror
    exact herror
  | .ok o =>
    rw [advance_of_ok hr] at herror hlast
    have htells := tells_advanceAll false dt .companion 0 s.begun.companions
      (s.begun.resume dt ctx).context
    cases hround : (advanceAll false dt .companion 0 s.begun.companions
        (s.begun.resume dt ctx).context).result with
    | ok complete =>
      simp only [hround] at herror
      cases herror
    | error e' =>
      rw [Round.Tells, hround] at htells
      obtain ⟨last, hl, -⟩ := htells.getLast?
      obtain ⟨j, place, hp⟩ := exists_hop_of_mem_advanceAll dt .companion s.begun.companions 0
        (s.begun.resume dt ctx).context last (List.mem_of_getLast? hl)
      exact absurd hp (hlast last (Trace.getLast?_append_of_some (t := _ :: _) hl) _ _)

end Cases

/-- Whatever fails in the body of a sequence, there is one place where it does, and that place tells
what is left of the sequence and where the next tick goes on. -/
theorem failure_leaves {root : Sequence A C N} (hroot : (Part.sequence root).Reachable)
    {path : List Hop} {s : Sequence A C N}
    (hs : (Part.sequence root).find? path = some (.sequence s)) (calls : List (Command C))
    {dt : Float32} {ctx : C} {e : TickError} (h : (s.after calls).BodyFails dt ctx e) :
    ∃ point, (s.after calls).FailsAt dt ctx e point ∧
      ∀ other, (s.after calls).FailsAt dt ctx e other → other = point := by
  obtain ⟨new, es, hnew, rfl⟩ := hroot.exists_history hs
  rw [← after_append] at h ⊢
  obtain ⟨point, hpoint⟩ :=
    exists_failsAt (consistent_after hnew.consistent (es ++ calls)) (resume_of_bodyFails h)
  exact ⟨point, hpoint, fun other hother => hpoint.unique hother⟩

/-- A loop whose only step spoils the context, so that the guard of the step fails when the step is
entered for the second pass. -/
theorem failure_leaves_loop :
    let guard : Condition Rehearsal.Stage String := Rehearsal.checked (·.invalid) .always
    let spoil := Rehearsal.cues [.setInvalid true]
    let calls : List (Call Rehearsal.Act Rehearsal.Stage String) :=
      [.ifHolds guard, .andThen (.leaf (.callback spoil)), .repeatForever]
    let s := (Builder.ofCalls "loop" calls).toSequence (fun _ => .ofSeed 0) 0
    (Part.sequence s).Reachable ∧ s.BodyFails 0.5 .empty Rehearsal.markedInvalid ∧
      s.FailsAt 0.5 .empty Rehearsal.markedInvalid .reentry := by
  intro guard spoil calls s
  have hs : (Part.sequence s).Reachable := by
    refine .built "loop" calls (fun _ => .ofSeed 0) 0 ?_ ?_ rfl
    · simpa [calls, Call.steps] using .leaf (.callback spoil)
    · simp [calls, Call.sequences]
  have hlast : List.getLast? (s.advance 0.5 .empty).trace =
      some ⟨[.step 0], .guarded 0 (.error Rehearsal.markedInvalid)⟩ := rfl
  have hfails : s.BodyFails 0.5 .empty Rehearsal.markedInvalid := by
    refine ⟨rfl, ?_⟩
    intro last hl index place
    obtain rfl := Option.some.inj (hlast.symm.trans hl)
    rintro ⟨⟩
  have hfind : (Part.sequence s).find? [] = some (.sequence s) := rfl
  obtain ⟨point, hpoint, -⟩ := failure_leaves hs hfind [] hfails
  refine ⟨hs, hfails, ?_⟩
  cases point with
  | reentry => exact hpoint
  | passEnd => cases hlast.symm.trans hpoint.latest
  | step index =>
    -- a pass has been counted
    have hpasses : 1 = 0 := hpoint.passes
    exact absurd hpasses Nat.one_ne_zero

end Sequence

end Steps

end Sequencer

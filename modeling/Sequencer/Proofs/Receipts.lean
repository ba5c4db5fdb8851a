import Sequencer.Proofs.TickDiscipline

/-!
# The receipts of a tick

What a trace of a sequence says about the progress of its passes, as a list of receipts in the order
of time: a direct step has completed, the condition that ends the repetition was answered, a pass
has ended. The main statement lists the receipts of one tick of a sequence: the steps from the
cursor on, in order, and the end of the pass if the tick gets there.
-/

namespace Sequencer

variable {A C N : Type}

/-- What is written down about the passes of a sequence. -/
inductive Receipt
  /-- A direct step has completed. -/
  | completed (index : Nat)
  /-- The condition that ends the repetition was evaluated. -/
  | answered (answer : Bool)
  | passEnded
  deriving DecidableEq

def Entry.receipt? : Entry N → Option Receipt
  | ⟨[.step index], .log (.stepComplete _)⟩ => some (.completed index)
  | ⟨[], .repeatChecked (.ok answer)⟩ => some (.answered answer)
  | ⟨[], .log (.sequenceWrapped ..)⟩ => some .passEnded
  | ⟨[], .log (.sequenceComplete ..)⟩ => some .passEnded
  | _ => none

/-- The receipts in a trace of a sequence, in the order of time. -/
def Trace.receipts (trace : Trace N) : List Receipt := trace.filterMap Entry.receipt?

namespace Trace

@[simp] theorem receipts_append (t u : Trace N) :
    receipts (t ++ u) = receipts t ++ receipts u := by
  simp [receipts]

theorem receipts_eq_nil {t : Trace N} (h : ∀ e ∈ t, e.receipt? = none) : receipts t = [] := by
  rwa [receipts, List.filterMap_eq_nil_iff]

theorem receipts_under_step (index : Nat) (t : Trace N) :
    receipts (t.under (.step index)) =
      List.replicate ((t.marks []).count .stepEnd) (.completed index) := by
  induction t with
  | nil => rfl
  | cons e t ih =>
    obtain ⟨path, event⟩ := e
    have hu : receipts (under (.step index) (⟨path, event⟩ :: t)) =
        (Entry.receipt? ⟨.step index :: path, event⟩).toList ++
          receipts (under (.step index) t) := by
      cases h : Entry.receipt? ⟨.step index :: path, event⟩ <;> simp [receipts, under, h]
    rw [hu, ih]
    cases path with
    | nil =>
      rw [marks_cons_here, List.count_append]
      cases event with
      | log line =>
        cases line <;>
          simp [Entry.receipt?, Event.mark?, Nat.add_comm 1, List.replicate_succ]
      | _ => simp [Entry.receipt?, Event.mark?]
    | cons hop path =>
      have hm : marks [] (⟨hop :: path, event⟩ :: t) = marks [] t := by
        simp [marks, eventsAt]
      rw [hm]
      rfl

theorem receipts_of_companions {t : Trace N}
    (h : ∀ e ∈ t, ∃ j place, e.path = Hop.companion j :: place) : receipts t = [] := by
  apply receipts_eq_nil
  intro e he
  obtain ⟨j, place, hp⟩ := h e he
  obtain ⟨path, event⟩ := e
  obtain rfl : path = .companion j :: place := hp
  rfl

end Trace

section Ticks

variable [Behavior A C N]

/-- A tick of a step that has not completed before leaves a receipt if the step completes. -/
theorem Step.receipts_tick {s : Step A C N} (h : s.state ≠ .complete) (dt : Float32) (ctx : C)
    (generator : Generator) (index : Nat) :
    let t := Step.tick false dt s ctx generator
    (t.trace.under (.step index)).receipts =
      match t.result with
      | .ok true => [.completed index]
      | _ => [] := by
  obtain ⟨updates, hu, hm⟩ := Step.marks_tick h dt ctx generator
  have hzero : updates.count .stepEnd = 0 := Nat.le_zero.mp (hu.count_le .stepEnd)
  generalize Step.tick false dt s ctx generator = t at hm ⊢
  simp only
  rw [Trace.receipts_under_step, hm, List.cons_append, List.count_cons, List.count_append, hzero]
  match t.result with
  | .ok true => rfl
  | .ok false => rfl
  | .error e => rfl

/-- A cascade completes the steps from the first that is not complete on, one after the other, up to
where it stops. -/
theorem receipts_cascade (dt : Float32) (steps : List (Step A C N)) (index skip : Nat) (ctx : C)
    (generator : Generator) (h : Lined (steps.map Step.state) skip) :
    let k := cascade false dt index steps skip ctx generator
    ∃ count, k.trace.receipts = (List.range' (index + skip) count).map .completed ∧
      k.cursor = index + skip + count ∧ skip + count ≤ steps.length ∧
      (k.result = .ok true → skip + count = steps.length) := by
  induction steps generalizing index skip ctx generator with
  | nil =>
    obtain rfl : skip = 0 := h
    exact ⟨0, rfl, rfl, Nat.le_refl 0, fun _ => rfl⟩
  | cons first rest ih =>
    cases skip with
    | zero =>
      have hone := Step.receipts_tick h.1 dt ctx generator index
      rw [cascade_cons_zero]
      generalize Step.tick false dt first ctx generator = t at hone
      obtain ⟨trace, context, generator', step, result⟩ := t
      match result with
      | .error e => exact ⟨0, hone, rfl, Nat.zero_le _, fun hr => nomatch hr⟩
      | .ok false => exact ⟨0, hone, rfl, Nat.zero_le _, fun hr => nomatch hr⟩
      | .ok true =>
        obtain ⟨count, hreceipts, hcursor, hle, hend⟩ :=
          ih (index + 1) 0 context generator' (.of_all_notStarted h.2)
        refine ⟨count + 1, ?_, ?_, ?_, ?_⟩
        · simp only [StepTick.andThen, Trace.receipts_append]
          rw [hone, hreceipts, List.range'_succ]
          rfl
        · simp only [StepTick.andThen]
          omega
        · simp only [List.length_cons]
          omega
        · intro hr
          have := hend hr
          simp only [List.length_cons]
          omega
    | succ skip =>
      obtain ⟨count, hreceipts, hcursor, hle, hend⟩ := ih (index + 1) skip ctx generator h.2
      have hstart : index + 1 + skip = index + (skip + 1) := by omega
      rw [hstart] at hreceipts hcursor
      rw [cascade_cons_succ]
      refine ⟨count, hreceipts, hcursor, ?_, ?_⟩
      · simp only [List.length_cons]
        omega
      · intro hr
        have := hend hr
        simp only [List.length_cons]
        omega

omit [Behavior A C N] in
/-- The receipts at the end of a pass; `final` says that it is the last one. -/
def Sequence.endReceipts (s : Sequence A C N) (final : Bool) : List Receipt :=
  (if s.policy.name = .untilHolds then [.answered final] else []) ++ [.passEnded]

omit [Behavior A C N] in
theorem Trace.receipts_of_isQuestion {events : List (Event N)}
    (h : ∀ e ∈ events, e.isQuestion = true) : (Trace.here events).receipts = [] := by
  apply Trace.receipts_eq_nil
  intro e he
  obtain ⟨event, hm, rfl⟩ := List.mem_map.mp he
  have hq := h event hm
  cases event with
  | note n => rfl
  | tested answer => rfl
  | _ => cases hq

omit [Behavior A C N] in
theorem Sequence.receipts_verdict (s : Sequence A C N) (ctx : C) :
    (Trace.here (s.verdict ctx).events).receipts =
      match (s.verdict ctx).answer with
      | .ok again => if s.policy.name = .untilHolds then [.answered !again] else []
      | .error _ => [] := by
  unfold Sequence.verdict
  match hp : s.policy with
  | .once => rfl
  | .count n => rfl
  | .forever => rfl
  | .untilHolds condition =>
    have hq := Trace.receipts_of_isQuestion (condition.isQuestion_evaluate ctx)
    have hsplit : Trace.here ((condition.evaluate ctx).events ++
          [.repeatChecked (condition.evaluate ctx).answer]) =
        Trace.here (condition.evaluate ctx).events ++
          [⟨[], .repeatChecked (condition.evaluate ctx).answer⟩] := by
      simp [Trace.here]
    simp only [Policy.again, hsplit, Trace.receipts_append, hq, List.nil_append]
    cases (condition.evaluate ctx).answer with
    | error e => rfl
    | ok answer => cases answer <;> rfl

omit [Behavior A C N] in
theorem Sequence.receipts_wrapLines (s : Sequence A C N) :
    s.wrapLines.receipts = [.passEnded] := by
  unfold Sequence.wrapLines
  split <;> rfl

theorem Sequence.receipts_wrap (s : Sequence A C N) (ctx : C) :
    (s.wrap ctx).trace.receipts = [.passEnded] := by
  cases h : s.steps with
  | nil =>
    rw [Sequence.wrap_of_nil h]
    exact s.receipts_wrapLines
  | cons first rest =>
    have hm := first.reset.marks_activate ctx s.generator
    rw [Sequence.wrap_of_cons h]
    simp [s.receipts_wrapLines, Trace.receipts_under_step, hm]

theorem Sequence.progress_wrap (s : Sequence A C N) (ctx : C) :
    (s.wrap ctx).sequence.progress = s.progress.wrap s.policy := by
  cases h : s.steps with
  | nil =>
    rw [Sequence.wrap_of_nil h]
    rfl
  | cons first rest =>
    rw [Sequence.wrap_of_cons h]
    rfl

omit [Behavior A C N] in
/-- How far a tick takes a sequence, and the receipts that it leaves. -/
inductive Sequence.Proceeds (s : Sequence A C N) (receipts : List Receipt)
    (later : Sequence A C N) : Prop
  /-- The sequence was complete before. -/
  | idle (hs : s.status = .complete) (hlater : later.status = .complete)
      (hpasses : later.passes = s.passes) (hreceipts : receipts = [])
  /-- The tick stays within the pass, and may have failed: in a step, or in the condition at the
  end. -/
  | within (count : Nat) (hs : s.status ≠ .complete) (hlater : later.status = .running)
      (hcursor : later.cursor = s.cursor + count) (hpasses : later.passes = s.passes)
      (hreceipts : receipts = (List.range' s.cursor count).map .completed)
  /-- The pass ends and another one begins, even if its first step cannot be entered. -/
  | wrapped (hs : s.status ≠ .complete) (hlater : later.status = .running)
      (hcursor : later.cursor = 0) (hpasses : later.passes = min (s.passes + 1) maxPasses)
      (hreceipts : receipts = (List.range' s.cursor (s.size - s.cursor)).map .completed ++
        s.endReceipts false)
  | last (hs : s.status ≠ .complete) (hlater : later.status = .complete)
      (hpasses : later.passes = min (s.passes + 1) maxPasses)
      (hreceipts : receipts = (List.range' s.cursor (s.size - s.cursor)).map .completed ++
        s.endReceipts true)

theorem Sequence.proceeds_resume {s : Sequence A C N} (h : s.Consistent)
    (hs : s.status ≠ .notStarted) (dt : Float32) (ctx : C) :
    s.Proceeds (s.resume dt ctx).trace.receipts (s.resume dt ctx).sequence := by
  cases hstatus : s.status with
  | notStarted => exact absurd hstatus hs
  | complete =>
    rw [Sequence.resume_of_complete hstatus]
    exact .idle hstatus hstatus rfl rfl
  | running =>
    have hc : s.status ≠ .complete := hstatus ▸ Status.noConfusion
    obtain ⟨count, hreceipts, hcursor, hle, hend⟩ := receipts_cascade dt s.steps 0 s.cursor ctx
      s.generator ((Sequence.consistent_running_iff hstatus).mp h)
    rw [Nat.zero_add] at hreceipts hcursor
    change (s.walk dt ctx).trace.receipts = _ at hreceipts
    change (s.walk dt ctx).cursor = _ at hcursor
    cases hr : (s.walk dt ctx).result with
    | error e =>
      rw [Sequence.resume_of_error hc hr]
      exact .within count hc hstatus hcursor rfl hreceipts
    | ok finished =>
      cases finished with
      | false =>
        rw [Sequence.resume_of_held hc hr]
        exact .within count hc hstatus hcursor rfl hreceipts
      | true =>
        have hcount : count = s.size - s.cursor := by
          have := hend hr
          simp only [Sequence.size]
          omega
        have hverdict := (s.stopped (s.walk dt ctx)).receipts_verdict (s.walk dt ctx).context
        rw [Sequence.resume_of_passed hc hr]
        cases ha : ((s.stopped (s.walk dt ctx)).verdict (s.walk dt ctx).context).answer with
        | error e =>
          rw [ha] at hverdict
          rw [Sequence.finishPass_of_error ha]
          refine .within count hc hstatus hcursor rfl ?_
          simp [Advance.after, hreceipts, hverdict]
        | ok again =>
          rw [ha] at hverdict
          cases again with
          | true =>
            rw [Sequence.finishPass_of_again ha]
            have hprogress := (s.stopped (s.walk dt ctx)).progress_wrap (s.walk dt ctx).context
            have hstatus' := (s.stopped (s.walk dt ctx)).status_wrap (s.walk dt ctx).context
            refine .wrapped hc (hstatus'.trans hstatus) (congrArg Progress.cursor hprogress)
              (congrArg Progress.passes hprogress) ?_
            simp only [Advance.after, Trace.receipts_append, hreceipts, hverdict,
              Sequence.receipts_wrap, hcount]
            rfl
          | false =>
            rw [Sequence.finishPass_of_over ha]
            refine .last hc rfl rfl ?_
            simp only [Advance.after, Trace.receipts_append, hreceipts, hverdict, hcount]
            rfl

theorem Sequence.progress_advance (s : Sequence A C N) (dt : Float32) (ctx : C) :
    (s.advance dt ctx).sequence.progress = (s.begun.resume dt ctx).sequence.progress := by
  match hr : (s.begun.resume dt ctx).result with
  | .error e => rw [Sequence.advance_of_error hr]
  | .ok o => rw [Sequence.advance_of_ok hr]

theorem Sequence.receipts_advance (s : Sequence A C N) (dt : Float32) (ctx : C) :
    (s.advance dt ctx).trace.receipts = (s.begun.resume dt ctx).trace.receipts := by
  obtain ⟨beside, hbeside, ht, _⟩ := s.exists_beside dt ctx
  have hopening : s.opening.receipts = [] := by
    unfold Sequence.opening
    split <;> rfl
  have hhead (t : Trace N) : Trace.receipts (⟨[], .ticked⟩ :: t) = t.receipts := rfl
  rw [ht, hhead]
  simp [hopening, Trace.receipts_of_companions hbeside]

omit [Behavior A C N] in
theorem Sequence.passes_begun {s : Sequence A C N} (h : s.Consistent) :
    s.begun.passes = s.passes := by
  by_cases hs : s.status = .notStarted
  · simp only [Sequence.Consistent, hs] at h
    have hb : s.begun.passes = 0 := by
      rw [Sequence.begun, if_pos hs]
      exact congrArg Progress.passes s.progress_reset
    exact hb.trans h.2.1.symm
  · rw [Sequence.begun_of_ne hs]

/-- A tick of a sequence takes it as far as its receipts say. -/
theorem Sequence.proceeds_advance {s : Sequence A C N} (h : s.Consistent) (dt : Float32) (ctx : C) :
    s.Proceeds (s.advance dt ctx).trace.receipts (s.advance dt ctx).sequence := by
  have hbody := Sequence.proceeds_resume (Sequence.consistent_begun h) s.begun_status_ne dt ctx
  have hprogress := s.progress_advance dt ctx
  have hstatus : (s.advance dt ctx).sequence.status = (s.begun.resume dt ctx).sequence.status :=
    congrArg Progress.status hprogress
  have hcursor : (s.advance dt ctx).sequence.cursor = (s.begun.resume dt ctx).sequence.cursor :=
    congrArg Progress.cursor hprogress
  have hpasses : (s.advance dt ctx).sequence.passes = (s.begun.resume dt ctx).sequence.passes :=
    congrArg Progress.passes hprogress
  have hframe := Sequence.SameFrame.begun s
  have hsize : s.begun.size = s.size := hframe.steps
  have hend : ∀ final, s.begun.endReceipts final = s.endReceipts final := by
    intro final
    rw [Sequence.endReceipts, hframe.policy]
    rfl
  have hne : s.begun.status ≠ .complete → s.status ≠ .complete := by
    intro hb hs
    rw [Sequence.begun_of_ne (hs ▸ Status.noConfusion)] at hb
    exact hb hs
  rw [s.receipts_advance dt ctx]
  cases hbody with
  | idle hs hlater hp hr =>
    have hs' : s.status = .complete := Decidable.byContradiction fun hc =>
      Status.noConfusion ((Sequence.status_begun hc).symm.trans hs)
    exact .idle hs' (hstatus.trans hlater)
      (hpasses.trans (hp.trans (Sequence.passes_begun h))) hr
  | within count hs hlater hc hp hr =>
    rw [Sequence.cursor_begun h] at hc hr
    rw [Sequence.passes_begun h] at hp
    exact .within count (hne hs) (hstatus.trans hlater) (hcursor.trans hc) (hpasses.trans hp) hr
  | wrapped hs hlater hc hp hr =>
    rw [Sequence.cursor_begun h, hsize, hend] at hr
    rw [Sequence.passes_begun h] at hp
    exact .wrapped (hne hs) (hstatus.trans hlater) (hcursor.trans hc) (hpasses.trans hp) hr
  | last hs hlater hp hr =>
    rw [Sequence.cursor_begun h, hsize, hend] at hr
    rw [Sequence.passes_begun h] at hp
    exact .last (hne hs) (hstatus.trans hlater) (hpasses.trans hp) hr

end Ticks

end Sequencer

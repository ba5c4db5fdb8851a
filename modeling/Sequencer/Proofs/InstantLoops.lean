import Sequencer.Proofs.Companions
import Sequencer.Proofs.Receipts
import Sequencer.Proofs.Resumption

/-!
# The warning of endless loops that never wait

A loop is warned of at the end of a pass if no call of that pass left a step running. A call in
which the body fails leaves no step running in this sense, even if it fails in a hook of a step that
is updated again by the next call. So the warning tells that every step completed in the first
update that did not fail, which in a pass without failures means that the pass took a single call.
-/

namespace Sequencer

variable {A C N : Type}

def Trace.WarnsOfLoop (t : Trace N) : Prop := ∃ name, ⟨[], .log (.instantLoop name)⟩ ∈ t

theorem Trace.warnsOfLoop_append {t u : Trace N} :
    WarnsOfLoop (t ++ u) ↔ t.WarnsOfLoop ∨ u.WarnsOfLoop := by
  simp [WarnsOfLoop, exists_or]

namespace Advance

/-- Whether a call fails in the body: it fails, and the last event is not one of a companion. -/
def FailsInBody (a : Advance A C N) : Prop :=
  ∃ e, a.result = .error e ∧ ∀ last, List.getLast? a.trace = some last →
    ∀ index place, last.path ≠ .companion index :: place

/-- Whether a call leaves a step running: it ticks a step that does not complete, and the body does
not fail. -/
def Pauses (a : Advance A C N) : Prop :=
  ¬ a.FailsInBody ∧ ∃ i ∈ a.trace.stepsTicked, .stepEnd ∉ a.trace.marks [.step i]

end Advance

variable [Behavior A C N]

namespace Sequence

/-- The calls of the pass under way, after those in `pass` and a further history: all since the
sequence was started or began the pass. -/
def callsOfPass (s : Sequence A C N) (pass : List (Advance A C N)) :
    List (Command C) → List (Advance A C N)
  | [] => pass
  | .reset :: later => s.reset.callsOfPass [] later
  | .advance dt ctx :: later =>
    let call := s.advance dt ctx
    call.sequence.callsOfPass
      (if .passEnd ∈ call.trace.marks [] then [] else pass ++ [call]) later

/-- How a call of an endless loop ends: the body fails, leaves a step running, or begins another
pass. -/
inductive LoopCall (s : Sequence A C N) (call : Advance A C N) : Prop
  | fails (h : call.FailsInBody) (hend : .passEnd ∉ call.trace.marks [])
      (hwarns : ¬ call.trace.WarnsOfLoop) (hwarned : call.sequence.warned = s.warned)
      (hblocked : call.sequence.progress.blocked = s.begun.progress.blocked)
  | pauses (h : call.Pauses) (hend : .passEnd ∉ call.trace.marks [])
      (hwarns : ¬ call.trace.WarnsOfLoop) (hwarned : call.sequence.warned = s.warned)
      (hblocked : call.sequence.progress.blocked = true)
  | wraps (hend : .passEnd ∈ call.trace.marks [])
      (hwarns : call.trace.WarnsOfLoop ↔ s.warnOnInstantLoops = true ∧ s.warned = false ∧
        s.begun.progress.blocked = false)
      (hwarned : call.sequence.warned = true ↔ s.warned = true ∨ call.trace.WarnsOfLoop)
      (hblocked : call.sequence.progress.blocked = false)

omit [Behavior A C N] in
theorem warned_begun (s : Sequence A C N) : s.begun.warned = s.warned := by
  cases s
  unfold begun
  split <;> rfl

omit [Behavior A C N] in
theorem verdict_of_forever {s : Sequence A C N} (h : s.policy.name = .forever) (ctx : C) :
    s.verdict ctx = ⟨[], .ok true⟩ := by
  unfold verdict
  cases hp : s.policy with
  | forever => rfl
  | _ => rw [hp] at h; cases h

theorem warned_wrap (s : Sequence A C N) (ctx : C) :
    (s.wrap ctx).sequence.warned = (s.warned || s.isInstantLoop) := by
  cases h : s.steps with
  | nil =>
    rw [wrap_of_nil h]
    rfl
  | cons first rest =>
    rw [wrap_of_cons h]
    rfl

/-- A pass is warned of as soon as it has ended, before the first step is entered for the next. -/
theorem warnsOfLoop_wrap_iff (s : Sequence A C N) (ctx : C) :
    (s.wrap ctx).trace.WarnsOfLoop ↔ s.isInstantLoop = true := by
  have hlines : s.wrapLines.WarnsOfLoop ↔ s.isInstantLoop = true := by
    unfold wrapLines
    split
    · exact iff_of_true ⟨s.name, List.mem_cons_self⟩ ‹_›
    · refine iff_of_false ?_ ‹_›
      rintro ⟨name, hm⟩
      cases List.mem_singleton.mp hm
  cases h : s.steps with
  | nil => rwa [wrap_of_nil h]
  | cons first rest =>
    rw [wrap_of_cons h, ← hlines]
    refine Trace.warnsOfLoop_append.trans (or_iff_left ?_)
    rintro ⟨name, hm⟩
    obtain ⟨e, -, hk⟩ := List.mem_map.mp hm
    cases hk

theorem exists_companions_advance (s : Sequence A C N) (dt : Float32) (ctx : C) :
    ∃ companions, (s.advance dt ctx).sequence =
      { (s.begun.resume dt ctx).sequence with companions } := by
  match hr : (s.begun.resume dt ctx).result with
  | .error e =>
    rw [advance_of_error hr]
    exact ⟨(s.begun.resume dt ctx).sequence.companions, by
      cases (s.begun.resume dt ctx).sequence; rfl⟩
  | .ok outcome =>
    rw [advance_of_ok hr]
    exact ⟨_, rfl⟩

theorem passEnd_mem_advance_iff (s : Sequence A C N) (dt : Float32) (ctx : C) :
    .passEnd ∈ (s.advance dt ctx).trace.marks [] ↔
      .passEnd ∈ (s.begun.resume dt ctx).trace.marks [] := by
  obtain ⟨beside, hbeside, ht, -⟩ := s.exists_beside dt ctx
  have hnone : beside.marks [] = [] := Trace.marks_eq_nil (Trace.path_ne_of_companions hbeside)
  simp [ht, Trace.marks_cons_here, Event.mark?, s.marks_opening, hnone]

theorem failsInBody_of_walk {s : Sequence A C N} (hc : s.begun.status ≠ .complete) {dt : Float32}
    {ctx : C} {e : TickError} (hr : (s.begun.walk dt ctx).result = .error e) :
    (s.advance dt ctx).FailsInBody := by
  have hbody : (s.begun.resume dt ctx).result = .error e := by rw [resume_of_error hc hr]
  rw [advance_of_error hbody]
  refine ⟨e, rfl, fun last hlast index place hp => ?_⟩
  have hplace : last.IsOfBody := by
    rcases List.mem_cons.mp (List.mem_of_getLast? hlast) with rfl | hm
    · exact .inl rfl
    · rcases List.mem_append.mp hm with hm | hm
      · exact s.isOfBody_of_mem_opening last hm
      · exact s.begun.isOfBody_of_mem_resume dt ctx last hm
  rcases hplace with hk | ⟨i, place', hk⟩ <;> cases hk.symm.trans hp

theorem pauses_of_walk {s : Sequence A C N} (hs : s.Consistent) (hc : s.status ≠ .complete)
    {dt : Float32} {ctx : C} (hr : (s.begun.walk dt ctx).result = .ok false) :
    (s.advance dt ctx).Pauses := by
  have hnc : s.begun.status ≠ .complete := status_begun hc ▸ Status.noConfusion
  have hlined := (consistent_running_iff (status_begun hc)).mp (consistent_begun hs)
  obtain ⟨count, hpaces, -, -⟩ := cascade_paces dt s.begun.steps 0 s.begun.cursor ctx
    s.begun.generator hlined
  replace hpaces : (s.begun.walk dt ctx).Paces (0 + s.begun.cursor) count := hpaces
  obtain ⟨hpos, hlast, hnot⟩ := hpaces.held hr
  refine ⟨?_, (s.begun.walk dt ctx).cursor, ?_, ?_⟩
  · rintro ⟨e, hfails⟩
    have hbody := resume_of_bodyFails (s := s) (e := e) hfails
    rw [resume_of_held hnc hr] at hbody
    cases hbody
  · have hmem : (s.begun.walk dt ctx).cursor ∈ (s.begun.walk dt ctx).trace.stepsTicked := by
      rw [hpaces.ticked, List.mem_range'_1]
      omega
    rwa [stepsTicked_advance hc]
  · rw [(held_of_walk hc hr).2]
    exact hnot

omit [Behavior A C N] in
theorem Consistent.status_ne_complete {s : Sequence A C N} (hs : s.Consistent)
    (hp : s.policy.name = .forever) : s.status ≠ .complete := by
  intro hc
  simp only [Consistent, hc] at hs
  exact hs.2.2.2 hp

theorem loopCall_advance {s : Sequence A C N} (hs : s.Consistent)
    (hp : s.policy.name = .forever) (dt : Float32) (ctx : C) : s.LoopCall (s.advance dt ctx) := by
  have hc : s.status ≠ .complete := hs.status_ne_complete hp
  have hnc : s.begun.status ≠ .complete := status_begun hc ▸ Status.noConfusion
  have hwarns : (s.advance dt ctx).trace.WarnsOfLoop ↔ (s.begun.resume dt ctx).trace.WarnsOfLoop :=
    exists_congr fun name => s.mem_advance_iff dt ctx fun _ _ _ => LogEvent.noConfusion
  have hend := s.passEnd_mem_advance_iff dt ctx
  have hwalk : ¬ (s.begun.walk dt ctx).trace.WarnsOfLoop := by
    rintro ⟨name, hm⟩
    exact s.begun.path_ne_of_mem_walk dt ctx _ hm rfl
  have hwalkEnd : .passEnd ∉ (s.begun.walk dt ctx).trace.marks [] := by simp [marks_walk]
  obtain ⟨companions, hleft⟩ := s.exists_companions_advance dt ctx
  cases hr : (s.begun.walk dt ctx).result with
  | error e =>
    have hfails := failsInBody_of_walk hnc hr
    rw [resume_of_error hnc hr] at hwarns hend hleft
    refine .fails hfails (mt hend.mp hwalkEnd) (mt hwarns.mp hwalk) ?_ ?_
    · rw [hleft]
      exact s.warned_begun
    · rw [hleft]
      rfl
  | ok passed =>
    cases passed with
    | false =>
      have hpauses := pauses_of_walk hs hc hr
      rw [resume_of_held hnc hr] at hwarns hend hleft
      refine .pauses hpauses (mt hend.mp hwalkEnd) (mt hwarns.mp hwalk) ?_ ?_
      · rw [hleft]
        exact s.warned_begun
      · rw [hleft]
        rfl
    | true =>
      have hframe := SameFrame.begun s
      have hforever : (s.begun.stopped (s.begun.walk dt ctx)).policy.name = .forever :=
        (congrArg Policy.name hframe.policy).trans hp
      have hagain := congrArg Evaluation.answer
        (verdict_of_forever hforever (s.begun.walk dt ctx).context)
      have hevents := congrArg Evaluation.events
        (verdict_of_forever hforever (s.begun.walk dt ctx).context)
      have hinstant : (s.begun.stopped (s.begun.walk dt ctx)).isInstantLoop = true ↔
          s.warnOnInstantLoops = true ∧ s.warned = false ∧ s.begun.progress.blocked = false := by
        have hforever' : (s.begun.policy.name == .forever) = true := beq_iff_eq.mpr hforever
        simp only [isInstantLoop, stopped, hforever', hframe.warnOnInstantLoops, s.warned_begun,
          Bool.true_and, Bool.and_eq_true, Bool.not_eq_true']
        exact ⟨fun h => ⟨h.1.2, h.2, h.1.1⟩, fun h => ⟨⟨h.2.2, h.1⟩, h.2.1⟩⟩
      have hwrap := (s.begun.stopped (s.begun.walk dt ctx)).warnsOfLoop_wrap_iff
        (s.begun.walk dt ctx).context
      have hwrapped := (s.begun.stopped (s.begun.walk dt ctx)).warned_wrap
        (s.begun.walk dt ctx).context
      have hmarks := (s.begun.stopped (s.begun.walk dt ctx)).marks_wrap
        (s.begun.walk dt ctx).context
      rw [resume_of_passed hnc hr, finishPass_of_again hagain, hevents] at hwarns hend hleft
      simp only [Advance.after, Trace.here_nil, List.nil_append, Trace.warnsOfLoop_append, hwalk,
        false_or, hwrap, Trace.marks_append, hmarks] at hwarns hend hleft
      refine .wraps (hend.mpr (by simp)) (hwarns.trans hinstant) ?_ ?_
      · rw [hleft, hwarns]
        simp only [hwrapped, Bool.or_eq_true]
        exact or_congr_left (by rw [← s.warned_begun]; rfl)
      · rw [hleft]
        exact congrArg Progress.blocked
          ((s.begun.stopped (s.begun.walk dt ctx)).progress_wrap (s.begun.walk dt ctx).context)

/-- What the state of an endless loop tells about the calls of the pass under way, and about all
calls since a sequence that had given the warning or not. -/
structure LoopBooks (s : Sequence A C N) (pass : List (Advance A C N)) (trace : Trace N)
    (warned : Bool) : Prop where
  consistent : s.Consistent
  policy : s.policy.name = .forever
  each : ∀ call ∈ pass, call.FailsInBody ∨ call.Pauses
  blocked : s.begun.progress.blocked = true ↔ ∃ call ∈ pass, call.Pauses
  warned : s.warned = true ↔ warned = true ∨ trace.WarnsOfLoop

omit [Behavior A C N] in
theorem blocked_begun_of_notStarted {s : Sequence A C N} (h : s.status = .notStarted) :
    s.begun.progress.blocked = false := by
  rw [begun, if_pos h]
  exact congrArg Progress.blocked s.progress_reset

omit [Behavior A C N] in
theorem IsNew.loopBooks {new : Sequence A C N} (h : new.IsNew) (hp : new.policy.name = .forever) :
    new.LoopBooks [] [] new.warned where
  consistent := h.consistent
  policy := hp
  each := by simp
  blocked := by simp [blocked_begun_of_notStarted h.status]
  warned := by simp [Trace.WarnsOfLoop]

omit [Behavior A C N] in
theorem LoopBooks.reset {s : Sequence A C N} {pass : List (Advance A C N)} {trace : Trace N}
    {warned : Bool} (h : s.LoopBooks pass trace warned) : s.reset.LoopBooks [] trace warned where
  consistent := s.isNew_reset.consistent
  policy := by rw [policy_reset]; exact h.policy
  each := by simp
  blocked := by simp [blocked_begun_of_notStarted s.status_reset]
  warned := by
    rw [← h.warned]
    cases s
    rfl

theorem LoopBooks.advance {s : Sequence A C N} {pass : List (Advance A C N)} {trace : Trace N}
    {warned : Bool} (h : s.LoopBooks pass trace warned) (dt : Float32) (ctx : C) :
    let call := s.advance dt ctx
    call.sequence.LoopBooks (if .passEnd ∈ call.trace.marks [] then [] else pass ++ [call])
      (trace ++ call.trace) warned := by
  intro call
  have hbegun : call.sequence.begun = call.sequence := begun_of_ne (s.status_advance_ne dt ctx)
  have hconsistent := (s.isSound_advance dt ctx h.consistent).consistent
  have hpolicy : call.sequence.policy.name = .forever :=
    (congrArg Policy.name (SameFrame.advance s dt ctx).policy).trans h.policy
  have hloop : s.LoopCall call := loopCall_advance h.consistent h.policy dt ctx
  cases hloop with
  | fails hfails hend hwarns hwarned hblocked =>
    have hnot : ¬ call.Pauses := fun hpauses => hpauses.1 hfails
    rw [if_neg hend]
    refine ⟨hconsistent, hpolicy, ?_, ?_, ?_⟩
    · exact List.forall_mem_append.mpr ⟨h.each, List.forall_mem_singleton.mpr (.inl hfails)⟩
    · rw [hbegun, hblocked, h.blocked]
      simp [or_and_right, exists_or, hnot]
    · rw [hwarned, h.warned, Trace.warnsOfLoop_append, or_iff_left hwarns]
  | pauses hpauses hend hwarns hwarned hblocked =>
    rw [if_neg hend]
    refine ⟨hconsistent, hpolicy, ?_, ?_, ?_⟩
    · exact List.forall_mem_append.mpr ⟨h.each, List.forall_mem_singleton.mpr (.inr hpauses)⟩
    · rw [hbegun, hblocked]
      exact iff_of_true rfl ⟨call, by simp, hpauses⟩
    · rw [hwarned, h.warned, Trace.warnsOfLoop_append, or_iff_left hwarns]
  | wraps hend hwarns hwarned hblocked =>
    rw [if_pos hend]
    refine ⟨hconsistent, hpolicy, by simp, ?_, ?_⟩
    · rw [hbegun, hblocked]
      simp
    · rw [hwarned, h.warned, Trace.warnsOfLoop_append, or_assoc]

theorem LoopBooks.after {s : Sequence A C N} {pass : List (Advance A C N)} {trace : Trace N}
    {warned : Bool} (h : s.LoopBooks pass trace warned) (run : List (Command C)) :
    (s.after run).LoopBooks (s.callsOfPass pass run) (trace ++ s.history run) warned := by
  induction run generalizing s pass trace with
  | nil => simpa [Sequence.after, callsOfPass, history] using h
  | cons command run ih =>
    cases command with
    | reset => simpa [Sequence.after, callsOfPass, history, obey, traceOf] using ih h.reset
    | advance dt ctx =>
      simpa [Sequence.after, callsOfPass, history, obey, traceOf] using ih (h.advance dt ctx)

/-- An endless loop is warned of once, at the end of the first pass in which no earlier call left a
step running. As every earlier call of the pass left a step running or failed in the body, the
earlier calls are then just those that failed: a pass without failures is warned of only if it took
a single call. -/
theorem warnsOfLoop_iff {new : Sequence A C N} (hnew : new.IsNew)
    (hp : new.policy.name = .forever) (run : List (Command C)) (dt : Float32) (ctx : C) :
    let call := (new.after run).advance dt ctx
    let pass := new.callsOfPass [] run
    (∀ earlier ∈ pass, earlier.FailsInBody ∨ earlier.Pauses) ∧
      (call.trace.WarnsOfLoop ↔ new.warnOnInstantLoops = true ∧ new.warned = false ∧
        ¬ (new.history run).WarnsOfLoop ∧ .passEnd ∈ call.trace.marks [] ∧
        ∀ earlier ∈ pass, ¬ earlier.Pauses) ∧
      (call.trace.WarnsOfLoop → (∀ earlier ∈ pass, ¬ earlier.FailsInBody) → pass = []) := by
  intro call pass
  have hbooks : (new.after run).LoopBooks pass (new.history run) new.warned :=
    (hnew.loopBooks hp).after run
  have hwarnOn : (new.after run).warnOnInstantLoops = new.warnOnInstantLoops :=
    (SameFrame.after new run).warnOnInstantLoops
  have hunblocked : (new.after run).begun.progress.blocked = false ↔
      ∀ earlier ∈ pass, ¬ earlier.Pauses := by
    rw [← Bool.not_eq_true, hbooks.blocked]
    simp
  have hunwarned : (new.after run).warned = false ↔
      new.warned = false ∧ ¬ (new.history run).WarnsOfLoop := by
    rw [← Bool.not_eq_true, hbooks.warned, not_or, Bool.not_eq_true]
  have hiff : call.trace.WarnsOfLoop ↔ new.warnOnInstantLoops = true ∧ new.warned = false ∧
      ¬ (new.history run).WarnsOfLoop ∧ .passEnd ∈ call.trace.marks [] ∧
      ∀ earlier ∈ pass, ¬ earlier.Pauses := by
    cases loopCall_advance hbooks.consistent hbooks.policy dt ctx with
    | fails _ hend hwarns => exact iff_of_false hwarns fun h => hend h.2.2.2.1
    | pauses _ hend hwarns => exact iff_of_false hwarns fun h => hend h.2.2.2.1
    | wraps hend hwarns =>
      have hends : .passEnd ∈ call.trace.marks [] ↔ True := iff_true_intro hend
      rw [hwarns, hwarnOn, hunwarned, hunblocked, hends]
      simp only [and_assoc, true_and]
  refine ⟨hbooks.each, hiff, fun hwarns hsucceeds => ?_⟩
  obtain ⟨-, -, -, -, hquick⟩ := hiff.mp hwarns
  refine List.eq_nil_iff_forall_not_mem.mpr fun earlier hm => ?_
  exact (hbooks.each earlier hm).elim (hsucceeds earlier hm) (hquick earlier hm)

/-- A loop whose only step fails in its first update and completes in its second one is warned of,
though the step was updated twice in the pass. -/
theorem warnsOfLoop_after_failed_update :
    let tracer : Rehearsal.Tracer := ⟨"once", some 1, 0, 1, 0, 0, .action, false, false, 0⟩
    let s : Sequence Rehearsal.Act Rehearsal.Stage String :=
      (Builder.ofCalls "loop" [.run (.leaf (.custom (.tracer tracer))), .repeatForever]).toSequence
        (fun _ => .ofSeed 0) 0
    let first := s.advance 0.5 .empty
    let second := first.sequence.advance 0.5 .empty
    .passEnd ∉ first.trace.marks [] ∧ .passEnd ∈ second.trace.marks [] ∧
      .update ∈ first.trace.marks [.step 0] ∧ .update ∈ second.trace.marks [.step 0] ∧
      second.trace.WarnsOfLoop := by
  intro tracer s first second
  have hnew : s.IsNew := ⟨rfl, by decide +zetaReduce⟩
  have hsound := s.isSound_advance 0.5 .empty hnew.consistent
  have hend : .passEnd ∈ second.trace.marks [] := by decide +kernel +zetaReduce
  refine ⟨?_, hend, ?_, ?_, ?_⟩
  case refine_4 =>
    cases loopCall_advance hsound.consistent (by decide +kernel +zetaReduce) 0.5 .empty with
    | fails _ hgoesOn => exact absurd hend hgoesOn
    | pauses _ hgoesOn => exact absurd hend hgoesOn
    | wraps _ hwarns =>
      exact hwarns.mpr ⟨by decide +kernel, by decide +kernel, by decide +kernel⟩
  all_goals decide +kernel +zetaReduce

/-- The same loop with an action that completes in its first update. -/
theorem warnsOfLoop_iff_of_instant :
    let tracer : Rehearsal.Tracer := ⟨"once", some 1, 0, 0, 0, 0, .action, false, false, 0⟩
    let s : Sequence Rehearsal.Act Rehearsal.Stage String :=
      (Builder.ofCalls "loop" [.run (.leaf (.custom (.tracer tracer))), .repeatForever]).toSequence
        (fun _ => .ofSeed 0) 0
    s.IsNew ∧ s.policy.name = .forever ∧ (s.advance 0.5 .empty).trace.WarnsOfLoop := by
  intro tracer s
  have hnew : s.IsNew := ⟨rfl, by decide +zetaReduce⟩
  obtain ⟨-, hiff, -⟩ := warnsOfLoop_iff hnew rfl [] 0.5 .empty
  refine ⟨hnew, rfl, hiff.mpr ⟨rfl, rfl, ?_, by decide +kernel +zetaReduce, ?_⟩⟩
  · rintro ⟨name, hm⟩
    cases hm
  · intro earlier hm
    cases hm

end Sequence

end Sequencer

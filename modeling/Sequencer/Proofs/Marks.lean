import Sequencer.Proofs.Histories
import Sequencer.Proofs.Letters

/-!
# The marks of a tick

What a tick must not do twice, as marks at a place of the tree: a part is ticked, the action of a
leaf is updated, a step completes, a pass ends. Whatever else a visit leaves at the part itself is
no mark, so that the marks of every visit can be listed. The main statement, that no mark comes
twice in a tick of the root, follows from the number of visits.
-/

namespace Sequencer

variable {A C N : Type}

/-- An event that matters for the discipline of ticks. -/
inductive Mark
  | tick
  | update
  /-- A step has completed. -/
  | stepEnd
  /-- A sequence has finished a pass. -/
  | passEnd
  deriving DecidableEq

def Event.mark? : Event N → Option Mark
  | .ticked => some .tick
  | .updated _ => some .update
  | .log (.stepComplete _) => some .stepEnd
  | .log (.sequenceWrapped ..) => some .passEnd
  | .log (.sequenceComplete ..) => some .passEnd
  | _ => none

namespace Trace

/-- The marks at a path, in the order of time. -/
def marks (path : List Hop) (trace : Trace N) : List Mark :=
  (trace.eventsAt path).filterMap Event.mark?

@[simp] theorem marks_nil (path : List Hop) : marks path ([] : Trace N) = [] := rfl

@[simp] theorem marks_append (path : List Hop) (t u : Trace N) :
    marks path (t ++ u) = marks path t ++ marks path u := by
  simp [marks, eventsAt]

theorem marks_within (path place : List Hop) (t : Trace N) :
    marks place (t.within path) = marks (path ++ place) t := by
  rw [marks, eventsAt_within, marks]

theorem marks_eq_nil {path : List Hop} {t : Trace N} (h : ∀ e ∈ t, e.path ≠ path) :
    marks path t = [] := by
  have hf : t.filter (fun e => e.path = path) = [] := by
    rw [List.filter_eq_nil_iff]
    intro e he hp
    exact h e he (of_decide_eq_true hp)
  simp [marks, eventsAt, hf]

theorem marks_under_nil (hop : Hop) (t : Trace N) : marks [] (t.under hop) = [] := by
  apply marks_eq_nil
  intro e he
  obtain ⟨e', _, rfl⟩ := List.mem_map.mp he
  exact List.cons_ne_nil _ _

theorem marks_under_cons (hop : Hop) (path : List Hop) (t : Trace N) :
    marks (hop :: path) (t.under hop) = marks path t := by
  have h := marks_within [hop] path (t.under hop)
  rw [within, inside_under_self] at h
  exact h.symm

theorem marks_under_of_ne {hop other : Hop} (h : other ≠ hop) (path : List Hop) (t : Trace N) :
    marks (hop :: path) (t.under other) = [] := by
  apply marks_eq_nil
  intro e he
  obtain ⟨e', _, rfl⟩ := List.mem_map.mp he
  exact fun hp => h (List.cons.inj hp).1

theorem marks_line (line : LogEvent) :
    marks [] (Trace.line line : Trace N) = (Event.mark? (.log line : Event N)).toList := by
  cases line <;> rfl

theorem marks_cons_here (event : Event N) (t : Trace N) :
    marks [] (⟨[], event⟩ :: t) = event.mark?.toList ++ marks [] t := by
  cases h : event.mark? <;> simp [marks, eventsAt, h]

theorem marks_cons_of_ne (hop : Hop) (path : List Hop) (event : Event N) (t : Trace N) :
    marks (hop :: path) (⟨[], event⟩ :: t) = marks (hop :: path) t := by
  simp [marks, eventsAt]

theorem marks_here (events : List (Event N)) :
    marks [] (here events) = events.filterMap Event.mark? := by
  induction events with
  | nil => rfl
  | cons event events ih =>
    have hc : here (event :: events) = ⟨[], event⟩ :: here events := rfl
    rw [hc, marks_cons_here, ih]
    cases h : event.mark? <;> simp [h]

end Trace

theorem filterMap_mark?_of_isDecision {events : List (Event N)}
    (h : ∀ e ∈ events, e.isDecision = true) : events.filterMap Event.mark? = [] := by
  refine filterMap_of_isDecision (fun e hd => ?_) h
  cases e with
  | log line => cases hd
  | _ => first | rfl | cases hd

theorem filterMap_mark?_note (notes : List N) :
    notes.filterMap (Event.mark? ∘ Event.note) = [] := by
  rw [List.filterMap_eq_nil_iff]
  intro n _
  rfl

namespace Action

variable [Behavior A C N]

theorem marks_reload (a : Action A C N) : a.reload.1.filterMap Event.mark? = [] := by
  cases a with
  | custom a => simp [reload, Event.mark?, filterMap_mark?_note]
  | _ => rfl

theorem marks_start (a : Action A C N) (ctx : C) :
    (a.start ctx).events.filterMap Event.mark? = [] := by
  cases a with
  | custom a => simp [start, Event.mark?, filterMap_mark?_note]
  | _ => rfl

theorem marks_enter (a : Action A C N) (ctx : C) :
    (a.enter ctx).events.filterMap Event.mark? = [] := by
  rw [enter, List.filterMap_append, marks_reload, marks_start]
  rfl

theorem marks_update (a : Action A C N) (dt : Float32) (ctx : C) :
    (a.update dt ctx).events.filterMap Event.mark? = [.update] := by
  cases a with
  | callback c =>
    simp only [update]
    split <;> simp [Event.mark?, List.filterMap_cons, filterMap_mark?_note]
  | custom a => simp [update, Event.mark?, filterMap_mark?_note]
  | _ => rfl

theorem marks_check (a : Action A C N) (ctx : C) :
    (a.check ctx).events.filterMap Event.mark? = [] := by
  cases a with
  | waitUntil condition =>
    have h := filterMap_mark?_of_isDecision (condition.isDecision_evaluate ctx)
    simp [check, h, Event.mark?]
  | custom a => simp [check, Event.mark?, filterMap_mark?_note]
  | _ => rfl

theorem marks_finish (a : Action A C N) (ctx : C) :
    (a.finish ctx).events.filterMap Event.mark? = [] := by
  cases a with
  | custom a => simp [finish, Event.mark?, filterMap_mark?_note]
  | _ => rfl

theorem marks_drive (a : Action A C N) (dt : Float32) (ctx : C) :
    (a.drive dt ctx).events.filterMap Event.mark? = [.update] := by
  simp only [drive]
  split
  · exact marks_update a dt ctx
  · split <;> simp [marks_update, marks_check, marks_finish]

end Action

def endMarks : Except TickError Bool → List Mark
  | .ok true => [.stepEnd]
  | _ => []

theorem StepTick.marks_ofDriven (shape : StepShape) (trace : Trace N) (ctx : C)
    (generator : Generator) (kind : StepKind A C N) (result : Except TickError Bool) :
    (StepTick.ofDriven shape trace ctx generator kind result).trace.marks [] =
      trace.marks [] ++ endMarks result := by
  match result with
  | .ok true => simp [ofDriven, endMarks, Trace.marks_line, Event.mark?]
  | .ok false => simp [ofDriven, endMarks]
  | .error e => simp [ofDriven, endMarks]

section

variable [Behavior A C N]

theorem marks_advanceAll (dt : Float32) (hop : Nat → Hop) (members : List (Sequence A C N))
    (index : Nat) (ctx : C) : (advanceAll false dt hop index members ctx).trace.marks [] = [] := by
  apply Trace.marks_eq_nil
  intro e he
  obtain ⟨k, place, hp⟩ := exists_hop_of_mem_advanceAll dt hop members index ctx e he
  exact hp ▸ List.cons_ne_nil _ _

theorem Step.path_of_mem_activate (s : Step A C N) (ctx : C) (generator : Generator) :
    ∀ e ∈ (s.activate ctx generator).trace, e.path = [] := by
  have hhere : ∀ events : List (Event N), ∀ e ∈ Trace.here events, e.path = [] := by
    intro events e he
    obtain ⟨event, _, rfl⟩ := List.mem_map.mp he
    rfl
  have hline : ∀ line : LogEvent, ∀ e ∈ (Trace.line line : Trace N), e.path = [] := by
    intro line e he
    rw [List.mem_singleton.mp he]
  obtain ⟨state, kind⟩ := s
  intro e he
  cases kind with
  | leaf action =>
    simp only [Step.activate] at he
    split at he
    · exact hhere _ e he
    · rcases List.mem_append.mp he with he | he
      · exact hhere _ e he
      · exact hline _ e he
  | nested body => exact hline _ e he
  | parallel group => exact hline _ e he
  | branch branch =>
    simp only [Step.activate] at he
    split at he
    · exact hhere _ e he
    · rcases List.mem_append.mp he with he | he
      · rcases List.mem_append.mp he with he | he
        · exact hhere _ e he
        · exact hline _ e he
      · exact hline _ e he

theorem Step.marks_activate (s : Step A C N) (ctx : C) (generator : Generator) :
    (s.activate ctx generator).trace.marks [] = [] := by
  obtain ⟨state, kind⟩ := s
  cases kind with
  | leaf action =>
    have h := action.marks_enter ctx
    simp only [Step.activate]
    split
    · rw [Trace.marks_here, h]
    · rw [Trace.marks_append, Trace.marks_here, h]
      rfl
  | nested body => rfl
  | parallel group => rfl
  | branch branch =>
    have h := filterMap_mark?_of_isDecision
      (branch.selector.isDecision_select branch.children.length ctx generator)
    simp only [Step.activate]
    split
    · rw [Trace.marks_here, h]
    · simp [Selection.trace, Trace.marks_here, h, Trace.marks_line, Event.mark?]

/-- Driving a step updates at most one leaf at it, and completes it or not. -/
theorem StepKind.marks_tick (kind : StepKind A C N) (dt : Float32) (ctx : C)
    (generator : Generator) :
    let t := StepKind.tick false dt kind ctx generator
    ∃ updates, updates.Sublist [Mark.update] ∧ t.trace.marks [] = updates ++ endMarks t.result := by
  match kind with
  | .leaf action =>
    have h := action.marks_drive dt ctx
    refine ⟨[.update], List.Sublist.refl _, ?_⟩
    simp [StepKind.tick, StepTick.ofAction, StepTick.marks_ofDriven, StepTick.result_ofDriven,
      activation, Trace.marks_here, h]
  | .nested body =>
    refine ⟨[], List.nil_sublist _, ?_⟩
    simp [StepKind.tick, StepTick.ofBody, StepTick.marks_ofDriven, StepTick.result_ofDriven,
      activation, Trace.marks_under_nil]
  | .parallel ⟨completion, members⟩ =>
    refine ⟨[], List.nil_sublist _, ?_⟩
    simp [StepKind.tick, StepTick.ofRound, StepTick.marks_ofDriven, StepTick.result_ofDriven,
      activation, marks_advanceAll]
  | .branch ⟨selector, children, none⟩ =>
    refine ⟨[], List.nil_sublist _, ?_⟩
    simp [StepKind.tick, StepTick.ofBranch, StepTick.ofChosen, StepTick.marks_ofDriven,
      StepTick.result_ofDriven]
  | .branch ⟨selector, children, some index⟩ =>
    refine ⟨[], List.nil_sublist _, ?_⟩
    simp [StepKind.tick, StepTick.ofBranch, StepTick.ofChosen, StepTick.marks_ofDriven,
      StepTick.result_ofDriven, Trace.marks_under_nil]

theorem Step.marks_tick {s : Step A C N} (h : s.state ≠ .complete) (dt : Float32) (ctx : C)
    (generator : Generator) :
    let t := Step.tick false dt s ctx generator
    ∃ updates, updates.Sublist [Mark.update] ∧
      t.trace.marks [] = .tick :: updates ++ endMarks t.result := by
  match hs : s.state with
  | .complete => exact absurd hs h
  | .active =>
    obtain ⟨updates, hu, hm⟩ := s.kind.marks_tick dt ctx generator
    rw [Step.tick_of_active hs]
    exact ⟨updates, hu, (Trace.marks_cons_here _ _).trans (congrArg (Mark.tick :: ·) hm)⟩
  | .notStarted =>
    have ha := s.marks_activate ctx generator
    cases hr : (s.activate ctx generator).result with
    | error e =>
      rw [Step.tick_of_entry_error hs hr]
      exact ⟨[], List.nil_sublist _,
        (Trace.marks_cons_here _ _).trans (congrArg (Mark.tick :: ·) ha)⟩
    | ok entered =>
      rw [Step.tick_of_entry hs hr]
      obtain ⟨updates, hu, hm⟩ := StepKind.marks_tick (s.activate ctx generator).step.kind dt
        (s.activate ctx generator).context (s.activate ctx generator).generator
      refine ⟨updates, hu, (Trace.marks_cons_here _ _).trans (congrArg (Mark.tick :: ·) ?_)⟩
      rw [Trace.marks_append, ha]
      exact hm

theorem marks_walk (s : Sequence A C N) (dt : Float32) (ctx : C) :
    (s.walk dt ctx).trace.marks [] = [] :=
  Trace.marks_eq_nil (s.path_ne_of_mem_walk dt ctx)

omit [Behavior A C N] in
theorem Sequence.marks_wrapLines (s : Sequence A C N) : s.wrapLines.marks [] = [.passEnd] := by
  unfold Sequence.wrapLines
  split <;> rfl

omit [Behavior A C N] in
theorem Sequence.marks_opening (s : Sequence A C N) : s.opening.marks [] = [] := by
  unfold Sequence.opening
  split <;> rfl

omit [Behavior A C N] in
theorem Sequence.marks_verdict (s : Sequence A C N) (ctx : C) :
    (Trace.here (s.verdict ctx).events).marks [] = [] := by
  rw [Trace.marks_here]
  exact filterMap_mark?_of_isDecision (s.policy.isDecision_again _ ctx)

theorem Sequence.marks_wrap (s : Sequence A C N) (ctx : C) :
    (s.wrap ctx).trace.marks [] = [.passEnd] := by
  cases h : s.steps with
  | nil =>
    rw [Sequence.wrap_of_nil h]
    exact s.marks_wrapLines
  | cons first rest =>
    rw [Sequence.wrap_of_cons h]
    simp [s.marks_wrapLines, Trace.marks_under_nil]

theorem Sequence.marks_finishPass (s : Sequence A C N) (ctx : C) :
    ((s.finishPass ctx).trace.marks []).Sublist [.passEnd] := by
  have hv := s.marks_verdict ctx
  match ha : (s.verdict ctx).answer with
  | .error e =>
    rw [Sequence.finishPass_of_error ha]
    exact hv ▸ List.nil_sublist _
  | .ok true =>
    rw [Sequence.finishPass_of_again ha]
    simp [Advance.after, hv, s.marks_wrap]
  | .ok false =>
    rw [Sequence.finishPass_of_over ha]
    simp [hv, Trace.marks_line, Event.mark?]

theorem Sequence.marks_resume (s : Sequence A C N) (dt : Float32) (ctx : C) :
    ((s.resume dt ctx).trace.marks []).Sublist [.passEnd] := by
  have hw := marks_walk s dt ctx
  by_cases hc : s.status = .complete
  · rw [Sequence.resume_of_complete hc]
    exact List.nil_sublist _
  · match hr : (s.walk dt ctx).result with
    | .ok true =>
      rw [Sequence.resume_of_passed hc hr]
      simpa [Advance.after, hw] using (s.stopped _).marks_finishPass (s.walk dt ctx).context
    | .ok false =>
      rw [Sequence.resume_of_held hc hr]
      exact hw ▸ List.nil_sublist _
    | .error e =>
      rw [Sequence.resume_of_error hc hr]
      exact hw ▸ List.nil_sublist _

/-- A tick of a sequence finishes at most one pass. -/
theorem Sequence.marks_advance (s : Sequence A C N) (dt : Float32) (ctx : C) :
    ∃ ends, ends.Sublist [Mark.passEnd] ∧ (s.advance dt ctx).trace.marks [] = .tick :: ends := by
  have hb := s.begun.marks_resume dt ctx
  refine ⟨_, hb, ?_⟩
  match hr : (s.begun.resume dt ctx).result with
  | .error e =>
    rw [Sequence.advance_of_error hr]
    simp [Trace.marks_cons_here, Event.mark?, s.marks_opening]
  | .ok o =>
    rw [Sequence.advance_of_ok hr]
    simp [Trace.marks_cons_here, Event.mark?, s.marks_opening, marks_advanceAll]

/-- A visit leaves no mark twice, and none at all if it does not tick its part. -/
theorem Part.count_marks_visit (part : Part A C N) (v : Visit C) (mark : Mark) :
    ((part.visit v).trace.marks []).count mark ≤ v.ticks := by
  have hone : ∀ marks : List Mark, marks.Sublist [.tick, .update, .stepEnd, .passEnd] →
      marks.count mark ≤ 1 := by
    intro marks hs
    refine Nat.le_trans (hs.count_le mark) ?_
    cases mark <;> decide
  match part, v with
  | _, .reset => exact Nat.le_refl 0
  | .sequence s, .enter ctx generator => exact Nat.le_refl 0
  | .step s, .enter ctx generator =>
    have h := s.marks_activate ctx generator
    simp [Part.visit, h]
  | .sequence s, .tick dt ctx generator =>
    obtain ⟨ends, he, hm⟩ := s.marks_advance dt ctx
    apply hone
    rw [Part.visit, hm]
    exact .cons_cons _ (.cons _ (.cons _ he))
  | .step s, .tick dt ctx generator =>
    apply hone
    by_cases hs : s.state = .complete
    · rw [Part.visit, Step.tick_of_complete hs]
      exact .cons_cons _ (List.nil_sublist _)
    · obtain ⟨updates, hu, hm⟩ := Step.marks_tick hs dt ctx generator
      rw [Part.visit, hm]
      have hend : ∀ result : Except TickError Bool,
          (endMarks result).Sublist [Mark.stepEnd, .passEnd] := by
        intro result
        unfold endMarks
        split
        · exact .cons_cons _ (List.nil_sublist _)
        · exact List.nil_sublist _
      exact .cons_cons _ (hu.append (hend _))

theorem Part.count_marks_visits (part : Part A C N) (vs : List (Visit C)) (mark : Mark) :
    ((part.visits vs).trace.marks []).count mark ≤ ticksOf vs := by
  induction vs generalizing part with
  | nil => exact Nat.le_refl 0
  | cons v vs ih =>
    have hfirst := part.count_marks_visit v mark
    have hlater := ih (part.visit v).part
    rw [Part.visits, Trace.marks_append, List.count_append]
    simp only [ticksOf] at hlater ⊢
    omega

/-- In a tick of the root no part is ticked twice, updated twice, or at the end of a pass twice. -/
theorem Sequence.count_marks_advance (s : Sequence A C N) (dt : Float32) (ctx : C)
    {path : List Hop} {part : Part A C N} (h : (Part.sequence s).find? path = some part)
    (mark : Mark) : ((s.advance dt ctx).trace.marks path).count mark ≤ 1 := by
  obtain ⟨vs, _, ht, hn⟩ := s.exists_visits [.advance dt ctx] path h
  have hc := part.count_marks_visits vs mark
  have hhist : s.history [.advance dt ctx] = (s.advance dt ctx).trace := List.append_nil _
  rw [ht, Trace.marks_within, hhist, List.append_nil] at hc
  exact Nat.le_trans hc hn

end

end Sequencer

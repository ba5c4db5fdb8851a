import Sequencer.Proofs.Histories

/-!
# What the status of a sequence says

A sequence that was not started is at its beginning; in a running one the steps before the cursor
are complete, the one at the cursor is not, and no later one is entered; in a complete one all are
complete. Every call keeps this up, whether it succeeds or fails, and its result agrees with the
status. The cursor of a running sequence stands behind the last step only after the condition that
ends the repetition has failed.
-/

namespace Sequencer

variable {A C N : Type}

/-- States of steps of which the first `cursor` ones are complete, the next one is not, and no later
one is entered. -/
def Lined : List StepState → Nat → Prop
  | [], cursor => cursor = 0
  | state :: rest, 0 => state ≠ .complete ∧ ∀ later ∈ rest, later = .notStarted
  | state :: rest, cursor + 1 => state = .complete ∧ Lined rest cursor

namespace Lined

theorem le_length {states : List StepState} {cursor : Nat} (h : Lined states cursor) :
    cursor ≤ states.length := by
  induction states generalizing cursor with
  | nil => exact Nat.le_of_eq h
  | cons state rest ih =>
    cases cursor with
    | zero => exact Nat.zero_le _
    | succ cursor => exact Nat.succ_le_succ (ih h.2)

theorem getElem {states : List StepState} {cursor : Nat} (h : Lined states cursor) {i : Nat}
    {state : StepState} (hi : states[i]? = some state) :
    (i < cursor → state = .complete) ∧ (i = cursor → state ≠ .complete) ∧
      (cursor < i → state = .notStarted) := by
  induction states generalizing cursor i with
  | nil => simp at hi
  | cons first rest ih =>
    cases cursor with
    | zero =>
      cases i with
      | zero =>
        obtain rfl : first = state := by simpa using hi
        exact ⟨fun hl => absurd hl (Nat.lt_irrefl 0), fun _ => h.1,
          fun hl => absurd hl (Nat.lt_irrefl 0)⟩
      | succ i =>
        have hr : rest[i]? = some state := by simpa using hi
        exact ⟨fun hl => absurd hl (Nat.not_lt_zero _), fun he => absurd he (Nat.succ_ne_zero i),
          fun _ => h.2 state (List.mem_of_getElem? hr)⟩
    | succ cursor =>
      cases i with
      | zero =>
        obtain rfl : first = state := by simpa using hi
        exact ⟨fun _ => h.1, fun he => absurd he (Nat.succ_ne_zero cursor).symm,
          fun hl => absurd hl (Nat.not_lt_zero _)⟩
      | succ i =>
        have hr : rest[i]? = some state := by simpa using hi
        obtain ⟨hb, ha, hl⟩ := ih h.2 hr
        exact ⟨fun hi => hb (by omega), fun hi => ha (by omega), fun hi => hl (by omega)⟩

theorem of_all_notStarted {states : List StepState} (h : ∀ state ∈ states, state = .notStarted) :
    Lined states 0 := by
  cases states with
  | nil => rfl
  | cons state rest =>
    have hs := h state List.mem_cons_self
    exact ⟨hs ▸ StepState.noConfusion, fun s hl => h s (List.mem_cons_of_mem _ hl)⟩

theorem complete_of_length {states : List StepState} (h : Lined states states.length) :
    ∀ state ∈ states, state = .complete := by
  intro state hs
  obtain ⟨i, hi⟩ := List.getElem?_of_mem hs
  exact (h.getElem hi).1 (List.getElem?_eq_some_iff.mp hi).1

theorem of_getElem {states : List StepState} {cursor : Nat} (hle : cursor ≤ states.length)
    (h : ∀ i state, states[i]? = some state → (i < cursor → state = .complete) ∧
      (i = cursor → state ≠ .complete) ∧ (cursor < i → state = .notStarted)) :
    Lined states cursor := by
  induction states generalizing cursor with
  | nil => exact Nat.le_zero.mp hle
  | cons first rest ih =>
    cases cursor with
    | zero =>
      refine ⟨(h 0 first rfl).2.1 rfl, ?_⟩
      intro later hl
      obtain ⟨i, hi⟩ := List.getElem?_of_mem hl
      exact (h (i + 1) later (by simpa using hi)).2.2 (Nat.succ_pos i)
    | succ cursor =>
      refine ⟨(h 0 first rfl).1 (Nat.succ_pos cursor), ih (Nat.le_of_succ_le_succ hle) ?_⟩
      intro i state hi
      obtain ⟨hb, ha, hl⟩ := h (i + 1) state (by simpa using hi)
      exact ⟨fun hi => hb (by omega), fun hi => ha (by omega), fun hi => hl (by omega)⟩

end Lined

/-- Whether the state of a step after its tick agrees with the result of the tick. -/
def StepTick.IsSettled (t : StepTick A C N) : Prop :=
  match t.result with
  | .ok true => t.step.state = .complete
  | .ok false => t.step.state = .active
  | .error _ => t.step.state ≠ .complete

theorem StepTick.isSettled_ofDriven (shape : StepShape) (trace : Trace N) (ctx : C)
    (generator : Generator) (kind : StepKind A C N) (result : Except TickError Bool) :
    (StepTick.ofDriven shape trace ctx generator kind result).IsSettled := by
  match result with
  | .ok true => rfl
  | .ok false => rfl
  | .error e => exact StepState.noConfusion

theorem StepTick.isSettled_ofChosen (earlier : Trace N) (b : Branch A C N) (chosen : Option Nat)
    (tickChild : Nat → C → Generator → ChildTick A C N) (ctx : C) (generator : Generator) :
    (StepTick.ofChosen earlier b chosen tickChild ctx generator).IsSettled := by
  unfold StepTick.ofChosen
  split <;> exact isSettled_ofDriven ..

section Steps

variable [Behavior A C N]

theorem StepKind.isSettled_tick (entering : Bool) (dt : Float32) (kind : StepKind A C N) (ctx : C)
    (generator : Generator) : (StepKind.tick entering dt kind ctx generator).IsSettled := by
  match kind with
  | .leaf action =>
    simp only [StepKind.tick, StepTick.ofAction]
    split
    · exact StepState.noConfusion
    · exact StepTick.isSettled_ofDriven ..
  | .nested body => exact StepTick.isSettled_ofDriven ..
  | .parallel ⟨completion, members⟩ => exact StepTick.isSettled_ofDriven ..
  | .branch ⟨selector, children, chosen⟩ =>
    simp only [StepKind.tick, StepTick.ofBranch]
    split
    · split
      · exact StepState.noConfusion
      · exact StepTick.isSettled_ofChosen ..
    · exact StepTick.isSettled_ofChosen ..

theorem Step.isSettled_tick (fresh : Bool) (dt : Float32) (s : Step A C N) (ctx : C)
    (generator : Generator) : (Step.tick fresh dt s ctx generator).IsSettled := by
  obtain ⟨state, kind⟩ := s
  simp only [Step.tick]
  split
  · exact StepKind.isSettled_tick true dt kind ctx generator
  · exact StepKind.isSettled_tick false dt kind ctx generator
  · rfl

theorem Step.state_activate_of_error (s : Step A C N) {ctx : C} {generator : Generator}
    {e : TickError} (h : (s.activate ctx generator).result = .error e) :
    (s.activate ctx generator).step.state = s.state := by
  obtain ⟨state, kind⟩ := s
  cases kind with
  | leaf action =>
    simp only [Step.activate] at h ⊢
    split at h <;> simp_all
  | nested body => cases h
  | parallel group => cases h
  | branch branch =>
    simp only [Step.activate] at h ⊢
    split at h <;> simp_all

/-- Where a cascade stops: behind the last step, at a step that is active, or at one that failed. -/
def Cascade.StopsAt (k : Cascade A C N) (place : Nat) : Prop :=
  match k.result with
  | .ok true => place = k.steps.length
  | .ok false => (k.steps.map Step.state)[place]? = some .active
  | .error _ => place < k.steps.length

/-- A cascade leaves the row of steps as it should be, with the cursor where it stops. -/
theorem lined_cascade (dt : Float32) (steps : List (Step A C N)) (index skip : Nat) (ctx : C)
    (generator : Generator) (h : Lined (steps.map Step.state) skip) :
    let k := cascade false dt index steps skip ctx generator
    ∃ place, k.cursor = index + place ∧ skip ≤ place ∧ Lined (k.steps.map Step.state) place ∧
      k.StopsAt place := by
  induction steps generalizing index skip ctx generator with
  | nil =>
    obtain rfl : skip = 0 := h
    exact ⟨0, rfl, Nat.le_refl 0, rfl, rfl⟩
  | cons first rest ih =>
    cases skip with
    | zero =>
      have hrest : ∀ later ∈ rest.map Step.state, later = .notStarted := h.2
      have hs := Step.isSettled_tick false dt first ctx generator
      rw [cascade_cons_zero]
      generalize Step.tick false dt first ctx generator = t at hs
      obtain ⟨trace, context, generator', step, result⟩ := t
      match result with
      | .ok true =>
        obtain ⟨place, hp, _, hl, hk⟩ := ih (index + 1) 0 context generator'
          (.of_all_notStarted hrest)
        refine ⟨place + 1, ?_, Nat.zero_le _, ⟨hs, hl⟩, ?_⟩
        · exact hp.trans (Nat.add_right_comm index 1 place)
        · simp only [Cascade.StopsAt, StepTick.andThen] at hk ⊢
          split at hk <;> simp_all
      | .ok false =>
        have ha : step.state = .active := hs
        have hn : step.state ≠ .complete := ha ▸ StepState.noConfusion
        exact ⟨0, rfl, Nat.le_refl 0, ⟨hn, hrest⟩, congrArg some ha⟩
      | .error e => exact ⟨0, rfl, Nat.le_refl 0, ⟨hs, hrest⟩, Nat.succ_pos _⟩
    | succ skip =>
      obtain ⟨place, hp, hle, hl, hk⟩ := ih (index + 1) skip ctx generator h.2
      rw [cascade_cons_succ]
      refine ⟨place + 1, ?_, Nat.succ_le_succ hle, ⟨h.1, hl⟩, ?_⟩
      · exact hp.trans (Nat.add_right_comm index 1 place)
      · simp only [Cascade.StopsAt, Cascade.behind] at hk ⊢
        split at hk <;> simp_all

end Steps

namespace Sequence

/-- What the status of a sequence says about the rest of its progress and about its steps. -/
def Consistent (s : Sequence A C N) : Prop :=
  match s.status with
  | .notStarted =>
    s.cursor = 0 ∧ s.passes = 0 ∧ ∀ i state, s.stepState? i = some state → state = .notStarted
  | .running =>
    s.cursor ≤ s.size ∧ ∀ i state, s.stepState? i = some state →
      (i < s.cursor → state = .complete) ∧ (i = s.cursor → state ≠ .complete) ∧
        (s.cursor < i → state = .notStarted)
  | .complete =>
    s.cursor = s.size ∧ (∀ i state, s.stepState? i = some state → state = .complete) ∧
      1 ≤ s.passes ∧ s.policy.name ≠ .forever

/-- A sequence that has never been ticked, whatever has become of the sequences inside. -/
def IsNew (s : Sequence A C N) : Prop :=
  s.progress = .initial s.policy ∧ ∀ step ∈ s.steps, step.state = .notStarted

theorem stepState?_eq (s : Sequence A C N) (i : Nat) :
    s.stepState? i = (s.steps.map Step.state)[i]? := by
  simp [stepState?]

theorem consistent_running_iff {s : Sequence A C N} (h : s.status = .running) :
    s.Consistent ↔ Lined (s.steps.map Step.state) s.cursor := by
  simp only [Consistent, h, stepState?_eq, size, ← List.length_map (f := Step.state)]
  exact ⟨fun hc => .of_getElem hc.1 hc.2, fun hl => ⟨hl.le_length, fun _ _ hi => hl.getElem hi⟩⟩

theorem IsNew.status {s : Sequence A C N} (h : s.IsNew) : s.status = .notStarted := by
  rw [Sequence.status, h.1]
  rfl

theorem isNew_reset (s : Sequence A C N) : s.reset.IsNew := by
  refine ⟨by rw [progress_reset, policy_reset], ?_⟩
  intro step hs
  rw [steps_reset] at hs
  obtain ⟨old, _, rfl⟩ := List.mem_map.mp hs
  rfl

theorem IsNew.consistent {s : Sequence A C N} (h : s.IsNew) : s.Consistent := by
  unfold Consistent
  rw [h.status]
  refine ⟨congrArg Progress.cursor h.1, congrArg Progress.passes h.1, ?_⟩
  intro i state hi
  obtain ⟨step, hs, rfl⟩ := Option.map_eq_some_iff.mp hi
  exact h.2 step (List.mem_of_getElem? hs)

end Sequence

/-- What the result of a tick says about the sequence that is left. -/
structure Advance.IsSound (a : Advance A C N) : Prop where
  consistent : a.sequence.Consistent
  complete_iff : ∀ o, a.result = .ok o → (o = .complete ↔ a.sequence.status = .complete)
  active : a.result = .ok .running → a.sequence.steps ≠ [] →
    a.sequence.stepState? a.sequence.cursor = some .active
  /-- The cursor is behind the last step only if the condition at the end of the pass failed. -/
  failed : a.sequence.status = .running → a.sequence.steps ≠ [] →
    a.sequence.cursor = a.sequence.size → a.sequence.policy.name = .untilHolds ∧
      ∃ e earlier, a.result = .error e ∧ a.trace = earlier ++ [⟨[], .repeatChecked (.error e)⟩]

theorem Advance.IsSound.after {a : Advance A C N} (h : a.IsSound) (earlier : Trace N) :
    (a.after earlier).IsSound where
  consistent := h.consistent
  complete_iff := h.complete_iff
  active := h.active
  failed hr hn hc := by
    obtain ⟨hp, e, before, he, ht⟩ := h.failed hr hn hc
    exact ⟨hp, e, earlier ++ before, he, by simp [Advance.after, ht]⟩

theorem Advance.IsSound.of_running {a : Advance A C N} (hs : a.sequence.status = .running)
    (hl : Lined (a.sequence.steps.map Step.state) a.sequence.cursor)
    (hlt : a.sequence.cursor < a.sequence.size)
    (hr : (∃ e, a.result = .error e) ∨
      a.result = .ok .running ∧ a.sequence.stepState? a.sequence.cursor = some .active) :
    a.IsSound where
  consistent := (Sequence.consistent_running_iff hs).mpr hl
  complete_iff o ho := by
    rcases hr with ⟨e, he⟩ | ⟨hr, _⟩
    · rw [he] at ho
      cases ho
    · rw [hr] at ho
      obtain rfl : Outcome.running = o := Except.ok.inj ho
      simp [hs]
  active ho _ := by
    rcases hr with ⟨e, he⟩ | ⟨_, ha⟩
    · rw [he] at ho
      cases ho
    · exact ha
  failed _ _ hc := absurd hc (Nat.ne_of_lt hlt)

/-- Only a condition can fail at the end of a pass, and it leaves its failure as the last event. -/
theorem Policy.events_again_of_error {policy : Policy C N} {remaining : Nat} {ctx : C}
    {e : TickError} (h : (policy.again remaining ctx).answer = .error e) :
    policy.name = .untilHolds ∧
      ∃ earlier, (policy.again remaining ctx).events = earlier ++ [.repeatChecked (.error e)] := by
  cases policy with
  | once => cases h
  | count passes => cases h
  | untilHolds condition =>
    simp only [Policy.again] at h ⊢
    cases ha : (condition.evaluate ctx).answer with
    | error e' =>
      rw [ha] at h
      obtain rfl : e' = e := Except.error.inj h
      exact ⟨rfl, _, rfl⟩
    | ok answer =>
      rw [ha] at h
      cases h
  | forever => cases h

theorem Policy.name_of_over {policy : Policy C N} {remaining : Nat} {ctx : C}
    (h : (policy.again remaining ctx).answer = .ok false) : policy.name ≠ .forever := by
  cases policy with
  | forever => cases h
  | _ => exact PolicyName.noConfusion

section Sequences

variable [Behavior A C N]

theorem Sequence.isSound_wrap (s : Sequence A C N) (ctx : C) (h : s.status = .running) :
    (s.wrap ctx).IsSound := by
  cases hs : s.steps with
  | nil =>
    rw [Sequence.wrap_of_nil hs]
    have hstatus : s.rewound.status = .running := h
    have hsteps : s.rewound.steps = [] := by simp [Sequence.rewound, hs]
    refine ⟨?_, ?_, fun _ hn => absurd hsteps hn, fun _ hn => absurd hsteps hn⟩
    · rw [Sequence.consistent_running_iff hstatus, hsteps]
      rfl
    · rintro o ho
      obtain rfl : Outcome.running = o := Except.ok.inj ho
      simp [hstatus]
  | cons first rest =>
    rw [Sequence.wrap_of_cons hs]
    have hrest : ∀ later ∈ (rest.map Step.reset).map Step.state, later = .notStarted := by
      intro later hl
      simp only [List.map_map, List.mem_map] at hl
      obtain ⟨step, _, rfl⟩ := hl
      rfl
    cases hr : (first.reset.activate ctx s.generator).result with
    | error e =>
      have hstate := first.reset.state_activate_of_error hr
      refine .of_running h ⟨hstate ▸ StepState.noConfusion, hrest⟩ (Nat.succ_pos _) (.inl ⟨e, ?_⟩)
      simp only [hr]
      rfl
    | ok entered =>
      have hstate := first.reset.state_activate_of_ok hr
      refine .of_running h ⟨hstate ▸ StepState.noConfusion, hrest⟩ (Nat.succ_pos _)
        (.inr ⟨?_, congrArg some hstate⟩)
      simp only [hr]
      rfl

/-- At the end of a pass the sequence is complete, begins again, or stays where it is. -/
theorem Sequence.isSound_finishPass (s : Sequence A C N) (ctx : C) (h : s.status = .running)
    (hc : s.cursor = s.size) (hl : Lined (s.steps.map Step.state) s.cursor) :
    (s.finishPass ctx).IsSound := by
  match ha : (s.verdict ctx).answer with
  | .error e =>
    rw [Sequence.finishPass_of_error ha]
    obtain ⟨hp, earlier, hev⟩ := Policy.events_again_of_error ha
    refine ⟨(Sequence.consistent_running_iff h).mpr hl, ?_, ?_, fun _ _ _ => ⟨hp, ?_⟩⟩
    · intro o ho
      cases ho
    · intro ho
      cases ho
    · refine ⟨e, Trace.here earlier, rfl, ?_⟩
      simp [Sequence.verdict, hev, Trace.here]
  | .ok true =>
    rw [Sequence.finishPass_of_again ha]
    exact (s.isSound_wrap ctx h).after _
  | .ok false =>
    rw [Sequence.finishPass_of_over ha]
    have hall : ∀ state ∈ s.steps.map Step.state, state = .complete := by
      apply Lined.complete_of_length
      rwa [List.length_map, ← Sequence.size, ← hc]
    refine ⟨⟨hc, ?_, ?_, Policy.name_of_over ha⟩, ?_, ?_, ?_⟩
    · intro i state hi
      rw [Sequence.stepState?_eq] at hi
      exact hall state (List.mem_of_getElem? hi)
    · show 1 ≤ min (s.progress.passes + 1) maxPasses
      have : 1 ≤ maxPasses := by decide
      omega
    · intro o ho
      obtain rfl : Outcome.complete = o := Except.ok.inj ho
      simp [Sequence.finished, Sequence.status]
    · intro ho
      cases ho
    · intro hs
      cases hs

theorem Sequence.isSound_resume (s : Sequence A C N) (dt : Float32) (ctx : C)
    (hs : s.status ≠ .notStarted) (h : s.Consistent) : (s.resume dt ctx).IsSound := by
  by_cases hc : s.status = .complete
  · rw [Sequence.resume_of_complete hc]
    refine ⟨h, ?_, ?_, ?_⟩
    · intro o ho
      obtain rfl : Outcome.complete = o := Except.ok.inj ho
      simp [hc]
    · intro ho
      cases ho
    · intro hr
      exact absurd (hc.symm.trans hr) Status.noConfusion
  · have hr : s.status = .running := by
      cases hx : s.status with
      | notStarted => exact absurd hx hs
      | running => rfl
      | complete => exact absurd hx hc
    obtain ⟨place, hp, _, hl, hk⟩ := lined_cascade dt s.steps 0 s.cursor ctx s.generator
      ((Sequence.consistent_running_iff hr).mp h)
    have hcursor : (s.walk dt ctx).cursor = place := hp.trans (Nat.zero_add place)
    have hlined : Lined ((s.walk dt ctx).steps.map Step.state) (s.walk dt ctx).cursor := by
      rw [hcursor]
      exact hl
    match hres : (s.walk dt ctx).result with
    | .ok true =>
      rw [Sequence.resume_of_passed hc hres]
      have hend : place = (s.walk dt ctx).steps.length := by
        have hk' : (s.walk dt ctx).StopsAt place := hk
        rwa [Cascade.StopsAt, hres] at hk'
      have hf := (s.stopped (s.walk dt ctx)).isSound_finishPass (s.walk dt ctx).context hr
        (hcursor.trans hend) hlined
      exact hf.after _
    | .ok false =>
      rw [Sequence.resume_of_held hc hres]
      have hactive : ((s.walk dt ctx).steps.map Step.state)[(s.walk dt ctx).cursor]? =
          some .active := by
        have hk' : (s.walk dt ctx).StopsAt place := hk
        rwa [Cascade.StopsAt, hres, ← hcursor] at hk'
      have hlt := (List.getElem?_eq_some_iff.mp hactive).1
      rw [List.length_map] at hlt
      refine .of_running hr hlined hlt (.inr ⟨rfl, ?_⟩)
      rw [Sequence.stepState?_eq]
      exact hactive
    | .error e =>
      rw [Sequence.resume_of_error hc hres]
      have hlt : (s.walk dt ctx).cursor < (s.walk dt ctx).steps.length := by
        have hk' : (s.walk dt ctx).StopsAt place := hk
        rwa [Cascade.StopsAt, hres, ← hcursor] at hk'
      exact .of_running hr hlined hlt (.inl ⟨e, rfl⟩)

omit [Behavior A C N] in
theorem Sequence.consistent_begun {s : Sequence A C N} (h : s.Consistent) :
    s.begun.Consistent := by
  by_cases hs : s.status = .notStarted
  · have hb : s.begun.status = .running := by
      rw [Sequence.begun, if_pos hs]
      rfl
    have hlined : Lined (s.reset.steps.map Step.state) 0 := by
      apply Lined.of_all_notStarted
      intro state hm
      obtain ⟨step, hstep, rfl⟩ := List.mem_map.mp hm
      exact s.isNew_reset.2 step hstep
    rw [Sequence.consistent_running_iff hb, Sequence.begun, if_pos hs]
    have hcursor : s.reset.progress.cursor = 0 := by
      rw [Sequence.progress_reset]
      rfl
    rw [← hcursor] at hlined
    exact hlined
  · rwa [Sequence.begun_of_ne hs]

omit [Behavior A C N] in
theorem Advance.IsSound.beside {body : Advance A C N} (h : body.IsSound)
    (companions : C → Round A C N) : (body.beside companions).IsSound := by
  match hr : body.result with
  | .error e =>
    have ha := h.after [⟨[], .ticked⟩]
    have he : body.beside companions = body.after [⟨[], .ticked⟩] := by
      simp [Advance.beside, Advance.after, hr]
    rwa [he]
  | .ok o =>
    have hbody : ∀ o', (body.beside companions).result = .ok o' → body.result = .ok o' := by
      intro o' ho
      simp only [Advance.beside, hr] at ho
      cases hc : (companions body.context).result with
      | error e =>
        rw [hc] at ho
        cases ho
      | ok complete =>
        rw [hc] at ho
        exact hr.trans ho
    have hsteps : (body.beside companions).sequence =
        { body.sequence with companions := (companions body.context).members } := by
      simp [Advance.beside, hr]
    refine ⟨?_, ?_, ?_, ?_⟩
    · rw [hsteps]
      exact h.consistent
    · intro o' ho
      rw [hsteps]
      exact h.complete_iff o' (hbody o' ho)
    · intro ho
      rw [hsteps]
      exact h.active (hbody _ ho)
    · rw [hsteps]
      intro hs hn hc
      obtain ⟨_, e, _, he, _⟩ := h.failed hs hn hc
      rw [hr] at he
      cases he

/-- A tick keeps a sequence consistent, and its result agrees with what it leaves. -/
theorem Sequence.isSound_advance (s : Sequence A C N) (dt : Float32) (ctx : C)
    (h : s.Consistent) : (s.advance dt ctx).IsSound := by
  have hb := s.begun.isSound_resume dt ctx s.begun_status_ne (Sequence.consistent_begun h)
  rw [Sequence.advance_eq]
  exact (hb.after s.opening).beside _

/-- Whether a call failed because the condition at the end of a pass did. -/
def Sequence.GuardFails (s : Sequence A C N) : Command C → Prop
  | .advance dt ctx => ∃ e earlier, (s.advance dt ctx).result = .error e ∧
      (s.advance dt ctx).trace = earlier ++ [⟨[], .repeatChecked (.error e)⟩]
  | .reset => False

theorem Sequence.consistent_obey {s : Sequence A C N} (h : s.Consistent) (command : Command C) :
    (s.obey command).Consistent := by
  cases command with
  | advance dt ctx => exact (s.isSound_advance dt ctx h).consistent
  | reset => exact s.isNew_reset.consistent

theorem Sequence.consistent_after {s : Sequence A C N} (h : s.Consistent)
    (commands : List (Command C)) : (s.after commands).Consistent := by
  induction commands generalizing s with
  | nil => exact h
  | cons command commands ih => exact ih (Sequence.consistent_obey h command)

/-- The cursor of a running sequence is behind the last step only if the latest call failed in the
condition at the end of the pass. -/
theorem Sequence.guardFails_of_cursor {s : Sequence A C N} (h : s.IsNew)
    {commands : List (Command C)} (hr : (s.after commands).status = .running)
    (hn : (s.after commands).steps ≠ [])
    (hc : (s.after commands).cursor = (s.after commands).size) :
    (s.after commands).policy.name = .untilHolds ∧
      ∃ earlier latest, commands = earlier ++ [latest] ∧
        (s.after earlier).GuardFails latest := by
  rcases List.eq_nil_or_concat commands with rfl | ⟨earlier, latest, rfl⟩
  · exact absurd (h.status.symm.trans hr) Status.noConfusion
  · have hk := Sequence.consistent_after h.consistent earlier
    rw [List.concat_eq_append, Sequence.after_append] at hr hn hc ⊢
    cases latest with
    | advance dt ctx =>
      obtain ⟨hp, hf⟩ := ((s.after earlier).isSound_advance dt ctx hk).failed hr hn hc
      exact ⟨hp, earlier, .advance dt ctx, rfl, hf⟩
    | reset => exact absurd ((s.after earlier).status_reset.symm.trans hr) Status.noConfusion

end Sequences

end Sequencer

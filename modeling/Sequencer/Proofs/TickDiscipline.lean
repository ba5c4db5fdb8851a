import Sequencer.Proofs.Cascades
import Sequencer.Proofs.News
import Sequencer.Proofs.Provenance

/-!
# The discipline of a tick

In one tick of the root nothing happens twice: every part is ticked at most once, every leaf updated
at most once, and every sequence finishes at most one pass. Within a sequence the steps that are
ticked are those from the cursor on, in order, up to the first that does not complete. When a pass
ends and another one follows, the first step is entered for it and left alone.
-/

namespace Sequencer

variable {A C N : Type} [Behavior A C N]

/-- How a tick of a sequence goes through its steps: `count` of them are ticked from the cursor
on. -/
structure Sequence.Paces (s : Sequence A C N) (dt : Float32) (ctx : C) (count : Nat) : Prop where
  ticked : (s.advance dt ctx).trace.stepsTicked = List.range' s.cursor count
  inside : s.cursor + count ≤ s.size
  /-- No step is ticked only if there is none, or if the condition at the end of the pass is
  evaluated again. -/
  idle : count = 0 → s.cursor = s.size ∧
    (s.steps = [] ∨ ∃ answer, ⟨[], .repeatChecked answer⟩ ∈ (s.advance dt ctx).trace)
  completed : ∀ i, s.cursor ≤ i → i + 1 < s.cursor + count →
    .stepEnd ∈ (s.advance dt ctx).trace.marks [.step i]
  /-- The last step that is ticked is the first that does not complete, unless the pass ends. -/
  held : (s.advance dt ctx).result = .ok .running → .passEnd ∉ (s.advance dt ctx).trace.marks [] →
    let left := (s.advance dt ctx).sequence
    0 < count ∧ left.cursor + 1 = s.cursor + count ∧ left.stepState? left.cursor = some .active ∧
      .stepEnd ∉ (s.advance dt ctx).trace.marks [.step left.cursor]
  /-- When another pass begins, the first step is entered for it, and that is all that happens to
  the steps from then on. -/
  rewound : ∀ name pass, ⟨[], .log (.sequenceWrapped name pass)⟩ ∈ (s.advance dt ctx).trace →
    let k := s.begun.walk dt ctx
    ∃ before entering beside, (s.advance dt ctx).trace =
        before ++ ⟨[], .log (.sequenceWrapped name pass)⟩ :: (entering ++ beside) ∧
      (∀ e ∈ entering, e.path = [.step 0] ∧ e.event.mark? = none) ∧
      (∀ e ∈ beside, ∃ j place, e.path = .companion j :: place) ∧
      (s.steps = [] ∧ entering = [] ∨ ∃ first rest, k.steps = first :: rest ∧
        let entered := first.reset.activate k.context k.generator
        entering = entered.trace.under (.step 0) ∧
          (s.advance dt ctx).sequence.steps = entered.step :: rest.map Step.reset)

theorem Sequence.Paces.length_stepsTicked {s : Sequence A C N} {dt : Float32} {ctx : C}
    {count : Nat} (h : s.Paces dt ctx count) :
    (s.advance dt ctx).trace.stepsTicked.length = count := by
  rw [h.ticked, List.length_range']

theorem Trace.path_ne_of_companions {t : Trace N}
    (h : ∀ e ∈ t, ∃ j place, e.path = Hop.companion j :: place) : ∀ e ∈ t, e.path ≠ [] := by
  intro e he hp
  obtain ⟨j, place, hj⟩ := h e he
  exact List.cons_ne_nil _ _ (hj.symm.trans hp)

/-- What a tick of the companions adds to that of the body. -/
theorem Sequence.exists_beside (s : Sequence A C N) (dt : Float32) (ctx : C) :
    let body := s.begun.resume dt ctx
    ∃ beside, (∀ e ∈ beside, ∃ j place, e.path = Hop.companion j :: place) ∧
      (s.advance dt ctx).trace = ⟨[], .ticked⟩ :: (s.opening ++ body.trace ++ beside) ∧
      (s.advance dt ctx).sequence.steps = body.sequence.steps ∧
      (s.advance dt ctx).sequence.cursor = body.sequence.cursor ∧
      ∀ o, (s.advance dt ctx).result = .ok o → body.result = .ok o := by
  match hr : (s.begun.resume dt ctx).result with
  | .error e =>
    rw [Sequence.advance_of_error hr]
    refine ⟨[], ?_, ?_, rfl, rfl, ?_⟩
    · intro e he
      cases he
    · simp
    · intro o ho
      cases ho
  | .ok o =>
    rw [Sequence.advance_of_ok hr]
    refine ⟨_, ?_, rfl, rfl, rfl, ?_⟩
    · intro e he
      obtain ⟨k, place, hp⟩ := exists_hop_of_mem_advanceAll dt .companion s.begun.companions 0
        (s.begun.resume dt ctx).context e he
      exact ⟨_, place, hp⟩
    · intro o' ho
      cases hround : (advanceAll false dt .companion 0 s.begun.companions
          (s.begun.resume dt ctx).context).result with
      | error e => simp [hround, Except.map] at ho
      | ok complete => simpa [hr, hround, Except.map] using ho

theorem cascade_of_length (dt : Float32) (steps : List (Step A C N)) (index : Nat) (ctx : C)
    (generator : Generator) :
    cascade false dt index steps steps.length ctx generator =
      ⟨[], ctx, generator, steps, index + steps.length, .ok true⟩ := by
  induction steps generalizing index with
  | nil => rfl
  | cons first rest ih =>
    rw [List.length_cons, cascade_cons_succ, ih]
    simp [Cascade.behind, Nat.add_assoc, Nat.add_comm 1]

omit [Behavior A C N] in
theorem Sequence.repeatChecked_mem_verdict {s : Sequence A C N} (h : s.policy.name = .untilHolds)
    (ctx : C) : ∃ answer, .repeatChecked answer ∈ (s.verdict ctx).events := by
  unfold Sequence.verdict
  cases hp : s.policy with
  | untilHolds condition => exact ⟨_, List.mem_append_right _ List.mem_cons_self⟩
  | once => simp [hp, Policy.name] at h
  | count passes => simp [hp, Policy.name] at h
  | forever => simp [hp, Policy.name] at h

theorem Sequence.stepsTicked_finishPass (s : Sequence A C N) (ctx : C) :
    (s.finishPass ctx).trace.stepsTicked = [] := by
  have hown : ∀ t : Trace N, (∀ e ∈ t, e.path = []) → t.stepsTicked = [] := by
    intro t ht
    apply Trace.stepsTicked_eq_nil
    intro e he index hp
    exact List.cons_ne_nil _ _ (hp.symm.trans (ht e he))
  have hv : (Trace.here (s.verdict ctx).events).stepsTicked = [] := by
    apply hown
    intro e he
    obtain ⟨event, _, rfl⟩ := List.mem_map.mp he
    rfl
  have hl : s.wrapLines.stepsTicked = [] := hown _ fun e he => (Sequence.mem_wrapLines he).1
  match ha : (s.verdict ctx).answer with
  | .error e =>
    rw [Sequence.finishPass_of_error ha]
    exact hv
  | .ok true =>
    rw [Sequence.finishPass_of_again ha]
    cases hs : s.steps with
    | nil => simp [Advance.after, Sequence.wrap_of_nil hs, hv, hl]
    | cons first rest =>
      have hm := first.reset.marks_activate ctx s.generator
      simp [Advance.after, Sequence.wrap_of_cons hs, hv, hl, Trace.stepsTicked_under, hm]
  | .ok false =>
    rw [Sequence.finishPass_of_over ha, Trace.stepsTicked_append, hv]
    rfl

/-- A line that another pass begins is the last of the sequence itself, and what follows is the
entering of the first step. -/
theorem Sequence.exists_entering_of_finishPass (s : Sequence A C N) (ctx : C) {name : String}
    {pass : Nat}
    (h : ⟨[], .log (.sequenceWrapped name pass)⟩ ∈ (s.finishPass ctx).trace) :
    ∃ before entering, (s.finishPass ctx).trace =
        before ++ ⟨[], .log (.sequenceWrapped name pass)⟩ :: entering ∧
      (∀ e ∈ entering, e.path = [.step 0] ∧ e.event.mark? = none) ∧
      (s.steps = [] ∧ entering = [] ∨ ∃ first rest, s.steps = first :: rest ∧
        let entered := first.reset.activate ctx s.generator
        entering = entered.trace.under (.step 0) ∧
          (s.finishPass ctx).sequence.steps = entered.step :: rest.map Step.reset) := by
  have hv : ⟨[], .log (.sequenceWrapped name pass)⟩ ∉ Trace.here (s.verdict ctx).events := by
    intro hm
    obtain ⟨event, he, hk⟩ := List.mem_map.mp hm
    have hd := s.policy.isDecision_again _ ctx event he
    obtain ⟨-, rfl⟩ := Entry.mk.inj hk
    cases hd
  obtain ⟨lines, hlines⟩ : ∃ lines, s.wrapLines =
      lines ++ [⟨[], .log (.sequenceWrapped s.name (s.progress.wrap s.policy).passes)⟩] := ⟨_, rfl⟩
  have hname : ⟨[], .log (.sequenceWrapped name pass)⟩ ∈ s.wrapLines →
      s.name = name ∧ (s.progress.wrap s.policy).passes = pass := by
    intro hm
    rcases (Sequence.mem_wrapLines hm).2 with he | he
    · cases he
    · obtain ⟨hn, hp⟩ := LogEvent.sequenceWrapped.inj (Event.log.inj he)
      exact ⟨hn.symm, hp.symm⟩
  match ha : (s.verdict ctx).answer with
  | .error e =>
    rw [Sequence.finishPass_of_error ha] at h
    exact absurd h hv
  | .ok false =>
    rw [Sequence.finishPass_of_over ha] at h
    rcases List.mem_append.mp h with h | h
    · exact absurd h hv
    · cases List.mem_singleton.mp h
  | .ok true =>
    rw [Sequence.finishPass_of_again ha] at h ⊢
    simp only [Advance.after] at h ⊢
    have hw := (List.mem_append.mp h).resolve_left hv
    cases hs : s.steps with
    | nil =>
      rw [Sequence.wrap_of_nil hs] at hw ⊢
      obtain ⟨rfl, rfl⟩ := hname hw
      refine ⟨Trace.here (s.verdict ctx).events ++ lines, [], ?_, ?_, .inl ⟨rfl, rfl⟩⟩
      · simp [hlines]
      · intro e he
        cases he
    | cons first rest =>
      rw [Sequence.wrap_of_cons hs] at hw ⊢
      have hl : ⟨[], .log (.sequenceWrapped name pass)⟩ ∈ s.wrapLines := by
        rcases List.mem_append.mp hw with hw | hw
        · exact hw
        · obtain ⟨e, _, hk⟩ := List.mem_map.mp hw
          cases hk
      obtain ⟨rfl, rfl⟩ := hname hl
      refine ⟨Trace.here (s.verdict ctx).events ++ lines, _, ?_, ?_,
        .inr ⟨first, rest, rfl, rfl, rfl⟩⟩
      · simp [hlines]
      · intro e he
        obtain ⟨e', he', rfl⟩ := List.mem_map.mp he
        have hp := first.reset.path_of_mem_activate ctx s.generator e' he'
        have hm := first.reset.marks_activate ctx s.generator
        refine ⟨congrArg (Hop.step 0 :: ·) hp, ?_⟩
        cases hmark : e'.event.mark? with
        | none => rfl
        | some mark =>
          have hin : mark ∈ (first.reset.activate ctx s.generator).trace.marks [] := by
            refine List.mem_filterMap.mpr ⟨e'.event, ?_, hmark⟩
            exact List.mem_map.mpr ⟨e', List.mem_filter.mpr ⟨he', by simpa using hp⟩, rfl⟩
          rw [hm] at hin
          cases hin

/-- The tick of a body is that of its cascade, and the end of the pass if it gets there. -/
theorem Sequence.exists_tail_of_resume (s : Sequence A C N) (dt : Float32) (ctx : C)
    (hs : s.status ≠ .complete) :
    ∃ tail, (s.resume dt ctx).trace = (s.walk dt ctx).trace ++ tail ∧ tail.stepsTicked = [] := by
  match hr : (s.walk dt ctx).result with
  | .ok true =>
    rw [Sequence.resume_of_passed hs hr]
    exact ⟨_, rfl, (s.stopped _).stepsTicked_finishPass _⟩
  | .ok false =>
    rw [Sequence.resume_of_held hs hr]
    exact ⟨[], (List.append_nil _).symm, rfl⟩
  | .error e =>
    rw [Sequence.resume_of_error hs hr]
    exact ⟨[], (List.append_nil _).symm, rfl⟩

theorem sequenceWrapped_notMem_walk (s : Sequence A C N) (dt : Float32) (ctx : C) (name : String)
    (pass : Nat) : ⟨[], .log (.sequenceWrapped name pass)⟩ ∉ (s.walk dt ctx).trace := by
  intro hm
  obtain ⟨k, place, hp⟩ := exists_step_of_mem_cascade dt s.steps 0 s.cursor ctx s.generator _ hm
  cases hp

theorem Sequence.exists_entering_of_resume (s : Sequence A C N) (dt : Float32) (ctx : C)
    (hs : s.status ≠ .complete) {name : String} {pass : Nat}
    (h : ⟨[], .log (.sequenceWrapped name pass)⟩ ∈ (s.resume dt ctx).trace) :
    let k := s.walk dt ctx
    ∃ before entering, (s.resume dt ctx).trace =
        before ++ ⟨[], .log (.sequenceWrapped name pass)⟩ :: entering ∧
      (∀ e ∈ entering, e.path = [.step 0] ∧ e.event.mark? = none) ∧
      (k.steps = [] ∧ entering = [] ∨ ∃ first rest, k.steps = first :: rest ∧
        let entered := first.reset.activate k.context k.generator
        entering = entered.trace.under (.step 0) ∧
          (s.resume dt ctx).sequence.steps = entered.step :: rest.map Step.reset) := by
  match hr : (s.walk dt ctx).result with
  | .ok true =>
    rw [Sequence.resume_of_passed hs hr] at h ⊢
    simp only [Advance.after] at h ⊢
    have hf := (List.mem_append.mp h).resolve_left
      (sequenceWrapped_notMem_walk s dt ctx name pass)
    obtain ⟨before, entering, ht, hm, he⟩ :=
      (s.stopped (s.walk dt ctx)).exists_entering_of_finishPass (s.walk dt ctx).context hf
    exact ⟨(s.walk dt ctx).trace ++ before, entering, by rw [ht, List.append_assoc], hm, he⟩
  | .ok false =>
    rw [Sequence.resume_of_held hs hr] at h
    exact absurd h (sequenceWrapped_notMem_walk s dt ctx name pass)
  | .error e =>
    rw [Sequence.resume_of_error hs hr] at h
    exact absurd h (sequenceWrapped_notMem_walk s dt ctx name pass)

omit [Behavior A C N] in
theorem Sequence.cursor_begun {s : Sequence A C N} (h : s.Consistent) :
    s.begun.cursor = s.cursor := by
  by_cases hs : s.status = .notStarted
  · simp only [Sequence.Consistent, hs] at h
    have hb : s.begun.cursor = 0 := by
      rw [Sequence.begun, if_pos hs]
      exact congrArg Progress.cursor s.progress_reset
    exact hb.trans h.1.symm
  · rw [Sequence.begun_of_ne hs]

omit [Behavior A C N] in
theorem Sequence.status_begun {s : Sequence A C N} (h : s.status ≠ .complete) :
    s.begun.status = .running := by
  cases hs : s.status with
  | notStarted =>
    rw [Sequence.begun, if_pos hs]
    rfl
  | running =>
    rw [Sequence.begun_of_ne (hs ▸ Status.noConfusion)]
    exact hs
  | complete => exact absurd hs h

/-- When the condition at the end of a pass is evaluated again, the trace shows it. -/
theorem Sequence.repeatChecked_mem_advance {s : Sequence A C N} (hs : s.status ≠ .complete)
    (hc : s.begun.cursor = s.begun.steps.length) (hp : s.policy.name = .untilHolds) (dt : Float32)
    (ctx : C) : ∃ answer, ⟨[], .repeatChecked answer⟩ ∈ (s.advance dt ctx).trace := by
  have hwalk : (s.begun.walk dt ctx).result = .ok true := by
    rw [Sequence.walk, hc, cascade_of_length]
  have hb : s.begun.status ≠ .complete := Sequence.status_begun hs ▸ Status.noConfusion
  have hpb : (s.begun.stopped (s.begun.walk dt ctx)).policy.name = .untilHolds := by
    rw [← hp, ← (Sequence.SameFrame.begun s).policy]
    rfl
  obtain ⟨answer, ha⟩ := Sequence.repeatChecked_mem_verdict hpb (s.begun.walk dt ctx).context
  have hin : ∀ t : Sequence A C N, ∀ ctx' : C, .repeatChecked answer ∈ (t.verdict ctx').events →
      ⟨[], .repeatChecked answer⟩ ∈ (t.finishPass ctx').trace := by
    intro t ctx' hm
    have hh : ⟨[], .repeatChecked answer⟩ ∈ Trace.here (t.verdict ctx').events :=
      List.mem_map.mpr ⟨_, hm, rfl⟩
    match hv : (t.verdict ctx').answer with
    | .error e => rwa [Sequence.finishPass_of_error hv]
    | .ok true =>
      rw [Sequence.finishPass_of_again hv]
      exact List.mem_append_left _ hh
    | .ok false =>
      rw [Sequence.finishPass_of_over hv]
      exact List.mem_append_left _ hh
  obtain ⟨beside, _, ht, _⟩ := s.exists_beside dt ctx
  refine ⟨answer, ?_⟩
  rw [ht, Sequence.resume_of_passed hb hwalk]
  refine List.mem_cons_of_mem _ (List.mem_append_left _ (List.mem_append_right _ ?_))
  exact List.mem_append_right _ (hin _ _ ha)

theorem Sequence.passEnd_mem_finishPass {s : Sequence A C N} {ctx : C}
    (h : (s.finishPass ctx).result = .ok .running) :
    .passEnd ∈ (s.finishPass ctx).trace.marks [] := by
  match ha : (s.verdict ctx).answer with
  | .error e =>
    rw [Sequence.finishPass_of_error ha] at h
    cases h
  | .ok true =>
    rw [Sequence.finishPass_of_again ha]
    simp [Advance.after, s.marks_wrap]
  | .ok false =>
    rw [Sequence.finishPass_of_over ha] at h
    cases h

/-- The steps that a tick of a sequence ticks are those that its cascade ticks. -/
theorem Sequence.stepsTicked_advance {s : Sequence A C N} (hs : s.status ≠ .complete) (dt : Float32)
    (ctx : C) :
    (s.advance dt ctx).trace.stepsTicked = (s.begun.walk dt ctx).trace.stepsTicked := by
  have hnc : s.begun.status ≠ .complete := Sequence.status_begun hs ▸ Status.noConfusion
  obtain ⟨tail, htail, hticks⟩ := s.begun.exists_tail_of_resume dt ctx hnc
  obtain ⟨beside, hbeside, ht, -⟩ := s.exists_beside dt ctx
  have hbt : beside.stepsTicked = [] := by
    apply Trace.stepsTicked_eq_nil
    intro e he index hp
    obtain ⟨j, place, hj⟩ := hbeside e he
    cases hp.symm.trans hj
  have hot : s.opening.stepsTicked = [] := by
    unfold Sequence.opening
    split <;> rfl
  have hhead (t : Trace N) : Trace.stepsTicked (⟨[], .ticked⟩ :: t) = t.stepsTicked := rfl
  rw [ht, hhead, htail]
  simp [hot, hbt, hticks]

theorem Sequence.mem_marks_advance {s : Sequence A C N} (hs : s.status ≠ .complete) {dt : Float32}
    {ctx : C} {i : Nat} {mark : Mark} (h : mark ∈ (s.begun.walk dt ctx).trace.marks [.step i]) :
    mark ∈ (s.advance dt ctx).trace.marks [.step i] := by
  have hnc : s.begun.status ≠ .complete := Sequence.status_begun hs ▸ Status.noConfusion
  obtain ⟨tail, htail, -⟩ := s.begun.exists_tail_of_resume dt ctx hnc
  obtain ⟨beside, -, ht, -⟩ := s.exists_beside dt ctx
  rw [ht, htail]
  simp [Trace.marks_cons_of_ne, h]

/-- In a tick that needs another one and ends no pass, the cascade stopped at a step. -/
theorem Sequence.walk_held_of_running {s : Sequence A C N} (hs : s.status ≠ .complete)
    {dt : Float32} {ctx : C} (ho : (s.advance dt ctx).result = .ok .running)
    (hn : .passEnd ∉ (s.advance dt ctx).trace.marks []) :
    (s.begun.walk dt ctx).result = .ok false := by
  have hnc : s.begun.status ≠ .complete := Sequence.status_begun hs ▸ Status.noConfusion
  obtain ⟨beside, -, ht, -, -, hok⟩ := s.exists_beside dt ctx
  have hres := hok _ ho
  match hr : (s.begun.walk dt ctx).result with
  | .ok false => rfl
  | .error e =>
    rw [Sequence.resume_of_error hnc hr] at hres
    cases hres
  | .ok true =>
    rw [Sequence.resume_of_passed hnc hr] at hres ht
    have hend := Sequence.passEnd_mem_finishPass hres
    exact absurd (by simp [ht, Trace.marks_cons_here, Advance.after, hend]) hn

theorem Sequence.held_of_walk {s : Sequence A C N} (hs : s.status ≠ .complete) {dt : Float32}
    {ctx : C} (hr : (s.begun.walk dt ctx).result = .ok false) :
    (s.advance dt ctx).sequence.cursor = (s.begun.walk dt ctx).cursor ∧
      ∀ i, (s.advance dt ctx).trace.marks [.step i] =
        (s.begun.walk dt ctx).trace.marks [.step i] := by
  have hnc : s.begun.status ≠ .complete := Sequence.status_begun hs ▸ Status.noConfusion
  obtain ⟨beside, hbeside, ht, -, hcursor, -⟩ := s.exists_beside dt ctx
  rw [Sequence.resume_of_held hnc hr] at ht hcursor
  refine ⟨hcursor, ?_⟩
  intro i
  have hom : s.opening.marks [.step i] = [] := by
    unfold Sequence.opening
    split <;> rfl
  have hbm : beside.marks [.step i] = [] := by
    apply Trace.marks_eq_nil
    intro e he hp
    obtain ⟨j, place, hj⟩ := hbeside e he
    cases hp.symm.trans hj
  rw [ht]
  simp [Trace.marks_cons_of_ne, hom, hbm]

theorem Sequence.exists_entering_of_advance {s : Sequence A C N} (hs : s.status ≠ .complete)
    {dt : Float32} {ctx : C} {name : String} {pass : Nat}
    (h : ⟨[], .log (.sequenceWrapped name pass)⟩ ∈ (s.advance dt ctx).trace) :
    let k := s.begun.walk dt ctx
    ∃ before entering beside, (s.advance dt ctx).trace =
        before ++ ⟨[], .log (.sequenceWrapped name pass)⟩ :: (entering ++ beside) ∧
      (∀ e ∈ entering, e.path = [.step 0] ∧ e.event.mark? = none) ∧
      (∀ e ∈ beside, ∃ j place, e.path = .companion j :: place) ∧
      (s.steps = [] ∧ entering = [] ∨ ∃ first rest, k.steps = first :: rest ∧
        let entered := first.reset.activate k.context k.generator
        entering = entered.trace.under (.step 0) ∧
          (s.advance dt ctx).sequence.steps = entered.step :: rest.map Step.reset) := by
  have hnc : s.begun.status ≠ .complete := Sequence.status_begun hs ▸ Status.noConfusion
  obtain ⟨beside, hbeside, ht, hsteps, -⟩ := s.exists_beside dt ctx
  have hin : ⟨[], .log (.sequenceWrapped name pass)⟩ ∈ (s.begun.resume dt ctx).trace := by
    have hopening : ⟨[], .log (.sequenceWrapped name pass)⟩ ∉ s.opening := by
      unfold Sequence.opening
      split <;> simp [Trace.line]
    have hbeside' : ⟨[], .log (.sequenceWrapped name pass)⟩ ∉ beside :=
      fun hm => Trace.path_ne_of_companions hbeside _ hm rfl
    simpa [ht, hopening, hbeside'] using h
  obtain ⟨before, entering, hbody, hmarks, hentered⟩ :=
    s.begun.exists_entering_of_resume dt ctx hnc hin
  refine ⟨⟨[], .ticked⟩ :: (s.opening ++ before), entering, beside, ?_, hmarks, hbeside, ?_⟩
  · rw [ht, hbody]
    simp
  · rcases hentered with ⟨hnil, he⟩ | ⟨first, rest, hks, he, hleft⟩
    · have hl : (s.begun.walk dt ctx).steps.length = s.begun.steps.length := length_cascade ..
      rw [hnil, (Sequence.SameFrame.begun s).steps] at hl
      exact .inl ⟨List.length_eq_zero_iff.mp hl.symm, he⟩
    · exact .inr ⟨first, rest, hks, he, hsteps.trans hleft⟩

/-- A tick of a sequence that is not complete goes through its steps as it should. -/
theorem Sequence.exists_paces {s : Sequence A C N} (h : s.Consistent) (hs : s.status ≠ .complete)
    (hguard : s.status = .running → s.steps ≠ [] → s.cursor = s.size →
      s.policy.name = .untilHolds) (dt : Float32) (ctx : C) : ∃ count, s.Paces dt ctx count := by
  have hcur := Sequence.cursor_begun h
  have hlen := (Sequence.SameFrame.begun s).steps
  have hlined := (Sequence.consistent_running_iff (Sequence.status_begun hs)).mp
    (Sequence.consistent_begun h)
  obtain ⟨count, hk, hle, hz⟩ := cascade_paces dt s.begun.steps 0 s.begun.cursor ctx
    s.begun.generator hlined
  replace hk : (s.begun.walk dt ctx).Paces s.cursor count := by
    rw [← hcur]
    rwa [Nat.zero_add] at hk
  rw [hcur, hlen] at hle hz
  refine ⟨count, ?_, hle, ?_, ?_, ?_, ?_⟩
  · rw [Sequence.stepsTicked_advance hs, hk.ticked]
  · intro h0
    refine ⟨hz h0, ?_⟩
    by_cases hnil : s.steps = []
    · exact .inl hnil
    · right
      apply Sequence.repeatChecked_mem_advance hs
      · rw [hcur, hlen, hz h0]
      · apply hguard _ hnil (hz h0)
        cases hstatus : s.status with
        | running => rfl
        | complete => exact absurd hstatus hs
        | notStarted =>
          -- the cursor is still at the beginning, and there are steps
          simp only [Sequence.Consistent, hstatus] at h
          exact absurd (List.length_eq_zero_iff.mp ((hz h0).symm.trans h.1)) hnil
  · intro i hi hlt
    exact Sequence.mem_marks_advance hs (hk.completed i hi hlt)
  · intro ho hn
    have hr := Sequence.walk_held_of_running hs ho hn
    obtain ⟨hpos, hlast, hnot⟩ := hk.held hr
    obtain ⟨hleft, hmarks⟩ := Sequence.held_of_walk hs hr
    have hne : (s.advance dt ctx).sequence.steps ≠ [] := by
      intro hnil
      have hl := (Sequence.SameFrame.advance s dt ctx).steps
      rw [hnil, List.length_nil] at hl
      omega
    refine ⟨hpos, hleft ▸ hlast, (s.isSound_advance dt ctx h).active ho hne, ?_⟩
    rw [hmarks, hleft]
    exact hnot
  · intro name pass hw
    exact Sequence.exists_entering_of_advance hs hw

theorem Sequence.IsNew.exists_paces {new : Sequence A C N} (h : new.IsNew)
    (commands : List (Command C)) (hs : (new.after commands).status ≠ .complete) (dt : Float32)
    (ctx : C) : ∃ count, (new.after commands).Paces dt ctx count :=
  Sequence.exists_paces (Sequence.consistent_after h.consistent commands) hs
    (fun hr hne hcursor => (Sequence.guardFails_of_cursor h hr hne hcursor).1) dt ctx

theorem Sequence.tick_mem_marks_advance (s : Sequence A C N) (dt : Float32) (ctx : C) :
    .tick ∈ (s.advance dt ctx).trace.marks [] := by
  obtain ⟨beside, -, ht, -⟩ := s.exists_beside dt ctx
  rw [ht]
  exact List.mem_cons_self

/-- A sequence that is ticked at most once in its chronicle is left alone, or ticked as it is, or
after a reset that it was waiting for or was told of. -/
theorem Part.Lives.exists_started {due due' : Bool} {t : Sequence A C N} {part' : Part A C N}
    {told : List (Told N)} (h : Part.Lives due (.sequence t) told due' part') {dt : Float32}
    (hclock : ∀ clock e, .entry clock e ∈ told → clock = dt)
    (hticks : (Trace.marks [] (told.filterMap Told.entry?)).count .tick ≤ 1) :
    told.filterMap Told.entry? = [] ∨ ∃ started ctx,
      (started = t ∨ started = t.reset ∧ (due = true ∨ .renewed ∈ told)) ∧
        told.filterMap Told.entry? = (started.advance dt ctx).trace := by
  generalize hpart : Part.sequence t = part at h
  induction h generalizing t with
  | done due part => exact .inl rfl
  | renewed later ih =>
    rcases ih (fun clock e he => hclock clock e (List.mem_cons_of_mem _ he)) hticks hpart with
      hnone | ⟨started, ctx, hstarted, htick⟩
    · exact .inl hnone
    · refine .inr ⟨started, ctx, ?_, htick⟩
      exact hstarted.imp_right fun hreset => ⟨hreset.1, .inr List.mem_cons_self⟩
  | reset later ih =>
    subst hpart
    rcases ih hclock hticks rfl with hnone | ⟨started, ctx, hstarted, htick⟩
    · exact .inl hnone
    · refine .inr ⟨started, ctx, .inr ⟨?_, .inl rfl⟩, htick⟩
      rcases hstarted with rfl | ⟨rfl, -⟩
      · rfl
      · exact t.reset_reset
  | entered hfresh clock ctx generator later ih =>
    subst hpart
    -- a sequence is not entered, so nothing comes of it
    rcases ih hclock hticks rfl with hnone | ⟨started, ctx', hstarted, htick⟩
    · exact .inl hnone
    · refine .inr ⟨started, ctx', ?_, htick⟩
      exact hstarted.imp_right fun hreset =>
        ⟨hreset.1, .inr (hreset.2.resolve_left Bool.false_ne_true)⟩
  | @ticked _ _ _ told clock ctx generator later ih =>
    subst hpart
    have hmap := Told.filterMap_entry?_map clock (t.advance clock ctx).trace
    simp only [Part.visit, List.filterMap_append, hmap, Trace.marks_append, List.count_append] at *
    have hhere := List.count_pos_iff.mpr (t.tick_mem_marks_advance clock ctx)
    have hdt : clock = dt := by
      obtain ⟨beside, -, ht, -⟩ := t.exists_beside clock ctx
      exact hclock clock ⟨[], .ticked⟩
        (List.mem_append_left _ (List.mem_map.mpr ⟨_, ht ▸ List.mem_cons_self, rfl⟩))
    subst hdt
    refine .inr ⟨t, ctx, .inl rfl, ?_⟩
    rcases ih (fun c e he => hclock c e (List.mem_append_right _ he)) (by omega) rfl with
      hnone | ⟨started, ctx', -, hagain⟩
    · rw [hnone, List.append_nil]
    · have hlater := List.count_pos_iff.mpr (started.tick_mem_marks_advance clock ctx')
      rw [hagain] at hticks
      omega

/-- The discipline of a tick of the root. No part is ticked, updated or at the end of a pass twice.
The root goes through its steps as it should unless it is complete, and so does every sequence in
the tree that is ticked, as it is or after a reset that was due or that the trace tells it of. -/
theorem Sequence.tick_discipline {s : Sequence A C N} (hs : (Part.sequence s).Reachable)
    (dt : Float32) (ctx : C) :
    (∀ path part, (Part.sequence s).find? path = some part →
      ∀ mark, ((s.advance dt ctx).trace.marks path).count mark ≤ 1) ∧
    (s.status ≠ .complete → ∃ count, s.Paces dt ctx count) ∧
    ∀ path t, (Part.sequence s).find? path = some (.sequence t) →
      (s.advance dt ctx).trace.within path = [] ∨
        ∃ started ctx', (started = t ∨ started = t.reset ∧
            ((Part.sequence s).awaitsReset path = true ∨
              .renewed ∈ (s.advance dt ctx).trace.newsFor path)) ∧
          (s.advance dt ctx).trace.within path = (started.advance dt ctx').trace ∧
          (started.status ≠ .complete → ∃ count, started.Paces dt ctx' count) := by
  refine ⟨?marks, ?root, ?inner⟩
  case marks => exact fun path part h mark => s.count_marks_advance dt ctx h mark
  case root =>
    have hfound : (Part.sequence s).find? [] = some (.sequence s) := rfl
    obtain ⟨new, es, hnew, rfl⟩ := hs.exists_history hfound
    exact fun hc => hnew.exists_paces es hc dt ctx
  case inner =>
    intro path t h
    obtain ⟨t', -, hlives⟩ := s.exists_lives_obey (.advance dt ctx) h
    rw [Sequence.toldOf] at hlives
    have hentries := Trace.entries_toldFor path dt (s.advance dt ctx).trace
    have hticks := s.count_marks_advance dt ctx h .tick
    rw [← List.append_nil path, ← Trace.marks_within, ← hentries] at hticks
    have hclock : ∀ clock e, .entry clock e ∈ (s.advance dt ctx).trace.toldFor path dt →
        clock = dt :=
      fun clock e he => (Told.entry.inj (Trace.mem_newsFor_of_toldFor he).2).1.symm
    rcases hlives.exists_started hclock hticks with hnone | ⟨started, ctx', hstarted, htick⟩
    · exact .inl (hentries ▸ hnone)
    · refine .inr ⟨started, ctx', ?_, hentries ▸ htick, ?_⟩
      · refine hstarted.imp_right fun hreset => ⟨hreset.1, hreset.2.imp_right ?_⟩
        exact fun htold => (Trace.mem_newsFor_of_toldFor htold).1
      · intro hc
        rcases hstarted with rfl | ⟨rfl, -⟩
        · obtain ⟨new, es, hnew, rfl⟩ := hs.exists_history h
          exact hnew.exists_paces es hc dt ctx'
        · exact t.isNew_reset.exists_paces [] hc dt ctx'

/-- A loop around a sequence that waits. The first tick starts both and stops there. -/
theorem Sequence.tick_discipline_of_loop :
    let inner : Sequence Rehearsal.Act Rehearsal.Stage String :=
      (Builder.ofCalls "inner" [.run (.leaf .idle)]).toSequence (fun _ => .ofSeed 0) 0
    let s := (Builder.ofCalls "loop" [.run (.nested inner), .repeatForever]).toSequence
      (fun _ => .ofSeed 0) 1
    let trace := (s.advance 0.5 .empty).trace
    (Part.sequence s).Reachable ∧ (∀ mark, (trace.marks [.step 0]).count mark ≤ 1) ∧
      s.Paces 0.5 .empty 1 ∧ trace.stepsTicked = [0] ∧
      ∃ started ctx, (started = inner ∨ started = inner.reset) ∧
        trace.within [.step 0, .body] = (started.advance 0.5 ctx).trace ∧
        started.Paces 0.5 ctx 1 := by
  intro inner s trace
  have hinner : (Part.sequence inner).Reachable := by
    refine .built "inner" [.run (.leaf .idle)] (fun _ => .ofSeed 0) 0 ?_ ?_ rfl
    · simpa [Call.steps] using .leaf .idle
    · simp [Call.sequences]
  have hs : (Part.sequence s).Reachable := by
    refine .built "loop" [.run (.nested inner), .repeatForever] (fun _ => .ofSeed 0) 1 ?_ ?_ rfl
    · simpa [Call.steps] using .nested hinner
    · simp [Call.sequences]
  obtain ⟨hmarks, hroot, htree⟩ := Sequence.tick_discipline hs 0.5 .empty
  have hticked : trace.stepsTicked = [0] := rfl
  obtain ⟨count, hpaces⟩ := hroot Status.noConfusion
  obtain rfl : count = 1 := hpaces.length_stepsTicked.symm.trans (congrArg List.length hticked)
  refine ⟨hs, hmarks [.step 0] _ rfl, hpaces, hticked, ?_⟩
  have hinside : (trace.within [.step 0, .body]).stepsTicked = [0] := rfl
  rcases htree [.step 0, .body] inner rfl with hnone | ⟨started, ctx, hstarted, htick, hpaced⟩
  · rw [hnone] at hinside
    cases hinside
  · refine ⟨started, ctx, hstarted.imp_right And.left, htick, ?_⟩
    have hfresh : started.status ≠ .complete := by
      rcases hstarted with rfl | ⟨rfl, -⟩ <;> exact Status.noConfusion
    obtain ⟨count, hpaces'⟩ := hpaced hfresh
    rw [htick] at hinside
    obtain rfl : count = 1 :=
      hpaces'.length_stepsTicked.symm.trans (congrArg List.length hinside)
    exact hpaces'

end Sequencer

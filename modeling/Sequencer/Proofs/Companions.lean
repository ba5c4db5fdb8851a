import Sequencer.Proofs.Grammar
import Sequencer.Proofs.Shape
import Sequencer.Proofs.TickDiscipline
import Sequencer.Proofs.Turns
import Sequencer.Rehearsal

/-!
# Companions

The companions of a sequence take their turns after its body in every call in which the body does
not fail; a body that fails ends the call. A companion that fails makes the call fail, but nothing
that the body did is lost. In particular a sequence whose body has finished its last pass is
complete whatever its companions do: later calls tick the companions alone, and a step that waits
for the sequence completes in the first tick in which they do not fail.
-/

namespace Sequencer

variable {A C N : Type}

/-- Whether an entry is of the body of a sequence: of the sequence itself or of a step. -/
def Entry.IsOfBody (e : Entry N) : Prop :=
  e.path = [] ∨ ∃ index place, e.path = .step index :: place

/-- Whether a trace of a sequence tells that its body finishes its last pass. -/
def Trace.Finishes (t : Trace N) : Prop :=
  ∃ name passes, ⟨[], .log (.sequenceComplete name passes)⟩ ∈ t

namespace Trace

theorem finishes_append {t u : Trace N} : Finishes (t ++ u) ↔ t.Finishes ∨ u.Finishes := by
  simp [Finishes, exists_or]

theorem not_finishes_of_path_ne {t : Trace N} (h : ∀ e ∈ t, e.path ≠ []) : ¬ t.Finishes := by
  rintro ⟨name, passes, hm⟩
  exact h _ hm rfl

end Trace

theorem Group.ofList_of_nodup (completion : Completion) {sequences : List (Sequence A C N)}
    (h : (sequences.map Sequence.id).Nodup) :
    ofList completion sequences = ⟨completion, sequences⟩ := by
  have hfold : ∀ members, ((members ++ sequences).map Sequence.id).Nodup →
      sequences.foldl insert ⟨completion, members⟩ = ⟨completion, members ++ sequences⟩ := by
    clear h
    induction sequences with
    | nil => exact fun members _ => by rw [List.foldl_nil, List.append_nil]
    | cons s rest ih =>
      intro members hdistinct
      have hfree : (⟨completion, members⟩ : Group A C N).contains s.id = false := by
        rw [List.map_append, List.nodup_append] at hdistinct
        obtain ⟨-, -, hapart⟩ := hdistinct
        rw [contains, List.any_eq_false]
        intro m hm hid
        exact hapart m.id (List.mem_map_of_mem hm) s.id (by simp) (beq_iff_eq.mp hid)
      have hinsert : (⟨completion, members⟩ : Group A C N).insert s =
          ⟨completion, members ++ [s]⟩ := by simp [insert, hfree]
      rw [List.foldl_cons, hinsert, ih _ (by simpa using hdistinct), List.append_assoc]
      rfl
  exact hfold [] h

theorem Group.members_ofList {completion : Completion} {sequences : List (Sequence A C N)}
    (h : (sequences.map Sequence.id).Nodup) :
    (Group.ofList completion sequences).members = sequences := by
  rw [ofList_of_nodup completion h]

theorem Builder.companions_of_done {name : String} {calls : List (Call A C N)} {entropy : Entropy}
    {serial : Nat} {s : Sequence A C N}
    (h : ((ofCalls name calls).done entropy serial).result = .ok s) :
    s.companions = (Group.ofList .never (calls.filterMap Call.companion?)).members := by
  obtain ⟨clean, rfl⟩ := result_ok_iff.mp h
  obtain ⟨-, -, run⟩ := foldl_clean_iff.mp ⟨rfl, ((closeBlock_misuses _).mp clean).1⟩
  have held : (ofCalls name calls).companions = calls.filterMap Call.companion? :=
    run.companions_eq
  rw [toSequence, closeBlock_companions, held]

section Bodies

variable [Behavior A C N]

namespace Sequence

theorem isOfBody_of_mem_finishPass (s : Sequence A C N) (ctx : C) :
    ∀ e ∈ (s.finishPass ctx).trace, e.IsOfBody := by
  have hown : ∀ events : List (Event N), ∀ e ∈ Trace.here events, e.IsOfBody := by
    intro events e he
    obtain ⟨event, _, rfl⟩ := List.mem_map.mp he
    exact .inl rfl
  have hlines : ∀ e ∈ s.wrapLines, e.IsOfBody := fun e he => .inl (mem_wrapLines he).1
  match ha : (s.verdict ctx).answer with
  | .error e =>
    rw [finishPass_of_error ha]
    exact hown _
  | .ok true =>
    rw [finishPass_of_again ha]
    refine List.forall_mem_append.mpr ⟨hown _, ?_⟩
    cases hs : s.steps with
    | nil => rwa [wrap_of_nil hs]
    | cons first rest =>
      rw [wrap_of_cons hs]
      refine List.forall_mem_append.mpr ⟨hlines, ?_⟩
      intro e he
      obtain ⟨e', _, rfl⟩ := List.mem_map.mp he
      exact .inr ⟨0, e'.path, rfl⟩
  | .ok false =>
    rw [finishPass_of_over ha]
    refine List.forall_mem_append.mpr ⟨hown _, ?_⟩
    intro e he
    obtain rfl := List.mem_singleton.mp he
    exact .inl rfl

theorem isOfBody_of_mem_walk (s : Sequence A C N) (dt : Float32) (ctx : C) :
    ∀ e ∈ (s.walk dt ctx).trace, e.IsOfBody := by
  intro e he
  obtain ⟨k, place, hp⟩ := exists_step_of_mem_cascade dt s.steps 0 s.cursor ctx s.generator e he
  exact .inr ⟨_, place, hp⟩

theorem isOfBody_of_mem_resume (s : Sequence A C N) (dt : Float32) (ctx : C) :
    ∀ e ∈ (s.resume dt ctx).trace, e.IsOfBody := by
  have hwalk := s.isOfBody_of_mem_walk dt ctx
  by_cases hs : s.status = .complete
  · rw [resume_of_complete hs]
    simp
  match hr : (s.walk dt ctx).result with
  | .ok true =>
    rw [resume_of_passed hs hr]
    exact List.forall_mem_append.mpr ⟨hwalk, isOfBody_of_mem_finishPass _ _⟩
  | .ok false => rwa [resume_of_held hs hr]
  | .error e => rwa [resume_of_error hs hr]

omit [Behavior A C N] in
theorem isOfBody_of_mem_opening (s : Sequence A C N) : ∀ e ∈ s.opening, e.IsOfBody := by
  unfold opening
  split
  · intro e he
    obtain rfl := List.mem_singleton.mp he
    exact .inl rfl
  · simp

/-- At the end of a pass the sequence completes, says so, and is complete, or does nothing of
it. -/
theorem finishes_finishPass_iff {s : Sequence A C N} (h : s.status ≠ .complete) (ctx : C) :
    ((s.finishPass ctx).trace.Finishes ↔ (s.finishPass ctx).result = .ok .complete) ∧
      ((s.finishPass ctx).sequence.status = .complete ↔
        (s.finishPass ctx).result = .ok .complete) := by
  have hdecision : ¬ (Trace.here (s.verdict ctx).events).Finishes := by
    rintro ⟨name, passes, hm⟩
    obtain ⟨event, he, hk⟩ := List.mem_map.mp hm
    obtain ⟨-, rfl⟩ := Entry.mk.inj hk
    cases s.policy.isDecision_again _ ctx _ he
  have hlines : ¬ s.wrapLines.Finishes := by
    rintro ⟨name, passes, hm⟩
    rcases (mem_wrapLines hm).2 with he | he <;> cases he
  match ha : (s.verdict ctx).answer with
  | .error e =>
    rw [finishPass_of_error ha]
    simp [hdecision, h]
  | .ok true =>
    have hrunning : (s.wrap ctx).result ≠ .ok .complete := by
      cases hs : s.steps with
      | nil =>
        rw [wrap_of_nil hs]
        simp
      | cons first rest =>
        rw [wrap_of_cons hs]
        cases hr : (first.reset.activate ctx s.generator).result <;> simp [hr, Except.map]
    have hwrap : ¬ (s.wrap ctx).trace.Finishes := by
      cases hs : s.steps with
      | nil => rwa [wrap_of_nil hs]
      | cons first rest =>
        rw [wrap_of_cons hs]
        refine fun hf => (Trace.finishes_append.mp hf).elim hlines ?_
        apply Trace.not_finishes_of_path_ne
        intro e he
        obtain ⟨e', _, rfl⟩ := List.mem_map.mp he
        exact List.cons_ne_nil _ _
    rw [finishPass_of_again ha]
    simp [Advance.after, Trace.finishes_append, hdecision, hwrap, hrunning, s.status_wrap ctx, h]
  | .ok false =>
    rw [finishPass_of_over ha]
    refine ⟨⟨fun _ => rfl, fun _ => ?_⟩, ⟨fun _ => rfl, fun _ => rfl⟩⟩
    exact Trace.finishes_append.mpr (.inr ⟨_, _, List.mem_singleton.mpr rfl⟩)

theorem finishes_resume_iff {s : Sequence A C N} (h : s.status ≠ .complete) (dt : Float32)
    (ctx : C) :
    ((s.resume dt ctx).trace.Finishes ↔ (s.resume dt ctx).result = .ok .complete) ∧
      ((s.resume dt ctx).sequence.status = .complete ↔
        (s.resume dt ctx).result = .ok .complete) := by
  have hwalk : ¬ (s.walk dt ctx).trace.Finishes :=
    Trace.not_finishes_of_path_ne (s.path_ne_of_mem_walk dt ctx)
  match hr : (s.walk dt ctx).result with
  | .ok true =>
    have hf := finishes_finishPass_iff (s := s.stopped (s.walk dt ctx)) h (s.walk dt ctx).context
    rw [resume_of_passed h hr]
    simpa [Advance.after, Trace.finishes_append, hwalk] using hf
  | .ok false =>
    rw [resume_of_held h hr]
    exact ⟨by simp [hwalk], by simpa [held, stopped, status] using h⟩
  | .error e =>
    rw [resume_of_error h hr]
    exact ⟨by simp [hwalk], by simpa [stopped, status] using h⟩

/-- The log lines of a sequence itself, but for the first one, come from its body. -/
theorem mem_advance_iff (s : Sequence A C N) (dt : Float32) (ctx : C) {line : LogEvent}
    (h : ∀ name steps policy, line ≠ .sequenceStarted name steps policy) :
    ⟨[], .log line⟩ ∈ (s.advance dt ctx).trace ↔
      ⟨[], .log line⟩ ∈ (s.begun.resume dt ctx).trace := by
  have hopening : ⟨[], .log line⟩ ∉ s.opening := by
    unfold opening
    split
    · intro hm
      obtain ⟨-, hk⟩ := Entry.mk.inj (List.mem_singleton.mp hm)
      exact h _ _ _ (Event.log.inj hk)
    · exact List.not_mem_nil
  obtain ⟨beside, hbeside, ht, -⟩ := s.exists_beside dt ctx
  have hcompanions : ⟨[], .log line⟩ ∉ beside :=
    fun hm => Trace.path_ne_of_companions hbeside _ hm rfl
  simp [ht, hopening, hcompanions]

/-- The tick in which the body finishes its last pass, by what the trace tells. -/
theorem finishes_advance_iff (s : Sequence A C N) (dt : Float32) (ctx : C) :
    (s.advance dt ctx).trace.Finishes ↔ (s.begun.resume dt ctx).trace.Finishes :=
  exists_congr fun _ => exists_congr fun _ =>
    s.mem_advance_iff dt ctx fun _ _ _ => LogEvent.noConfusion

theorem status_advance (s : Sequence A C N) (dt : Float32) (ctx : C) :
    (s.advance dt ctx).sequence.status = (s.begun.resume dt ctx).sequence.status := by
  match hr : (s.begun.resume dt ctx).result with
  | .error e => rw [advance_of_error hr]
  | .ok outcome =>
    rw [advance_of_ok hr]
    rfl

/-- A sequence is complete from the tick on in which its body finishes its last pass, whatever the
result of that tick is. -/
theorem status_advance_of_finishes {s : Sequence A C N} {dt : Float32} {ctx : C}
    (h : (s.advance dt ctx).trace.Finishes) : (s.advance dt ctx).sequence.status = .complete := by
  rw [finishes_advance_iff] at h
  rw [status_advance]
  by_cases hs : s.begun.status = .complete
  · rw [resume_of_complete hs] at h ⊢
    obtain ⟨name, passes, hm⟩ := h
    cases hm
  · obtain ⟨hf, hc⟩ := finishes_resume_iff hs dt ctx
    exact hc.mpr (hf.mp h)

theorem advance_of_body {s : Sequence A C N} {dt : Float32} {ctx : C} {outcome : Outcome}
    (h : (s.begun.resume dt ctx).result = .ok outcome) :
    let body := s.begun.resume dt ctx
    let after := turns dt s.begun.companions body.context
    (s.advance dt ctx).trace =
        ⟨[], .ticked⟩ :: (s.opening ++ body.trace ++ traceOfTurns .companion 0 after) ∧
      (s.advance dt ctx).sequence =
        { body.sequence with companions := leftByTurns s.begun.companions after } ∧
      ((s.advance dt ctx).result = .ok outcome ↔ ∀ turn ∈ after, turn.Succeeds) ∧
      ∀ e, (s.advance dt ctx).result = .error e ↔ ∃ turn ∈ after, turn.result = .error e := by
  intro body after
  simp only [advance_of_ok h, trace_advanceAll, members_advanceAll, map_eq_error_iff,
    map_eq_ok_iff, and_true, result_advanceAll_error_iff, exists_result_advanceAll_iff]
  exact ⟨rfl, rfl, Iff.rfl, fun _ => Iff.rfl⟩

omit [Behavior A C N] in
theorem length_companions_begun (s : Sequence A C N) :
    s.begun.companions.length = s.companions.length := by
  unfold begun
  split
  · simp
  · rfl

/-- The companions of a sequence that was built from calls are those that the calls name, in their
order, provided that no two have the same identity. In every call they take their turns after the
body, each of them unless one before it fails. But if the body fails, none of them has a turn. -/
theorem companions_follow {name : String} {calls : List (Call A C N)} {entropy : Entropy}
    {serial : Nat} {s : Sequence A C N}
    (hs : ((Builder.ofCalls name calls).done entropy serial).result = .ok s)
    (hdistinct : ((calls.filterMap Call.companion?).map Sequence.id).Nodup)
    (run : List (Command C)) (dt : Float32) (ctx : C) :
    let named := calls.filterMap Call.companion?
    let t := s.after run
    let body := t.begun.resume dt ctx
    let earlier : Trace N := ⟨[], .ticked⟩ :: (t.opening ++ body.trace)
    let round := turns dt t.begun.companions body.context
    s.companions = named ∧ t.companions.length = named.length ∧
      (∀ (j : Nat) (companion : Sequence A C N), named[j]? = some companion →
        ∃ own : List (Command C), t.companions[j]? = some (companion.after own)) ∧
      (∀ e ∈ earlier, e.IsOfBody) ∧
      (∀ outcome, body.result = .ok outcome →
        (t.advance dt ctx).trace = earlier ++ traceOfTurns .companion 0 round ∧
          (t.advance dt ctx).sequence.companions = leftByTurns t.begun.companions round ∧
          ∀ j < named.length, (∃ turn, round[j]? = some turn) ↔
            ∀ turn ∈ round.take j, turn.Succeeds) ∧
      ∀ e, body.result = .error e →
        (t.advance dt ctx).trace = earlier ∧
          (t.advance dt ctx).sequence.companions = t.begun.companions := by
  intro named t body earlier round
  have hnamed : s.companions = named := by
    rw [Builder.companions_of_done hs]
    exact Group.members_ofList hdistinct
  have hlength : t.companions.length = named.length := by
    rw [← hnamed]
    exact (SameFrame.after s run).companions
  refine ⟨hnamed, hlength, ?own, ?place, ?_, ?_⟩
  case own =>
    intro j companion hj
    rw [← hnamed] at hj
    have hfind : (Part.sequence s).find? [.companion j] = some (.sequence companion) := by
      simp [Part.find?, Part.child?, hj]
    obtain ⟨own, hown, -⟩ := s.exists_commands run [.companion j] hfind
    exact ⟨own, by simpa [Part.find?, Part.child?] using hown⟩
  case place =>
    refine List.forall_mem_cons.mpr ⟨.inl rfl, List.forall_mem_append.mpr ⟨?_, ?_⟩⟩
    · exact t.isOfBody_of_mem_opening
    · exact t.begun.isOfBody_of_mem_resume dt ctx
  · intro outcome ho
    obtain ⟨htrace, hleft, -⟩ := advance_of_body ho
    rw [htrace, hleft]
    refine ⟨rfl, rfl, fun j hj => exists_turn_iff ?_⟩
    rwa [t.length_companions_begun, hlength]
  · intro e he
    rw [advance_of_error he]
    exact ⟨rfl, t.begun.companions_resume dt ctx⟩

/-- A step that fails leaves the companion without a turn in that call. -/
theorem companions_left_out :
    let tracer : Rehearsal.Tracer := ⟨"legs", some 1, 0, 1, 0, 0, .action, false, false, 0⟩
    let wings : Sequence Rehearsal.Act Rehearsal.Stage String :=
      (Builder.ofCalls "wings"
        [.run (.leaf (.callback (Rehearsal.cues [.push "beat"])))]).toSequence
          (fun _ => .ofSeed 0) 0
    let calls : List (Call Rehearsal.Act Rehearsal.Stage String) :=
      [.run (.leaf (.custom (.tracer tracer))), .alongside wings]
    let s := (Builder.ofCalls "bee" calls).toSequence (fun _ => .ofSeed 0) 1
    ((calls.filterMap Call.companion?).map Sequence.id).Nodup ∧ s.companions.length = 1 ∧
      ∀ e ∈ (s.advance 0.5 .empty).trace, e.IsOfBody := by
  intro tracer wings calls s
  refine ⟨by decide, rfl, ?_⟩
  have hbody : (s.begun.resume 0.5 .empty).result = .error (.action "legs update failed") := rfl
  rw [advance_of_error hbody]
  exact List.forall_mem_cons.mpr ⟨.inl rfl, List.forall_mem_append.mpr
    ⟨s.isOfBody_of_mem_opening, s.begun.isOfBody_of_mem_resume 0.5 .empty⟩⟩

/-- The companion of a sequence whose only step fails once has its first turn in the second call. -/
theorem companions_follow_retry :
    let tracer : Rehearsal.Tracer := ⟨"legs", some 1, 0, 1, 0, 0, .action, false, false, 0⟩
    let wings : Sequence Rehearsal.Act Rehearsal.Stage String :=
      (Builder.ofCalls "wings"
        [.run (.leaf (.callback (Rehearsal.cues [.push "beat"])))]).toSequence
          (fun _ => .ofSeed 0) 0
    let calls : List (Call Rehearsal.Act Rehearsal.Stage String) :=
      [.run (.leaf (.custom (.tracer tracer))), .alongside wings]
    let s := (Builder.ofCalls "bee" calls).toSequence (fun _ => .ofSeed 0) 1
    let t := s.after [.advance 0.5 .empty]
    let round := turns 0.5 t.begun.companions (t.begun.resume 0.5 .empty).context
    s.companions = [wings] ∧ (s.advance 0.5 .empty).sequence.companions = s.begun.companions ∧
      (t.advance 0.5 .empty).sequence.companions = leftByTurns t.begun.companions round ∧
      round.map Advance.reportsComplete = [true] := by
  intro tracer wings calls s t round
  have hs : ((Builder.ofCalls "bee" calls).done (fun _ => .ofSeed 0) 1).result = .ok s := rfl
  have hdistinct : ((calls.filterMap Call.companion?).map Sequence.id).Nodup := by decide
  obtain ⟨hnamed, -, -, -, -, hfails⟩ := companions_follow hs hdistinct [] 0.5 .empty
  obtain ⟨-, -, -, -, hgoes, -⟩ := companions_follow hs hdistinct [.advance 0.5 .empty] 0.5 .empty
  exact ⟨hnamed, (hfails (.action "legs update failed") rfl).2, (hgoes .complete rfl).2.1,
    by decide +kernel +zetaReduce⟩

/-! ### Complete sequences -/

/-- Whether a call of a sequence does nothing but give its companions their turns, and fails if one
of them does. -/
structure TicksCompanions (s : Sequence A C N) (dt : Float32) (ctx : C) : Prop where
  trace : (s.advance dt ctx).trace =
    ⟨[], .ticked⟩ :: traceOfTurns .companion 0 (turns dt s.companions ctx)
  left : (s.advance dt ctx).sequence =
    { s with companions := leftByTurns s.companions (turns dt s.companions ctx) }
  completes : (s.advance dt ctx).result = .ok .complete ↔
    ∀ turn ∈ turns dt s.companions ctx, turn.Succeeds
  fails : ∀ e, (s.advance dt ctx).result = .error e ↔
    ∃ turn ∈ turns dt s.companions ctx, turn.result = .error e

theorem ticksCompanions_of_complete {s : Sequence A C N} (h : s.status = .complete) (dt : Float32)
    (ctx : C) : s.TicksCompanions dt ctx := by
  have hbegun : s.begun = s := begun_of_ne (h ▸ Status.noConfusion)
  have hopening : s.opening = [] := if_neg (h ▸ Status.noConfusion)
  have hbody : s.begun.resume dt ctx = ⟨[], ctx, s, .ok .complete⟩ := by
    rw [hbegun, resume_of_complete h]
  obtain ⟨htrace, hleft, hok, herror⟩ := advance_of_body (s := s) (congrArg Advance.result hbody)
  rw [hbody, hbegun] at htrace hleft hok herror
  exact ⟨by simpa [hopening] using htrace, hleft, hok, herror⟩

theorem after_of_complete {s : Sequence A C N} (h : s.status = .complete)
    {run : List (Command C)} (hrun : .reset ∉ run) :
    ∃ companions, s.after run = { s with companions } := by
  induction run generalizing s with
  | nil => exact ⟨s.companions, by cases s; rfl⟩
  | cons command run ih =>
    cases command with
    | reset => exact absurd List.mem_cons_self hrun
    | advance dt ctx =>
      have hleft := (ticksCompanions_of_complete h dt ctx).left
      have hlater := ih (s := (s.advance dt ctx).sequence) (by rw [hleft]; exact h)
        fun hm => hrun (List.mem_cons_of_mem _ hm)
      obtain ⟨companions, hc⟩ := hlater
      refine ⟨companions, hc.trans ?_⟩
      rw [hleft]

end Sequence

theorem getElem?_leftByTurns_of_complete {members : List (Sequence A C N)} {j : Nat}
    {s : Sequence A C N} (hj : members[j]? = some s) (hs : s.status = .complete) (dt : Float32)
    (ctx : C) :
    ∃ companions, (leftByTurns members (turns dt members ctx))[j]? = some { s with companions } := by
  rw [getElem?_leftByTurns]
  cases hturn : (turns dt members ctx)[j]? with
  | none =>
    refine ⟨s.companions, ?_⟩
    cases s
    exact hj
  | some turn =>
    obtain ⟨member, ctx', hmember, rfl⟩ := exists_of_getElem?_turns hturn
    obtain rfl : s = member := Option.some.inj (hj.symm.trans hmember)
    exact ⟨_, congrArg some (Sequence.ticksCompanions_of_complete hs dt ctx').left⟩

/-- Ticks of a step, none of which completed it, have made another one of it. -/
inductive Step.Waits (s : Step A C N) : Step A C N → Prop
  | refl : s.Waits s
  | tick {t : Step A C N} (before : s.Waits t) (dt : Float32) (ctx : C) (generator : Generator)
      (h : (Step.tick false dt t ctx generator).step.state ≠ .complete) :
      s.Waits (Step.tick false dt t ctx generator).step

theorem StepState.active_ne_complete : StepState.active ≠ .complete := StepState.noConfusion

theorem StepState.ofDriven_eq_complete_iff {result : Except TickError Bool} :
    ofDriven result = .complete ↔ result = .ok true := by
  unfold ofDriven
  split <;> simp_all

theorem StepState.ofDriven_of_ne {result : Except TickError Bool}
    (h : ofDriven result ≠ .complete) : ofDriven result = .active := by
  unfold ofDriven at h ⊢
  split at h
  · exact absurd rfl h
  · rfl

omit [Behavior A C N] in
theorem StepTick.inside_ofDriven (hop : Hop) (shape : StepShape) (trace : Trace N) (ctx : C)
    (generator : Generator) (kind : StepKind A C N) (result : Except TickError Bool) :
    (ofDriven shape trace ctx generator kind result).trace.inside hop = trace.inside hop := by
  unfold ofDriven
  split
  · rw [Trace.inside_append]
    exact List.append_nil _
  · rfl
  · rfl

theorem Step.tick_nested {state : StepState} (h : state ≠ .complete) (s : Sequence A C N)
    (dt : Float32) (ctx : C) (generator : Generator) :
    let t := Step.tick false dt ⟨state, .nested s⟩ ctx generator
    let a := (if state = .active then s else s.reset).advance dt ctx
    t.trace.inside .body = a.trace ∧ t.result = a.result.map (· == .complete) ∧
      t.step = ⟨.ofDriven t.result, .nested a.sequence⟩ := by
  have hkind : ∀ u : Sequence A C N,
      let driven := StepKind.tick false dt (.nested u) ctx generator
      driven.trace.inside .body = (u.advance dt ctx).trace ∧
        driven.result = (u.advance dt ctx).result.map (· == .complete) ∧
        driven.step = ⟨.ofDriven driven.result, .nested (u.advance dt ctx).sequence⟩ := by
    intro u
    simp only [StepKind.tick, StepTick.ofBody, StepTick.inside_ofDriven, StepTick.step_ofDriven,
      StepTick.result_ofDriven, Trace.inside_append, Trace.inside_under_self]
    exact ⟨rfl, rfl, rfl⟩
  cases state with
  | complete => exact absurd rfl h
  | active =>
    rw [Step.tick_of_active rfl]
    exact hkind s
  | notStarted =>
    rw [Step.tick_of_entry (u := ()) rfl rfl]
    exact hkind s.reset

theorem Step.tick_parallel {state : StepState} (h : state ≠ .complete) (g : Group A C N)
    (dt : Float32) (ctx : C) (generator : Generator) :
    let t := Step.tick false dt ⟨state, .parallel g⟩ ctx generator
    let members := if state = .active then g.members else g.reset.members
    let round := turns dt members ctx
    (∀ j, t.trace.inside (.member j) = (round[j]?.map Advance.trace).getD []) ∧
      (t.result = .ok true ↔ (∀ turn ∈ round, turn.Succeeds) ∧
        g.completion.isMet (round.countP Advance.reportsComplete) members.length = true) ∧
      t.step = ⟨.ofDriven t.result, .parallel ⟨g.completion, leftByTurns members round⟩⟩ := by
  have hkind : ∀ completion (members : List (Sequence A C N)),
      let driven := StepKind.tick false dt (.parallel ⟨completion, members⟩) ctx generator
      let round := turns dt members ctx
      (∀ j, driven.trace.inside (.member j) = (round[j]?.map Advance.trace).getD []) ∧
        (driven.result = .ok true ↔ (∀ turn ∈ round, turn.Succeeds) ∧
          completion.isMet (round.countP Advance.reportsComplete) members.length = true) ∧
        driven.step = ⟨.ofDriven driven.result,
          .parallel ⟨completion, leftByTurns members round⟩⟩ := by
    intro completion members driven round
    have hinj : ∀ i j, Hop.member i = .member j → i = j := fun _ _ => Hop.member.inj
    have hinside := inside_traceOfTurns hinj (turns dt members ctx) 0
    simp only [Nat.zero_add] at hinside
    simp only [driven, StepKind.tick, StepTick.ofRound, StepTick.inside_ofDriven,
      StepTick.step_ofDriven, StepTick.result_ofDriven, members_advanceAll, trace_advanceAll,
      map_eq_ok_iff, result_advanceAll_ok_iff, length_leftByTurns (length_turns_le dt members ctx)]
    refine ⟨hinside, ?_, rfl⟩
    constructor
    · rintro ⟨n, ⟨hall, rfl⟩, hmet⟩
      exact ⟨hall, hmet⟩
    · rintro ⟨hall, hmet⟩
      exact ⟨_, ⟨hall, rfl⟩, hmet⟩
  obtain ⟨completion, members⟩ := g
  cases state with
  | complete => exact absurd rfl h
  | active =>
    rw [Step.tick_of_active rfl]
    exact hkind completion members
  | notStarted =>
    rw [Step.tick_of_entry (u := ()) rfl rfl]
    exact hkind completion (resetAll members)

/-- A step that waits for the companions of a complete sequence holds the same sequence, but for the
companions. -/
theorem Step.Waits.nested {s : Sequence A C N} (hs : s.status = .complete) {t : Step A C N}
    (h : Step.Waits ⟨.active, .nested s⟩ t) :
    ∃ companions, t = ⟨.active, .nested { s with companions }⟩ := by
  induction h with
  | refl => exact ⟨s.companions, by cases s; rfl⟩
  | tick before dt ctx generator hne ih =>
    obtain ⟨companions, rfl⟩ := ih
    obtain ⟨-, -, hstep⟩ :=
      Step.tick_nested StepState.active_ne_complete { s with companions } dt ctx generator
    have hleft := (Sequence.ticksCompanions_of_complete (s := { s with companions }) hs dt ctx).left
    rw [hstep] at hne ⊢
    rw [StepState.ofDriven_of_ne hne, if_pos rfl, hleft]
    exact ⟨_, rfl⟩

/-- A step that waits for a group holds the same group: its complete members are the same, but for
their companions. -/
theorem Step.Waits.parallel {g : Group A C N} {t : Step A C N}
    (h : Step.Waits ⟨.active, .parallel g⟩ t) :
    ∃ members, t = ⟨.active, .parallel ⟨g.completion, members⟩⟩ ∧
      members.length = g.members.length ∧
      ∀ (j : Nat) (s : Sequence A C N), g.members[j]? = some s → s.status = .complete →
        ∃ companions, members[j]? = some { s with companions } := by
  induction h with
  | refl =>
    refine ⟨g.members, by cases g; rfl, rfl, fun j s hj _ => ⟨s.companions, ?_⟩⟩
    cases s
    exact hj
  | tick before dt ctx generator hne ih =>
    obtain ⟨members, rfl, hlength, hkept⟩ := ih
    obtain ⟨-, -, hstep⟩ :=
      Step.tick_parallel StepState.active_ne_complete ⟨g.completion, members⟩ dt ctx generator
    rw [hstep] at hne ⊢
    rw [StepState.ofDriven_of_ne hne, if_pos rfl]
    refine ⟨_, rfl, (length_leftByTurns (length_turns_le dt members ctx)).trans hlength, ?_⟩
    intro j s hj hs
    obtain ⟨companions, hm⟩ := hkept j s hj hs
    exact getElem?_leftByTurns_of_complete hm hs dt ctx

theorem Step.step_nested_of_finishes {state : StepState} (hstate : state ≠ .complete)
    {s : Sequence A C N} {dt : Float32} {ctx : C} {generator : Generator} {e : TickError}
    (hfinishes :
      ((Step.tick false dt ⟨state, .nested s⟩ ctx generator).trace.inside .body).Finishes)
    (herror : (Step.tick false dt ⟨state, .nested s⟩ ctx generator).result = .error e) :
    ∃ body : Sequence A C N,
      (Step.tick false dt ⟨state, .nested s⟩ ctx generator).step = ⟨.active, .nested body⟩ ∧
        body.status = .complete := by
  obtain ⟨hinside, -, hstep⟩ := Step.tick_nested hstate s dt ctx generator
  rw [hinside] at hfinishes
  rw [hstep, herror]
  exact ⟨_, rfl, Sequence.status_advance_of_finishes hfinishes⟩

theorem Step.step_parallel_of_finishes {state : StepState} (hstate : state ≠ .complete)
    {g : Group A C N} {j : Nat} {dt : Float32} {ctx : C} {generator : Generator} {e : TickError}
    (hfinishes :
      ((Step.tick false dt ⟨state, .parallel g⟩ ctx generator).trace.inside (.member j)).Finishes)
    (herror : (Step.tick false dt ⟨state, .parallel g⟩ ctx generator).result = .error e) :
    ∃ (members : List (Sequence A C N)) (member : Sequence A C N),
      (Step.tick false dt ⟨state, .parallel g⟩ ctx generator).step =
          ⟨.active, .parallel ⟨g.completion, members⟩⟩ ∧
        members[j]? = some member ∧ member.status = .complete := by
  obtain ⟨hinside, -, hstep⟩ := Step.tick_parallel hstate g dt ctx generator
  rw [hinside j] at hfinishes
  cases hturn : (turns dt (if state = .active then g.members else g.reset.members) ctx)[j]? with
  | none =>
    rw [hturn] at hfinishes
    obtain ⟨name, passes, hm⟩ := hfinishes
    cases hm
  | some turn =>
    obtain ⟨member, ctx', -, rfl⟩ := exists_of_getElem?_turns hturn
    rw [hturn] at hfinishes
    rw [hstep, herror]
    refine ⟨_, (member.advance dt ctx').sequence, rfl, ?_,
      Sequence.status_advance_of_finishes hfinishes⟩
    rw [getElem?_leftByTurns, hturn]

/-- A step with a complete sequence ticks the companions, and completes once none of them fails. -/
theorem Step.tick_nested_of_complete {s : Sequence A C N} (hs : s.status = .complete)
    (dt : Float32) (ctx : C) (generator : Generator) :
    let round := turns dt s.companions ctx
    let u := Step.tick false dt ⟨.active, .nested s⟩ ctx generator
    u.trace.inside .body = ⟨[], .ticked⟩ :: traceOfTurns .companion 0 round ∧
      (u.step.state = .complete ↔ ∀ turn ∈ round, turn.Succeeds) := by
  have hbody := Sequence.ticksCompanions_of_complete hs dt ctx
  obtain ⟨hinside, hresult, hstep⟩ :=
    Step.tick_nested StepState.active_ne_complete s dt ctx generator
  rw [if_pos rfl] at hinside hresult
  refine ⟨hinside.trans hbody.trace, ?_⟩
  rw [hstep, StepState.ofDriven_eq_complete_iff, hresult, ← hbody.completes, map_eq_ok_iff]
  simp

/-- A step with a group ticks the companions of a complete member in its turn, and completes once no
turn fails and the policy of the group is met. -/
theorem Step.tick_parallel_of_complete {g : Group A C N} {j : Nat} {s : Sequence A C N}
    (hj : g.members[j]? = some s) (hs : s.status = .complete) (dt : Float32) (ctx : C)
    (generator : Generator) :
    let round := turns dt g.members ctx
    let u := Step.tick false dt ⟨.active, .parallel g⟩ ctx generator
    (u.trace.inside (.member j) = [] ∨ ∃ ctx', u.trace.inside (.member j) =
      ⟨[], .ticked⟩ :: traceOfTurns .companion 0 (turns dt s.companions ctx')) ∧
    (u.step.state = .complete ↔ (∀ turn ∈ round, turn.Succeeds) ∧
      g.completion.isMet (round.countP Advance.reportsComplete) g.members.length = true) := by
  obtain ⟨hinside, hresult, hstep⟩ :=
    Step.tick_parallel StepState.active_ne_complete g dt ctx generator
  rw [if_pos rfl] at hinside hresult
  constructor
  · rw [hinside j]
    cases hturn : (turns dt g.members ctx)[j]? with
    | none => exact .inl rfl
    | some turn =>
      obtain ⟨member, ctx', hmember, rfl⟩ := exists_of_getElem?_turns hturn
      obtain rfl : s = member := Option.some.inj (hj.symm.trans hmember)
      exact .inr ⟨ctx', (Sequence.ticksCompanions_of_complete hs dt ctx').trace⟩
  · rw [hstep, StepState.ofDriven_eq_complete_iff, hresult]

/-- Completion survives failures of companions. A sequence is complete from the call on in which its
body finishes its last pass, whatever the result of that call is. From then on until it is reset, a
call gives the companions their turns and changes nothing else of the sequence, and it fails only if
a companion does. A step with such a sequence inside, alone or in a group, is still active when the
call in which the body finished has failed; it then waits without running the body again, and
completes as soon as nothing fails and its policy allows it. -/
theorem Sequence.completion_survives (s : Sequence A C N) :
    (∀ dt ctx, (s.advance dt ctx).trace.Finishes →
      (s.advance dt ctx).sequence.status = .complete) ∧
    (s.status = .complete → ∀ run : List (Command C), .reset ∉ run →
      (∃ companions, s.after run = { s with companions }) ∧
        ∀ dt ctx, (s.after run).TicksCompanions dt ctx) ∧
    (∀ state dt ctx generator e, state ≠ .complete →
      let t := Step.tick false dt ⟨state, .nested s⟩ ctx generator
      (t.trace.inside .body).Finishes → t.result = .error e →
        ∃ body : Sequence A C N, t.step = ⟨.active, .nested body⟩ ∧ body.status = .complete) ∧
    (s.status = .complete → ∀ t, Step.Waits ⟨.active, .nested s⟩ t →
      ∃ companions, t = ⟨.active, .nested { s with companions }⟩ ∧ ∀ dt ctx generator,
        let round := turns dt companions ctx
        let u := Step.tick false dt t ctx generator
        u.trace.inside .body = ⟨[], .ticked⟩ :: traceOfTurns .companion 0 round ∧
          (u.step.state = .complete ↔ ∀ turn ∈ round, turn.Succeeds)) ∧
    ∀ (g : Group A C N) (j : Nat), g.members[j]? = some s →
      (∀ state dt ctx generator e, state ≠ .complete →
        let t := Step.tick false dt ⟨state, .parallel g⟩ ctx generator
        (t.trace.inside (.member j)).Finishes → t.result = .error e →
          ∃ (members : List (Sequence A C N)) (member : Sequence A C N),
            t.step = ⟨.active, .parallel ⟨g.completion, members⟩⟩ ∧
              members[j]? = some member ∧ member.status = .complete) ∧
      (s.status = .complete → ∀ t, Step.Waits ⟨.active, .parallel g⟩ t →
        ∃ members companions, t = ⟨.active, .parallel ⟨g.completion, members⟩⟩ ∧
          members[j]? = some { s with companions } ∧ ∀ dt ctx generator,
            let round := turns dt members ctx
            let u := Step.tick false dt t ctx generator
            (u.trace.inside (.member j) = [] ∨ ∃ ctx', u.trace.inside (.member j) =
              ⟨[], .ticked⟩ :: traceOfTurns .companion 0 (turns dt companions ctx')) ∧
            (u.step.state = .complete ↔ (∀ turn ∈ round, turn.Succeeds) ∧
              g.completion.isMet (round.countP Advance.reportsComplete) members.length =
                true)) := by
  refine ⟨?finishing, ?resting, ?nestedFails, ?nestedWaits, ?_⟩
  case finishing => exact fun dt ctx => status_advance_of_finishes
  case resting =>
    intro hs run hrun
    obtain ⟨companions, hafter⟩ := after_of_complete hs hrun
    refine ⟨⟨companions, hafter⟩, fun dt ctx => ?_⟩
    rw [hafter]
    exact ticksCompanions_of_complete (s := { s with companions }) hs dt ctx
  case nestedFails =>
    exact fun _ _ _ _ _ hstate hfinishes herror =>
      Step.step_nested_of_finishes hstate hfinishes herror
  case nestedWaits =>
    intro hs t hw
    obtain ⟨companions, rfl⟩ := hw.nested hs
    exact ⟨companions, rfl, Step.tick_nested_of_complete (s := { s with companions }) hs⟩
  intro g j hj
  constructor
  case left =>
    exact fun _ _ _ _ _ hstate hfinishes herror =>
      Step.step_parallel_of_finishes hstate hfinishes herror
  case right =>
    intro hs t hw
    obtain ⟨members, rfl, -, hkept⟩ := hw.parallel
    obtain ⟨companions, hm⟩ := hkept j s hj hs
    exact ⟨members, companions, rfl, hm,
      Step.tick_parallel_of_complete (g := ⟨g.completion, members⟩) hm hs⟩

/-- A companion that fails twice. The call in which the body finishes fails with it, and so does the
one after it; the third call completes. A step with the sequence inside completes in its third
tick. -/
theorem Sequence.completion_survives_failing_companion :
    let tracer : Rehearsal.Tracer := ⟨"wings", some 1, 0, 2, 0, 0, .action, false, false, 0⟩
    let wings : Sequence Rehearsal.Act Rehearsal.Stage String :=
      (Builder.ofCalls "wings" [.run (.leaf (.custom (.tracer tracer)))]).toSequence
        (fun _ => .ofSeed 0) 0
    let s := (Builder.ofCalls "bee" [.run (.leaf (.callback (Rehearsal.cues [.push "step"]))),
      .alongside wings]).toSequence (fun _ => .ofSeed 0) 1
    let first := s.advance 0.5 .empty
    let second := first.sequence.advance 0.5 .empty
    let third := second.sequence.advance 0.5 .empty
    let entered := Step.tick false 0.5 (.nested s) .empty s.generator
    let waiting := Step.tick false 0.5 entered.step .empty s.generator
    first.result = .error (.action "wings update failed") ∧ first.sequence.status = .complete ∧
      first.sequence.TicksCompanions 0.5 .empty ∧
      second.reportsComplete = false ∧ third.reportsComplete = true ∧
      (∃ body, entered.step = ⟨.active, .nested body⟩ ∧ body.status = .complete ∧
        Step.Waits entered.step waiting.step) ∧
      (Step.tick false 0.5 waiting.step .empty s.generator).step.state = .complete := by
  intro tracer wings s first second third entered waiting
  obtain ⟨hfinishing, -, hnested, -⟩ := completion_survives s
  have hline : first.trace.Finishes := ⟨"bee", 1, List.mem_of_getElem? (i := 12) rfl⟩
  have hcomplete : first.sequence.status = .complete := hfinishing 0.5 .empty hline
  obtain ⟨-, hresting, -⟩ := completion_survives first.sequence
  obtain ⟨-, hrests⟩ := hresting hcomplete [] (by simp)
  rw [after] at hrests
  have hinside : (entered.trace.inside .body).Finishes :=
    ⟨"bee", 1, List.mem_of_getElem? (i := 12) rfl⟩
  obtain ⟨body, hbody, hb⟩ := hnested .notStarted 0.5 .empty s.generator
    (.action "wings update failed") StepState.noConfusion hinside rfl
  have hwaiting : waiting.step.state ≠ .complete := by decide +kernel +zetaReduce
  have hwaits : Step.Waits entered.step waiting.step :=
    .tick (t := entered.step) .refl 0.5 .empty s.generator hwaiting
  refine ⟨rfl, hcomplete, hrests 0.5 .empty, ?_, ?_, ⟨body, hbody, hb, hwaits⟩, ?_⟩
  all_goals decide +kernel +zetaReduce

end Bodies

end Sequencer

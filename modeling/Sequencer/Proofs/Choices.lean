import Sequencer.Proofs.Definitions
import Sequencer.Proofs.Provenance
import Sequencer.Proofs.Selections

/-!
# The choice that a branch remembers

A branch remembers the index that its latest selection picked, and nothing but a selection changes
it. A step that has been entered has made its selection, so what it remembers is the choice of the
running activation. A reset forgets the activation and leaves the index, which the branch goes on to
show until a selection succeeds again.
-/

namespace Sequencer

variable {A C N : Type}

def Entry.choice? : Entry N → Option (Option Nat)
  | ⟨[], .log (.branchSelected chosen)⟩ => some chosen
  | _ => none

namespace Trace

/-- What the selections in a trace of a branch picked, in the order of time. A selection that fails
is none of them. -/
def choices (t : Trace N) : List (Option Nat) := t.filterMap Entry.choice?

@[simp] theorem choices_append (t u : Trace N) : choices (t ++ u) = t.choices ++ u.choices := by
  simp [choices]

@[simp] theorem choices_under (hop : Hop) (t : Trace N) : (t.under hop).choices = [] := by
  simp [choices, under, Entry.choice?]

theorem choices_here {events : List (Event N)} (h : ∀ e ∈ events, e.isDecision = true) :
    (here events).choices = [] := by
  rw [choices, here, List.filterMap_map]
  refine filterMap_of_isDecision (fun e hd => ?_) h
  cases e with
  | log line => cases hd
  | _ => rfl

end Trace

/-- Whether a step with a branch, in the course of a trace, has come to remember what the trace
says: the latest choice, and one of the trace if the step was entered in its course. -/
structure Branch.Recalls (b : Branch A C N) (state : StepState) (trace : Trace N)
    (b' : Branch A C N) (state' : StepState) : Prop where
  chosen : b'.chosen = trace.choices.getLast?.getD b.chosen
  entered : state = .notStarted → state' ≠ .notStarted →
    trace.choices.getLast? = some b'.chosen

namespace Branch.Recalls

variable {b b' b'' : Branch A C N} {state state' state'' : StepState} {t u : Trace N}

theorem of_idle (h : t.choices = []) (hstate : state = .notStarted → state' = .notStarted)
    (hchosen : b'.chosen = b.chosen) : b.Recalls state t b' state' where
  chosen := by rw [h, hchosen]; rfl
  entered hs hne := absurd (hstate hs) hne

theorem append (h : b.Recalls state t b' state') (k : b'.Recalls state' u b'' state'') :
    b.Recalls state (t ++ u) b'' state'' where
  chosen := by
    rw [Trace.choices_append, List.getLast?_append, k.chosen, h.chosen]
    cases u.choices.getLast? <;> rfl
  entered hs hne := by
    rw [Trace.choices_append, List.getLast?_append]
    by_cases hmid : state' = .notStarted
    · rw [k.entered hmid hne]
      rfl
    · have hchosen := k.chosen
      rw [h.entered hs hmid, hchosen]
      cases u.choices.getLast? <;> rfl

end Branch.Recalls

variable [Behavior A C N]

theorem Step.recalls_activate (state : StepState) (b : Branch A C N) (ctx : C)
    (generator : Generator) :
    let entered := (⟨state, .branch b⟩ : Step A C N).activate ctx generator
    ∃ state' b', entered.step = ⟨state', .branch b'⟩ ∧ b.Recalls state entered.trace b' state' := by
  have hquestions := Trace.choices_here
    (b.selector.decides_select b.children.length ctx generator).isDecision
  simp only [Step.activate]
  split
  · exact ⟨state, b, rfl, .of_idle hquestions id rfl⟩
  · rename_i picked _
    have hchoices : Trace.choices
        ((b.selector.select b.children.length ctx generator).trace picked) = [picked] := by
      rw [Selection.trace, Trace.choices_append, Trace.choices_append, hquestions]
      rfl
    refine ⟨.active, b.choose picked, rfl, ?_, fun _ _ => ?_⟩
    · rw [hchoices]
      rfl
    · rw [hchoices]
      rfl

theorem StepKind.recalls_tick (b : Branch A C N) (dt : Float32) (ctx : C) (generator : Generator) :
    let driven := StepKind.tick false dt (.branch b) ctx generator
    ∃ state' b', driven.step = ⟨state', .branch b'⟩ ∧
      b.Recalls .active driven.trace b' state' := by
  have hactive : StepState.active = .notStarted → ∀ state', state' = StepState.notStarted :=
    fun h => StepState.noConfusion h
  obtain ⟨selector, children, chosen⟩ := b
  simp only [StepKind.tick, StepTick.ofBranch, Bool.false_eq_true, ↓reduceIte]
  cases chosen with
  | none => exact ⟨.complete, _, rfl, .of_idle rfl (fun h => hactive h _) rfl⟩
  | some index =>
    simp only [StepTick.ofChosen, StepTick.ofDriven, List.nil_append]
    split
    · refine ⟨.complete, _, rfl, .of_idle ?_ (fun h => hactive h _) rfl⟩
      rw [Trace.choices_append, Trace.choices_under]
      rfl
    · exact ⟨.active, _, rfl, .of_idle (Trace.choices_under ..) (fun h => hactive h _) rfl⟩
    · exact ⟨.active, _, rfl, .of_idle (Trace.choices_under ..) (fun h => hactive h _) rfl⟩

theorem Step.recalls_tick (state : StepState) (b : Branch A C N) (dt : Float32) (ctx : C)
    (generator : Generator) :
    let t := Step.tick false dt ⟨state, .branch b⟩ ctx generator
    ∃ state' b', t.step = ⟨state', .branch b'⟩ ∧ b.Recalls state t.trace b' state' := by
  have hmark : ∀ {u : Trace N} {state' b'}, b.Recalls state u b' state' →
      b.Recalls state (⟨[], .ticked⟩ :: u) b' state' := fun h => ⟨h.chosen, h.entered⟩
  cases state with
  | complete =>
    rw [Step.tick_of_complete rfl]
    exact ⟨.complete, b, rfl, .of_idle rfl id rfl⟩
  | active =>
    rw [Step.tick_of_active rfl]
    obtain ⟨state', b', hstep, hrecalls⟩ := StepKind.recalls_tick b dt ctx generator
    exact ⟨state', b', hstep, hmark hrecalls⟩
  | notStarted =>
    obtain ⟨state₁, b₁, hstep₁, hentered⟩ := Step.recalls_activate .notStarted b ctx generator
    cases hr : ((⟨.notStarted, .branch b⟩ : Step A C N).activate ctx generator).result with
    | error e =>
      rw [Step.tick_of_entry_error rfl hr]
      exact ⟨state₁, b₁, hstep₁, hmark hentered⟩
    | ok entered =>
      have hactive := Step.state_activate_of_ok _ hr
      rw [hstep₁] at hactive
      obtain rfl : state₁ = .active := hactive
      rw [Step.tick_of_entry rfl hr]
      simp only [hstep₁]
      obtain ⟨state', b', hstep, hdriven⟩ := StepKind.recalls_tick b₁ dt
        ((⟨.notStarted, .branch b⟩ : Step A C N).activate ctx generator).context
        ((⟨.notStarted, .branch b⟩ : Step A C N).activate ctx generator).generator
      exact ⟨state', b', hstep, hmark (hentered.append hdriven)⟩

/-- Whatever happens to a branch, it remembers the latest of its choices. -/
theorem Part.recalls_visits (state : StepState) (b : Branch A C N) (vs : List (Visit C)) :
    let visited := (Part.step ⟨state, .branch b⟩).visits vs
    ∃ state' b', visited.part = .step ⟨state', .branch b'⟩ ∧
      b.Recalls state visited.trace b' state' := by
  induction vs generalizing state b with
  | nil => exact ⟨state, b, rfl, .of_idle rfl id rfl⟩
  | cons v vs ih =>
    have hone : ∃ state₁ b₁, ((Part.step ⟨state, .branch b⟩).visit v).part =
          .step ⟨state₁, .branch b₁⟩ ∧
        b.Recalls state ((Part.step ⟨state, .branch b⟩).visit v).trace b₁ state₁ := by
      cases v with
      | reset => exact ⟨.notStarted, b, rfl, .of_idle rfl (fun _ => rfl) rfl⟩
      | enter ctx generator =>
        obtain ⟨state₁, b₁, hstep, hrecalls⟩ := Step.recalls_activate state b ctx generator
        exact ⟨state₁, b₁, congrArg Part.step hstep, hrecalls⟩
      | tick dt ctx generator =>
        obtain ⟨state₁, b₁, hstep, hrecalls⟩ := Step.recalls_tick state b dt ctx generator
        exact ⟨state₁, b₁, congrArg Part.step hstep, hrecalls⟩
    obtain ⟨state₁, b₁, hpart, hfirst⟩ := hone
    obtain ⟨state', b', hlater, hrest⟩ := ih state₁ b₁
    simp only [Part.visits, hpart]
    exact ⟨state', b', hlater, hfirst.append hrest⟩

theorem Step.shape_activate (s : Step A C N) (ctx : C) (generator : Generator) :
    (s.activate ctx generator).step.kind.shape = s.kind.shape := by
  obtain ⟨state, kind⟩ := s
  cases kind with
  | leaf action =>
    simp only [Step.activate]
    split <;> rfl
  | nested body => rfl
  | parallel group => rfl
  | branch branch =>
    simp only [Step.activate]
    split <;> rfl

theorem StepKind.shape_tick (kind : StepKind A C N) (dt : Float32) (ctx : C)
    (generator : Generator) :
    (StepKind.tick false dt kind ctx generator).step.kind.shape = kind.shape := by
  cases kind with
  | leaf action =>
    simp only [StepKind.tick, StepTick.ofAction, Bool.false_eq_true, ↓reduceIte,
      StepTick.kind_ofDriven]
    rfl
  | nested body =>
    simp only [StepKind.tick, StepTick.ofBody, StepTick.kind_ofDriven]
    rfl
  | parallel group =>
    obtain ⟨completion, members⟩ := group
    simp only [StepKind.tick, StepTick.ofRound, StepTick.kind_ofDriven]
    rfl
  | branch b =>
    obtain ⟨selector, children, chosen⟩ := b
    cases chosen with
    | none => rfl
    | some index =>
      simp only [StepKind.tick, StepTick.ofBranch, StepTick.ofChosen, Bool.false_eq_true,
        ↓reduceIte, StepTick.kind_ofDriven]
      rfl

theorem Step.isLasting_shape (shape : StepShape) :
    Step.IsLasting fun s : Step A C N => s.kind.shape = shape where
  reset h := h
  enter ctx generator h := (Step.shape_activate _ ctx generator).trans h
  drive dt ctx generator h := (StepKind.shape_tick _ dt ctx generator).trans h

theorem Part.shape_visits (s : Step A C N) (vs : List (Visit C)) :
    ∃ s', ((Part.step s).visits vs).part = .step s' ∧ s'.kind.shape = s.kind.shape :=
  (Step.isLasting_shape s.kind.shape).visits rfl vs

namespace Sequence

theorem exists_branch_of_after {s : Sequence A C N} {commands : List (Command C)} {i : Nat}
    {state' : StepState} {b' : Branch A C N}
    (h : (s.after commands).steps[i]? = some ⟨state', .branch b'⟩) :
    ∃ state b, s.steps[i]? = some ⟨state, .branch b⟩ ∧
      b.Recalls state ((s.history commands).within [.step i]) b' state' := by
  have hlength : (s.after commands).steps.length = s.steps.length :=
    (SameFrame.after s commands).steps
  have hi : i < s.steps.length := hlength ▸ (List.getElem?_eq_some_iff.mp h).1
  have hbefore : (Part.sequence s).find? [.step i] = some (.step s.steps[i]) := by
    simp [Part.find?, Part.child?, hi]
  obtain ⟨vs, hafter, htrace, -⟩ := s.exists_visits commands [.step i] hbefore
  have hlater : (Part.sequence (s.after commands)).find? [.step i] =
      some (.step ⟨state', .branch b'⟩) := by
    simp [Part.find?, Part.child?, h]
  have hpart := Option.some.inj (hafter.symm.trans hlater)
  obtain ⟨step', hstep', hshape⟩ := Part.shape_visits s.steps[i] vs
  obtain rfl := Part.step.inj (hstep'.symm.trans hpart)
  obtain ⟨⟨state, kind⟩, hs⟩ : ∃ step, s.steps[i] = step := ⟨_, rfl⟩
  rw [hs] at hshape hpart htrace
  cases kind with
  | branch b =>
    obtain ⟨state₁, b₁, hstep₁, hrecalls⟩ := Part.recalls_visits state b vs
    obtain ⟨rfl, hkind⟩ := Step.mk.inj (Part.step.inj (hstep₁.symm.trans hpart))
    obtain rfl := StepKind.branch.inj hkind
    rw [htrace] at hrecalls
    exact ⟨state, b, by rw [List.getElem?_eq_getElem hi, hs], hrecalls⟩
  | leaf action => cases hshape
  | nested body => cases hshape
  | parallel group => cases hshape

/-- What a branch that is a direct step remembers, in every sequence inside of a reachable one,
after any further history of the root. The sequence was new at some time and has been called since;
the branch shows what the latest of its selections since then picked, whatever has become of its
activation. There is such a selection if the step is entered or complete. -/
theorem chosen_of_reachable {s : Sequence A C N} (hs : (Part.sequence s).Reachable)
    (commands : List (Command C)) {path : List Hop} {t : Sequence A C N}
    (h : (Part.sequence (s.after commands)).find? path = some (.sequence t)) {i : Nat}
    {state : StepState} {b : Branch A C N} (hi : t.steps[i]? = some ⟨state, .branch b⟩) :
    ∃ (new : Sequence A C N) (earlier later : List (Command C)), new.IsNew ∧
      (Part.sequence s).find? path = some (.sequence (new.after earlier)) ∧
      (new.after earlier).history later = (s.history commands).within path ∧
      t = new.after (earlier ++ later) ∧
      ∃ made, new.steps[i]? = some (.branch made) ∧
        let choices := ((new.history (earlier ++ later)).within [.step i]).choices
        b.chosen = choices.getLast?.getD made.chosen ∧
          b.chosenStep? = (choices.getLast?.getD made.chosen).bind (b.children[·]?) ∧
          (state ≠ .notStarted → choices.getLast? = some b.chosen) := by
  obtain ⟨given, ds, hb, rfl, ht, -⟩ := s.exists_commands_of_after commands path h
  obtain ⟨new, es, hnew, rfl⟩ := hs.exists_history hb
  rw [← Sequence.after_append] at hi ⊢
  obtain ⟨state₀, made, hmade, hrecalls⟩ := exists_branch_of_after hi
  obtain rfl : state₀ = .notStarted := hnew.2 _ (List.mem_of_getElem? hmade)
  refine ⟨new, es, ds, hnew, hb, ht, rfl, made, hmade, hrecalls.chosen, ?_, hrecalls.entered rfl⟩
  rw [Branch.chosenStep?, hrecalls.chosen]

/-- A branch in a sequence that has completed. It shows what its only selection picked. -/
theorem chosen_of_complete_branch :
    let calls : List (Call Rehearsal.Act Rehearsal.Stage String) :=
      [.ifHolds .always, .andThen (.leaf (.callback (Rehearsal.cues [.push "sip"]))),
        .otherwise (.leaf (.callback (Rehearsal.cues [.push "rest"])))]
    let s := (Builder.ofCalls "bee" calls).toSequence (fun _ => .ofSeed 0) 0
    let t := s.after [.advance 0.5 .empty]
    (Part.sequence s).Reachable ∧
      ∃ (b : Branch Rehearsal.Act Rehearsal.Stage String) (new : Sequence _ _ _)
        (commands : List (Command Rehearsal.Stage)),
        t.steps[0]? = some ⟨.complete, .branch b⟩ ∧ b.chosen = some 0 ∧ new.IsNew ∧
        t = new.after commands ∧
        ((new.history commands).within [.step 0]).choices.getLast? = some (some 0) := by
  intro calls s t
  have hs : (Part.sequence s).Reachable := by
    refine .built "bee" calls (fun _ => .ofSeed 0) 0 ?_ ?_ rfl
    · simpa [calls, Call.steps] using ⟨.leaf _, .leaf _⟩
    · simp [calls, Call.sequences]
  have hroot : (Part.sequence t).find? [] = some (.sequence t) := rfl
  obtain ⟨b, hb, hchosen⟩ : ∃ b, t.steps[0]? = some ⟨.complete, .branch b⟩ ∧ b.chosen = some 0 :=
    ⟨_, rfl, rfl⟩
  obtain ⟨new, earlier, later, hnew, -, -, ht, made, -, -, -, hlatest⟩ :=
    chosen_of_reachable hs _ hroot hb
  refine ⟨hs, b, new, earlier ++ later, hb, hchosen, hnew, ht, ?_⟩
  rw [hlatest StepState.noConfusion, hchosen]

/-- The branch is not entered after a reset, and still shows what it picked before. -/
theorem chosen_after_reset :
    let calls : List (Call Rehearsal.Act Rehearsal.Stage String) :=
      [.ifHolds .always, .andThen (.leaf (.callback (Rehearsal.cues [.push "sip"]))),
        .otherwise (.leaf (.callback (Rehearsal.cues [.push "rest"])))]
    let s := (Builder.ofCalls "bee" calls).toSequence (fun _ => .ofSeed 0) 0
    (Part.sequence s).Reachable ∧
      ∃ b, (s.after [.advance 0.5 .empty, .reset]).steps[0]? = some ⟨.notStarted, .branch b⟩ ∧
        b.chosen = some 0 ∧ b.chosenStep?.isSome := by
  intro calls s
  have hs : (Part.sequence s).Reachable := by
    refine .built "bee" calls (fun _ => .ofSeed 0) 0 ?_ ?_ rfl
    · simpa [calls, Call.steps] using ⟨.leaf _, .leaf _⟩
    · simp [calls, Call.sequences]
  exact ⟨hs, _, rfl, rfl, rfl⟩

end Sequence

end Sequencer

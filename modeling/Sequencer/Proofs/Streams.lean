import Sequencer.Proofs.Provenance
import Sequencer.Proofs.Samplers

/-!
# The stream of a sequence

A sequence uses its random source for the choices of the branches that it holds, directly or through
branches of branches, and for nothing else: whatever is ticked, fails, is complete or is reset, the
source goes on by one draw for each of these choices. So two runs in which such branches choose at
the same places make the same choices there, whatever the sources of other sequences give.
-/

namespace Sequencer

variable {A C N : Type} [Behavior A C N]

namespace Action

theorem log_reload (a : Action A C N) : (Trace.here a.reload.1).log = [] := by
  cases a with
  | custom a => exact Trace.log_notes _ rfl
  | _ => rfl

theorem log_start (a : Action A C N) (ctx : C) : (Trace.here (a.start ctx).events).log = [] := by
  cases a with
  | custom a => exact Trace.log_notes _ rfl
  | _ => rfl

/-- Hooks write no log lines. -/
theorem log_enter (a : Action A C N) (ctx : C) : (Trace.here (a.enter ctx).events).log = [] := by
  have hr := a.log_reload
  have hs := a.reload.2.log_start ctx
  rw [Trace.log_here] at hr hs ⊢
  rw [enter, List.filterMap_append, hr, hs]
  rfl

theorem log_update (a : Action A C N) (dt : Float32) (ctx : C) :
    (Trace.here (a.update dt ctx).events).log = [] := by
  cases a with
  | callback c =>
    simp only [update]
    split
    · rfl
    · exact Trace.log_notes _ rfl
  | custom a => exact Trace.log_notes _ rfl
  | _ => rfl

theorem log_check (a : Action A C N) (ctx : C) : (Trace.here (a.check ctx).events).log = [] := by
  cases a with
  | waitUntil condition =>
    have h := Trace.log_here_of_isDecision (condition.isDecision_evaluate ctx)
    rw [Trace.log_here] at h ⊢
    simp [check, h]
  | custom a => exact Trace.log_notes _ rfl
  | _ => rfl

theorem log_finish (a : Action A C N) (ctx : C) : (Trace.here (a.finish ctx).events).log = [] := by
  cases a with
  | custom a => exact Trace.log_notes _ rfl
  | _ => rfl

theorem log_drive (a : Action A C N) (dt : Float32) (ctx : C) :
    (Trace.here (a.drive dt ctx).events).log = [] := by
  have hu := a.log_update dt ctx
  have hc := (a.update dt ctx).action.log_check (a.update dt ctx).context
  have hf := ((a.update dt ctx).action.check (a.update dt ctx).context).action.log_finish
    ((a.update dt ctx).action.check (a.update dt ctx).context).context
  rw [Trace.log_here] at hu hc hf ⊢
  simp only [drive]
  split
  · exact hu
  · split <;> simp [hu, hc, hf]

end Action

section Steps

variable {sampler? : List Hop → Option Sampler}

omit [Behavior A C N]

theorem StepTick.picks_ofDriven (shape : StepShape) (trace : Trace N) (ctx : C) (g : Generator)
    (kind : StepKind A C N) (result : Except TickError Bool) :
    (ofDriven shape trace ctx g kind result).trace.picks = trace.picks := by
  unfold ofDriven
  split
  · rw [Trace.picks_append]
    exact List.append_nil _
  · rfl
  · rfl

theorem StepTick.source_ofDriven (shape : StepShape) (trace : Trace N) (ctx : C) (g : Generator)
    (kind : StepKind A C N) (result : Except TickError Bool) :
    (ofDriven shape trace ctx g kind result).generator = g := by
  unfold ofDriven
  split <;> rfl

theorem StepTick.deals_ofDriven {g g' : Generator} {trace : Trace N}
    (h : Deals sampler? g trace.picks g') (shape : StepShape) (ctx : C) (kind : StepKind A C N)
    (result : Except TickError Bool) :
    Deals sampler? g (ofDriven shape trace ctx g' kind result).trace.picks
      (ofDriven shape trace ctx g' kind result).generator := by
  rwa [picks_ofDriven, source_ofDriven]

theorem Deals.of_nil {trace : Trace N} (h : trace.picks = []) (g : Generator) :
    Deals sampler? g trace.picks g := by
  rw [h]
  exact .done g

theorem picks_activation (entering : Bool) (shape : StepShape) :
    (activation entering shape : Trace N).picks = [] := by
  cases entering <;> rfl

/-- A selection is one pick of its branch. -/
theorem Selector.deals_select {selector : Selector C N} {size : Nat}
    (hs : sampler? [] = selector.sampler? size) {ctx : C} {g : Generator} {chosen : Option Nat}
    (h : (selector.select size ctx g).result = .ok chosen) :
    Deals sampler? g ((selector.select size ctx g).trace chosen).picks
      (selector.select size ctx g).generator := by
  have hquiet : (Trace.here (selector.select size ctx g).events).picks = [] :=
    Trace.picks_of_log (Trace.log_here_of_isDecision (selector.isDecision_select size ctx g))
  have hpicks : ((selector.select size ctx g).trace chosen).picks = [⟨[], chosen⟩] := by
    rw [Selection.trace, Trace.picks_append, Trace.picks_append, hquiet]
    rfl
  rw [hpicks]
  cases hd : selector.sampler? size with
  | none =>
    rw [generator_select_of_none hd]
    exact .guarded (hs.trans hd) chosen (.done g)
  | some draw =>
    rw [select_of_sampler? hd] at h ⊢
    obtain rfl : (draw g).1 = chosen := Except.ok.inj h
    exact .drawn (hs.trans hd) (.done _)

theorem StepTick.deals_ofChosen {g g' : Generator} {earlier : Trace N}
    (h : Deals sampler? g earlier.picks g') (b : Branch A C N) (chosen : Option Nat)
    {tickChild : Nat → C → Generator → ChildTick A C N} (ctx : C)
    (hc : ∀ index, Deals sampler? g'
      ((tickChild index ctx g').trace.under (.child index)).picks
      (tickChild index ctx g').generator) :
    Deals sampler? g (ofChosen earlier b chosen tickChild ctx g').trace.picks
      (ofChosen earlier b chosen tickChild ctx g').generator := by
  cases chosen with
  | none => exact deals_ofDriven h ..
  | some index =>
    refine deals_ofDriven ?_ ..
    rw [Trace.picks_append]
    exact h.append (hc index)

theorem StepTick.deals_ofBranch (entering : Bool) {b : Branch A C N}
    (hs : sampler? [] = b.selector.sampler? b.children.length)
    {tickChild : Nat → C → Generator → ChildTick A C N} (ctx : C) (g : Generator)
    (hc : ∀ index g', Deals sampler? g' ((tickChild index ctx g').trace.under (.child index)).picks
      (tickChild index ctx g').generator) :
    Deals sampler? g (ofBranch entering b tickChild ctx g).trace.picks
      (ofBranch entering b tickChild ctx g).generator := by
  cases entering with
  | false => exact deals_ofChosen (.done g) b b.chosen ctx fun index => hc index g
  | true =>
    simp only [ofBranch, ↓reduceIte]
    split
    · rename_i e hr
      rw [Selector.generator_select_of_none (Selector.sampler?_of_error hr)]
      apply Deals.of_nil
      exact Trace.picks_of_log
        (Trace.log_here_of_isDecision (b.selector.isDecision_select b.children.length ctx g))
    · rename_i chosen hr
      exact deals_ofChosen (Selector.deals_select hs hr) b chosen ctx fun index => hc index _

end Steps

omit [Behavior A C N] in
/-- The samplers of a step, by their places in it. -/
def Step.samplers (s : Step A C N) : List Hop → Option Sampler := (Part.step s).samplerAt?

omit [Behavior A C N] in
theorem Step.samplers_child (state : StepState) (selector : Selector C N)
    (children : List (Step A C N)) (chosen : Option Nat) (index : Nat) (place : List Hop) :
    Step.samplers ⟨state, .branch ⟨selector, children, chosen⟩⟩ (.child index :: place) =
      children[index]?.bind (·.samplers place) := by
  rw [samplers, Part.samplerAt?_cons, Part.child?, Option.bind_map]
  rfl

theorem StepTick.deals_ofAction (sampler? : List Hop → Option Sampler) (entering : Bool)
    (dt : Float32) (action : Action A C N) (ctx : C) (g : Generator) :
    Deals sampler? g (ofAction entering dt action ctx g).trace.picks
      (ofAction entering dt action ctx g).generator := by
  have hentered : (Trace.here
      (if entering then action.enter ctx else ⟨[], action, ctx, .ok ()⟩).events).picks = [] := by
    cases entering with
    | true => exact Trace.picks_of_log (action.log_enter ctx)
    | false => rfl
  simp only [ofAction]
  split
  · exact .of_nil hentered g
  · refine deals_ofDriven (.of_nil ?_ g) ..
    rw [Trace.picks_append, Trace.picks_append, hentered, picks_activation]
    exact Trace.picks_of_log (Action.log_drive ..)

theorem picks_advanceAll (fresh : Bool) (dt : Float32) (hop : Nat → Hop)
    (h : ∀ i, (hop i).isHeld = false) (index : Nat) (members : List (Sequence A C N)) (ctx : C) :
    (advanceAll fresh dt hop index members ctx).trace.picks = [] := by
  have hplain : ∀ ms : List (Sequence A C N),
      (advanceAll false dt hop index ms ctx).trace.picks = [] := by
    intro ms
    apply Trace.picks_eq_nil
    intro e he
    obtain ⟨k, place, hp⟩ := exists_hop_of_mem_advanceAll dt hop ms index ctx e he
    exact ⟨_, place, hp, h _⟩
  cases fresh with
  | false => exact hplain members
  | true =>
    rw [advanceAll_true]
    exact hplain _

section Ticks

mutual

theorem StepKind.deals_tick (entering : Bool) (dt : Float32) (kind : StepKind A C N) (ctx : C)
    (g : Generator) (state : StepState) :
    Deals (Step.samplers ⟨state, kind⟩) g (StepKind.tick entering dt kind ctx g).trace.picks
      (StepKind.tick entering dt kind ctx g).generator := by
  match kind with
  | .leaf action => exact StepTick.deals_ofAction _ entering dt action ctx g
  | .nested body =>
    refine StepTick.deals_ofDriven (.of_nil ?_ g) ..
    rw [Trace.picks_append, picks_activation]
    exact Trace.picks_under_of_not_held rfl _
  | .parallel ⟨completion, members⟩ =>
    refine StepTick.deals_ofDriven (.of_nil ?_ g) ..
    rw [Trace.picks_append, picks_activation]
    exact picks_advanceAll entering dt .member (fun _ => rfl) 0 members ctx
  | .branch ⟨selector, children, chosen⟩ =>
    refine StepTick.deals_ofBranch entering rfl ctx g ?_
    intro index g'
    rw [Trace.picks_under rfl]
    refine (deals_tickChild entering dt children index ctx g').behind fun place => ?_
    exact Step.samplers_child state selector children chosen index place
termination_by structural kind

/-- A tick of a step draws for what is picked in it, and for nothing else. -/
theorem Step.deals_tick (fresh : Bool) (dt : Float32) (s : Step A C N) (ctx : C) (g : Generator) :
    Deals s.samplers g (Step.tick fresh dt s ctx g).trace.picks
      (Step.tick fresh dt s ctx g).generator := by
  obtain ⟨state, kind⟩ := s
  have hdriven (entering : Bool) := StepKind.deals_tick entering dt kind ctx g state
  simp only [Step.tick]
  split
  · exact hdriven true
  · exact hdriven false
  · exact .done g
termination_by structural s

theorem deals_tickChild (fresh : Bool) (dt : Float32) (children : List (Step A C N)) (index : Nat)
    (ctx : C) (g : Generator) :
    Deals (fun place => children[index]?.bind (·.samplers place)) g
      (tickChild fresh dt children index ctx g).trace.picks
      (tickChild fresh dt children index ctx g).generator := by
  match children, index with
  | [], _ => exact .done g
  | step :: rest, 0 => exact Step.deals_tick fresh dt step ctx g
  | step :: rest, index + 1 =>
    have hrest := deals_tickChild fresh dt rest index ctx g
    simpa [tickChild, ChildTick.behind] using hrest
termination_by structural children

end

end Ticks

theorem Step.deals_activate (s : Step A C N) (ctx : C) (g : Generator) :
    Deals s.samplers g (s.activate ctx g).trace.picks (s.activate ctx g).generator := by
  obtain ⟨state, kind⟩ := s
  cases kind with
  | leaf action =>
    have hentered := Trace.picks_of_log (action.log_enter ctx)
    simp only [activate]
    split
    · exact .of_nil hentered g
    · refine .of_nil ?_ g
      rw [Trace.picks_append, hentered]
      rfl
  | nested body => exact .done g
  | parallel group => exact .done g
  | branch b =>
    simp only [activate]
    split
    · rename_i e hr
      rw [Selector.generator_select_of_none (Selector.sampler?_of_error hr)]
      apply Deals.of_nil
      exact Trace.picks_of_log
        (Trace.log_here_of_isDecision (b.selector.isDecision_select b.children.length ctx g))
    · rename_i chosen hr
      exact Selector.deals_select rfl hr

theorem Step.samplers_reset (s : Step A C N) : s.reset.samplers = s.samplers :=
  (Part.step s).samplerAt?_visits [.reset]

theorem Step.samplers_tick (s : Step A C N) (dt : Float32) (ctx : C) (g : Generator) :
    (Step.tick false dt s ctx g).step.samplers = s.samplers :=
  (Part.step s).samplerAt?_visits [.tick dt ctx g]

theorem Step.map_samplers_reset (steps : List (Step A C N)) :
    (steps.map Step.reset).map Step.samplers = steps.map Step.samplers := by
  simp [Function.comp_def, Step.samplers_reset]

omit [Behavior A C N] in
/-- Whether steps in a row, the first of them at `index`, have the samplers that are known at their
places. -/
def Samples (sampler? : List Hop → Option Sampler) (index : Nat) (steps : List (Step A C N)) :
    Prop :=
  ∀ i place, sampler? (.step (index + i) :: place) = steps[i]?.bind (·.samplers place)

section Sequences

variable {sampler? : List Hop → Option Sampler}

omit [Behavior A C N] in
theorem Samples.of_map {index : Nat} {steps later : List (Step A C N)}
    (h : Samples sampler? index steps)
    (hm : later.map Step.samplers = steps.map Step.samplers) :
    Samples sampler? index later := by
  intro i place
  have hi : later[i]?.map Step.samplers = steps[i]?.map Step.samplers := by
    rw [← List.getElem?_map, hm, List.getElem?_map]
  have hb := congrArg (fun o : Option (List Hop → Option Sampler) => o.bind (· place)) hi
  simp only [Option.bind_map, Function.comp_def] at hb
  rw [h i place, ← hb]

omit [Behavior A C N] in
theorem Samples.tail {index : Nat} {first : Step A C N} {rest : List (Step A C N)}
    (h : Samples sampler? index (first :: rest)) : Samples sampler? (index + 1) rest := by
  intro i place
  have hi := h (i + 1) place
  rwa [← Nat.add_assoc, Nat.add_right_comm] at hi

theorem deals_cascade (dt : Float32) (steps : List (Step A C N)) (index skip : Nat) (ctx : C)
    (g : Generator) (h : Samples sampler? index steps) :
    let k := cascade false dt index steps skip ctx g
    Deals sampler? g k.trace.picks k.generator ∧
      k.steps.map Step.samplers = steps.map Step.samplers := by
  induction steps generalizing index skip ctx g with
  | nil => exact ⟨.done g, rfl⟩
  | cons first rest ih =>
    cases skip with
    | zero =>
      have hfirst : Deals sampler? g
          ((Step.tick false dt first ctx g).trace.under (.step index)).picks
          (Step.tick false dt first ctx g).generator := by
        rw [Trace.picks_under rfl]
        exact (Step.deals_tick false dt first ctx g).behind fun place => h 0 place
      have hkept := first.samplers_tick dt ctx g
      rw [cascade_cons_zero]
      generalize Step.tick false dt first ctx g = t at hfirst hkept
      obtain ⟨trace, context, g', step, result⟩ := t
      match result with
      | .error e => exact ⟨hfirst, congrArg (· :: rest.map Step.samplers) hkept⟩
      | .ok false => exact ⟨hfirst, congrArg (· :: rest.map Step.samplers) hkept⟩
      | .ok true =>
        obtain ⟨hrest, hsteps⟩ := ih (index + 1) 0 context g' h.tail
        simp only [StepTick.andThen, Trace.picks_append, List.map_cons, hsteps]
        exact ⟨hfirst.append hrest, congrArg (· :: rest.map Step.samplers) hkept⟩
    | succ skip =>
      obtain ⟨hrest, hsteps⟩ := ih (index + 1) skip ctx g h.tail
      exact ⟨hrest, congrArg (first.samplers :: ·) hsteps⟩

namespace Sequence

theorem deals_wrap {s : Sequence A C N} (h : Samples sampler? 0 s.steps) (ctx : C) :
    Deals sampler? s.generator (s.wrap ctx).trace.picks (s.wrap ctx).sequence.generator := by
  have hlines : s.wrapLines.picks = [] := by
    unfold wrapLines
    split <;> rfl
  cases hs : s.steps with
  | nil =>
    rw [wrap_of_nil hs]
    exact .of_nil hlines _
  | cons first rest =>
    rw [hs] at h
    have hsampler (place : List Hop) :
        sampler? (.step 0 :: place) = first.reset.samplers place := by
      rw [h 0 place, Step.samplers_reset]
      rfl
    have hfirst := (first.reset.deals_activate ctx s.generator).behind hsampler
    rw [wrap_of_cons hs]
    rw [← Trace.picks_under rfl] at hfirst
    simpa [hlines] using hfirst

theorem deals_finishPass {s : Sequence A C N} (h : Samples sampler? 0 s.steps) (ctx : C) :
    Deals sampler? s.generator (s.finishPass ctx).trace.picks
      (s.finishPass ctx).sequence.generator := by
  have hverdict : (Trace.here (s.verdict ctx).events).picks = [] :=
    Trace.picks_of_log (Trace.log_here_of_isDecision (s.policy.isDecision_again _ ctx))
  match ha : (s.verdict ctx).answer with
  | .error e =>
    rw [finishPass_of_error ha]
    exact .of_nil hverdict _
  | .ok true =>
    rw [finishPass_of_again ha]
    simpa [Advance.after, hverdict] using deals_wrap h ctx
  | .ok false =>
    rw [finishPass_of_over ha]
    refine .of_nil ?_ _
    rw [Trace.picks_append, hverdict]
    rfl

theorem deals_resume {s : Sequence A C N} (h : Samples sampler? 0 s.steps) (dt : Float32)
    (ctx : C) :
    Deals sampler? s.generator (s.resume dt ctx).trace.picks
      (s.resume dt ctx).sequence.generator := by
  by_cases hs : s.status = .complete
  · rw [resume_of_complete hs]
    exact .done _
  · obtain ⟨hwalk, hsteps⟩ := deals_cascade dt s.steps 0 s.cursor ctx s.generator h
    change Deals sampler? s.generator (s.walk dt ctx).trace.picks (s.walk dt ctx).generator at hwalk
    match hr : (s.walk dt ctx).result with
    | .error e =>
      rw [resume_of_error hs hr]
      exact hwalk
    | .ok false =>
      rw [resume_of_held hs hr]
      exact hwalk
    | .ok true =>
      rw [resume_of_passed hs hr]
      have hend := deals_finishPass (s := s.stopped (s.walk dt ctx)) (h.of_map hsteps)
        (s.walk dt ctx).context
      simp only [Advance.after, Trace.picks_append]
      exact hwalk.append hend

omit [Behavior A C N] in
theorem samples_self (s : Sequence A C N) : Samples (Part.sequence s).samplerAt? 0 s.steps := by
  intro i place
  rw [Part.samplerAt?_cons, Part.child?, Nat.zero_add, Option.bind_map]
  rfl

/-- A tick of a sequence draws for what is picked in its steps. -/
theorem deals_advance (s : Sequence A C N) (dt : Float32) (ctx : C) :
    Deals (Part.sequence s).samplerAt? s.generator (s.advance dt ctx).trace.picks
      (s.advance dt ctx).sequence.generator := by
  have hsteps : s.begun.steps.map Step.samplers = s.steps.map Step.samplers := by
    unfold begun
    split
    · rw [steps_reset]
      exact Step.map_samplers_reset s.steps
    · rfl
  have hsource : s.begun.generator = s.generator := by
    unfold begun
    split
    · cases s; rfl
    · rfl
  have hbody := deals_resume (s.samples_self.of_map hsteps) dt ctx
  rw [hsource] at hbody
  have hopening : s.opening.picks = [] := by
    unfold opening
    split <;> rfl
  have hhead (t : Trace N) : Trace.picks (⟨[], .ticked⟩ :: t) = t.picks := rfl
  match hr : (s.begun.resume dt ctx).result with
  | .error e =>
    rw [advance_of_error hr]
    simpa [hhead, hopening] using hbody
  | .ok o =>
    have hround := picks_advanceAll false dt .companion (fun _ => rfl) 0 s.begun.companions
      (s.begun.resume dt ctx).context
    rw [advance_of_ok hr]
    simpa [hhead, hopening, hround] using hbody

theorem samplerAt?_obey (s : Sequence A C N) (c : Command C) :
    (Part.sequence (s.obey c)).samplerAt? = (Part.sequence s).samplerAt? := by
  have hv := (Part.sequence s).samplerAt?_visits [c.visit s.generator]
  rwa [Part.visits_sequence, show [c.visit s.generator].filterMap Visit.command? = [c] by
    cases c <;> rfl] at hv

theorem samplerAt?_after (s : Sequence A C N) (cs : List (Command C)) :
    (Part.sequence (s.after cs)).samplerAt? = (Part.sequence s).samplerAt? := by
  induction cs generalizing s with
  | nil => rfl
  | cons c cs ih => exact (ih (s.obey c)).trans (s.samplerAt?_obey c)

/-- A history of a sequence draws for what is picked in its steps. Resets draw nothing. -/
theorem deals_history (s : Sequence A C N) (cs : List (Command C)) :
    Deals (Part.sequence s).samplerAt? s.generator (s.history cs).picks (s.after cs).generator := by
  induction cs generalizing s with
  | nil => exact .done _
  | cons c cs ih =>
    have hc : Deals (Part.sequence s).samplerAt? s.generator (s.traceOf c).picks
        (s.obey c).generator := by
      cases c with
      | advance dt ctx => exact s.deals_advance dt ctx
      | reset => cases s; exact .done _
    have hlater := ih (s.obey c)
    rw [samplerAt?_obey] at hlater
    rw [history, Trace.picks_append]
    exact hc.append hlater

end Sequence

end Sequences

omit [Behavior A C N] in
theorem Builder.generator_of_result {b : Builder A C N} {entropy : Entropy} {serial : Nat}
    {s : Sequence A C N} (h : b.result entropy serial = .ok s) :
    s.generator = .ofSeedOr (entropy serial) b.settings.seed := by
  obtain ⟨-, rfl⟩ := Builder.result_ok_iff.mp h
  simp [Builder.toSequence]

/-- The stream of a sequence in a reachable one, over any further history of the root. Since it was
built, the random source of the sequence went from its seed by one draw for each choice of a random
branch that the sequence holds, directly or through branches of branches, in order, and these drew
what was chosen. In any other tree of the same definition, whatever the sources of other sequences,
if the sequence at that place has its source at the same state, and if in some history the random
branches that it holds choose at the same places in the same order, then they choose the same and
leave the source in the same state. -/
theorem Sequence.stream_of_reachable {s : Sequence A C N} (hs : (Part.sequence s).Reachable)
    (commands : List (Command C)) {path : List Hop} {before : Sequence A C N}
    (h : (Part.sequence s).find? path = some (.sequence before)) :
    let sampler? := (Part.sequence before).samplerAt?
    (∃ (name : String) (calls : List (Call A C N)) (entropy : Entropy) (serial : Nat)
        (built : Sequence A C N) (earlier later : List (Command C)),
      let b := Builder.ofCalls name calls
      let t := built.after (earlier ++ later)
      b.result entropy serial = .ok built ∧ before = built.after earlier ∧
      before.history later = (s.history commands).within path ∧
      (Part.sequence (s.after commands)).find? path = some (.sequence t) ∧
      Deals sampler? (.ofSeedOr (entropy serial) b.settings.seed)
        (built.history (earlier ++ later)).picks t.generator) ∧
    ∀ (other twin : Sequence A C N) (run : List (Command C)),
      (Part.sequence other).SameDefinition (.sequence s) →
      (Part.sequence other).find? path = some (.sequence twin) →
      twin.generator = before.generator →
      let chosen := randomPicks sampler? (Trace.picks ((s.history commands).within path))
      let chosen' := randomPicks sampler? (Trace.picks ((other.history run).within path))
      chosen'.map Pick.place = chosen.map Pick.place →
      chosen' = chosen ∧
        ((Part.sequence (other.after run)).find? path).bind Part.generator? =
          ((Part.sequence (s.after commands)).find? path).bind Part.generator? := by
  obtain ⟨later, hf, ht, -⟩ := s.exists_commands commands path h
  constructor
  · obtain ⟨built, earlier, ⟨name, calls, entropy, serial, hr⟩, rfl⟩ := hs.exists_built h
    rw [← Sequence.after_append] at hf
    refine ⟨name, calls, entropy, serial, built, earlier, later, hr, rfl, ht, hf, ?_⟩
    rw [built.samplerAt?_after earlier, ← Builder.generator_of_result hr]
    exact built.deals_history (earlier ++ later)
  · intro other twin run hsame htwin hsource chosen chosen' hplaces
    obtain ⟨later', hf', ht', -⟩ := other.exists_commands run path htwin
    have hdealt := before.deals_history later
    have hdealt' := twin.deals_history later'
    rw [ht] at hdealt
    rw [ht', hsource, (hsame.of_find? htwin h).samplerAt?] at hdealt'
    obtain ⟨hchosen, hleft⟩ := hdealt'.unique hdealt hplaces
    refine ⟨hchosen, ?_⟩
    rw [hf, hf']
    exact congrArg some hleft

/-- A random choice with another one inside. The seed of the inner one makes no difference to the
outer one, nor do resets and ticks after the end. -/
theorem Sequence.stream_of_reseeded :
    let say (text : String) : Step Rehearsal.Act Rehearsal.Stage String :=
      .leaf (.callback (Rehearsal.cues [.push text]))
    let innerCalls (seed : UInt64) : List (Call Rehearsal.Act Rehearsal.Stage String) :=
      [.seed seed, .randomOneOf [say "left", say "right"]]
    let inner (seed : UInt64) :=
      (Builder.ofCalls "inner" (innerCalls seed)).toSequence (fun _ => .ofSeed 0) 0
    let outerCalls (body : Sequence Rehearsal.Act Rehearsal.Stage String) :=
      [.seed 7, .randomOneOf [say "up", say "down"], .run (.nested body)]
    let outer (body : Sequence Rehearsal.Act Rehearsal.Stage String) :=
      (Builder.ofCalls "outer" (outerCalls body)).toSequence (fun _ => .ofSeed 0) 1
    let s : Sequence Rehearsal.Act Rehearsal.Stage String := outer (inner 1)
    let other : Sequence Rehearsal.Act Rehearsal.Stage String := outer (inner 2)
    let tick : Command Rehearsal.Stage := .advance 0.5 .empty
    let sampler? := (Part.sequence s).samplerAt?
    let run := [tick]
    let run' := [.reset, tick, tick]
    let chosen := randomPicks sampler? ((s.history run).within []).picks
    let chosen' := randomPicks sampler? ((other.history run').within []).picks
    (Part.sequence s).Reachable ∧ (Part.sequence other).SameDefinition (.sequence s) ∧
      chosen.map Pick.place = [[.step 0]] ∧
      chosen'.map Pick.place = [[.step 0]] ∧ chosen' = chosen := by
  intro say innerCalls inner outerCalls outer s other tick sampler? run run' chosen chosen'
  have hinner : (Part.sequence (inner 1)).Reachable := by
    refine .built "inner" (innerCalls 1) (fun _ => .ofSeed 0) 0 ?_ ?_ rfl
    · simpa [innerCalls, Call.steps] using ⟨.leaf _, .leaf _⟩
    · simp [innerCalls, Call.sequences]
  have hs : (Part.sequence s).Reachable := by
    refine .built "outer" (outerCalls (inner 1)) (fun _ => .ofSeed 0) 1 ?_ ?_ rfl
    · simpa [outerCalls, Call.steps] using ⟨⟨.leaf _, .leaf _⟩, .nested hinner⟩
    · simp [outerCalls, Call.sequences]
  have hbody (g g' : Generator) (body : Sequence Rehearsal.Act Rehearsal.Stage String) :
      (Part.sequence { body with generator := g }).SameDefinition
        (.sequence { body with generator := g' }) := by
    rintro (_ | ⟨_ | _, _⟩) <;> rfl
  have houter (body body' : Sequence Rehearsal.Act Rehearsal.Stage String)
      (h : (Part.sequence body).SameDefinition (.sequence body')) :
      (Part.sequence (outer body)).SameDefinition (.sequence (outer body')) := by
    rintro (_ | ⟨hop, rest⟩)
    · rfl
    · cases hop with
      | body | member | companion | child => rfl
      | step index =>
        rcases index with _ | _ | index
        · rfl
        · rcases rest with _ | ⟨hop, rest⟩
          · rfl
          · cases hop with
            | body => exact h rest
            | step | member | companion | child => rfl
        · rfl
  have hsame : (Part.sequence other).SameDefinition (.sequence s) :=
    houter (inner 2) (inner 1) (hbody (.ofSeed 2) (.ofSeed 1) (inner 0))
  have hsource (body body' : Sequence Rehearsal.Act Rehearsal.Stage String) :
      (outer body).generator = (outer body').generator := rfl
  have hplaces : chosen.map Pick.place = [[.step 0]] := by
    decide +kernel +zetaReduce
  have hplaces' : chosen'.map Pick.place = [[.step 0]] := by
    decide +kernel +zetaReduce
  have hroot : (Part.sequence s).find? [] = some (.sequence s) := rfl
  obtain ⟨_, hstream⟩ := Sequence.stream_of_reachable hs run hroot
  have hchosen := (hstream other other run' hsame rfl (hsource (inner 2) (inner 1))
    (hplaces'.trans hplaces.symm)).1
  exact ⟨hs, hsame, hplaces, hplaces', hchosen⟩

end Sequencer

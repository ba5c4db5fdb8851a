import Sequencer.Proofs.Splicing

/-!
# Nesting is transparent

A sequence that runs once, has no companions and never draws makes no difference as a step: its own
steps might as well stand in its place. The two outer sequences go through the same hooks and
conditions, in the same order and on the same contexts, whatever fails on the way, and tell the same
about themselves. Only where the nested sequence is the first step of a repeated one is there a
difference, since the first step of a pass is entered when the pass before it ends.
-/

namespace Sequencer

variable {A C N : Type}

/-- Whether `s'` is `s` with the steps of a nested sequence in place of the step at `index`. -/
def Sequence.Splices (index size : Nat) (s s' : Sequence A C N) : Prop :=
  ∃ r : Row A C N, r.IsOpen index size ∧ s.steps = r.nested ∧
    s' = { s with
      steps := r.spliced
      progress := { s.progress with cursor := r.cursor s.cursor } }

/-- Whether a tick of the one and a tick of the other come to the same, and leave two such
sequences. -/
structure Advance.Splices (index size : Nat) (a a' : Advance A C N) : Prop where
  trace : a'.trace = a.trace.splice index size
  context : a'.context = a.context
  result : a'.result = a.result
  sequence : a.sequence.Splices index size a'.sequence

theorem Advance.Splices.after {index size : Nat} {a a' : Advance A C N}
    (h : a.Splices index size a') {earlier earlier' : Trace N}
    (he : earlier' = earlier.splice index size) :
    (a.after earlier).Splices index size (a'.after earlier') where
  trace := by simp [Advance.after, he, h.trace]
  context := h.context
  result := h.result
  sequence := h.sequence

theorem Advance.Splices.beside [Behavior A C N] {index size : Nat} {a a' : Advance A C N}
    (h : a.Splices index size a') (dt : Float32) (companions : List (Sequence A C N)) :
    (a.beside (advanceAll false dt .companion 0 companions)).Splices index size
      (a'.beside (advanceAll false dt .companion 0 companions)) := by
  have hticked (t : Trace N) : Trace.splice index size (⟨[], .ticked⟩ :: t) =
      ⟨[], .ticked⟩ :: t.splice index size := rfl
  have hround : (advanceAll false dt .companion 0 companions a.context).trace.splice index size =
      (advanceAll false dt .companion 0 companions a.context).trace := by
    apply Trace.splice_companions
    intro e he
    obtain ⟨j, place, hp⟩ := exists_hop_of_mem_advanceAll dt .companion companions 0 a.context e he
    exact ⟨_, place, hp⟩
  obtain ⟨r, hr, hs, hspliced⟩ := h.sequence
  match hres : a.result with
  | .error e =>
    simp only [Advance.beside, hres, h.result, h.trace, h.context]
    exact ⟨(hticked _).symm, rfl, rfl, h.sequence⟩
  | .ok o =>
    simp only [Advance.beside, hres, h.result, h.trace, h.context]
    refine ⟨?_, rfl, rfl, r, hr, hs, by rw [hspliced]; rfl⟩
    rw [Trace.splice_append, hticked, hround]

namespace Row

variable {r : Row A C N} {index size : Nat}

def rewound (r : Row A C N) : Row A C N :=
  ⟨r.before.map Step.reset, .notStarted, r.body, r.after.map Step.reset⟩

theorem map_reset_nested (r : Row A C N) : r.nested.map Step.reset = r.rewound.nested := by
  simp [nested, rewound, host, Step.reset]

theorem map_reset_inside (r : Row A C N) : r.inside.map Step.reset = r.rewound.inside := by
  unfold inside
  split
  · rw [List.map_map, Step.reset_comp_reset]
    rfl
  · rfl

theorem map_reset_spliced (r : Row A C N) : r.spliced.map Step.reset = r.rewound.spliced := by
  simp [spliced, map_reset_inside, rewound]

theorem cursor_zero (h : r.state ≠ .active) : r.cursor 0 = 0 := by
  have hoffset : r.offset = 0 := if_neg h
  unfold cursor
  split
  · rfl
  · rw [if_pos (by omega), hoffset]
    omega

theorem IsOpen.rewound (h : r.IsOpen index size) : r.rewound.IsOpen index size where
  length_before := (List.length_map _).trans h.length_before
  size_body := h.size_body
  isInline := h.isInline
  running ha := StepState.noConfusion ha

theorem IsOpen.length_spliced (h : r.IsOpen index size) :
    r.spliced.length = r.nested.length - 1 + size := by
  simp only [spliced, nested, List.length_append, List.length_cons, length_inside, h.size_body]
  omega

end Row

namespace Sequence.Splices

variable {index size : Nat} {s s' : Sequence A C N}

theorem status (h : s.Splices index size s') : s'.status = s.status := by
  obtain ⟨r, -, -, rfl⟩ := h
  rfl

theorem companions (h : s.Splices index size s') : s'.companions = s.companions := by
  obtain ⟨r, -, -, rfl⟩ := h
  rfl

theorem held (h : s.Splices index size s') : s.held.Splices index size s'.held := by
  obtain ⟨r, hr, hs, rfl⟩ := h
  exact ⟨r, hr, hs, rfl⟩

theorem reset (h : s.Splices index size s') : s.reset.Splices index size s'.reset := by
  obtain ⟨r, hr, hs, rfl⟩ := h
  refine ⟨r.rewound, hr.rewound, ?_, ?_⟩
  · rw [steps_reset, hs, r.map_reset_nested]
  · have hcursor : s.reset.cursor = 0 := by
      rw [Sequence.cursor, progress_reset]
      rfl
    have hprogress := s.progress_reset
    have hplace : r.rewound.cursor 0 = 0 := Row.cursor_zero StepState.noConfusion
    rw [hcursor, hplace, hprogress, ← r.map_reset_spliced]
    cases s
    rfl

theorem begun (h : s.Splices index size s') : s.begun.Splices index size s'.begun := by
  unfold Sequence.begun
  rw [h.status]
  split
  · obtain ⟨r, hr, hs, he⟩ := h.reset
    refine ⟨r, hr, hs, ?_⟩
    rw [he]
    rfl
  · exact h

theorem opening (h : s.Splices index size s') : s'.opening = s.opening.splice index size := by
  obtain ⟨r, hr, hs, rfl⟩ := h
  have hlength := hr.length_spliced
  unfold Sequence.opening
  by_cases hn : s.status = .notStarted
  · have hn' : Sequence.status { s with
        steps := r.spliced
        progress := { s.progress with cursor := r.cursor s.cursor } } = .notStarted := hn
    rw [if_pos hn, if_pos hn', hs]
    simp [Trace.line, Trace.splice, Entry.splice, hlength, Policy.name]
  · have hn' : Sequence.status { s with
        steps := r.spliced
        progress := { s.progress with cursor := r.cursor s.cursor } } ≠ .notStarted := hn
    rw [if_neg hn, if_neg hn']
    rfl

theorem stopped {r left : Row A C N} {k k' : Cascade A C N} (h : left.Ends index size k k') :
    (s.stopped k).Splices index size
      (Sequence.stopped { s with
        steps := r.spliced
        progress := { s.progress with cursor := r.cursor s.cursor } } k') :=
  ⟨left, h.isOpen, h.nested, by rw [h.spliced]; rfl⟩

section Ticks

variable [Behavior A C N]

/-- Another pass begins with the same step in both, if the nested sequence is not the first. -/
theorem wrap (h : s.Splices index size s') (hi : index ≠ 0) (ctx : C) :
    (s.wrap ctx).Splices index size (s'.wrap ctx) := by
  obtain ⟨r, hr, hs, rfl⟩ := h
  obtain ⟨first, rest, hbefore⟩ : ∃ first rest, r.before = first :: rest := by
    apply List.exists_cons_of_length_pos
    have := hr.length_before
    omega
  have hnested : s.steps = first :: (rest ++ r.host :: r.after) := by
    rw [hs, Row.nested, hbefore]
    rfl
  have hspliced : r.spliced = first :: (rest ++ (r.inside ++ r.after)) := by
    rw [Row.spliced, hbefore]
    rfl
  have hlines : s.wrapLines.splice index size = s.wrapLines := by
    apply Trace.splice_root
    intro e he
    obtain ⟨hp, hl⟩ := mem_wrapLines he
    refine ⟨hp, fun _ _ _ hk => ?_⟩
    rcases hl with hl | hl
    all_goals
      rw [hl] at hk
      cases hk
  have hentering (t : Trace N) : (t.under (.step 0)).splice index size = t.under (.step 0) := by
    apply Trace.splice_before
    intro e he
    obtain ⟨inner, _, rfl⟩ := List.mem_map.mp he
    exact ⟨0, inner.path, Nat.pos_of_ne_zero hi, rfl⟩
  rw [wrap_of_cons hnested, wrap_of_cons hspliced]
  generalize first.reset.activate ctx s.generator = entered
  refine ⟨?trace, rfl, rfl, { r.rewound with before := entered.step :: rest.map Step.reset },
    ?isOpen, ?nested, ?spliced⟩
  case trace =>
    simp only [Trace.splice_append, hlines, hentering]
    rfl
  case isOpen =>
    have hlength : (rest.map Step.reset).length + 1 = index := by
      rw [List.length_map, ← hr.length_before, hbefore, List.length_cons]
    exact ⟨hlength, hr.size_body, hr.isInline, fun ha => StepState.noConfusion ha⟩
  case nested => simp [Row.nested, Row.rewound, Row.host, Step.reset]
  case spliced =>
    have hsteps : entered.step :: (rest ++ (r.inside ++ r.after)).map Step.reset =
        Row.spliced { r.rewound with before := entered.step :: rest.map Step.reset } := by
      rw [List.map_append, List.map_append, r.map_reset_inside]
      rfl
    simp only [hsteps]
    rfl

theorem finishPass (h : s.Splices index size s') (hfirst : index ≠ 0 ∨ s.policy = .once) (ctx : C) :
    (s.finishPass ctx).Splices index size (s'.finishPass ctx) := by
  have hverdict : s'.verdict ctx = s.verdict ctx := by
    obtain ⟨r, -, -, rfl⟩ := h
    rfl
  have hevents : Trace.here (s.verdict ctx).events =
      (Trace.here (s.verdict ctx).events).splice index size := by
    symm
    apply Trace.splice_root
    intro e he
    obtain ⟨event, hm, rfl⟩ := List.mem_map.mp he
    have hd := s.policy.isDecision_again _ ctx event hm
    exact ⟨rfl, fun _ _ _ hk => by subst hk; cases hd⟩
  match ha : (s.verdict ctx).answer with
  | .error e =>
    rw [finishPass_of_error ha, finishPass_of_error (hverdict ▸ ha), hverdict]
    exact ⟨hevents, rfl, rfl, h⟩
  | .ok true =>
    have hi : index ≠ 0 := hfirst.resolve_right fun hp => by
      rw [verdict, hp] at ha
      cases ha
    rw [finishPass_of_again ha, finishPass_of_again (hverdict ▸ ha), hverdict]
    exact (h.wrap hi ctx).after hevents
  | .ok false =>
    rw [finishPass_of_over ha, finishPass_of_over (hverdict ▸ ha), hverdict]
    obtain ⟨r, hr, hs, rfl⟩ := h
    refine ⟨?_, rfl, rfl, r, hr, hs, rfl⟩
    rw [Trace.splice_append, ← hevents]
    rfl

/-- The cascades of two running sequences come to the same. -/
theorem walk (h : s.Splices index size s') (hc : s.Consistent) (hrunning : s.status = .running)
    (dt : Float32) (ctx : C) :
    (s'.walk dt ctx).trace = (s.walk dt ctx).trace.splice index size ∧
      (s'.walk dt ctx).context = (s.walk dt ctx).context ∧
      (s'.walk dt ctx).result = (s.walk dt ctx).result ∧
      (s.stopped (s.walk dt ctx)).Splices index size (s'.stopped (s'.walk dt ctx)) := by
  obtain ⟨r, hr, hs, rfl⟩ := h
  have hhost : (s.steps.map Step.state)[index]? = some r.state := by
    rw [hs, Row.nested, ← hr.length_before]
    simp [Row.host]
  obtain ⟨-, hat, hbefore⟩ := ((consistent_running_iff hrunning).mp hc).getElem hhost
  obtain ⟨left, hleft⟩ := hr.exists_ends hbefore (fun he => hat he.symm) dt ctx s.generator
  rw [← hs] at hleft
  have htrace := congrArg Cascade.trace hleft.spliced
  have hcontext := congrArg Cascade.context hleft.spliced
  have hresult := congrArg Cascade.result hleft.spliced
  exact ⟨htrace, hcontext, hresult, stopped hleft⟩

theorem resume (h : s.Splices index size s') (hfirst : index ≠ 0 ∨ s.policy = .once)
    (hc : s.Consistent) (hn : s.status ≠ .notStarted) (dt : Float32) (ctx : C) :
    (s.resume dt ctx).Splices index size (s'.resume dt ctx) := by
  have hstatus : s'.status = s.status := h.status
  by_cases hcomplete : s.status = .complete
  · rw [resume_of_complete hcomplete, resume_of_complete (hstatus.trans hcomplete)]
    exact ⟨rfl, rfl, rfl, h⟩
  have hrunning : s.status = .running := by
    cases hx : s.status with
    | notStarted => exact absurd hx hn
    | running => rfl
    | complete => exact absurd hx hcomplete
  have hcomplete' : s'.status ≠ .complete := hstatus ▸ hcomplete
  obtain ⟨htrace, hcontext, hresult, hstopped⟩ := h.walk hc hrunning dt ctx
  match hr : (s.walk dt ctx).result with
  | .error e =>
    rw [resume_of_error hcomplete hr, resume_of_error hcomplete' (hresult.trans hr)]
    exact ⟨htrace, hcontext, rfl, hstopped⟩
  | .ok false =>
    rw [resume_of_held hcomplete hr, resume_of_held hcomplete' (hresult.trans hr)]
    exact ⟨htrace, hcontext, rfl, hstopped.held⟩
  | .ok true =>
    rw [resume_of_passed hcomplete hr, resume_of_passed hcomplete' (hresult.trans hr), hcontext]
    exact (hstopped.finishPass hfirst _).after htrace

/-- A tick of the one and a tick of the other come to the same. -/
theorem advance (h : s.Splices index size s') (hfirst : index ≠ 0 ∨ s.policy = .once)
    (hc : s.Consistent) (dt : Float32) (ctx : C) :
    (s.advance dt ctx).Splices index size (s'.advance dt ctx) := by
  have hpolicy := (SameFrame.begun s).policy
  have hbody := h.begun.resume (by rwa [hpolicy]) (consistent_begun hc) s.begun_status_ne dt ctx
  have hcompanions := h.begun.companions
  rw [Sequence.advance_eq, Sequence.advance_eq, hcompanions]
  exact (hbody.after h.opening).beside dt _

end Ticks

end Sequence.Splices

/-- What a call tells the owner of a sequence: what took place, the context and the result of an
advance, and what is left. -/
structure Report (C N : Type) where
  trace : Trace N
  answer : Option (C × Except TickError Outcome)
  status : Status
  passes : Nat
  generator : Generator

/-- What took place in a call, apart from bookkeeping. -/
def Report.effects (r : Report C N) : List (Event N) := r.trace.effects

def Report.splice (index size : Nat) (r : Report C N) : Report C N :=
  { r with trace := r.trace.splice index size }

namespace Sequence

def withSteps (s : Sequence A C N) (steps : List (Step A C N)) : Sequence A C N := { s with steps }

variable [Behavior A C N]

def report (s : Sequence A C N) (command : Command C) : Report C N :=
  let left := s.obey command
  let answer := match command with
    | .advance dt ctx => some ((s.advance dt ctx).context, (s.advance dt ctx).result)
    | .reset => none
  ⟨s.traceOf command, answer, left.status, left.passes, left.generator⟩

def reports (s : Sequence A C N) : List (Command C) → List (Report C N)
  | [] => []
  | command :: later => s.report command :: (s.obey command).reports later

theorem Splices.report {index size : Nat} {s s' : Sequence A C N} (h : s.Splices index size s')
    (hfirst : index ≠ 0 ∨ s.policy = .once) (hc : s.Consistent) (command : Command C) :
    s'.report command = (s.report command).splice index size ∧
      (s.obey command).Splices index size (s'.obey command) := by
  have hleft {t t' : Sequence A C N} (ht : t.Splices index size t') :
      t'.status = t.status ∧ t'.passes = t.passes ∧ t'.generator = t.generator := by
    obtain ⟨r, -, -, rfl⟩ := ht
    exact ⟨rfl, rfl, rfl⟩
  cases command with
  | advance dt ctx =>
    obtain ⟨htrace, hcontext, hresult, hs⟩ := h.advance hfirst hc dt ctx
    obtain ⟨hstatus, hpasses, hgenerator⟩ := hleft hs
    refine ⟨?_, hs⟩
    simp only [Sequence.report, obey, traceOf, Report.splice, htrace, hcontext, hresult, hstatus,
      hpasses, hgenerator]
  | reset =>
    obtain ⟨hstatus, hpasses, hgenerator⟩ := hleft h.reset
    refine ⟨?_, h.reset⟩
    simp only [Sequence.report, obey, traceOf, Report.splice, hstatus, hpasses, hgenerator]
    rfl

theorem Splices.reports {index size : Nat} {s s' : Sequence A C N} (h : s.Splices index size s')
    (hfirst : index ≠ 0 ∨ s.policy = .once) (hc : s.Consistent) (commands : List (Command C)) :
    s'.reports commands = (s.reports commands).map (Report.splice index size) := by
  induction commands generalizing s s' with
  | nil => rfl
  | cons command later ih =>
    obtain ⟨hreport, hleft⟩ := h.report hfirst hc command
    have hpolicy : (s.obey command).policy = s.policy := by
      cases command with
      | advance dt ctx => exact (SameFrame.advance s dt ctx).policy
      | reset => exact s.policy_reset
    rw [Sequence.reports, Sequence.reports, List.map_cons, hreport,
      ih hleft (hpolicy ▸ hfirst) (consistent_obey hc command)]

omit [Behavior A C N] in
theorem splices_of_isNew {outer inner : Sequence A C N} {xs ys : List (Step A C N)}
    (houter : (outer.withSteps (xs ++ Step.nested inner :: ys)).IsNew) (hinner : inner.IsNew)
    (hinline : inner.IsInline) :
    (outer.withSteps (xs ++ Step.nested inner :: ys)).Splices xs.length inner.steps.length
      (outer.withSteps (xs ++ inner.steps ++ ys)) := by
  have hreset : inner.steps.map Step.reset = inner.steps := by
    rw [List.map_congr_left, List.map_id]
    rintro ⟨state, kind⟩ hs
    obtain rfl : state = .notStarted := hinner.2 _ hs
    rfl
  have hcursor : outer.cursor = 0 := congrArg Progress.cursor houter.1
  have hplace : Row.cursor ⟨xs, .notStarted, inner, ys⟩ outer.cursor = outer.cursor := by
    rw [hcursor]
    exact Row.cursor_zero StepState.noConfusion
  have hspliced : Row.spliced ⟨xs, .notStarted, inner, ys⟩ = xs ++ inner.steps ++ ys := by
    rw [Row.spliced, show Row.inside ⟨xs, .notStarted, inner, ys⟩ = _ from hreset,
      List.append_assoc]
  have hopen : Row.IsOpen ⟨xs, .notStarted, inner, ys⟩ xs.length inner.steps.length :=
    ⟨rfl, rfl, hinline, fun ha => StepState.noConfusion ha⟩
  refine ⟨⟨xs, .notStarted, inner, ys⟩, hopen, rfl, ?_⟩
  show outer.withSteps _ =
    { outer with steps := _, progress := { outer.progress with cursor := _ } }
  rw [hspliced]
  exact congrArg (fun cursor => { outer with
    steps := xs ++ inner.steps ++ ys
    progress := { outer.progress with cursor } }) hplace.symm

/-- A nested sequence that runs once, has no companions and never draws might as well be its steps:
the outer sequence tells the same of every call of every history, its trace lists the same entries
but for the bookkeeping of the nested sequence, and so what takes place is the same and comes in the
same order. -/
theorem nesting_transparent {outer inner : Sequence A C N} {xs ys : List (Step A C N)}
    (houter : (outer.withSteps (xs ++ Step.nested inner :: ys)).IsNew) (hinner : inner.IsNew)
    (honce : inner.policy = .once) (halone : inner.companions = [])
    (hdraws : ∀ step ∈ inner.steps, step.NeverDraws) (hfirst : xs ≠ [] ∨ outer.policy = .once)
    (commands : List (Command C)) :
    let nested := outer.withSteps (xs ++ Step.nested inner :: ys)
    let spliced := outer.withSteps (xs ++ inner.steps ++ ys)
    spliced.reports commands =
        (nested.reports commands).map (Report.splice xs.length inner.steps.length) ∧
      (spliced.reports commands).map Report.effects =
        (nested.reports commands).map Report.effects := by
  intro nested spliced
  have hsplices : nested.Splices xs.length inner.steps.length spliced :=
    splices_of_isNew houter hinner ⟨honce, halone, noneDraws_iff.mpr hdraws⟩
  have hindex : xs.length ≠ 0 ∨ nested.policy = .once :=
    hfirst.imp_left fun hx hl => hx (List.length_eq_zero_iff.mp hl)
  have hreports := hsplices.reports hindex houter.consistent commands
  refine ⟨hreports, ?_⟩
  rw [hreports, List.map_map]
  congr 1
  funext r
  exact Trace.effects_splice _ _ _

/-- A loop around a sequence that waits for a flag, which the step before it raises. -/
theorem nesting_transparent_loop :
    let inner : Sequence Rehearsal.Act Rehearsal.Stage String :=
      (Builder.ofCalls "inner" [.run (.leaf .idle), .waitUntil Rehearsal.flagIsSet]).toSequence
        (fun _ => .ofSeed 0) 0
    let outer : Sequence Rehearsal.Act Rehearsal.Stage String :=
      (Builder.ofCalls "outer" [.repeatForever]).toSequence (fun _ => .ofSeed 0) 1
    let xs := [Step.leaf (.callback (Rehearsal.cues [.setFlag true]))]
    let commands : List (Command Rehearsal.Stage) :=
      [.advance 0.5 .empty, .advance 0.5 .empty, .reset, .advance 0.5 .empty]
    (outer.withSteps (xs ++ [Step.nested inner])).IsNew ∧ inner.IsNew ∧ xs ≠ [] ∧
      (∀ step ∈ inner.steps, step.NeverDraws) ∧
      (outer.withSteps (xs ++ inner.steps ++ [])).reports commands =
        ((outer.withSteps (xs ++ [Step.nested inner])).reports commands).map
          (Report.splice 1 2) := by
  intro inner outer xs commands
  have hstates : (∀ step ∈ (outer.withSteps (xs ++ [Step.nested inner])).steps,
      step.state = .notStarted) ∧ ∀ step ∈ inner.steps, step.state = .notStarted := by
    decide +revert
  have houter : (outer.withSteps (xs ++ [Step.nested inner])).IsNew := ⟨rfl, hstates.1⟩
  have hinner : inner.IsNew := ⟨rfl, hstates.2⟩
  have hdraws : ∀ step ∈ inner.steps, step.NeverDraws :=
    noneDraws_iff.mp ⟨trivial, trivial, trivial⟩
  exact ⟨houter, hinner, List.cons_ne_nil _ _, hdraws,
    (nesting_transparent houter hinner rfl rfl hdraws (.inl (List.cons_ne_nil _ _)) commands).1⟩

end Sequence

end Sequencer

import Sequencer.Proofs.Visits

/-!
# Owners keep to their visits

A sequence, a group, a branch and a step with something inside treat what they hold as `Seen` says.
There is one statement for each list of parts that a tick goes through, one for each way a step is
entered or driven, and from these one for every part and every hop.
-/

namespace Sequencer

variable {A C N : Type} [Behavior A C N]

/-- Of parts in a row, the later ones do not concern an earlier one. -/
theorem Seen.of_later {hop : Nat → Hop} (inj : ∀ i j, hop i = hop j → i = j) {index : Nat}
    {t : Trace N} (h : ∀ e ∈ t, ∃ k place, e.path = hop (index + 1 + k) :: place) {clock : Float32}
    (due : Bool) (part : Part A C N) : Seen (hop index) clock due part t 0 due part := by
  apply Seen.elsewhere
  intro e he
  obtain ⟨k, place, hp⟩ := h e he
  refine ⟨_, place, hp, ?_⟩
  intro hk
  have := inj _ _ hk
  omega

theorem step_inj (i j : Nat) (h : Hop.step i = .step j) : i = j := Hop.step.inj h

theorem advanceAll_cons (dt : Float32) (hop : Nat → Hop) (index : Nat) (first : Sequence A C N)
    (rest : List (Sequence A C N)) (ctx : C) :
    advanceAll false dt hop index (first :: rest) ctx =
      (first.advance dt ctx).andThen (hop index) rest (advanceAll false dt hop (index + 1) rest) :=
  rfl

theorem exists_hop_of_mem_advanceAll (dt : Float32) (hop : Nat → Hop)
    (members : List (Sequence A C N)) (index : Nat) (ctx : C) :
    ∀ e ∈ (advanceAll false dt hop index members ctx).trace,
      ∃ k place, e.path = hop (index + k) :: place := by
  induction members generalizing index ctx with
  | nil => simp [advanceAll]
  | cons first rest ih =>
    intro e he
    have hf : ∀ e ∈ (first.advance dt ctx).trace.under (hop index),
        ∃ k place, e.path = hop (index + k) :: place := by
      intro e he
      obtain ⟨e', _, rfl⟩ := List.mem_map.mp he
      exact ⟨0, e'.path, rfl⟩
    rw [advanceAll_cons, Advance.andThen] at he
    split at he
    · exact hf e he
    · rcases List.mem_append.mp he with he | he
      · exact hf e he
      · obtain ⟨k, place, hp⟩ := ih (index + 1) _ e he
        exact ⟨k + 1, place, by rw [hp, Nat.add_right_comm, Nat.add_assoc]⟩

theorem seen_advanceAll (dt : Float32) (hop : Nat → Hop) (inj : ∀ i j, hop i = hop j → i = j)
    (members : List (Sequence A C N)) (index i : Nat) (ctx : C) {m : Sequence A C N}
    (h : members[i]? = some m) :
    ∃ n ≤ 1, ∃ m', (advanceAll false dt hop index members ctx).members[i]? = some m' ∧
      Seen (hop (index + i)) dt false (.sequence m)
        (advanceAll false dt hop index members ctx).trace n false (.sequence m') := by
  induction members generalizing index i ctx with
  | nil => simp at h
  | cons first rest ih =>
    rw [advanceAll_cons, Advance.andThen]
    cases i with
    | zero =>
      obtain rfl : first = m := by simpa using h
      have ht := Seen.of_tick (hop index) dt ctx first.generator (.sequence first)
      split
      · exact ⟨1, Nat.le_refl 1, _, rfl, ht⟩
      · have hl := exists_hop_of_mem_advanceAll dt hop rest (index + 1)
          (first.advance dt ctx).context
        exact ⟨1, Nat.le_refl 1, _, rfl, ht.append (.of_later inj hl false _)⟩
    | succ i =>
      have hr : rest[i]? = some m := by simpa using h
      have hne : hop index ≠ hop (index + (i + 1)) := fun hk => by
        have := inj _ _ hk
        omega
      have ha := Seen.under_of_ne dt hne (first.advance dt ctx).trace false (.sequence m)
      split
      · exact ⟨0, Nat.zero_le 1, m, by simpa using hr, ha⟩
      · obtain ⟨n, hn, m', hm, hs⟩ := ih (index + 1) i (first.advance dt ctx).context hr
        rw [Nat.add_right_comm index 1 i] at hs
        have hboth := ha.append hs
        rw [Nat.zero_add] at hboth
        exact ⟨n, hn, m', by simpa using hm, hboth⟩

theorem cascade_cons_zero (dt : Float32) (index : Nat) (first : Step A C N)
    (rest : List (Step A C N)) (ctx : C) (generator : Generator) :
    cascade false dt index (first :: rest) 0 ctx generator =
      (Step.tick false dt first ctx generator).andThen index rest
        (cascade false dt (index + 1) rest 0) :=
  rfl

theorem cascade_cons_succ (dt : Float32) (index skip : Nat) (first : Step A C N)
    (rest : List (Step A C N)) (ctx : C) (generator : Generator) :
    cascade false dt index (first :: rest) (skip + 1) ctx generator =
      (cascade false dt (index + 1) rest skip ctx generator).behind first :=
  rfl

theorem exists_step_of_mem_cascade (dt : Float32) (steps : List (Step A C N)) (index skip : Nat)
    (ctx : C) (generator : Generator) :
    ∀ e ∈ (cascade false dt index steps skip ctx generator).trace,
      ∃ k place, e.path = .step (index + k) :: place := by
  induction steps generalizing index skip ctx generator with
  | nil => simp [cascade]
  | cons first rest ih =>
    intro e he
    cases skip with
    | zero =>
      have hf : ∀ e ∈ (Step.tick false dt first ctx generator).trace.under (.step index),
          ∃ k place, e.path = .step (index + k) :: place := by
        intro e he
        obtain ⟨e', _, rfl⟩ := List.mem_map.mp he
        exact ⟨0, e'.path, rfl⟩
      rw [cascade_cons_zero, StepTick.andThen] at he
      split at he
      · rcases List.mem_append.mp he with he | he
        · exact hf e he
        · obtain ⟨k, place, hp⟩ := ih (index + 1) 0 _ _ e he
          exact ⟨k + 1, place, by rw [hp, Nat.add_right_comm, Nat.add_assoc]⟩
      · exact hf e he
      · exact hf e he
    | succ skip =>
      obtain ⟨k, place, hp⟩ := ih (index + 1) skip ctx generator e he
      exact ⟨k + 1, place, by rw [hp, Nat.add_right_comm, Nat.add_assoc]⟩

theorem Sequence.path_ne_of_mem_walk (s : Sequence A C N) (dt : Float32) (ctx : C) :
    ∀ e ∈ (s.walk dt ctx).trace, e.path ≠ [] := by
  intro e he hp
  obtain ⟨k, place, hk⟩ := exists_step_of_mem_cascade dt s.steps 0 s.cursor ctx s.generator e he
  exact List.cons_ne_nil _ _ (hk.symm.trans hp)

theorem seen_cascade (dt : Float32) (steps : List (Step A C N)) (index skip i : Nat) (ctx : C)
    (generator : Generator) {s : Step A C N} (h : steps[i]? = some s) :
    ∃ n ≤ 1, ∃ s', (cascade false dt index steps skip ctx generator).steps[i]? = some s' ∧
      Seen (.step (index + i)) dt false (.step s)
        (cascade false dt index steps skip ctx generator).trace n false (.step s') := by
  induction steps generalizing index skip i ctx generator with
  | nil => simp at h
  | cons first rest ih =>
    have hshift := Nat.add_right_comm index 1
    cases skip with
    | zero =>
      rw [cascade_cons_zero, StepTick.andThen]
      cases i with
      | zero =>
        obtain rfl : first = s := by simpa using h
        have ht := Seen.of_tick (.step index) dt ctx generator (.step first)
        split
        · have hl := exists_step_of_mem_cascade dt rest (index + 1) 0
            (Step.tick false dt first ctx generator).context
            (Step.tick false dt first ctx generator).generator
          exact ⟨1, Nat.le_refl 1, _, rfl, ht.append (.of_later step_inj hl false _)⟩
        · exact ⟨1, Nat.le_refl 1, _, rfl, ht⟩
        · exact ⟨1, Nat.le_refl 1, _, rfl, ht⟩
      | succ i =>
        have hr : rest[i]? = some s := by simpa using h
        have hne : Hop.step index ≠ .step (index + (i + 1)) := fun hk => by
          have := step_inj _ _ hk
          omega
        have ha := Seen.under_of_ne dt hne (Step.tick false dt first ctx generator).trace false
          (.step s)
        split
        · obtain ⟨n, hn, s', hs', hs⟩ := ih (index + 1) 0 i
            (Step.tick false dt first ctx generator).context
            (Step.tick false dt first ctx generator).generator hr
          rw [hshift i] at hs
          have hboth := ha.append hs
          rw [Nat.zero_add] at hboth
          exact ⟨n, hn, s', by simpa using hs', hboth⟩
        · exact ⟨0, Nat.zero_le 1, s, by simpa using hr, ha⟩
        · exact ⟨0, Nat.zero_le 1, s, by simpa using hr, ha⟩
    | succ skip =>
      rw [cascade_cons_succ, Cascade.behind]
      cases i with
      | zero =>
        obtain rfl : first = s := by simpa using h
        have hl := exists_step_of_mem_cascade dt rest (index + 1) skip ctx generator
        exact ⟨0, Nat.zero_le 1, first, rfl, .of_later step_inj hl false _⟩
      | succ i =>
        have hr : rest[i]? = some s := by simpa using h
        obtain ⟨n, hn, s', hs', hs⟩ := ih (index + 1) skip i ctx generator hr
        rw [hshift i] at hs
        exact ⟨n, hn, s', by simpa using hs', hs⟩

omit [Behavior A C N] in
theorem Sequence.mem_wrapLines {s : Sequence A C N} {e : Entry N} (h : e ∈ s.wrapLines) :
    e.path = [] ∧ (e.event = .log (.instantLoop s.name) ∨
      e.event = .log (.sequenceWrapped s.name (s.progress.wrap s.policy).passes)) := by
  unfold Sequence.wrapLines at h
  split at h
  · rcases List.mem_append.mp h with h | h
    · rw [List.mem_singleton.mp h]; exact ⟨rfl, .inl rfl⟩
    · rw [List.mem_singleton.mp h]; exact ⟨rfl, .inr rfl⟩
  · rw [List.mem_singleton.mp h]; exact ⟨rfl, .inr rfl⟩

theorem Seen.wrapLines_step (clock : Float32) (s : Sequence A C N) (i : Nat) (due : Bool)
    (part : Part A C N) :
    Seen (.step i) clock due part s.wrapLines 0 true part := by
  have hw : Seen (.step i) clock due part _ 0 true part := .line_of_reenters
    (.sequenceWrapped s.name (s.progress.wrap s.policy).passes) rfl due part
  unfold Sequence.wrapLines
  split
  · exact (Seen.line_of_not_reenters (.instantLoop s.name) rfl due part).append hw
  · exact hw

theorem Seen.wrapLines_companion (clock : Float32) (s : Sequence A C N) (j : Nat) (due : Bool)
    (part : Part A C N) :
    Seen (.companion j) clock due part s.wrapLines 0 due part := by
  have hw : Seen (.companion j) clock due part _ 0 due part := .line_of_not_reenters
    (.sequenceWrapped s.name (s.progress.wrap s.policy).passes) rfl due part
  unfold Sequence.wrapLines
  split
  · exact (Seen.line_of_not_reenters (.instantLoop s.name) rfl due part).append hw
  · exact hw

/-- Between two passes every step is reset, and the first one entered. -/
theorem Sequence.seen_wrap_step (s : Sequence A C N) (clock : Float32) (ctx : C) (i : Nat)
    {step : Step A C N} (h : s.steps[i]? = some step) :
    ∃ step', (s.wrap ctx).sequence.steps[i]? = some step' ∧
      Seen (.step i) clock false (.step step) (s.wrap ctx).trace 0 false (.step step') := by
  have hl := Seen.wrapLines_step clock s i false (.step step)
  have hr := Seen.of_reset (.step i) clock (.step step)
  cases hs : s.steps with
  | nil => simp [hs] at h
  | cons first rest =>
    rw [Sequence.wrap_of_cons hs]
    rw [hs] at h
    cases i with
    | zero =>
      obtain rfl : first = step := by simpa using h
      have hu : (Part.step first.reset).isUnstarted = true := rfl
      have he := Seen.of_enter (.step 0) clock hu ctx s.generator
      exact ⟨_, rfl, hl.append (hr.append he)⟩
    | succ i =>
      have hne : Hop.step 0 ≠ .step (i + 1) := fun hk => Nat.noConfusion (step_inj _ _ hk)
      have hu := Seen.under_of_ne clock hne (first.reset.activate ctx s.generator).trace false
        (.step step.reset)
      have hrest : rest[i]? = some step := by simpa using h
      exact ⟨step.reset, by simp [hrest], hl.append (hr.append hu)⟩

theorem Sequence.seen_wrap_companion (s : Sequence A C N) (clock : Float32) (ctx : C) (j : Nat)
    (part : Part A C N) :
    (s.wrap ctx).sequence.companions = s.companions ∧
      Seen (.companion j) clock false part (s.wrap ctx).trace 0 false part := by
  have hl := Seen.wrapLines_companion clock s j false part
  cases hs : s.steps with
  | nil => rw [Sequence.wrap_of_nil hs]; exact ⟨rfl, hl⟩
  | cons first rest =>
    rw [Sequence.wrap_of_cons hs]
    exact ⟨rfl, hl.append (.under_of_ne clock Hop.noConfusion _ false part)⟩

theorem Seen.verdict (clock : Float32) (s : Sequence A C N) (ctx : C) (hop : Hop) (due : Bool)
    (part : Part A C N) :
    Seen hop clock due part (Trace.here (s.verdict ctx).events) 0 due part :=
  .here clock (fun e he => Event.reenters_of_isDecision (s.policy.isDecision_again _ ctx e he) hop)
    due part

theorem Sequence.seen_finishPass_step (s : Sequence A C N) (clock : Float32) (ctx : C) (i : Nat)
    {step : Step A C N} (h : s.steps[i]? = some step) :
    ∃ step', (s.finishPass ctx).sequence.steps[i]? = some step' ∧
      Seen (.step i) clock false (.step step) (s.finishPass ctx).trace 0 false (.step step') := by
  have hv := Seen.verdict clock s ctx (.step i) false (.step step)
  match ha : (s.verdict ctx).answer with
  | .error e =>
    rw [Sequence.finishPass_of_error ha]
    exact ⟨step, h, hv⟩
  | .ok true =>
    rw [Sequence.finishPass_of_again ha]
    obtain ⟨step', hs, hw⟩ := s.seen_wrap_step clock ctx i h
    exact ⟨step', hs, hv.append hw⟩
  | .ok false =>
    rw [Sequence.finishPass_of_over ha]
    exact ⟨step, h, hv.append (.line_of_not_reenters _ rfl false _)⟩

theorem Sequence.seen_finishPass_companion (s : Sequence A C N) (clock : Float32) (ctx : C)
    (j : Nat) (part : Part A C N) :
    (s.finishPass ctx).sequence.companions = s.companions ∧
      Seen (.companion j) clock false part (s.finishPass ctx).trace 0 false part := by
  have hv := Seen.verdict clock s ctx (.companion j) false part
  match ha : (s.verdict ctx).answer with
  | .error e =>
    rw [Sequence.finishPass_of_error ha]
    exact ⟨rfl, hv⟩
  | .ok true =>
    rw [Sequence.finishPass_of_again ha]
    obtain ⟨hc, hw⟩ := s.seen_wrap_companion clock ctx j part
    exact ⟨hc, hv.append hw⟩
  | .ok false =>
    rw [Sequence.finishPass_of_over ha]
    exact ⟨rfl, hv.append (.line_of_not_reenters _ rfl false part)⟩

theorem Sequence.seen_resume_step (s : Sequence A C N) (dt : Float32) (ctx : C) (i : Nat)
    {step : Step A C N} (h : s.steps[i]? = some step) :
    ∃ n ≤ 1, ∃ step', (s.resume dt ctx).sequence.steps[i]? = some step' ∧
      Seen (.step i) dt false (.step step) (s.resume dt ctx).trace n false (.step step') := by
  by_cases hs : s.status = .complete
  · rw [Sequence.resume_of_complete hs]
    exact ⟨0, Nat.zero_le 1, step, h, .done false _⟩
  · obtain ⟨n, hn, mid, hm, hk⟩ := seen_cascade dt s.steps 0 s.cursor i ctx s.generator h
    rw [Nat.zero_add] at hk
    match hr : (s.walk dt ctx).result with
    | .ok true =>
      rw [Sequence.resume_of_passed hs hr]
      obtain ⟨step', hs', hf⟩ := (s.stopped (s.walk dt ctx)).seen_finishPass_step dt
        (s.walk dt ctx).context i hm
      exact ⟨n, hn, step', hs', hk.append hf⟩
    | .ok false =>
      rw [Sequence.resume_of_held hs hr]
      exact ⟨n, hn, mid, hm, hk⟩
    | .error e =>
      rw [Sequence.resume_of_error hs hr]
      exact ⟨n, hn, mid, hm, hk⟩

theorem Sequence.seen_resume_companion (s : Sequence A C N) (dt : Float32) (ctx : C) (j : Nat)
    (part : Part A C N) :
    (s.resume dt ctx).sequence.companions = s.companions ∧
      Seen (.companion j) dt false part (s.resume dt ctx).trace 0 false part := by
  by_cases hs : s.status = .complete
  · rw [Sequence.resume_of_complete hs]
    exact ⟨rfl, .done false part⟩
  · have hk : Seen (.companion j) dt false part (s.walk dt ctx).trace 0 false part := by
      apply Seen.elsewhere
      intro e he
      obtain ⟨k, place, hp⟩ := exists_step_of_mem_cascade dt s.steps 0 s.cursor ctx s.generator e he
      exact ⟨_, place, hp, Hop.noConfusion⟩
    match hr : (s.walk dt ctx).result with
    | .ok true =>
      rw [Sequence.resume_of_passed hs hr]
      obtain ⟨hc, hf⟩ := (s.stopped (s.walk dt ctx)).seen_finishPass_companion dt
        (s.walk dt ctx).context j part
      exact ⟨hc, hk.append hf⟩
    | .ok false =>
      rw [Sequence.resume_of_held hs hr]
      exact ⟨rfl, hk⟩
    | .error e =>
      rw [Sequence.resume_of_error hs hr]
      exact ⟨rfl, hk⟩

theorem Sequence.seen_begun (s : Sequence A C N) (clock : Float32) {hop : Hop} {c : Part A C N}
    (h : (Part.sequence s).child? hop = some c) :
    ∃ c', (Part.sequence s.begun).child? hop = some c' ∧
      Seen hop clock (s.status == .notStarted) c s.opening 0 false c' := by
  by_cases hs : s.status = .notStarted
  · have hc := Part.child?_sequence_reset h
    rw [Sequence.begun, if_pos hs]
    refine ⟨c.reset, ?_, ?_⟩
    · cases hop <;> exact hc
    · rw [Sequence.opening, if_pos hs]
      exact (Seen.line_of_reenters _ rfl _ c).append (.of_reset _ clock c)
  · rw [Sequence.begun_of_ne hs, Sequence.opening, if_neg hs, beq_eq_false_iff_ne.mpr hs]
    exact ⟨c, h, .done false c⟩

theorem Sequence.seen_advance (s : Sequence A C N) (dt : Float32) (ctx : C) {hop : Hop}
    {c : Part A C N} (h : (Part.sequence s).child? hop = some c) :
    ∃ n ≤ 1, ∃ c', (Part.sequence (s.advance dt ctx).sequence).child? hop = some c' ∧
      Seen hop dt (s.status == .notStarted) c (s.advance dt ctx).trace n false c' := by
  obtain ⟨mid, hm, hb⟩ := s.seen_begun dt h
  have hticked := Seen.of_owner_ticked hop dt (s.status == .notStarted) c
  have hopen := hticked.append hb
  cases hop with
  | step i =>
    obtain ⟨step, hi, rfl⟩ := Option.map_eq_some_iff.mp hm
    obtain ⟨n, hn, step', hi', hk⟩ := s.begun.seen_resume_step dt ctx i hi
    have hc : (Part.sequence (s.begun.resume dt ctx).sequence).child? (.step i) =
        some (.step step') := by
      simp [Part.child?, hi']
    have hbody := hopen.append hk
    simp only [Nat.zero_add] at hbody
    cases hr : (s.begun.resume dt ctx).result with
    | error e =>
      rw [Sequence.advance_of_error hr]
      exact ⟨n, hn, _, hc, hbody⟩
    | ok o =>
      rw [Sequence.advance_of_ok hr]
      have hround : ∀ e ∈ (advanceAll false dt .companion 0 s.begun.companions
          (s.begun.resume dt ctx).context).trace,
          ∃ other place, e.path = other :: place ∧ other ≠ .step i := by
        intro e he
        obtain ⟨k, place, hp⟩ := exists_hop_of_mem_advanceAll dt .companion s.begun.companions 0
          (s.begun.resume dt ctx).context e he
        exact ⟨_, place, hp, Hop.noConfusion⟩
      exact ⟨n, hn, _, hc, hbody.append (.elsewhere hround false _)⟩
  | companion j =>
    obtain ⟨member, hj, rfl⟩ := Option.map_eq_some_iff.mp hm
    obtain ⟨hcomp, hk⟩ := s.begun.seen_resume_companion dt ctx j (.sequence member)
    have hbody := hopen.append hk
    cases hr : (s.begun.resume dt ctx).result with
    | error e =>
      rw [Sequence.advance_of_error hr]
      refine ⟨0, Nat.zero_le 1, .sequence member, ?_, hbody⟩
      simp [Part.child?, hcomp, hj]
    | ok o =>
      rw [Sequence.advance_of_ok hr]
      obtain ⟨n, hn, member', hj', hround⟩ := seen_advanceAll dt .companion
        (fun _ _ => Hop.companion.inj) s.begun.companions 0 j (s.begun.resume dt ctx).context hj
      rw [Nat.zero_add] at hround
      refine ⟨n, hn, .sequence member', ?_, ?_⟩
      · simp [Part.child?, hj']
      · simpa using hbody.append hround
  | body => cases hm
  | member j => cases hm
  | child i => cases hm

section StepParts

omit [Behavior A C N]

theorem Part.child?_step (a b : StepState) (kind : StepKind A C N) (hop : Hop) :
    (Part.step ⟨a, kind⟩).child? hop = (Part.step ⟨b, kind⟩).child? hop := by
  cases kind <;> cases hop <;> rfl

theorem Part.renews_complete (kind : StepKind A C N) (hop : Hop) :
    (Part.step ⟨.complete, kind⟩).renews hop = (Part.step ⟨.active, kind⟩).renews hop := by
  cases kind <;> cases hop <;> rfl

theorem Part.renews_active_branch (b : Branch A C N) (i : Nat) :
    (Part.step ⟨.active, .branch b⟩).renews (.child i) = (b.chosen != some i) :=
  rfl

end StepParts

/-- Entering a step resets what it is going to use. -/
theorem Step.seen_activate (s : Step A C N) (clock : Float32) (ctx : C) (generator : Generator)
    {hop : Hop} {c : Part A C N} (h : (Part.step s).child? hop = some c) :
    ∃ c', (Part.step (s.activate ctx generator).step).child? hop = some c' ∧
      Seen hop clock ((Part.step s).renews hop) c (s.activate ctx generator).trace 0
        ((Part.step (s.activate ctx generator).step).renews hop) c' := by
  obtain ⟨state, kind⟩ := s
  cases kind with
  | leaf action => cases hop <;> cases h
  | nested body =>
    cases hop with
    | body =>
      obtain rfl : .sequence body = c := Option.some.inj h
      exact ⟨_, rfl, (Seen.line_of_reenters _ rfl _ _).append (.of_reset _ clock _)⟩
    | _ => cases h
  | parallel group =>
    cases hop with
    | member j =>
      obtain ⟨member, hj, rfl⟩ := Option.map_eq_some_iff.mp h
      refine ⟨.sequence member.reset, ?_,
        (Seen.line_of_reenters _ rfl _ _).append (.of_reset _ clock _)⟩
      simp [Part.child?, Step.activate, Group.reset, resetAll_eq_map, hj]
    | _ => cases h
  | branch branch =>
    cases hop with
    | child i =>
      obtain ⟨child, hi, rfl⟩ := Option.map_eq_some_iff.mp h
      have hev := branch.selector.isDecision_select branch.children.length ctx generator
      have hre : ∀ e ∈ (branch.selector.select branch.children.length ctx generator).events,
          e.reenters (.child i) = false := fun e he => Event.reenters_of_isDecision (hev e he) _
      have hsel := Seen.here clock hre ((Part.step ⟨state, .branch branch⟩).renews (.child i))
        (.step child)
      cases hr : (branch.selector.select branch.children.length ctx generator).result with
      | error e =>
        simp only [Step.activate, hr]
        exact ⟨_, h, hsel⟩
      | ok chosen =>
        simp only [Step.activate, hr]
        have hline := (hsel.append (.line_of_not_reenters (.branchSelected chosen) rfl _
          _)).append (.line_of_reenters (.stepActivated .branch) rfl _ _)
        by_cases hpick : chosen = some i
        · refine ⟨.step child.reset, ?_, ?_⟩
          · simp [Part.child?, Branch.choose, hpick, hi]
          · have hout := hline.append (.of_reset _ clock _)
            rw [Part.renews_active_branch]
            simpa [Branch.choose, hpick, Selection.trace, Part.reset] using hout
        · refine ⟨.step child, ?_, ?_⟩
          · cases chosen with
            | none => simp [Part.child?, Branch.choose, hi]
            | some k =>
              have hk : k ≠ i := fun hk => hpick (congrArg some hk)
              simp [Part.child?, Branch.choose, hi, hk]
          · rw [Part.renews_active_branch]
            simpa [Branch.choose, bne_iff_ne.mpr hpick, Selection.trace] using hline
    | _ => cases h

theorem Seen.ofDriven {hop : Hop} {clock : Float32} {due : Bool} {part part' : Part A C N}
    {trace : Trace N} {n : Nat} {kind : StepKind A C N}
    (hc : (Part.step ⟨.active, kind⟩).child? hop = some part')
    (h : Seen hop clock due part trace n ((Part.step ⟨.active, kind⟩).renews hop) part')
    (shape : StepShape) (ctx : C) (generator : Generator) (result : Except TickError Bool) :
    (Part.step (StepTick.ofDriven shape trace ctx generator kind result).step).child? hop =
        some part' ∧
      Seen hop clock due part (StepTick.ofDriven shape trace ctx generator kind result).trace n
        ((Part.step (StepTick.ofDriven shape trace ctx generator kind result).step).renews hop)
        part' := by
  match result with
  | .error e => exact ⟨hc, h⟩
  | .ok false => exact ⟨hc, h⟩
  | .ok true =>
    refine ⟨(Part.child?_step .complete .active kind hop).trans hc, ?_⟩
    have hline : (Event.log (.stepComplete shape) : Event N).reenters hop = false := rfl
    exact (Part.renews_complete kind hop).symm ▸ h.append (.line_of_not_reenters _ hline _ part')

theorem seen_tickChild (dt : Float32) (children : List (Step A C N)) (index i : Nat) (ctx : C)
    (generator : Generator) {child : Step A C N} (h : children[i]? = some child) :
    ∃ n ≤ 1, ∃ child', (tickChild false dt children index ctx generator).children[i]? =
        some child' ∧
      Seen (.child i) dt (some index != some i) (.step child)
        ((tickChild false dt children index ctx generator).trace.under (.child index)) n
        (some index != some i) (.step child') := by
  by_cases hpick : index = i
  · subst hpick
    have hlt : index < children.length := (List.getElem?_eq_some_iff.mp h).1
    rw [tickChild_of_some h, bne_self_eq_false]
    exact ⟨1, Nat.le_refl 1, _, by simp [hlt], .of_tick _ dt ctx generator (.step child)⟩
  · have hne : Hop.child index ≠ .child i := fun hk => hpick (Hop.child.inj hk)
    refine ⟨0, Nat.zero_le 1, child, ?_, .under_of_ne dt hne _ _ _⟩
    cases hx : children[index]? with
    | none => rw [tickChild_of_none hx]; exact h
    | some picked => rw [tickChild_of_some hx]; simp [hpick, h]

/-- Driving a step ticks what it uses. -/
theorem StepKind.seen_tick (kind : StepKind A C N) (dt : Float32) (ctx : C) (generator : Generator)
    {hop : Hop} {c : Part A C N} (h : (Part.step ⟨.active, kind⟩).child? hop = some c) :
    let t := StepKind.tick false dt kind ctx generator
    ∃ n ≤ 1, ∃ c', (Part.step t.step).child? hop = some c' ∧
      Seen hop dt ((Part.step ⟨.active, kind⟩).renews hop) c t.trace n
        ((Part.step t.step).renews hop) c' := by
  match kind with
  | .leaf action => cases hop <;> cases h
  | .nested body =>
    cases hop with
    | body =>
      obtain rfl : .sequence body = c := Option.some.inj h
      have hs := Seen.of_tick .body dt ctx generator (.sequence body)
      exact ⟨1, Nat.le_refl 1, _, Seen.ofDriven rfl hs .nested _ generator _⟩
    | _ => cases h
  | .parallel ⟨completion, members⟩ =>
    cases hop with
    | member j =>
      obtain ⟨member, hj, rfl⟩ := Option.map_eq_some_iff.mp h
      obtain ⟨n, hn, m', hm, hs⟩ := seen_advanceAll dt .member
        (fun _ _ => Hop.member.inj) members 0 j ctx hj
      rw [Nat.zero_add] at hs
      have hc : (Part.step ⟨.active, .parallel
          ⟨completion, (advanceAll false dt .member 0 members ctx).members⟩⟩).child? (.member j) =
          some (.sequence m') := by
        simp [Part.child?, hm]
      exact ⟨n, hn, _, Seen.ofDriven hc hs .parallel _ generator _⟩
    | _ => cases h
  | .branch ⟨selector, children, none⟩ =>
    cases hop with
    | child i => exact ⟨0, Nat.zero_le 1, _, Seen.ofDriven h (.done _ c) .branch ctx generator
        (.ok true)⟩
    | _ => cases h
  | .branch ⟨selector, children, some index⟩ =>
    cases hop with
    | child i =>
      obtain ⟨child, hi, rfl⟩ := Option.map_eq_some_iff.mp h
      obtain ⟨n, hn, child', hc', hs⟩ := seen_tickChild dt children index i ctx generator hi
      have hc : (Part.step ⟨.active, .branch ⟨selector, (tickChild false dt children index ctx
          generator).children, some index⟩⟩).child? (.child i) = some (.step child') := by
        simp [Part.child?, hc']
      exact ⟨n, hn, _, Seen.ofDriven hc hs .branch _ _ _⟩
    | _ => cases h

theorem Step.seen_tick (s : Step A C N) (dt : Float32) (ctx : C) (generator : Generator)
    {hop : Hop} {c : Part A C N} (h : (Part.step s).child? hop = some c) :
    let t := Step.tick false dt s ctx generator
    ∃ n ≤ 1, ∃ c', (Part.step t.step).child? hop = some c' ∧
      Seen hop dt ((Part.step s).renews hop) c t.trace n ((Part.step t.step).renews hop) c' := by
  have hticked := Seen.of_owner_ticked hop dt ((Part.step s).renews hop) c
  match hs : s.state with
  | .complete =>
    rw [Step.tick_of_complete hs]
    exact ⟨0, Nat.zero_le 1, c, h, hticked⟩
  | .active =>
    rw [Step.tick_of_active hs]
    obtain ⟨state, kind⟩ := s
    subst hs
    obtain ⟨n, hn, c', hc, hk⟩ := kind.seen_tick dt ctx generator h
    have hall := hticked.append hk
    rw [Nat.zero_add] at hall
    exact ⟨n, hn, c', hc, hall⟩
  | .notStarted =>
    obtain ⟨mid, hm, he⟩ := s.seen_activate dt ctx generator h
    cases hr : (s.activate ctx generator).result with
    | error e =>
      rw [Step.tick_of_entry_error hs hr]
      exact ⟨0, Nat.zero_le 1, mid, hm, hticked.append he⟩
    | ok entered =>
      rw [Step.tick_of_entry hs hr]
      have hactive := s.state_activate_of_ok hr
      generalize s.activate ctx generator = entrance at *
      obtain ⟨trace, context, generator', ⟨state, kind⟩, result⟩ := entrance
      simp only at hactive
      subst hactive
      obtain ⟨n, hn, c', hc, hk⟩ := kind.seen_tick dt context generator' hm
      have hall := (hticked.append he).append hk
      rw [Nat.zero_add] at hall
      exact ⟨n, hn, c', hc, hall⟩

/-! ### Every part -/

/-- Every visit of a part treats what it holds as it should: what awaits a reset is reset before it
is used, and a tick of the owner ticks each part at most once, for as long as itself. -/
theorem Part.seen_visit (part : Part A C N) {v : Visit C} (hv : v ≠ .reset) {clock : Float32}
    (ht : v.TicksAt clock) {hop : Hop} {c : Part A C N} (h : part.child? hop = some c) :
    ∃ n ≤ v.ticks, ∃ c', (part.visit v).part.child? hop = some c' ∧
      Seen hop clock (part.renews hop) c (part.visit v).trace n ((part.visit v).part.renews hop)
        c' := by
  match part, v with
  | _, .reset => exact absurd rfl hv
  | .sequence s, .enter ctx generator => exact ⟨0, Nat.le_refl 0, c, h, .done _ c⟩
  | .sequence s, .tick dt ctx generator =>
    obtain rfl : dt = clock := ht
    obtain ⟨n, hn, c', hc, hs⟩ := s.seen_advance dt ctx h
    have hnot : ((s.advance dt ctx).sequence.status == .notStarted) = false :=
      beq_eq_false_iff_ne.mpr (s.status_advance_ne dt ctx)
    have hr : ∀ t : Sequence A C N, (Part.sequence t).renews hop = (t.status == .notStarted) :=
      fun _ => rfl
    refine ⟨n, hn, c', hc, ?_⟩
    rw [hr s, Part.visit, hr, hnot]
    exact hs
  | .step s, .enter ctx generator =>
    obtain ⟨c', hc, hs⟩ := s.seen_activate clock ctx generator h
    exact ⟨0, Nat.le_refl 0, c', hc, hs⟩
  | .step s, .tick dt ctx generator =>
    obtain rfl : dt = clock := ht
    exact s.seen_tick dt ctx generator h

end Sequencer

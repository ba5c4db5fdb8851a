import Sequencer.Proofs.Histories

/-!
# The shape of a tree

No visit adds a part to a tree or takes one away. So whatever is found in a tree after a history
of the root is what the history has made of the part that was at the same place before.
-/

namespace Sequencer

variable {A C N : Type}

theorem isSome_getElem?_of_length {α : Type} {xs ys : List α} (h : xs.length = ys.length)
    (i : Nat) : xs[i]?.isSome = ys[i]?.isSome := by
  by_cases hi : i < ys.length
  · rw [List.getElem?_eq_getElem hi, List.getElem?_eq_getElem (h.symm ▸ hi)]
    rfl
  · have hle : ys.length ≤ i := Nat.le_of_not_lt hi
    rw [List.getElem?_eq_none hle, List.getElem?_eq_none (h.symm ▸ hle)]

section

variable [Behavior A C N]

theorem length_advanceAll (dt : Float32) (hop : Nat → Hop) (members : List (Sequence A C N))
    (index : Nat) (ctx : C) :
    (advanceAll false dt hop index members ctx).members.length = members.length := by
  induction members generalizing index ctx with
  | nil => rfl
  | cons first rest ih =>
    rw [advanceAll_cons, Advance.andThen]
    split
    · rfl
    · simp [ih]

theorem length_cascade (dt : Float32) (steps : List (Step A C N)) (index skip : Nat) (ctx : C)
    (generator : Generator) :
    (cascade false dt index steps skip ctx generator).steps.length = steps.length := by
  induction steps generalizing index skip ctx generator with
  | nil => rfl
  | cons first rest ih =>
    cases skip with
    | zero =>
      rw [cascade_cons_zero, StepTick.andThen]
      split
      · simp [ih]
      · rfl
      · rfl
    | succ skip => simp [cascade_cons_succ, Cascade.behind, ih]

theorem length_tickChild (dt : Float32) (children : List (Step A C N)) (index : Nat) (ctx : C)
    (generator : Generator) :
    (tickChild false dt children index ctx generator).children.length = children.length := by
  cases h : children[index]? with
  | none => rw [tickChild_of_none h]
  | some child => simp [tickChild_of_some h]

omit [Behavior A C N] in
/-- Whether two sequences differ in nothing but their parts, the state of their run and their random
sources, and hold as many parts. -/
structure Sequence.SameFrame (s t : Sequence A C N) : Prop where
  id : t.id = s.id
  name : t.name = s.name
  policy : t.policy = s.policy
  warnOnInstantLoops : t.warnOnInstantLoops = s.warnOnInstantLoops
  steps : t.steps.length = s.steps.length
  companions : t.companions.length = s.companions.length

namespace Sequence.SameFrame

omit [Behavior A C N] in
theorem refl (s : Sequence A C N) : s.SameFrame s := ⟨rfl, rfl, rfl, rfl, rfl, rfl⟩

omit [Behavior A C N] in
theorem symm {s t : Sequence A C N} (h : s.SameFrame t) : t.SameFrame s :=
  ⟨h.id.symm, h.name.symm, h.policy.symm, h.warnOnInstantLoops.symm, h.steps.symm,
    h.companions.symm⟩

omit [Behavior A C N] in
theorem trans {s t u : Sequence A C N} (h : s.SameFrame t) (k : t.SameFrame u) : s.SameFrame u where
  id := k.id.trans h.id
  name := k.name.trans h.name
  policy := k.policy.trans h.policy
  warnOnInstantLoops := k.warnOnInstantLoops.trans h.warnOnInstantLoops
  steps := k.steps.trans h.steps
  companions := k.companions.trans h.companions

theorem wrap (s : Sequence A C N) (ctx : C) : s.SameFrame (s.wrap ctx).sequence := by
  cases h : s.steps with
  | nil =>
    rw [wrap_of_nil h]
    exact ⟨rfl, rfl, rfl, rfl, by simp [rewound], rfl⟩
  | cons first rest =>
    rw [wrap_of_cons h]
    exact ⟨rfl, rfl, rfl, rfl, by simp [h], rfl⟩

theorem finishPass (s : Sequence A C N) (ctx : C) : s.SameFrame (s.finishPass ctx).sequence := by
  match ha : (s.verdict ctx).answer with
  | .error e =>
    rw [finishPass_of_error ha]
    exact refl s
  | .ok true =>
    rw [finishPass_of_again ha]
    exact wrap s ctx
  | .ok false =>
    rw [finishPass_of_over ha]
    exact ⟨rfl, rfl, rfl, rfl, rfl, rfl⟩

theorem resume (s : Sequence A C N) (dt : Float32) (ctx : C) :
    s.SameFrame (s.resume dt ctx).sequence := by
  have hk : s.SameFrame (s.stopped (s.walk dt ctx)) :=
    ⟨rfl, rfl, rfl, rfl, length_cascade dt s.steps 0 s.cursor ctx s.generator, rfl⟩
  by_cases hc : s.status = .complete
  · rw [resume_of_complete hc]
    exact refl s
  · match hr : (s.walk dt ctx).result with
    | .ok true =>
      rw [resume_of_passed hc hr]
      exact hk.trans (finishPass _ _)
    | .ok false =>
      rw [resume_of_held hc hr]
      exact ⟨hk.id, hk.name, hk.policy, hk.warnOnInstantLoops, hk.steps, hk.companions⟩
    | .error e =>
      rw [resume_of_error hc hr]
      exact hk

omit [Behavior A C N] in
theorem reset (s : Sequence A C N) : s.SameFrame s.reset := by
  have hsteps : s.reset.steps.length = s.steps.length := by simp
  have hcompanions : s.reset.companions.length = s.companions.length := by simp
  cases s
  exact ⟨rfl, rfl, rfl, rfl, hsteps, hcompanions⟩

omit [Behavior A C N] in
theorem begun (s : Sequence A C N) : s.SameFrame s.begun := by
  have h := reset s
  unfold Sequence.begun
  split
  · exact ⟨h.id, h.name, h.policy, h.warnOnInstantLoops, h.steps, h.companions⟩
  · exact refl s

theorem advance (s : Sequence A C N) (dt : Float32) (ctx : C) :
    s.SameFrame (s.advance dt ctx).sequence := by
  have hb := (begun s).trans (resume s.begun dt ctx)
  match hr : (s.begun.resume dt ctx).result with
  | .error e =>
    rw [advance_of_error hr]
    exact hb
  | .ok o =>
    rw [advance_of_ok hr]
    have hround := length_advanceAll dt .companion s.begun.companions 0
      (s.begun.resume dt ctx).context
    exact ⟨hb.id, hb.name, hb.policy, hb.warnOnInstantLoops, hb.steps,
      hround.trans (begun s).companions⟩

theorem after (s : Sequence A C N) (commands : List (Command C)) :
    s.SameFrame (s.after commands) := by
  induction commands generalizing s with
  | nil => exact refl s
  | cons command commands ih =>
    have hone : s.SameFrame (s.obey command) := by
      cases command with
      | advance dt ctx => exact advance s dt ctx
      | reset => exact reset s
    exact hone.trans (ih (s.obey command))

end Sequence.SameFrame

namespace Part

omit [Behavior A C N] in
theorem isSome_child?_sequence {s t : Sequence A C N} (h : s.SameFrame t) (hop : Hop) :
    ((Part.sequence t).child? hop).isSome = ((Part.sequence s).child? hop).isSome := by
  cases hop with
  | step i => simpa [child?] using isSome_getElem?_of_length h.steps i
  | companion j => simpa [child?] using isSome_getElem?_of_length h.companions j
  | _ => rfl

theorem isSome_child?_activate (s : Step A C N) (ctx : C) (generator : Generator) (hop : Hop) :
    ((Part.step (s.activate ctx generator).step).child? hop).isSome =
      ((Part.step s).child? hop).isSome := by
  obtain ⟨state, kind⟩ := s
  cases kind with
  | leaf action =>
    simp only [Step.activate]
    split <;> cases hop <;> rfl
  | nested body => cases hop <;> rfl
  | parallel group => cases hop <;> simp [Step.activate, child?, Group.reset, resetAll_eq_map]
  | branch branch =>
    simp only [Step.activate]
    split
    · rfl
    · rename_i chosen _
      cases hop with
      | child i =>
        have hlen : (branch.choose chosen).children.length = branch.children.length := by
          cases chosen <;> simp [Branch.choose]
        simpa [child?] using isSome_getElem?_of_length hlen i
      | _ => rfl

omit [Behavior A C N] in
theorem child?_ofDriven (shape : StepShape) (trace : Trace N) (ctx : C) (generator : Generator)
    (kind : StepKind A C N) (result : Except TickError Bool) (hop : Hop) :
    (Part.step (StepTick.ofDriven shape trace ctx generator kind result).step).child? hop =
      (Part.step ⟨.active, kind⟩).child? hop := by
  unfold StepTick.ofDriven
  split
  · exact child?_step .complete .active kind hop
  · rfl
  · rfl

theorem isSome_child?_tick_kind (kind : StepKind A C N) (state : StepState) (dt : Float32) (ctx : C)
    (generator : Generator) (hop : Hop) :
    ((Part.step (StepKind.tick false dt kind ctx generator).step).child? hop).isSome =
      ((Part.step ⟨state, kind⟩).child? hop).isSome := by
  match kind with
  | .leaf action =>
    simp only [StepKind.tick, StepTick.ofAction, Bool.false_eq_true, ↓reduceIte, child?_ofDriven]
    cases hop <;> rfl
  | .nested body =>
    simp only [StepKind.tick, StepTick.ofBody, child?_ofDriven]
    cases hop <;> rfl
  | .parallel ⟨completion, members⟩ =>
    simp only [StepKind.tick, StepTick.ofRound, child?_ofDriven]
    cases hop with
    | member j =>
      have hlen := length_advanceAll dt .member members 0 ctx
      simpa [child?] using isSome_getElem?_of_length hlen j
    | _ => rfl
  | .branch ⟨selector, children, none⟩ =>
    simp only [StepKind.tick, StepTick.ofBranch, StepTick.ofChosen, Bool.false_eq_true, ↓reduceIte,
      child?_ofDriven]
    cases hop <;> rfl
  | .branch ⟨selector, children, some index⟩ =>
    simp only [StepKind.tick, StepTick.ofBranch, StepTick.ofChosen, Bool.false_eq_true, ↓reduceIte,
      child?_ofDriven]
    cases hop with
    | child i =>
      have hlen := length_tickChild dt children index ctx generator
      simpa [child?] using isSome_getElem?_of_length hlen i
    | _ => rfl

theorem isLasting_isSome_child? (hop : Hop) (present : Bool) :
    Step.IsLasting fun s : Step A C N => ((Part.step s).child? hop).isSome = present where
  reset h := (congrArg Option.isSome (child?_step_reset ..)).trans h
  enter ctx generator h := (isSome_child?_activate _ ctx generator hop).trans h
  drive dt ctx generator h := (isSome_child?_tick_kind _ .active dt ctx generator hop).trans h

/-- Visits neither add nor remove a part. -/
theorem isSome_child?_visits (part : Part A C N) (vs : List (Visit C)) (hop : Hop) :
    ((part.visits vs).part.child? hop).isSome = (part.child? hop).isSome := by
  cases part with
  | sequence s =>
    rw [visits_sequence]
    exact isSome_child?_sequence (.after s _) hop
  | step s =>
    have hlasting : Step.IsLasting fun s' : Step A C N =>
        ((Part.step s').child? hop).isSome = ((Part.step s).child? hop).isSome :=
      isLasting_isSome_child? hop _
    obtain ⟨s', hs', hsome⟩ := hlasting.visits rfl vs
    rw [hs']
    exact hsome

/-- What is found after visits was there before them. -/
theorem exists_find_of_visits (part : Part A C N) (vs : List (Visit C)) (path : List Hop)
    {found : Part A C N} (h : (part.visits vs).part.find? path = some found) :
    ∃ before, part.find? path = some before := by
  induction path generalizing part vs found with
  | nil => exact ⟨part, rfl⟩
  | cons hop path ih =>
    obtain ⟨c', hc', hf⟩ := find?_cons_eq_some.mp h
    have hsome : (part.child? hop).isSome := by
      rw [← part.isSome_child?_visits vs hop, hc']
      rfl
    obtain ⟨c, hc⟩ := Option.isSome_iff_exists.mp hsome
    obtain ⟨ws, hw, _, _⟩ := part.exists_visits_child vs hc
    obtain rfl : c' = (c.visits ws).part := Option.some.inj (hc'.symm.trans hw)
    obtain ⟨before, hb⟩ := ih c ws hf
    exact ⟨before, find?_cons_eq_some.mpr ⟨c, hc, hb⟩⟩

end Part

/-- A sequence found in a tree after a history of the root was there before, and has a history of
its own since. -/
theorem Sequence.exists_commands_of_after (s : Sequence A C N) (cs : List (Command C))
    (path : List Hop) {t : Sequence A C N}
    (h : (Part.sequence (s.after cs)).find? path = some (.sequence t)) :
    ∃ before ds, (Part.sequence s).find? path = some (.sequence before) ∧ t = before.after ds ∧
      before.history ds = (s.history cs).within path ∧
      advancesOf ds ≤ advancesOf cs := by
  have hv : ((Part.sequence s).visits (cs.map (Command.visit s.generator))).part.find? path =
      some (.sequence t) := by
    rwa [Part.visits_visit]
  obtain ⟨before, hb⟩ := Part.exists_find_of_visits _ _ path hv
  match before with
  | .sequence u =>
    obtain ⟨ds, hf, ht, hn⟩ := s.exists_commands cs path hb
    rw [h] at hf
    exact ⟨u, ds, hb, Part.sequence.inj (Option.some.inj hf), ht, hn⟩
  | .step u =>
    obtain ⟨vs, hf, _, _⟩ := s.exists_visits cs path hb
    rw [h] at hf
    obtain ⟨u', hu⟩ : ∃ u', ((Part.step u).visits vs).part = .step u' := Part.visits_step u vs
    rw [hu] at hf
    cases hf

end

end Sequencer

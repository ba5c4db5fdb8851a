import Sequencer.Builder.Call
import Sequencer.Proofs.Consistency
import Sequencer.Proofs.Grammar
import Sequencer.Proofs.Shape
import Sequencer.Rehearsal

/-!
# Where sequences come from

`Part.Reachable` collects what a program can have in its hands: steps that it made from actions,
sequences, groups and branches, and sequences that it built from such steps and then advanced and
reset at will, before or after they went into a larger sequence. In all of these, every sequence was
new at some time and has since been through a history of calls.
-/

namespace Sequencer

variable {A C N : Type}

def Call.steps : Call A C N → List (Step A C N)
  | .run step | .andThen step | .otherwise step | .maybe step | .maybeWith _ step => [step]
  | .randomOneOf options => options
  | .randomOneOfWeighted options => options.map Prod.snd
  | _ => []

def Call.sequences : Call A C N → List (Sequence A C N)
  | .inParallel sequences => sequences
  | .alongside companion => [companion]
  | _ => []

/-- What a program can have in its hands. -/
inductive Part.Reachable [Behavior A C N] : Part A C N → Prop
  | leaf (action : Action A C N) : Reachable (.step (.leaf action))
  | nested {s : Sequence A C N} (h : Reachable (.sequence s)) : Reachable (.step (.nested s))
  | parallel {g : Group A C N} (h : ∀ s ∈ g.members, Reachable (.sequence s)) :
      Reachable (.step (.parallel g))
  | branch {b : Branch A C N} (h : ∀ c ∈ b.children, Reachable (.step c)) :
      Reachable (.step (.branch b))
  | built (name : String) (calls : List (Call A C N)) (entropy : Entropy) (serial : Nat)
      {s : Sequence A C N} (hsteps : ∀ call ∈ calls, ∀ step ∈ call.steps, Reachable (.step step))
      (hsequences : ∀ call ∈ calls, ∀ q ∈ call.sequences, Reachable (.sequence q))
      (h : (Builder.ofCalls name calls).result entropy serial = .ok s) : Reachable (.sequence s)
  | advance {s : Sequence A C N} (h : Reachable (.sequence s)) (dt : Float32) (ctx : C) :
      Reachable (.sequence (s.advance dt ctx).sequence)
  | reset {s : Sequence A C N} (h : Reachable (.sequence s)) : Reachable (.sequence s.reset)

/-- A property that parts have if they are put together from parts that have it. -/
structure Part.IsHereditary (P : Part A C N → Prop) : Prop where
  leaf : ∀ action, P (.step (.leaf action))
  parallel : ∀ g : Group A C N, (∀ s ∈ g.members, P (.sequence s)) → P (.step (.parallel g))
  branch : ∀ b : Branch A C N, (∀ c ∈ b.children, P (.step c)) → P (.step (.branch b))

/-- Whether all parts that a builder has collected have a property. -/
structure Builder.Collects (P : Part A C N → Prop) (b : Builder A C N) : Prop where
  steps : ∀ step ∈ b.steps, P (.step step)
  arms : ∀ block, b.block = some block → ∀ arm ∈ block.arms, P (.step arm.2)
  companions : ∀ c ∈ b.companions, P (.sequence c)

theorem Group.mem_insert {g : Group A C N} {s m : Sequence A C N} (h : m ∈ (g.insert s).members) :
    m ∈ g.members ∨ m = s := by
  unfold insert at h
  split at h
  · obtain ⟨old, ho, rfl⟩ := List.mem_map.mp h
    split
    · exact .inr rfl
    · exact .inl ho
  · rcases List.mem_append.mp h with h | h
    · exact .inl h
    · exact .inr (List.mem_singleton.mp h)

theorem Group.mem_ofList {completion : Completion} {sequences : List (Sequence A C N)}
    {m : Sequence A C N} (h : m ∈ (Group.ofList completion sequences).members) :
    m ∈ sequences := by
  have hfold : ∀ (g : Group A C N), m ∈ (sequences.foldl insert g).members →
      m ∈ g.members ∨ m ∈ sequences := by
    clear h
    induction sequences with
    | nil => exact fun g h => .inl h
    | cons s rest ih =>
      intro g h
      rcases ih (g.insert s) h with h | h
      · rcases Group.mem_insert h with h | rfl
        · exact .inl h
        · exact .inr List.mem_cons_self
      · exact .inr (List.mem_cons_of_mem _ h)
  rcases hfold (empty completion) h with h | h
  · cases h
  · exact h

namespace Builder.Collects

variable {P : Part A C N → Prop} {b : Builder A C N}

theorem new (name : String) : (Builder.new name : Builder A C N).Collects P :=
  ⟨fun _ h => (nomatch h), fun _ h => (nomatch h), fun _ h => (nomatch h)⟩

theorem fail (h : b.Collects P) (error : BuildError) : (b.fail error).Collects P :=
  ⟨h.steps, h.arms, h.companions⟩

theorem withBlock (h : b.Collects P) {block : Option (OpenBlock A C N)}
    (hb : ∀ open', block = some open' → ∀ arm ∈ open'.arms, P (.step arm.2)) :
    ({ b with block } : Builder A C N).Collects P :=
  ⟨h.steps, hb, h.companions⟩

theorem withoutBlock (h : b.Collects P) : ({ b with block := none } : Builder A C N).Collects P :=
  h.withBlock fun _ hn => nomatch hn

theorem append (h : b.Collects P) {step : Step A C N} (hs : P (.step step)) :
    ({ b with steps := b.steps ++ [step] } : Builder A C N).Collects P where
  steps s hm := by
    rcases List.mem_append.mp hm with hm | hm
    · exact h.steps s hm
    · rwa [List.mem_singleton.mp hm]
  arms := h.arms
  companions := h.companions

theorem guarded (hP : Part.IsHereditary P) {arms : List (Condition C N × Step A C N)}
    (ha : ∀ arm ∈ arms, P (.step arm.2)) {otherwise : Option (Step A C N)}
    (ho : ∀ step ∈ otherwise, P (.step step)) :
    P (.step (.branch (.guarded arms otherwise))) := by
  apply hP.branch
  intro c hc
  rcases List.mem_append.mp hc with hc | hc
  · obtain ⟨arm, hm, rfl⟩ := List.mem_map.mp hc
    exact ha arm hm
  · exact ho c (Option.mem_toList.mp hc)

theorem closeBlock (hP : Part.IsHereditary P) (h : b.Collects P) : b.closeBlock.Collects P := by
  unfold Builder.closeBlock
  split
  · exact h
  · exact h.withoutBlock.fail _
  · rename_i arms hb
    exact h.withoutBlock.append (guarded hP (h.arms _ hb) fun _ hn => nomatch hn)

theorem push (hP : Part.IsHereditary P) (h : b.Collects P) {step : Step A C N}
    (hs : P (.step step)) : (b.push step).Collects P :=
  (h.closeBlock hP).append hs

theorem setPolicy (hP : Part.IsHereditary P) (h : b.Collects P) (policy : Policy C N) :
    (b.setPolicy policy).Collects P := by
  have hc := h.closeBlock hP
  simp only [Builder.setPolicy]
  split
  · exact hc.fail _
  · exact ⟨hc.steps, hc.arms, hc.companions⟩

theorem openBlock (hP : Part.IsHereditary P) (h : b.Collects P) (guard : Condition C N) :
    (b.openBlock guard).Collects P := by
  apply (h.closeBlock hP).withBlock
  intro block hb
  obtain rfl := Option.some.inj hb
  exact fun _ hn => nomatch hn

theorem pushChoice (hP : Part.IsHereditary P) (h : b.Collects P)
    {choice : Except ChoiceError (Branch A C N)}
    (hc : ∀ branch, choice = .ok branch → ∀ c ∈ branch.children, P (.step c)) :
    (b.pushChoice choice).Collects P := by
  unfold Builder.pushChoice
  split
  · exact h.push hP (hP.branch _ (hc _ rfl))
  · exact h.fail _

/-- Every call passes on what it brings along, and nothing else. -/
theorem apply (hP : Part.IsHereditary P) (h : b.Collects P) (call : Call A C N)
    (hsteps : ∀ step ∈ call.steps, P (.step step))
    (hsequences : ∀ q ∈ call.sequences, P (.sequence q)) : (b.apply call).Collects P := by
  cases call with
  | withSettings settings =>
    simp only [Builder.apply, Builder.withSettings]
    split
    · exact ⟨h.steps, h.arms, h.companions⟩
    · exact ⟨h.steps, h.arms, h.companions⟩
  | seed seed => exact ⟨h.steps, h.arms, h.companions⟩
  | run step => exact h.push hP (hsteps step List.mem_cons_self)
  | andThen step =>
    have hs := hsteps step List.mem_cons_self
    simp only [Builder.apply, Builder.andThen]
    split
    · rename_i arms guard hb
      apply h.withBlock
      intro block hblock
      obtain rfl := Option.some.inj hblock
      intro arm ha
      rcases List.mem_append.mp ha with ha | ha
      · exact h.arms _ hb arm ha
      · rwa [List.mem_singleton.mp ha]
    · exact h.push hP hs
  | ifHolds guard => exact h.openBlock hP guard
  | ifAll guards =>
    simp only [Builder.apply, Builder.ifAll]
    split
    · exact (h.fail _).openBlock hP _
    · exact h.openBlock hP _
  | orIf guard =>
    simp only [Builder.apply, Builder.orIf]
    split
    · exact h.fail _
    · exact h.withoutBlock.fail _
    · rename_i arms hb
      apply h.withBlock
      intro block hblock
      obtain rfl := Option.some.inj hblock
      exact h.arms ⟨arms, none⟩ hb
  | otherwise step =>
    simp only [Builder.apply, Builder.otherwise]
    split
    · exact h.fail _
    · exact h.withoutBlock.fail _
    · rename_i arms hb
      apply h.withoutBlock.append
      apply guarded hP (h.arms _ hb)
      intro s hs
      obtain rfl := Option.some.inj hs
      exact hsteps step List.mem_cons_self
  | waitUntil condition => exact h.push hP (hP.leaf _)
  | wait seconds =>
    simp only [Builder.apply, Builder.wait]
    split
    · exact h.push hP (hP.leaf _)
    · exact h.fail _
  | randomOneOf options =>
    apply h.pushChoice hP
    intro branch hb
    unfold Branch.uniform at hb
    split at hb
    · cases hb
    · obtain rfl := Except.ok.inj hb
      exact hsteps
  | randomOneOfWeighted options =>
    apply h.pushChoice hP
    intro branch hb
    unfold Branch.weighted at hb
    split at hb
    · cases hb
    · split at hb
      · cases hb
      · obtain rfl := Except.ok.inj hb
        exact hsteps
  | maybe step =>
    apply h.pushChoice hP
    intro branch hb
    unfold Branch.chance at hb
    split at hb
    · obtain rfl := Except.ok.inj hb
      exact hsteps
    · cases hb
  | maybeWith probability step =>
    apply h.pushChoice hP
    intro branch hb
    unfold Branch.chance at hb
    split at hb
    · obtain rfl := Except.ok.inj hb
      exact hsteps
    · cases hb
  | inParallel sequences =>
    exact h.push hP (hP.parallel _ fun s hs => hsequences s (Group.mem_ofList hs))
  | alongside companion =>
    refine ⟨h.steps, h.arms, ?_⟩
    intro c hc
    rcases List.mem_append.mp hc with hc | hc
    · exact h.companions c hc
    · exact hsequences c hc
  | repeatTimes count =>
    simp only [Builder.apply, Builder.repeatTimes]
    split
    · exact h.fail _
    · exact h.setPolicy hP _
  | repeatUntil condition => exact h.setPolicy hP _
  | repeatForever => exact h.setPolicy hP _

theorem ofCalls (hP : Part.IsHereditary P) (name : String) {calls : List (Call A C N)}
    (hsteps : ∀ call ∈ calls, ∀ step ∈ call.steps, P (.step step))
    (hsequences : ∀ call ∈ calls, ∀ q ∈ call.sequences, P (.sequence q)) :
    (Builder.ofCalls name calls).Collects P := by
  have hfold : ∀ b : Builder A C N, b.Collects P → (calls.foldl Builder.apply b).Collects P := by
    induction calls with
    | nil => exact fun b hb => hb
    | cons call rest ih =>
      intro b hb
      have hfirst := hb.apply hP call (hsteps call List.mem_cons_self)
        (hsequences call List.mem_cons_self)
      exact ih (fun c hc => hsteps c (List.mem_cons_of_mem _ hc))
        (fun c hc => hsequences c (List.mem_cons_of_mem _ hc)) _ hfirst
  exact hfold _ (new name)

end Builder.Collects

variable [Behavior A C N]

/-- Whether a part, if it is a sequence, was new at some time and has a history of calls since. -/
def Part.HasHistory (part : Part A C N) : Prop :=
  ∀ t, part = .sequence t → ∃ (new : Sequence A C N) (es : List (Command C)),
    new.IsNew ∧ t = new.after es

theorem Part.hasHistory_step (s : Step A C N) : (Part.step s).HasHistory :=
  fun _ h => nomatch h

/-- Whether a part, if it is a sequence, comes by a history of calls from a sequence that has a
property. -/
def Part.Stems (P : Sequence A C N → Prop) (part : Part A C N) : Prop :=
  ∀ t, part = .sequence t → ∃ (origin : Sequence A C N) (es : List (Command C)),
    P origin ∧ t = origin.after es

theorem Sequence.stems_after {P : Sequence A C N → Prop} {s : Sequence A C N}
    (h : (Part.sequence s).All (Part.Stems P)) (commands : List (Command C)) :
    (Part.sequence (s.after commands)).All (Part.Stems P) := by
  rintro path found hf t rfl
  obtain ⟨before, ds, hb, rfl, _, _⟩ := s.exists_commands_of_after commands path hf
  obtain ⟨origin, es, ho, rfl⟩ := h path _ hb before rfl
  exact ⟨origin, es ++ ds, ho, (origin.after_append es ds).symm⟩

theorem Sequence.hasHistory_after {s : Sequence A C N} (h : (Part.sequence s).All Part.HasHistory)
    (commands : List (Command C)) :
    (Part.sequence (s.after commands)).All Part.HasHistory :=
  Sequence.stems_after (P := Sequence.IsNew) h commands

/-- Whether a step is not entered, and every sequence inside has a history. -/
def Part.IsClean (part : Part A C N) : Prop :=
  (∀ s, part = .step s → s.state = .notStarted) ∧ part.All Part.HasHistory

theorem Part.isHereditary_isClean : Part.IsHereditary (A := A) (C := C) (N := N) Part.IsClean where
  leaf _ := ⟨fun _ hs => Part.step.inj hs ▸ rfl, .leaf (Part.hasHistory_step _)⟩
  parallel _ h :=
    ⟨fun _ hs => Part.step.inj hs ▸ rfl, .parallel (Part.hasHistory_step _) fun s hs => (h s hs).2⟩
  branch _ h :=
    ⟨fun _ hs => Part.step.inj hs ▸ rfl, .branch (Part.hasHistory_step _) fun c hc => (h c hc).2⟩

theorem Builder.Collects.isClean_result {b : Builder A C N} (h : b.Collects Part.IsClean)
    {entropy : Entropy} {serial : Nat} {s : Sequence A C N}
    (hs : b.result entropy serial = .ok s) : s.IsNew ∧ (Part.sequence s).IsClean := by
  have hc := h.closeBlock Part.isHereditary_isClean
  obtain ⟨-, rfl⟩ := Builder.result_ok_iff.mp hs
  have hnew : (b.closeBlock.toSequence entropy serial).IsNew :=
    ⟨rfl, fun step hm => (hc.steps step hm).1 step rfl⟩
  refine ⟨hnew, fun _ hx => (nomatch hx), .sequence ?_ ?_ ?_⟩
  · rintro t ht
    obtain rfl := Part.sequence.inj ht
    exact ⟨_, [], hnew, rfl⟩
  · exact fun step hm => (hc.steps step hm).2
  · exact fun c hm => (hc.companions c (Group.mem_ofList hm)).2

theorem Part.Reachable.isClean {part : Part A C N} (h : part.Reachable) : part.IsClean := by
  induction h with
  | leaf action => exact Part.isHereditary_isClean.leaf action
  | nested h ih =>
    exact ⟨fun _ hs => Part.step.inj hs ▸ rfl, .nested (Part.hasHistory_step _) ih.2⟩
  | parallel h ih => exact Part.isHereditary_isClean.parallel _ ih
  | branch h ih => exact Part.isHereditary_isClean.branch _ ih
  | built name calls entropy serial hsteps hsequences h ihsteps ihsequences =>
    have hc := Builder.Collects.ofCalls Part.isHereditary_isClean name ihsteps ihsequences
    exact (hc.isClean_result h).2
  | @advance s h dt ctx ih =>
    exact ⟨fun _ hs => (nomatch hs), s.hasHistory_after ih.2 [.advance dt ctx]⟩
  | @reset s h ih => exact ⟨fun _ hs => (nomatch hs), s.hasHistory_after ih.2 [.reset (C := C)]⟩

theorem Part.Reachable.exists_history {part : Part A C N} (h : part.Reachable) {path : List Hop}
    {t : Sequence A C N} (hf : part.find? path = some (.sequence t)) :
    ∃ (new : Sequence A C N) (es : List (Command C)), new.IsNew ∧ t = new.after es :=
  h.isClean.2 path _ hf t rfl

omit [Behavior A C N] in
def Sequence.IsBuilt (s : Sequence A C N) : Prop :=
  ∃ (name : String) (calls : List (Call A C N)) (entropy : Entropy) (serial : Nat),
    (Builder.ofCalls name calls).result entropy serial = .ok s

theorem Part.stems_step (P : Sequence A C N → Prop) (s : Step A C N) : (Part.step s).Stems P :=
  fun _ h => nomatch h

theorem Part.isHereditary_stems (P : Sequence A C N → Prop) :
    Part.IsHereditary (A := A) (C := C) (N := N) fun part => part.All (Part.Stems P) where
  leaf _ := .leaf (Part.stems_step P _)
  parallel _ h := .parallel (Part.stems_step P _) h
  branch _ h := .branch (Part.stems_step P _) h

/-- Every sequence inside of what is reachable was built and has a history of calls since. -/
theorem Part.Reachable.stems_isBuilt {part : Part A C N} (h : part.Reachable) :
    part.All (Part.Stems Sequence.IsBuilt) := by
  have hP := Part.isHereditary_stems (A := A) (C := C) (N := N) Sequence.IsBuilt
  induction h with
  | leaf action => exact hP.leaf action
  | nested h ih => exact .nested (Part.stems_step _ _) ih
  | parallel h ih => exact hP.parallel _ ih
  | branch h ih => exact hP.branch _ ih
  | @built name calls entropy serial s hsteps hsequences h ihsteps ihsequences =>
    have hc := (Builder.Collects.ofCalls hP name ihsteps ihsequences).closeBlock hP
    obtain ⟨-, hs⟩ := Builder.result_ok_iff.mp h
    refine .sequence ?_ ?_ ?_
    · rintro t ht
      obtain rfl := Part.sequence.inj ht
      exact ⟨_, [], ⟨name, calls, entropy, serial, h⟩, rfl⟩
    · rw [hs]
      exact hc.steps
    · rw [hs]
      exact fun c hm => hc.companions c (Group.mem_ofList hm)
  | @advance s h dt ctx ih => exact Sequence.stems_after ih [.advance dt ctx]
  | @reset s h ih => exact Sequence.stems_after ih [.reset (C := C)]

theorem Part.Reachable.exists_built {part : Part A C N} (h : part.Reachable) {path : List Hop}
    {t : Sequence A C N} (hf : part.find? path = some (.sequence t)) :
    ∃ (built : Sequence A C N) (es : List (Command C)), built.IsBuilt ∧ t = built.after es :=
  h.stems_isBuilt path _ hf t rfl

/-- What holds of every sequence in a reachable one, after any further history of the root: its
status says what it should, the cursor is behind the last step of a running sequence only if the
latest call of that sequence failed in the condition at the end of the pass, and the result of every
call agrees with the status. The calls of the sequence since the root was as given are those of
which the trace tells. -/
theorem Sequence.consistent_of_reachable {s : Sequence A C N} (hs : (Part.sequence s).Reachable)
    (commands : List (Command C)) {path : List Hop} {t : Sequence A C N}
    (h : (Part.sequence (s.after commands)).find? path = some (.sequence t)) :
    ∃ (new : Sequence A C N) (earlier later : List (Command C)), new.IsNew ∧
      (Part.sequence s).find? path = some (.sequence (new.after earlier)) ∧
      (new.after earlier).history later = (s.history commands).within path ∧
      t = new.after (earlier ++ later) ∧ t.Consistent ∧
      (t.status = .running → t.steps ≠ [] → t.cursor = t.size →
        ∃ before latest, earlier ++ later = before ++ [latest] ∧
          (new.after before).GuardFails latest) ∧
      ∀ calls dt ctx outcome, ((new.after calls).advance dt ctx).result = .ok outcome →
        let left := ((new.after calls).advance dt ctx).sequence
        (outcome = .complete ↔ left.status = .complete) ∧
          (outcome = .running → left.steps ≠ [] → left.stepState? left.cursor = some .active) := by
  obtain ⟨before, ds, hb, rfl, ht, _⟩ := s.exists_commands_of_after commands path h
  obtain ⟨new, es, hn, rfl⟩ := hs.exists_history hb
  have hk : ∀ calls : List (Command C), (new.after calls).Consistent :=
    Sequence.consistent_after hn.consistent
  rw [← Sequence.after_append]
  refine ⟨new, es, ds, hn, hb, ht, rfl, hk _, ?_, ?_⟩
  · intro hr hne hc
    exact (Sequence.guardFails_of_cursor hn hr hne hc).2
  · intro calls dt ctx outcome ho
    have ha := (new.after calls).isSound_advance dt ctx (hk calls)
    constructor
    · exact ha.complete_iff outcome ho
    · intro hr
      rw [hr] at ho
      exact ha.active ho

/-- A sequence inside a step of another one that was reset in its first pass. The reset has not
reached it. -/
theorem Sequence.consistent_of_reachable_nested :
    let inner : Sequence Rehearsal.Act Rehearsal.Stage String :=
      (Builder.ofCalls "inner" [.run (.leaf .idle)]).toSequence (fun _ => .ofSeed 0) 0
    let s := (Builder.ofCalls "outer" [.run (.nested inner), .repeatForever]).toSequence
      (fun _ => .ofSeed 0) 1
    let commands : List (Command Rehearsal.Stage) := [.advance 0.5 .empty, .reset]
    let path : List Hop := [.step 0, .body]
    (Part.sequence s).Reachable ∧
      ∃ t, (Part.sequence (s.after commands)).find? path = some (.sequence t) ∧
        t.status = .running ∧ t.Consistent := by
  intro inner s commands path
  have hinner : (Part.sequence inner).Reachable := by
    refine .built "inner" [.run (.leaf .idle)] (fun _ => .ofSeed 0) 0 ?_ ?_ rfl
    · simpa [Call.steps] using .leaf .idle
    · simp [Call.sequences]
  have hs : (Part.sequence s).Reachable := by
    refine .built "outer" [.run (.nested inner), .repeatForever] (fun _ => .ofSeed 0) 1 ?_ ?_ rfl
    · simpa [Call.steps] using .nested hinner
    · simp [Call.sequences]
  obtain ⟨t, ht⟩ : ∃ t, (Part.sequence (s.after commands)).find? path = some (.sequence t) :=
    ⟨_, rfl⟩
  obtain ⟨_, _, _, _, _, _, _, hk, _⟩ := Sequence.consistent_of_reachable hs commands ht
  refine ⟨hs, t, ht, ?_, hk⟩
  obtain rfl := Part.sequence.inj (Option.some.inj ht)
  rfl

end Sequencer

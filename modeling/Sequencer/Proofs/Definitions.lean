import Sequencer.Proofs.Faces
import Sequencer.Proofs.Shape

/-!
# The definition of a tree

A tree holds its definition and the state of its run together. The label of a part tells what the
part adds to the definition; of an action, that is what a reload of it comes to. No history changes
a label, as long as a reload of an action comes to the same whatever hooks have run. A tree that is
about to be reset shows its labels and its generators, and no more.
-/

namespace Sequencer

variable {A C N : Type} [Behavior A C N]

/-- What hooks make of an action, in any order and on any contexts. -/
inductive Action.Becomes (a : Action A C N) : Action A C N → Prop
  | refl : a.Becomes a
  | reload {b : Action A C N} (h : a.Becomes b) : a.Becomes b.reload.2
  | start {b : Action A C N} (h : a.Becomes b) (ctx : C) : a.Becomes (b.start ctx).action
  | update {b : Action A C N} (h : a.Becomes b) (dt : Float32) (ctx : C) :
      a.Becomes (b.update dt ctx).action
  | check {b : Action A C N} (h : a.Becomes b) (ctx : C) : a.Becomes (b.check ctx).action
  | finish {b : Action A C N} (h : a.Becomes b) (ctx : C) : a.Becomes (b.finish ctx).action

/-- Whether a reload of an action comes to the same whatever hooks have run before. -/
def Action.IsSteady (a : Action A C N) : Prop := ∀ b, a.Becomes b → b.face true = a.face true

namespace Action

variable {a b c : Action A C N}

theorem Becomes.trans (h : a.Becomes b) (k : b.Becomes c) : a.Becomes c := by
  induction k with
  | refl => exact h
  | reload _ ih => exact .reload ih
  | start _ ctx ih => exact .start ih ctx
  | update _ dt ctx ih => exact .update ih dt ctx
  | check _ ctx ih => exact .check ih ctx
  | finish _ ctx ih => exact .finish ih ctx

theorem becomes_enter (a : Action A C N) (ctx : C) : a.Becomes (a.enter ctx).action :=
  .start (.reload .refl) ctx

theorem becomes_drive (a : Action A C N) (dt : Float32) (ctx : C) :
    a.Becomes (a.drive dt ctx).action := by
  have hu : a.Becomes (a.update dt ctx).action := .update .refl dt ctx
  have hc := hu.check (a.update dt ctx).context
  simp only [drive]
  split
  · exact hu
  · split
    · exact hc
    · exact hc
    · exact .finish hc _

theorem IsSteady.of_becomes (ha : a.IsSteady) (h : a.Becomes b) : b.IsSteady := fun c hc =>
  (ha c (h.trans hc)).trans (ha b h).symm

theorem isSteady_idle : (idle : Action A C N).IsSteady := by
  intro b h
  have hb : b = idle := by
    induction h with
    | refl => rfl
    | reload _ ih | start _ _ ih | update _ _ _ ih | check _ _ ih | finish _ _ ih => subst ih; rfl
  rw [hb]

theorem isSteady_wait (w : Wait) : (wait w : Action A C N).IsSteady := by
  intro b h
  have hb : ∃ elapsed, b = wait ⟨w.duration, elapsed⟩ := by
    induction h with
    | refl => exact ⟨w.elapsed, rfl⟩
    | reload _ ih | start _ _ ih | update _ _ _ ih | check _ _ ih | finish _ _ ih =>
      obtain ⟨elapsed, rfl⟩ := ih
      exact ⟨_, rfl⟩
  obtain ⟨elapsed, rfl⟩ := hb
  rfl

theorem isSteady_waitUntil (condition : Condition C N) :
    (waitUntil condition : Action A C N).IsSteady := by
  intro b h
  have hb : b = waitUntil condition := by
    induction h with
    | refl => rfl
    | reload _ ih | start _ _ ih | update _ _ _ ih | check _ _ ih | finish _ _ ih => subst ih; rfl
  rw [hb]

theorem isSteady_callback (c : Callback C N) (h : ∀ n, c.run n = c.run 0) :
    (callback c : Action A C N).IsSteady := by
  intro b hb
  have hb : ∃ runs fired, b = callback ⟨c.run, runs, fired⟩ := by
    induction hb with
    | refl => exact ⟨c.runs, c.fired, rfl⟩
    | reload _ ih | start _ _ ih | check _ _ ih | finish _ _ ih =>
      obtain ⟨runs, fired, rfl⟩ := ih
      exact ⟨_, _, rfl⟩
    | update _ dt ctx ih =>
      obtain ⟨runs, fired, rfl⟩ := ih
      cases fired with
      | true => exact ⟨_, _, rfl⟩
      | false => exact ⟨_, _, rfl⟩
  obtain ⟨runs, fired, rfl⟩ := hb
  simp [face, h]

theorem isSteady_custom
    (reload : ∀ b : A, Behavior.reload (N := N) C (Behavior.reload (N := N) C b).2 =
      Behavior.reload C b)
    (start : ∀ (b : A) (ctx : C), Behavior.reload C (Behavior.start (N := N) b ctx).action =
      Behavior.reload (N := N) C b)
    (update : ∀ (b : A) (ctx : C) (dt : Float32),
      Behavior.reload C (Behavior.update (N := N) b ctx dt).action = Behavior.reload (N := N) C b)
    (check : ∀ (b : A) (ctx : C), Behavior.reload C (Behavior.check (N := N) b ctx).action =
      Behavior.reload (N := N) C b)
    (finish : ∀ (b : A) (ctx : C), Behavior.reload C (Behavior.finish (N := N) b ctx).action =
      Behavior.reload (N := N) C b)
    (action : A) : (custom action : Action A C N).IsSteady := by
  intro b h
  obtain ⟨later, rfl, hl⟩ : ∃ later, b = custom later ∧
      Behavior.reload (N := N) C later = Behavior.reload C action := by
    induction h with
    | refl => exact ⟨action, rfl, rfl⟩
    | reload _ ih =>
      obtain ⟨later, rfl, hl⟩ := ih
      exact ⟨_, rfl, (reload later).trans hl⟩
    | start _ ctx ih =>
      obtain ⟨later, rfl, hl⟩ := ih
      exact ⟨_, rfl, (start later ctx).trans hl⟩
    | update _ dt ctx ih =>
      obtain ⟨later, rfl, hl⟩ := ih
      exact ⟨_, rfl, (update later ctx dt).trans hl⟩
    | check _ ctx ih =>
      obtain ⟨later, rfl, hl⟩ := ih
      exact ⟨_, rfl, (check later ctx).trans hl⟩
    | finish _ ctx ih =>
      obtain ⟨later, rfl, hl⟩ := ih
      exact ⟨_, rfl, (finish later ctx).trans hl⟩
  simp [face, hl]

end Action

/-- What a part adds to the definition of a tree, besides the parts that it holds. -/
inductive Label (A C N : Type)
  | sequence (name : String) (policy : Policy C N) (warnOnInstantLoops : Bool)
  /-- A leaf, with what a reload of its action comes to. -/
  | leaf (action : Action (Face A N) C N)
  | nested
  | parallel (completion : Completion)
  | branch (selector : Selector C N)

def StepKind.label : StepKind A C N → Label A C N
  | leaf action => .leaf (action.face true)
  | nested _ => .nested
  | parallel group => .parallel group.completion
  | branch b => .branch b.selector

namespace Part

def label : Part A C N → Label A C N
  | sequence s => .sequence s.name s.policy s.warnOnInstantLoops
  | step s => s.kind.label

omit [Behavior A C N] in
/-- The random source of a part. Steps have none of their own. -/
def generator? : Part A C N → Option Generator
  | sequence s => some s.generator
  | step _ => none

/-- Whether two trees have parts at the same places, with the same labels. -/
def SameDefinition (p q : Part A C N) : Prop :=
  ∀ path, (p.find? path).map label = (q.find? path).map label

omit [Behavior A C N] in
/-- Whether the random sources of two trees stand at the same places of their streams. -/
def SameStreams (p q : Part A C N) : Prop :=
  ∀ path, (p.find? path).bind generator? = (q.find? path).bind generator?

end Part

theorem Sequence.SameFrame.label {s t : Sequence A C N} (h : s.SameFrame t) :
    (Part.sequence t).label = (Part.sequence s).label := by
  simp [Part.label, h.name, h.policy, h.warnOnInstantLoops]

/-- Whether no hook changes what a reload of the action of a step comes to. -/
def StepKind.IsSteady : StepKind A C N → Prop
  | leaf action => action.IsSteady
  | _ => True

def StepKind.Keeps (kind kind' : StepKind A C N) : Prop :=
  kind'.label = kind.label ∧ kind'.IsSteady

theorem Action.IsSteady.keeps {a b : Action A C N} (ha : a.IsSteady) (h : a.Becomes b) :
    (StepKind.leaf a).Keeps (.leaf b) :=
  ⟨congrArg Label.leaf (ha b h), ha.of_becomes h⟩

namespace Step

theorem keeps_activate {s : Step A C N} (h : s.kind.IsSteady) (ctx : C) (generator : Generator) :
    s.kind.Keeps (s.activate ctx generator).step.kind := by
  obtain ⟨state, kind⟩ := s
  cases kind with
  | leaf action =>
    have hk := Action.IsSteady.keeps h (action.becomes_enter ctx)
    simp only [activate]
    split <;> exact hk
  | nested body => exact ⟨rfl, trivial⟩
  | parallel group => exact ⟨rfl, trivial⟩
  | branch branch =>
    simp only [activate]
    split <;> exact ⟨rfl, trivial⟩

theorem keeps_tick_kind {kind : StepKind A C N} (h : kind.IsSteady) (dt : Float32) (ctx : C)
    (generator : Generator) :
    kind.Keeps (StepKind.tick false dt kind ctx generator).step.kind := by
  match kind with
  | .leaf action =>
    have hk := Action.IsSteady.keeps h (action.becomes_drive dt ctx)
    simpa [StepKind.tick, StepTick.ofAction, StepTick.kind_ofDriven] using hk
  | .nested body =>
    simp only [StepKind.tick, StepTick.ofBody, StepTick.kind_ofDriven]
    exact ⟨rfl, trivial⟩
  | .parallel ⟨completion, members⟩ =>
    simp only [StepKind.tick, StepTick.ofRound, StepTick.kind_ofDriven]
    exact ⟨rfl, trivial⟩
  | .branch ⟨selector, children, none⟩ =>
    simp only [StepKind.tick, StepTick.ofBranch, StepTick.ofChosen, StepTick.kind_ofDriven,
      Bool.false_eq_true, ↓reduceIte]
    exact ⟨rfl, trivial⟩
  | .branch ⟨selector, children, some index⟩ =>
    simp only [StepKind.tick, StepTick.ofBranch, StepTick.ofChosen, StepTick.kind_ofDriven,
      Bool.false_eq_true, ↓reduceIte]
    exact ⟨rfl, trivial⟩

theorem isLasting_keeps (kind : StepKind A C N) :
    Step.IsLasting fun s : Step A C N => kind.Keeps s.kind where
  reset h := h
  enter ctx generator h :=
    have hentered := keeps_activate h.2 ctx generator
    ⟨hentered.1.trans h.1, hentered.2⟩
  drive dt ctx generator h :=
    have hdriven := keeps_tick_kind h.2 dt ctx generator
    ⟨hdriven.1.trans h.1, hdriven.2⟩

end Step

namespace Part

/-- Whether no hook changes the label of a part. -/
def IsSteady : Part A C N → Prop
  | sequence _ => True
  | step s => s.kind.IsSteady

theorem IsSteady.label_visits {part : Part A C N} (h : part.IsSteady) (vs : List (Visit C)) :
    (part.visits vs).part.label = part.label := by
  cases part with
  | sequence s =>
    rw [visits_sequence]
    exact Sequence.SameFrame.label (.after s _)
  | step s =>
    obtain ⟨s', hs', hkeeps⟩ := (Step.isLasting_keeps s.kind).visits ⟨rfl, h⟩ vs
    rw [hs']
    exact hkeeps.1

end Part

/-- A history keeps the definition of a tree whose actions are steady. -/
theorem Sequence.sameDefinition_after {s : Sequence A C N} (cs : List (Command C))
    (h : (Part.sequence s).All Part.IsSteady) :
    (Part.sequence (s.after cs)).SameDefinition (.sequence s) := by
  intro path
  cases hp : (Part.sequence s).find? path with
  | some part =>
    obtain ⟨vs, hf, -, -⟩ := s.exists_visits cs path hp
    rw [hf]
    exact congrArg some ((h path part hp).label_visits vs)
  | none =>
    cases hf : (Part.sequence (s.after cs)).find? path with
    | none => rfl
    | some later =>
      have hv : ((Part.sequence s).visits (cs.map (Command.visit s.generator))).part.find? path =
          some later := by rwa [Part.visits_visit]
      obtain ⟨before, hb⟩ := Part.exists_find_of_visits _ _ path hv
      rw [hp] at hb
      cases hb

namespace Part

/-- Whether two parts, if there are any, have one definition and streams at the same places. -/
def Match (p q : Option (Part A C N)) : Prop :=
  ∀ path, (p.bind (·.find? path)).map label = (q.bind (·.find? path)).map label ∧
    (p.bind (·.find? path)).bind generator? = (q.bind (·.find? path)).bind generator?

namespace Match

theorem of_same {p q : Part A C N} (hd : p.SameDefinition q) (hs : p.SameStreams q) :
    Match (some p) (some q) :=
  fun path => ⟨hd path, hs path⟩

theorem child {p q : Part A C N} (h : Match (some p) (some q)) (hop : Hop) :
    Match (p.child? hop) (q.child? hop) :=
  fun path => h (hop :: path)

theorem label {p q : Part A C N} (h : Match (some p) (some q)) : p.label = q.label :=
  Option.some.inj (h []).1

theorem generator? {p q : Part A C N} (h : Match (some p) (some q)) :
    p.generator? = q.generator? :=
  (h []).2

theorem not_none_some {q : Part A C N} : ¬ Match none (some q) := fun h => nomatch (h []).1

theorem not_some_none {p : Part A C N} : ¬ Match (some p) none := fun h => nomatch (h []).1

end Match

end Part

mutual

theorem Sequence.face_of_match {s s' : Sequence A C N}
    (h : Part.Match (some (.sequence s)) (some (.sequence s'))) : s.face true = s'.face true := by
  obtain ⟨id, name, steps, policy, companions, generator, warns, warned, progress⟩ := s
  obtain ⟨id', name', steps', policy', companions', generator', warns', warned', progress'⟩ := s'
  obtain ⟨rfl, rfl, rfl⟩ := Label.sequence.inj h.label
  obtain rfl : generator = generator' := Option.some.inj h.generator?
  have hsteps := Step.faces_of_match fun i => h.child (.step i)
  have hcompanions := Sequence.faces_of_match fun j => h.child (.companion j)
  simp only at hsteps hcompanions
  simp [Sequence.face, hsteps, hcompanions]
termination_by structural s

theorem Step.face_of_match {s s' : Step A C N}
    (h : Part.Match (some (.step s)) (some (.step s'))) : s.face true = s'.face true := by
  obtain ⟨state, kind⟩ := s
  obtain ⟨state', kind'⟩ := s'
  have hl : kind.label = kind'.label := h.label
  match kind with
  | .leaf action =>
    cases kind' with
    | leaf action' =>
      have ha : action.face true = action'.face true := Label.leaf.inj hl
      simp [Step.face, StepKind.face, ha]
    | _ => cases hl
  | .nested body =>
    cases kind' with
    | nested body' =>
      have hb : body.face true = body'.face true := Sequence.face_of_match (h.child .body)
      simp [Step.face, StepKind.face, hb]
    | _ => cases hl
  | .parallel ⟨completion, members⟩ =>
    cases kind' with
    | parallel group' =>
      have hm : Sequence.faces true members = Sequence.faces true group'.members :=
        Sequence.faces_of_match fun j => h.child (.member j)
      obtain ⟨completion', members'⟩ := group'
      obtain rfl : completion = completion' := Label.parallel.inj hl
      simp [Step.face, StepKind.face, hm]
    | _ => cases hl
  | .branch ⟨selector, children, chosen⟩ =>
    cases kind' with
    | branch branch' =>
      have hc : Step.faces true children = Step.faces true branch'.children :=
        Step.faces_of_match fun i => h.child (.child i)
      obtain ⟨selector', children', chosen'⟩ := branch'
      obtain rfl : selector = selector' := Label.branch.inj hl
      simp [Step.face, StepKind.face, hc]
    | _ => cases hl
termination_by structural s

theorem Step.faces_of_match {xs ys : List (Step A C N)}
    (h : ∀ i : Nat, Part.Match (xs[i]?.map .step) (ys[i]?.map .step)) :
    Step.faces true xs = Step.faces true ys := by
  match xs, ys with
  | [], [] => rfl
  | [], y :: ys => exact absurd (h 0) Part.Match.not_none_some
  | x :: xs, [] => exact absurd (h 0) Part.Match.not_some_none
  | x :: xs, y :: ys =>
    have hx := Step.face_of_match (h 0)
    have hrest := Step.faces_of_match fun i => h (i + 1)
    simp only [Step.faces, hx, hrest]
termination_by structural xs

theorem Sequence.faces_of_match {xs ys : List (Sequence A C N)}
    (h : ∀ i : Nat, Part.Match (xs[i]?.map .sequence) (ys[i]?.map .sequence)) :
    Sequence.faces true xs = Sequence.faces true ys := by
  match xs, ys with
  | [], [] => rfl
  | [], y :: ys => exact absurd (h 0) Part.Match.not_none_some
  | x :: xs, [] => exact absurd (h 0) Part.Match.not_some_none
  | x :: xs, y :: ys =>
    have hx := Sequence.face_of_match (h 0)
    have hrest := Sequence.faces_of_match fun i => h (i + 1)
    simp only [Sequence.faces, hx, hrest]
termination_by structural xs

end

theorem Step.faces_eq_map (stale : Bool) (steps : List (Step A C N)) :
    Step.faces stale steps = steps.map (Step.face stale) := by
  induction steps with
  | nil => rfl
  | cons step rest ih => simp [Step.faces, ih]

theorem Sequence.faces_eq_map (stale : Bool) (ss : List (Sequence A C N)) :
    Sequence.faces stale ss = ss.map (Sequence.face stale) := by
  induction ss with
  | nil => rfl
  | cons s rest ih => simp [Sequence.faces, ih]

namespace Part

/-- What can be seen of a part that is about to be reset. -/
def face : Part A C N → Part (Face A N) C N
  | sequence s => .sequence (s.face true)
  | step s => .step (s.face true)

theorem child?_face (p : Part A C N) (hop : Hop) :
    p.face.child? hop = (p.child? hop).map face := by
  match p with
  | .sequence ⟨id, name, steps, policy, companions, generator, warns, warned, progress⟩ =>
    cases hop <;>
      simp [face, Sequence.face, child?, Step.faces_eq_map, Sequence.faces_eq_map,
        Function.comp_def]
  | .step ⟨state, .leaf action⟩ => cases hop <;> rfl
  | .step ⟨state, .nested body⟩ => cases hop <;> rfl
  | .step ⟨state, .parallel ⟨completion, members⟩⟩ =>
    cases hop <;>
      simp [face, Step.face, StepKind.face, child?, Sequence.faces_eq_map, Function.comp_def]
  | .step ⟨state, .branch ⟨selector, children, chosen⟩⟩ =>
    cases hop <;>
      simp [face, Step.face, StepKind.face, child?, Step.faces_eq_map, Function.comp_def]

theorem find?_face (p : Part A C N) (path : List Hop) :
    p.face.find? path = (p.find? path).map face := by
  induction path generalizing p with
  | nil => rfl
  | cons hop path ih =>
    rw [find?, find?, child?_face]
    cases p.child? hop with
    | none => rfl
    | some child => exact ih child

theorem label_of_face {p q : Part A C N} (h : p.face = q.face) :
    p.label = q.label ∧ p.generator? = q.generator? := by
  match p, q with
  | .sequence s, .sequence s' =>
    have ha := Sequence.face_eq_iff.mp (Part.sequence.inj h)
    simp [label, generator?, ha.name, ha.policy, ha.warnOnInstantLoops, ha.generator]
  | .step s, .step s' =>
    obtain ⟨state, kind⟩ := s
    obtain ⟨state', kind'⟩ := s'
    have hk : kind.face true = kind'.face true := (Step.mk.inj (Part.step.inj h)).2
    refine ⟨?_, rfl⟩
    change kind.label = kind'.label
    match kind with
    | .leaf action =>
      obtain ⟨action', rfl, ha⟩ := StepKind.exists_of_face_leaf hk
      exact congrArg Label.leaf ha
    | .nested body =>
      obtain ⟨body', rfl, -⟩ := StepKind.exists_of_face_nested hk
      rfl
    | .parallel ⟨completion, members⟩ =>
      obtain ⟨members', rfl, -⟩ := StepKind.exists_of_face_parallel hk
      rfl
    | .branch ⟨selector, children, chosen⟩ =>
      obtain ⟨children', chosen', rfl, -, -⟩ := StepKind.exists_of_face_branch hk
      rfl
  | .sequence s, .step s' => cases h
  | .step s, .sequence s' => cases h

/-- What can be seen of a part that is about to be reset is its definition and where its streams
stand, and no more. -/
theorem face_eq_iff {p q : Part A C N} :
    p.face = q.face ↔ p.SameDefinition q ∧ p.SameStreams q := by
  constructor
  · intro h
    have hpath (path : List Hop) : (p.find? path).map face = (q.find? path).map face := by
      rw [← find?_face, ← find?_face, h]
    have hlook (path : List Hop) : (p.find? path).map label = (q.find? path).map label ∧
        (p.find? path).bind generator? = (q.find? path).bind generator? := by
      have hp := hpath path
      cases hx : p.find? path <;> cases hy : q.find? path <;> rw [hx, hy] at hp
      · exact ⟨rfl, rfl⟩
      · cases hp
      · cases hp
      · obtain ⟨hl, hg⟩ := label_of_face (Option.some.inj hp)
        exact ⟨congrArg some hl, hg⟩
    exact ⟨fun path => (hlook path).1, fun path => (hlook path).2⟩
  · rintro ⟨hd, hs⟩
    have hm := Match.of_same hd hs
    match p, q with
    | .sequence s, .sequence s' => exact congrArg sequence (Sequence.face_of_match hm)
    | .step s, .step s' => exact congrArg step (Step.face_of_match hm)
    | .sequence s, .step s' => cases hm.generator?
    | .step s, .sequence s' => cases hm.generator?

end Part

end Sequencer

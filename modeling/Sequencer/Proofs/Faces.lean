import Sequencer.Proofs.Events

/-!
# What can be seen of a tree

The state of a tree holds more than its future depends on: what awaits a reset keeps the state that
it had, children of a branch that are not chosen keep theirs, and a sequence remembers that it has
given a warning. The face of a part leaves out all of this. The flag of the functions here says that
a part awaits a reset; then nothing is left of its state, and of an action nothing but what a reload
of it comes to.
-/

namespace Sequencer

variable {A C N : Type}

inductive Face (A N : Type)
  | itself (action : A)
  /-- What a reload of the action comes to. -/
  | reloaded (notes : List N) (action : A)

variable [Behavior A C N]

/-- What can be seen of an action. A callback shows what its function is going to do from now on. -/
def Action.face (stale : Bool) : Action A C N → Action (Face A N) C N
  | idle => idle
  | wait w => wait (if stale then { w with elapsed := 0 } else w)
  | waitUntil condition => waitUntil condition
  | callback c => callback ⟨fun n => c.run (c.runs + n), 0, !stale && c.fired⟩
  | custom action =>
    let (notes, reloaded) := Behavior.reload C action
    custom (if stale then .reloaded notes reloaded else .itself action)

omit [Behavior A C N] in
/-- The chosen one of some steps, counted from the one after the first. -/
def chosenLater : Option Nat → Option Nat
  | some (index + 1) => some index
  | _ => none

mutual

def Sequence.face (stale : Bool) : Sequence A C N → Sequence (Face A N) C N
  | ⟨_, name, steps, policy, companions, generator, warnOnInstantLoops, _, progress⟩ =>
    let stale := stale || progress.status == .notStarted
    ⟨.given 0, name, Step.faces stale steps, policy, Sequence.faces stale companions, generator,
      warnOnInstantLoops, false, if stale then .initial policy else progress⟩

def Step.face (stale : Bool) : Step A C N → Step (Face A N) C N
  | ⟨state, kind⟩ =>
    let stale := stale || state == .notStarted
    ⟨if stale then .notStarted else state, StepKind.face stale kind⟩

def StepKind.face (stale : Bool) : StepKind A C N → StepKind (Face A N) C N
  | .leaf action => .leaf (action.face stale)
  | .nested body => .nested (Sequence.face stale body)
  | .parallel ⟨completion, members⟩ => .parallel ⟨completion, Sequence.faces stale members⟩
  | .branch ⟨selector, children, chosen⟩ =>
    let chosen := if stale then none else chosen
    .branch ⟨selector, Step.facesFor chosen children, chosen⟩

def Step.faces (stale : Bool) : List (Step A C N) → List (Step (Face A N) C N)
  | [] => []
  | step :: rest => Step.face stale step :: Step.faces stale rest

/-- The faces of the children of a branch: all but the chosen one await a reset. -/
def Step.facesFor (chosen : Option Nat) : List (Step A C N) → List (Step (Face A N) C N)
  | [] => []
  | child :: rest => Step.face (chosen != some 0) child :: Step.facesFor (chosenLater chosen) rest

def Sequence.faces (stale : Bool) : List (Sequence A C N) → List (Sequence (Face A N) C N)
  | [] => []
  | s :: rest => Sequence.face stale s :: Sequence.faces stale rest

end

@[simp] theorem Step.face_reset (stale : Bool) (s : Step A C N) :
    s.reset.face stale = s.face true := by
  obtain ⟨state, kind⟩ := s
  simp [Step.reset, Step.face]

@[simp] theorem Step.faces_map_reset (stale : Bool) (steps : List (Step A C N)) :
    Step.faces stale (steps.map Step.reset) = Step.faces true steps := by
  induction steps with
  | nil => rfl
  | cons step rest ih => simp [Step.faces, ih]

mutual

@[simp] theorem Sequence.face_reset (stale : Bool) (s : Sequence A C N) :
    s.reset.face stale = s.face true := by
  obtain ⟨id, name, steps, policy, companions, generator, warns, warned, progress⟩ := s
  simp [Sequence.reset, Sequence.face, Progress.initial, Sequence.faces_resetAll true companions]
termination_by structural s

@[simp] theorem Sequence.faces_resetAll (stale : Bool) (ss : List (Sequence A C N)) :
    Sequence.faces stale (resetAll ss) = Sequence.faces true ss := by
  match ss with
  | [] => rfl
  | s :: rest =>
    simp [resetAll, Sequence.faces, Sequence.face_reset stale s, Sequence.faces_resetAll stale rest]
termination_by structural ss

end

@[simp] theorem Step.facesFor_none (children : List (Step A C N)) :
    Step.facesFor none children = Step.faces true children := by
  induction children with
  | nil => rfl
  | cons child rest ih =>
    have hn : (none != some 0) = true := rfl
    simp [Step.facesFor, Step.faces, chosenLater, ih, hn]

theorem Step.length_of_faces {stale stale' : Bool} {xs ys : List (Step A C N)}
    (h : Step.faces stale xs = Step.faces stale' ys) : xs.length = ys.length := by
  induction xs generalizing ys with
  | nil =>
    cases ys with
    | nil => rfl
    | cons y ys => cases h
  | cons x xs ih =>
    cases ys with
    | nil => cases h
    | cons y ys => exact congrArg Nat.succ (ih (List.cons.inj h).2)

omit [Behavior A C N] in
theorem Progress.status_face (stale : Bool) (policy : Policy C N) (p : Progress) :
    ((if stale || p.status == .notStarted then Progress.initial policy else p).status ==
      .notStarted) = (stale || p.status == .notStarted) := by
  split
  case isTrue h => exact h.symm
  case isFalse h => simp_all

omit [Behavior A C N] in
/-- Whether the face of a sequence shows nothing of its state. -/
def Sequence.isStale (stale : Bool) (s : Sequence A C N) : Bool :=
  stale || s.status == .notStarted

/-- What two sequences of one face have in common. -/
structure Sequence.Alike (stale : Bool) (s s' : Sequence A C N) : Prop where
  isStale : s.isStale stale = s'.isStale stale
  name : s.name = s'.name
  steps : Step.faces (s.isStale stale) s.steps = Step.faces (s.isStale stale) s'.steps
  policy : s.policy = s'.policy
  companions : Sequence.faces (s.isStale stale) s.companions =
    Sequence.faces (s.isStale stale) s'.companions
  generator : s.generator = s'.generator
  warnOnInstantLoops : s.warnOnInstantLoops = s'.warnOnInstantLoops
  progress : s.isStale stale = false → s.progress = s'.progress

theorem Sequence.face_eq_iff {stale : Bool} {s s' : Sequence A C N} :
    s.face stale = s'.face stale ↔ s.Alike stale s' := by
  obtain ⟨id, name, steps, policy, companions, generator, warns, warned, progress⟩ := s
  obtain ⟨id', name', steps', policy', companions', generator', warns', warned', progress'⟩ := s'
  constructor
  · intro h
    simp only [Sequence.face, Sequence.mk.injEq, true_and] at h
    obtain ⟨hname, hsteps, hpolicy, hcompanions, hgenerator, hwarns, hprogress⟩ := h
    have hstale := congrArg (fun p => p.status == .notStarted) hprogress
    simp only [Progress.status_face] at hstale
    rw [← hstale] at hsteps hcompanions hprogress
    refine ⟨hstale, hname, hsteps, hpolicy, hcompanions, hgenerator, hwarns, ?_⟩
    intro hf
    replace hf : (stale || progress.status == .notStarted) = false := hf
    simpa [hf] using hprogress
  · rintro ⟨hstale, hname, hsteps, hpolicy, hcompanions, hgenerator, hwarns, hprogress⟩
    simp only [Sequence.isStale, Sequence.status] at *
    simp only [Sequence.face, ← hstale, hname, hsteps, hpolicy, hcompanions, hgenerator, hwarns]
    cases hf : stale || progress.status == .notStarted with
    | true => simp
    | false => simp [hprogress hf]

section Kinds

variable {stale stale' : Bool} {kind : StepKind A C N}

theorem StepKind.exists_of_face_leaf {action : Action A C N}
    (h : (StepKind.leaf action).face stale = kind.face stale') :
    ∃ action', kind = .leaf action' ∧ action.face stale = action'.face stale' := by
  match kind with
  | .leaf action' => exact ⟨action', rfl, by simpa [StepKind.face] using h⟩
  | .nested _ => simp [StepKind.face] at h
  | .parallel ⟨_, _⟩ => simp [StepKind.face] at h
  | .branch ⟨_, _, _⟩ => simp [StepKind.face] at h

theorem StepKind.exists_of_face_nested {body : Sequence A C N}
    (h : (StepKind.nested body).face stale = kind.face stale') :
    ∃ body', kind = .nested body' ∧ body.face stale = body'.face stale' := by
  match kind with
  | .leaf _ => simp [StepKind.face] at h
  | .nested body' => exact ⟨body', rfl, by simpa [StepKind.face] using h⟩
  | .parallel ⟨_, _⟩ => simp [StepKind.face] at h
  | .branch ⟨_, _, _⟩ => simp [StepKind.face] at h

theorem StepKind.exists_of_face_parallel {completion : Completion}
    {members : List (Sequence A C N)}
    (h : (StepKind.parallel ⟨completion, members⟩).face stale = kind.face stale') :
    ∃ members', kind = .parallel ⟨completion, members'⟩ ∧
      Sequence.faces stale members = Sequence.faces stale' members' := by
  match kind with
  | .leaf _ => simp [StepKind.face] at h
  | .nested _ => simp [StepKind.face] at h
  | .parallel ⟨completion', members'⟩ =>
    obtain ⟨rfl, hm⟩ : completion = completion' ∧ _ := by simpa [StepKind.face] using h
    exact ⟨members', rfl, hm⟩
  | .branch ⟨_, _, _⟩ => simp [StepKind.face] at h

theorem StepKind.exists_of_face_branch {selector : Selector C N} {children : List (Step A C N)}
    {chosen : Option Nat}
    (h : (StepKind.branch ⟨selector, children, chosen⟩).face stale = kind.face stale') :
    ∃ children' chosen', kind = .branch ⟨selector, children', chosen'⟩ ∧
      (if stale then none else chosen) = (if stale' then none else chosen') ∧
      Step.facesFor (if stale then none else chosen) children =
        Step.facesFor (if stale' then none else chosen') children' := by
  match kind with
  | .leaf _ => simp [StepKind.face] at h
  | .nested _ => simp [StepKind.face] at h
  | .parallel ⟨_, _⟩ => simp [StepKind.face] at h
  | .branch ⟨selector', children', chosen'⟩ =>
    simp only [StepKind.face, StepKind.branch.injEq, Branch.mk.injEq] at h
    obtain ⟨rfl, hchildren, hchosen⟩ := h
    exact ⟨children', chosen', rfl, hchosen, hchildren⟩

end Kinds

/-! ### What a reset leaves to be seen

It depends on no more than what was to be seen before.
-/

theorem Action.face_true_of_face {stale stale' : Bool} {a a' : Action A C N}
    (h : a.face stale = a'.face stale') : a.face true = a'.face true := by
  cases a with
  | idle => cases a' <;> simp_all [Action.face]
  | wait w =>
    cases a' with
    | wait w' =>
      obtain ⟨duration, elapsed⟩ := w
      obtain ⟨duration', elapsed'⟩ := w'
      cases stale <;> cases stale' <;> simp_all [Action.face]
    | _ => simp [Action.face] at h
  | waitUntil condition => cases a' <;> simp_all [Action.face]
  | callback c => cases a' <;> simp_all [Action.face]
  | custom action => cases stale <;> cases stale' <;> cases a' <;> simp_all [Action.face]

mutual

theorem Sequence.face_true_of_face {stale stale' : Bool} {s s' : Sequence A C N}
    (h : s.face stale = s'.face stale') : s.face true = s'.face true := by
  obtain ⟨id, name, steps, policy, companions, generator, warns, warned, progress⟩ := s
  obtain ⟨id', name', steps', policy', companions', generator', warns', warned', progress'⟩ := s'
  simp only [Sequence.face, Sequence.mk.injEq, true_and] at h
  obtain ⟨rfl, hsteps, rfl, hcompanions, rfl, rfl, -⟩ := h
  simp [Sequence.face, Step.faces_true_of_faces hsteps, Sequence.faces_true_of_faces hcompanions]
termination_by structural s

theorem Step.face_true_of_face {stale stale' : Bool} {s s' : Step A C N}
    (h : s.face stale = s'.face stale') : s.face true = s'.face true := by
  obtain ⟨state, kind⟩ := s
  obtain ⟨state', kind'⟩ := s'
  simp only [Step.face, Step.mk.injEq] at h
  simp [Step.face, StepKind.face_true_of_face h.2]
termination_by structural s

theorem StepKind.face_true_of_face {stale stale' : Bool} {kind kind' : StepKind A C N}
    (h : kind.face stale = kind'.face stale') : kind.face true = kind'.face true := by
  match kind with
  | .leaf action =>
    obtain ⟨action', rfl, ha⟩ := StepKind.exists_of_face_leaf h
    simp only [StepKind.face, Action.face_true_of_face ha]
  | .nested body =>
    obtain ⟨body', rfl, hb⟩ := StepKind.exists_of_face_nested h
    simp only [StepKind.face, Sequence.face_true_of_face hb]
  | .parallel ⟨completion, members⟩ =>
    obtain ⟨members', rfl, hm⟩ := StepKind.exists_of_face_parallel h
    simp only [StepKind.face, Sequence.faces_true_of_faces hm]
  | .branch ⟨selector, children, chosen⟩ =>
    obtain ⟨children', chosen', rfl, -, hc⟩ := StepKind.exists_of_face_branch h
    simp only [StepKind.face, ↓reduceIte, Step.facesFor_none, Step.faces_true_of_facesFor hc]
termination_by structural kind

theorem Step.faces_true_of_faces {stale stale' : Bool} {xs ys : List (Step A C N)}
    (h : Step.faces stale xs = Step.faces stale' ys) :
    Step.faces true xs = Step.faces true ys := by
  match xs, ys with
  | [], [] => rfl
  | x :: xs, y :: ys =>
    simp only [Step.faces, List.cons.injEq] at h ⊢
    exact ⟨Step.face_true_of_face h.1, Step.faces_true_of_faces h.2⟩
termination_by structural xs

theorem Step.faces_true_of_facesFor {chosen chosen' : Option Nat} {xs ys : List (Step A C N)}
    (h : Step.facesFor chosen xs = Step.facesFor chosen' ys) :
    Step.faces true xs = Step.faces true ys := by
  match xs, ys with
  | [], [] => rfl
  | x :: xs, y :: ys =>
    simp only [Step.facesFor, Step.faces, List.cons.injEq] at h ⊢
    exact ⟨Step.face_true_of_face h.1, Step.faces_true_of_facesFor h.2⟩
termination_by structural xs

theorem Sequence.faces_true_of_faces {stale stale' : Bool} {xs ys : List (Sequence A C N)}
    (h : Sequence.faces stale xs = Sequence.faces stale' ys) :
    Sequence.faces true xs = Sequence.faces true ys := by
  match xs, ys with
  | [], [] => rfl
  | x :: xs, y :: ys =>
    simp only [Sequence.faces, List.cons.injEq] at h ⊢
    exact ⟨Sequence.face_true_of_face h.1, Sequence.faces_true_of_faces h.2⟩
termination_by structural xs

end

end Sequencer

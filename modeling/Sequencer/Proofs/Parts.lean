import Sequencer.Proofs.Events

/-!
# Parts of a tree

Sequences and steps are the parts of a tree, and the path of hops that leads to a part is its place.
A part is only ever reset, entered or ticked: these are its visits. The owner of a part decides when
it is visited; what a visit does is up to the part alone.
-/

namespace Sequencer

/-- A part of a tree. -/
inductive Part (A C N : Type)
  | sequence (s : Sequence A C N)
  | step (s : Step A C N)

/-- What an owner does to a part. A step draws from the generator of the sequence that holds it. -/
inductive Visit (C : Type)
  | reset
  /-- A step is entered without being driven. -/
  | enter (ctx : C) (generator : Generator)
  | tick (dt : Float32) (ctx : C) (generator : Generator)

def Visit.ticks {C : Type} : Visit C → Nat
  | tick .. => 1
  | _ => 0

/-- Whether a visit may take place in a tick of the given length. -/
def Visit.TicksAt {C : Type} (clock : Float32) : Visit C → Prop
  | tick dt .. => dt = clock
  | _ => True

theorem Visit.exists_ticksAt {C : Type} (v : Visit C) : ∃ clock, v.TicksAt clock := by
  cases v with
  | tick dt ctx generator => exact ⟨dt, rfl⟩
  | _ => exact ⟨0, trivial⟩

structure Visited (A C N : Type) where
  trace : Trace N
  part : Part A C N

namespace Part

variable {A C N : Type}

def child? : Part A C N → Hop → Option (Part A C N)
  | .sequence s, .step index => s.steps[index]?.map .step
  | .sequence s, .companion index => s.companions[index]?.map .sequence
  | .step ⟨_, .nested body⟩, .body => some (.sequence body)
  | .step ⟨_, .parallel group⟩, .member index => group.members[index]?.map .sequence
  | .step ⟨_, .branch branch⟩, .child index => branch.children[index]?.map .step
  | _, _ => none

def find? (part : Part A C N) : List Hop → Option (Part A C N)
  | [] => some part
  | hop :: path => (part.child? hop).bind (·.find? path)

theorem find?_cons_eq_some {part found : Part A C N} {hop : Hop} {path : List Hop} :
    part.find? (hop :: path) = some found ↔
      ∃ child, part.child? hop = some child ∧ child.find? path = some found := by
  simp [find?, Option.bind_eq_some_iff]

theorem find?_append (part : Part A C N) (path rest : List Hop) :
    part.find? (path ++ rest) = (part.find? path).bind (·.find? rest) := by
  induction path generalizing part with
  | nil => rfl
  | cons hop path ih =>
    have hih : (fun p : Part A C N => p.find? (path ++ rest)) =
        fun p => (p.find? path).bind (·.find? rest) := funext ih
    simp only [List.cons_append, find?, Option.bind_assoc, hih]

/-- Whether a property holds of a part and of every part inside. -/
def All (P : Part A C N → Prop) (part : Part A C N) : Prop :=
  ∀ path found, part.find? path = some found → P found

namespace All

variable {P : Part A C N → Prop}

theorem of_children {part : Part A C N} (hp : P part)
    (h : ∀ hop c, part.child? hop = some c → c.All P) : part.All P := by
  intro path found hf
  cases path with
  | nil =>
    obtain rfl : part = found := Option.some.inj hf
    exact hp
  | cons hop path =>
    obtain ⟨c, hc, hf⟩ := find?_cons_eq_some.mp hf
    exact h hop c hc path found hf

theorem sequence {s : Sequence A C N} (hp : P (.sequence s))
    (hsteps : ∀ step ∈ s.steps, (Part.step step).All P)
    (hcompanions : ∀ c ∈ s.companions, (Part.sequence c).All P) : (Part.sequence s).All P := by
  apply of_children hp
  intro hop c hc
  cases hop with
  | step i =>
    obtain ⟨step, hi, rfl⟩ := Option.map_eq_some_iff.mp hc
    exact hsteps step (List.mem_of_getElem? hi)
  | companion j =>
    obtain ⟨member, hj, rfl⟩ := Option.map_eq_some_iff.mp hc
    exact hcompanions member (List.mem_of_getElem? hj)
  | _ => cases hc

theorem leaf {state : StepState} {action : Action A C N} (hp : P (.step ⟨state, .leaf action⟩)) :
    (Part.step ⟨state, .leaf action⟩).All P := by
  apply of_children hp
  intro hop c hc
  cases hop <;> cases hc

theorem nested {state : StepState} {body : Sequence A C N} (hp : P (.step ⟨state, .nested body⟩))
    (h : (Part.sequence body).All P) : (Part.step ⟨state, .nested body⟩).All P := by
  apply of_children hp
  intro hop c hc
  cases hop with
  | body =>
    obtain rfl : .sequence body = c := Option.some.inj hc
    exact h
  | _ => cases hc

theorem parallel {state : StepState} {group : Group A C N}
    (hp : P (.step ⟨state, .parallel group⟩))
    (h : ∀ s ∈ group.members, (Part.sequence s).All P) :
    (Part.step ⟨state, .parallel group⟩).All P := by
  apply of_children hp
  intro hop c hc
  cases hop with
  | member j =>
    obtain ⟨m, hm, rfl⟩ := Option.map_eq_some_iff.mp hc
    exact h m (List.mem_of_getElem? hm)
  | _ => cases hc

theorem branch {state : StepState} {branch : Branch A C N}
    (hp : P (.step ⟨state, .branch branch⟩)) (h : ∀ c ∈ branch.children, (Part.step c).All P) :
    (Part.step ⟨state, .branch branch⟩).All P := by
  apply of_children hp
  intro hop c hc
  cases hop with
  | child i =>
    obtain ⟨child, hi, rfl⟩ := Option.map_eq_some_iff.mp hc
    exact h child (List.mem_of_getElem? hi)
  | _ => cases hc

end All

def reset : Part A C N → Part A C N
  | .sequence s => .sequence s.reset
  | .step s => .step s.reset

/-- The reset of a sequence reaches every part that it holds. -/
theorem child?_sequence_reset {s : Sequence A C N} {hop : Hop} {c : Part A C N}
    (h : (Part.sequence s).child? hop = some c) :
    (Part.sequence s.reset).child? hop = some c.reset := by
  cases hop with
  | step i =>
    obtain ⟨step, hi, rfl⟩ := Option.map_eq_some_iff.mp h
    simp [child?, reset, hi]
  | companion j =>
    obtain ⟨member, hj, rfl⟩ := Option.map_eq_some_iff.mp h
    simp [child?, reset, hj]
  | body => cases h
  | member j => cases h
  | child i => cases h

/-- The reset of a step leaves what it holds as it is. -/
theorem child?_step_reset (s : Step A C N) (hop : Hop) :
    (Part.step s.reset).child? hop = (Part.step s).child? hop := by
  obtain ⟨state, kind⟩ := s
  cases kind <;> cases hop <;> rfl

/-- Whether the next tick of a part takes it as not started. -/
def isUnstarted : Part A C N → Bool
  | .sequence s => s.status == .notStarted
  | .step s => s.state == .notStarted

/-- Whether what a part holds behind a hop is reset before it is used again. Nothing that an
unstarted part holds is used as it stands, and a branch uses its chosen child alone. -/
def renews : Part A C N → Hop → Bool
  | .sequence s, _ => s.status == .notStarted
  | .step ⟨state, .branch branch⟩, .child index => state == .notStarted || branch.chosen != index
  | .step s, _ => s.state == .notStarted

variable [Behavior A C N]

/-- Visits a part. Sequences are not entered, only reset. -/
def visit : Part A C N → Visit C → Visited A C N
  | part, .reset => ⟨[], part.reset⟩
  | .sequence s, .enter _ _ => ⟨[], .sequence s⟩
  | .sequence s, .tick dt ctx _ =>
    let a := s.advance dt ctx
    ⟨a.trace, .sequence a.sequence⟩
  | .step s, .enter ctx generator =>
    let entered := s.activate ctx generator
    ⟨entered.trace, .step entered.step⟩
  | .step s, .tick dt ctx generator =>
    let t := Step.tick false dt s ctx generator
    ⟨t.trace, .step t.step⟩

def visits (part : Part A C N) : List (Visit C) → Visited A C N
  | [] => ⟨[], part⟩
  | v :: later =>
    let first := part.visit v
    let rest := first.part.visits later
    ⟨first.trace ++ rest.trace, rest.part⟩

theorem visits_append (part : Part A C N) (vs ws : List (Visit C)) :
    part.visits (vs ++ ws) =
      ⟨(part.visits vs).trace ++ ((part.visits vs).part.visits ws).trace,
        ((part.visits vs).part.visits ws).part⟩ := by
  induction vs generalizing part with
  | nil => rfl
  | cons v vs ih => simp [visits, ih]

end Part

/-- Whether an event at a part says that what the part holds behind a hop was reset or is entered
anew. The beginning of a pass concerns the steps of a sequence, not its companions. -/
def Event.reenters {N : Type} : Event N → Hop → Bool
  | .log (.sequenceStarted ..), _ => true
  | .log (.sequenceWrapped ..), .step _ => true
  | .log (.stepActivated _), _ => true
  | _, _ => false

theorem Event.reenters_of_isDecision {N : Type} {e : Event N} (h : e.isDecision = true)
    (hop : Hop) : e.reenters hop = false := by
  cases e with
  | log line => cases h
  | _ => rfl

end Sequencer

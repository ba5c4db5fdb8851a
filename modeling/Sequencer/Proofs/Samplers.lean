import Sequencer.Proofs.Definitions
import Sequencer.Proofs.Draws

/-!
# Samplers and picks

A random selector is a sampler: a function from the state of a random source to a choice and the
next state. A trace tells which branches made a choice, as picks; those of the branches that a
sequence holds, directly or through branches of branches, use the source of that sequence.
`Deals` says that a source goes from one state to another by the samplers of such picks, in order,
and that the picks are what the samplers give.
-/

namespace Sequencer

variable {A C N : Type}

/-- What a random selector does with a random source. -/
abbrev Sampler := Generator → Option Nat × Generator

/-- The sampler of a random selector for `size` children. Guards do without, and a sure chance
leaves the source as it is. -/
def Selector.sampler? (size : Nat) : Selector C N → Option Sampler
  | guarded .. => none
  | uniform => some fun g => (some (g.uniform size).1, (g.uniform size).2)
  | weighted weights => some fun g => (some (g.weighted weights).1, (g.weighted weights).2)
  | chance probability => some fun g =>
    if probability == 1 then (some 0, g)
    else (if (g.chance probability).1 then some 0 else none, (g.chance probability).2)

namespace Selector

/-- A random selection is one draw of its sampler. -/
theorem select_of_sampler? {selector : Selector C N} {size : Nat} {draw : Sampler}
    (h : selector.sampler? size = some draw) (ctx : C) (generator : Generator) :
    selector.select size ctx generator =
      ⟨[.drew], (draw generator).2, .ok (draw generator).1⟩ := by
  cases selector with
  | guarded guards fallback => cases h
  | uniform =>
    obtain rfl := Option.some.inj h
    rfl
  | weighted weights =>
    obtain rfl := Option.some.inj h
    rfl
  | chance probability =>
    obtain rfl := Option.some.inj h
    cases hp : probability == 1 <;> simp [select, Generator.chance, hp]

theorem generator_select_of_none {selector : Selector C N} {size : Nat}
    (h : selector.sampler? size = none) (ctx : C) (generator : Generator) :
    (selector.select size ctx generator).generator = generator := by
  cases selector with
  | guarded guards fallback =>
    exact congrArg Selection.generator (firstHolding_generator ctx generator generator _ 0 guards)
  | _ => cases h

theorem sampler?_of_error {selector : Selector C N} {size : Nat} {ctx : C} {generator : Generator}
    {e : TickError} (h : (selector.select size ctx generator).result = .error e) :
    selector.sampler? size = none := by
  cases hs : selector.sampler? size with
  | none => rfl
  | some draw =>
    rw [select_of_sampler? hs] at h
    cases h

end Selector

/-- A choice of a branch: where the branch is, and the child that it picked. -/
structure Pick where
  place : List Hop
  chosen : Option Nat
  deriving DecidableEq

def Pick.behind (hop : Hop) (p : Pick) : Pick := ⟨hop :: p.place, p.chosen⟩

/-- Whether what is behind a hop shares the random source of what is in front of it. -/
def Hop.isHeld : Hop → Bool
  | step _ | child _ => true
  | _ => false

/-- The pick that an entry tells of. What nested sequences, members and companions pick is none. -/
def Entry.pick? (e : Entry N) : Option Pick :=
  match e.event with
  | .log (.branchSelected chosen) => if e.path.all Hop.isHeld then some ⟨e.path, chosen⟩ else none
  | _ => none

namespace Trace

/-- The picks that a trace tells of, in the order of time. -/
def picks (trace : Trace N) : List Pick := trace.filterMap Entry.pick?

@[simp] theorem picks_nil : picks ([] : Trace N) = [] := rfl

@[simp] theorem picks_append (t u : Trace N) : picks (t ++ u) = picks t ++ picks u := by
  simp [picks]

theorem picks_under {hop : Hop} (h : hop.isHeld = true) (t : Trace N) :
    picks (t.under hop) = (picks t).map (Pick.behind hop) := by
  have he (e : Entry N) :
      Entry.pick? ⟨hop :: e.path, e.event⟩ = e.pick?.map (Pick.behind hop) := by
    unfold Entry.pick?
    simp only [List.all_cons, h, Bool.true_and]
    split
    · split <;> rfl
    · rfl
  rw [picks, under, List.filterMap_map, picks, List.map_filterMap]
  exact congrArg (List.filterMap · t) (funext he)

theorem picks_eq_nil {t : Trace N}
    (h : ∀ e ∈ t, ∃ hop place, e.path = hop :: place ∧ hop.isHeld = false) : picks t = [] := by
  rw [picks, List.filterMap_eq_nil_iff]
  intro e he
  obtain ⟨hop, place, hp, hh⟩ := h e he
  simp only [Entry.pick?, hp, List.all_cons, hh, Bool.false_and]
  split <;> rfl

theorem picks_under_of_not_held {hop : Hop} (h : hop.isHeld = false) (t : Trace N) :
    picks (t.under hop) = [] := by
  apply picks_eq_nil
  intro e he
  obtain ⟨e', _, rfl⟩ := List.mem_map.mp he
  exact ⟨hop, e'.path, rfl, h⟩

theorem picks_of_log {t : Trace N} (h : t.log = []) : picks t = [] := by
  rw [log, List.filterMap_eq_nil_iff] at h
  rw [picks, List.filterMap_eq_nil_iff]
  intro e he
  have hl := h e he
  obtain ⟨path, event⟩ := e
  cases event with
  | log line => cases hl
  | _ => rfl

theorem log_here (events : List (Event N)) :
    (here events).log = events.filterMap fun
      | .log line => some line
      | _ => none := by
  rw [log, here, List.filterMap_map]
  rfl

theorem log_notes (notes : List N) {events : List (Event N)} (h : (here events).log = []) :
    (here (notes.map .note ++ events)).log = [] := by
  induction notes with
  | nil => exact h
  | cons note notes ih => exact ih

theorem log_here_of_isDecision {events : List (Event N)}
    (h : ∀ e ∈ events, e.isDecision = true) : (here events).log = [] := by
  rw [log_here]
  refine filterMap_of_isDecision (fun e hd => ?_) h
  cases e with
  | log line => cases hd
  | _ => rfl

end Trace

/-- Whether a random source goes from one state to another by one draw for each pick of a random
branch, in order, with the choices that its sampler gives. The samplers of the random branches are
known by their places. -/
inductive Deals (sampler? : List Hop → Option Sampler) : Generator → List Pick → Generator → Prop
  | done (g : Generator) : Deals sampler? g [] g
  | drawn {place : List Hop} {draw : Sampler} {g later : Generator} {picks : List Pick}
      (h : sampler? place = some draw) (rest : Deals sampler? (draw g).2 picks later) :
      Deals sampler? g (⟨place, (draw g).1⟩ :: picks) later
  /-- A pick of guards needs no draw. -/
  | guarded {place : List Hop} {g later : Generator} {picks : List Pick}
      (h : sampler? place = none) (chosen : Option Nat) (rest : Deals sampler? g picks later) :
      Deals sampler? g (⟨place, chosen⟩ :: picks) later

namespace Deals

variable {sampler? inner : List Hop → Option Sampler} {g g' g'' : Generator} {ps qs : List Pick}

theorem append (h : Deals sampler? g ps g') (k : Deals sampler? g' qs g'') :
    Deals sampler? g (ps ++ qs) g'' := by
  induction h with
  | done g => exact k
  | drawn h rest ih => exact .drawn h (ih k)
  | guarded h chosen rest ih => exact .guarded h chosen (ih k)

theorem behind {hop : Hop} (hs : ∀ place, sampler? (hop :: place) = inner place)
    (h : Deals inner g ps g') : Deals sampler? g (ps.map (Pick.behind hop)) g' := by
  induction h with
  | done g => exact .done g
  | drawn h rest ih => exact .drawn ((hs _).trans h) ih
  | guarded h chosen rest ih => exact .guarded ((hs _).trans h) chosen ih

end Deals

def randomPicks (sampler? : List Hop → Option Sampler) (picks : List Pick) : List Pick :=
  picks.filter fun p => (sampler? p.place).isSome

/-- The picks at the given places, and what they leave of the random source. -/
def deal (sampler? : List Hop → Option Sampler) (g : Generator) :
    List (List Hop) → List Pick × Generator
  | [] => ([], g)
  | place :: places =>
    match sampler? place with
    | none => deal sampler? g places
    | some draw =>
      let later := deal sampler? (draw g).2 places
      (⟨place, (draw g).1⟩ :: later.1, later.2)

/-- What is dealt depends on the places of the random branches and on nothing else. -/
theorem Deals.eq_deal {sampler? : List Hop → Option Sampler} {g g' : Generator} {ps : List Pick}
    (h : Deals sampler? g ps g') :
    deal sampler? g ((randomPicks sampler? ps).map Pick.place) =
      (randomPicks sampler? ps, g') := by
  induction h with
  | done g => rfl
  | drawn h rest ih =>
    unfold randomPicks at ih ⊢
    simp [h, deal, ih]
  | guarded h chosen rest ih =>
    unfold randomPicks at ih ⊢
    simp [h, ih]

/-- From one state of a source, random branches that choose at the same places in the same order
choose the same. -/
theorem Deals.unique {sampler? : List Hop → Option Sampler} {g g' g'' : Generator}
    {ps qs : List Pick} (h : Deals sampler? g ps g') (k : Deals sampler? g qs g'')
    (hplaces : (randomPicks sampler? ps).map Pick.place =
      (randomPicks sampler? qs).map Pick.place) :
    randomPicks sampler? ps = randomPicks sampler? qs ∧ g' = g'' := by
  have hk := k.eq_deal
  rw [← hplaces, h.eq_deal] at hk
  exact Prod.mk.inj hk

def StepKind.sampler? : StepKind A C N → Option Sampler
  | .branch b => b.selector.sampler? b.children.length
  | _ => none

namespace Part

def sampler? : Part A C N → Option Sampler
  | .sequence _ => none
  | .step s => s.kind.sampler?

/-- The sampler of the random branch at a place, if there is one. -/
def samplerAt? (part : Part A C N) (place : List Hop) : Option Sampler :=
  (part.find? place).bind sampler?

theorem samplerAt?_cons (part : Part A C N) (hop : Hop) (place : List Hop) :
    part.samplerAt? (hop :: place) = (part.child? hop).bind (·.samplerAt? place) := by
  rw [samplerAt?, find?, Option.bind_assoc]
  rfl

end Part

section Definitions

variable [Behavior A C N]

namespace Part

theorem SameDefinition.of_find? {p q p' q' : Part A C N} (h : p.SameDefinition q)
    {path : List Hop} (hp : p.find? path = some p') (hq : q.find? path = some q') :
    p'.SameDefinition q' := by
  intro rest
  have hr := h (path ++ rest)
  rwa [find?_append, find?_append, hp, hq] at hr

theorem SameDefinition.length_children {state state' : StepState} {b b' : Branch A C N}
    (h : (Part.step ⟨state, .branch b⟩).SameDefinition (.step ⟨state', .branch b'⟩)) :
    b.children.length = b'.children.length := by
  have hi (i : Nat) : b.children[i]?.isSome = b'.children[i]?.isSome := by
    have hc := congrArg Option.isSome (h [.child i])
    simpa [find?, child?] using hc
  have hl := hi b.children.length
  have hl' := hi b'.children.length
  simp at hl hl'
  omega

theorem SameDefinition.sampler? {p q : Part A C N} (h : p.SameDefinition q) :
    p.sampler? = q.sampler? := by
  have hl : p.label = q.label := by simpa [find?] using h []
  cases p with
  | sequence s =>
    cases q with
    | sequence s' => rfl
    | step s' =>
      obtain ⟨state, kind⟩ := s'
      cases kind <;> cases hl
  | step s =>
    obtain ⟨state, kind⟩ := s
    cases q with
    | sequence s' => cases kind <;> cases hl
    | step s' =>
      obtain ⟨state', kind'⟩ := s'
      cases kind with
      | branch b =>
        cases kind' with
        | branch b' =>
          have hs : b.selector = b'.selector := Label.branch.inj hl
          simp only [Part.sampler?, StepKind.sampler?, hs, h.length_children]
        | leaf | nested | parallel => cases hl
      | leaf | nested | parallel => cases kind' <;> first | rfl | cases hl

theorem SameDefinition.samplerAt? {p q : Part A C N} (h : p.SameDefinition q) :
    p.samplerAt? = q.samplerAt? := by
  funext place
  unfold Part.samplerAt?
  match hp : p.find? place, hq : q.find? place with
  | some p', some q' => exact (h.of_find? hp hq).sampler?
  | none, none => rfl
  | some _, none =>
    have hr := h place
    simp [hp, hq] at hr
  | none, some _ =>
    have hr := h place
    simp [hp, hq] at hr

end Part

end Definitions

section Visits

variable [Behavior A C N]

theorem Step.sampler?_activate (s : Step A C N) (ctx : C) (generator : Generator) :
    (s.activate ctx generator).step.kind.sampler? = s.kind.sampler? := by
  obtain ⟨state, kind⟩ := s
  cases kind with
  | leaf action =>
    simp only [activate]
    split <;> rfl
  | nested body => rfl
  | parallel group => rfl
  | branch b =>
    simp only [activate]
    split
    · rfl
    · rename_i chosen _
      cases chosen <;> simp [StepKind.sampler?, Branch.choose]

theorem StepKind.sampler?_tick (kind : StepKind A C N) (dt : Float32) (ctx : C)
    (generator : Generator) :
    (StepKind.tick false dt kind ctx generator).step.kind.sampler? = kind.sampler? := by
  match kind with
  | .leaf action => simp [tick, StepTick.ofAction, StepTick.kind_ofDriven, sampler?]
  | .nested body => simp [tick, StepTick.ofBody, StepTick.kind_ofDriven, sampler?]
  | .parallel ⟨completion, members⟩ =>
    simp [tick, StepTick.ofRound, StepTick.kind_ofDriven, sampler?]
  | .branch ⟨selector, children, none⟩ =>
    simp [tick, StepTick.ofBranch, StepTick.ofChosen, StepTick.kind_ofDriven, sampler?]
  | .branch ⟨selector, children, some index⟩ =>
    simp [tick, StepTick.ofBranch, StepTick.ofChosen, StepTick.kind_ofDriven, sampler?,
      length_tickChild]

theorem Step.isLasting_sampler? (draw? : Option Sampler) :
    Step.IsLasting fun s : Step A C N => s.kind.sampler? = draw? where
  reset h := h
  enter ctx generator h := (Step.sampler?_activate _ ctx generator).trans h
  drive dt ctx generator h := (StepKind.sampler?_tick _ dt ctx generator).trans h

namespace Part

theorem sampler?_visits (part : Part A C N) (vs : List (Visit C)) :
    (part.visits vs).part.sampler? = part.sampler? := by
  cases part with
  | sequence s =>
    rw [visits_sequence]
    rfl
  | step s =>
    have hlasting : Step.IsLasting fun s' : Step A C N => s'.kind.sampler? = s.kind.sampler? :=
      Step.isLasting_sampler? _
    obtain ⟨s', hs', hsame⟩ := hlasting.visits rfl vs
    rw [hs']
    exact hsame

/-- Visits change no sampler in a tree. -/
theorem samplerAt?_visits (part : Part A C N) (vs : List (Visit C)) :
    (part.visits vs).part.samplerAt? = part.samplerAt? := by
  funext place
  unfold samplerAt?
  cases hp : part.find? place with
  | some found =>
    obtain ⟨ws, hf, -, -⟩ := part.exists_visits_find vs place hp
    rw [hf]
    exact found.sampler?_visits ws
  | none =>
    cases hf : (part.visits vs).part.find? place with
    | none => rfl
    | some later =>
      obtain ⟨before, hb⟩ := Part.exists_find_of_visits part vs place hf
      rw [hp] at hb
      cases hb

end Part

end Visits

end Sequencer

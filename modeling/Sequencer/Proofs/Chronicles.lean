import Sequencer.Proofs.News

/-!
# Reading the chronicle of a leaf

A partial automaton reads what a leaf is told, one piece of news at a time. `LeafReader` says what
it has to make of each hook of the action; the main statement is that it then reads the chronicle of
the leaf to the end, over every history of the sequence at the root. What the automaton forbids does
not happen to the leaf.
-/

namespace Sequencer

section Reads

variable {S L : Type}

/-- The automaton goes from one stage to the other on the given letters. -/
def Reads (next : S → L → Option S) (stage : S) (letters : List L) (stage' : S) : Prop :=
  letters.foldlM next stage = some stage'

namespace Reads

variable {next : S → L → Option S} {stage stage' mid : S} {l : L} {u v : List L}

theorem nil (next : S → L → Option S) (stage : S) : Reads next stage [] stage := rfl

theorem append (h : Reads next stage u mid) (k : Reads next mid v stage') :
    Reads next stage (u ++ v) stage' := by
  unfold Reads at h k ⊢
  rw [List.foldlM_append, h]
  exact k

theorem cons (h : next stage l = some mid) (k : Reads next mid v stage') :
    Reads next stage (l :: v) stage' := by
  unfold Reads at k ⊢
  rw [List.foldlM_cons, h]
  exact k

theorem exists_of_append (h : Reads next stage (u ++ v) stage') :
    ∃ mid, Reads next stage u mid ∧ Reads next mid v stage' := by
  unfold Reads at h
  rw [List.foldlM_append] at h
  exact Option.bind_eq_some_iff.mp h

theorem exists_of_cons (h : Reads next stage (l :: v) stage') :
    ∃ mid, next stage l = some mid ∧ Reads next mid v stage' := by
  unfold Reads at h
  rw [List.foldlM_cons] at h
  exact Option.bind_eq_some_iff.mp h

theorem eq_of_nil (h : Reads next stage [] stage') : stage = stage' :=
  Option.some.inj h

theorem map {K : Type} {f : K → L} {w : List K}
    (h : Reads (fun stage k => next stage (f k)) stage w stage') :
    Reads next stage (w.map f) stage' := by
  unfold Reads at h ⊢
  rwa [List.foldlM_map]

/-- What every move keeps is kept, with the letters that have been read before. -/
theorem induct_after {P : List L → S → Prop} {before : List L} (h : Reads next stage u stage')
    (hP : P before stage)
    (hstep : ∀ before s l s', P before s → next s l = some s' → P (before ++ [l]) s') :
    P (before ++ u) stage' := by
  induction u generalizing stage before with
  | nil => rwa [List.append_nil, ← h.eq_of_nil]
  | cons l u ih =>
    obtain ⟨mid, hl, hr⟩ := h.exists_of_cons
    have hlater := ih hr (hstep before stage l mid hP hl)
    rwa [List.append_assoc, List.singleton_append] at hlater

theorem induct {P : List L → S → Prop} (h : Reads next stage u stage') (hP : P [] stage)
    (hstep : ∀ before s l s', P before s → next s l = some s' → P (before ++ [l]) s') :
    P u stage' :=
  h.induct_after hP hstep

end Reads

end Reads

variable {A C N : Type}

def Event.news (e : Event N) : News N := .entry ⟨[], e⟩

/-- Something that happens at the part itself, in a tick of the given length. -/
def Event.told (clock : Float32) (e : Event N) : Told N := .entry clock ⟨[], e⟩

theorem Trace.map_here (clock : Float32) (events : List (Event N)) :
    (here events).map (Told.entry clock) = events.map (Event.told clock) := by
  simp [here, Function.comp_def, Event.told]

variable [Behavior A C N]

/-- The events of entering a leaf: those of its action, and the log line of its step. -/
def Action.entrance (a : Action A C N) (ctx : C) : List (Event N) :=
  (a.enter ctx).events ++ [.log (.stepActivated .leaf)]

/-- The events of driving a leaf: those of its action, and the log line of a step that completes. -/
def Action.turn (a : Action A C N) (dt : Float32) (ctx : C) : List (Event N) :=
  (a.drive dt ctx).events ++
    match (a.drive dt ctx).result with
    | .ok true => [.log (.stepComplete .leaf)]
    | _ => []

theorem StepKind.tick_leaf (a : Action A C N) (dt : Float32) (ctx : C) (generator : Generator) :
    StepKind.tick false dt (.leaf a) ctx generator =
      ⟨Trace.here (a.turn dt ctx), (a.drive dt ctx).context, generator,
        ⟨.ofDriven (a.drive dt ctx).result, .leaf (a.drive dt ctx).action⟩,
        (a.drive dt ctx).result⟩ := by
  simp only [StepKind.tick, StepTick.ofAction, activation, Bool.false_eq_true, ↓reduceIte,
    Trace.here_nil, List.nil_append, StepTick.ofDriven, Action.turn, StepState.ofDriven]
  split <;> simp_all [Trace.here, Trace.line]

/-- What an automaton has to make of the hooks of a leaf that can always be entered. Its stage fits
the state of the leaf and the instance that the leaf holds. Once the leaf has been ticked, the tick
has to go on with it, and the stage fits the length of the tick as well. -/
structure LeafReader {S : Type} (next : S → Told N → Option S)
    (Fits : S → Option Float32 → StepState → Action A C N → Prop) : Prop where
  renewed {stage : S} {state : StepState} {a : Action A C N} (h : Fits stage none state a) :
    ∃ stage', next stage .renewed = some stage' ∧ Fits stage' none .notStarted a
  ticked {stage : S} {state : StepState} {a : Action A C N} (h : Fits stage none state a)
    (hs : state ≠ .complete) (clock : Float32) :
    ∃ stage', next stage (Event.ticked.told clock) = some stage' ∧
      Fits stage' (some clock) state a
  tickedComplete {stage : S} {a : Action A C N} (h : Fits stage none .complete a)
    (clock : Float32) :
    ∃ stage', next stage (Event.ticked.told clock) = some stage' ∧ Fits stage' none .complete a
  entered {stage : S} {ticking : Option Float32} {a : Action A C N}
    (h : Fits stage ticking .notStarted a) {clock : Float32} (ht : ∀ c ∈ ticking, c = clock)
    (ctx : C) :
    (a.enter ctx).result = .ok () ∧
      ∃ stage', Reads next stage ((a.entrance ctx).map (Event.told clock)) stage' ∧
        Fits stage' ticking .active (a.enter ctx).action
  driven {stage : S} {clock : Float32} {a : Action A C N}
    (h : Fits stage (some clock) .active a) (ctx : C) :
    ∃ stage', Reads next stage ((a.turn clock ctx).map (Event.told clock)) stage' ∧
      Fits stage' none (.ofDriven (a.drive clock ctx).result) (a.drive clock ctx).action

namespace LeafReader

variable {S : Type} {next : S → Told N → Option S}
  {Fits : S → Option Float32 → StepState → Action A C N → Prop}

theorem exists_reads_visit (r : LeafReader next Fits) {stage : S} {state : StepState}
    {a : Action A C N} (h : Fits stage none state a) {v : Visit C}
    (hv : v.Drives (.step ⟨state, .leaf a⟩)) {clock : Float32} (ht : v.TicksAt clock) :
    ∃ stage' state' a',
      ((Part.step ⟨state, .leaf a⟩).visit v).part = .step ⟨state', .leaf a'⟩ ∧
        Reads next stage (((Part.step ⟨state, .leaf a⟩).visit v).trace.map (.entry clock)) stage' ∧
        Fits stage' none state' a' := by
  have hleaf : (⟨.notStarted, .leaf a⟩ : Step A C N) = Step.leaf a := rfl
  cases v with
  | reset => exact hv.elim
  | enter ctx generator =>
    obtain rfl : state = .notStarted := eq_of_beq hv
    have hnone : ∀ c ∈ (none : Option Float32), c = clock := fun _ hc => nomatch hc
    obtain ⟨he, stage', hr, hf⟩ := r.entered h hnone ctx
    simp only [Part.visit, hleaf, Step.activate_leaf_of_ok he]
    refine ⟨stage', .active, _, rfl, ?_, hf⟩
    simpa [Action.entrance, Trace.map_here, Trace.line, Event.told] using hr
  | tick dt ctx generator =>
    obtain rfl : dt = clock := ht
    cases state with
    | complete =>
      obtain ⟨stage', hn, hf⟩ := r.tickedComplete h dt
      simp only [Part.visit, Step.tick_of_complete (s := ⟨.complete, .leaf a⟩) rfl]
      exact ⟨stage', .complete, a, rfl, .cons hn (.nil _ _), hf⟩
    | active =>
      obtain ⟨mid, hn, hf⟩ := r.ticked h StepState.noConfusion dt
      obtain ⟨stage', hr, hf'⟩ := r.driven hf ctx
      simp only [Part.visit, Step.tick_of_active (s := ⟨.active, .leaf a⟩) rfl,
        StepKind.tick_leaf]
      refine ⟨stage', _, _, rfl, ?_, hf'⟩
      rw [List.map_cons, Trace.map_here]
      exact .cons hn hr
    | notStarted =>
      obtain ⟨first, hn, hf⟩ := r.ticked h StepState.noConfusion dt
      obtain ⟨he, mid, hre, hfe⟩ := r.entered hf (fun _ hc => (Option.some.inj hc).symm) ctx
      obtain ⟨stage', hr, hf'⟩ := r.driven hfe (a.enter ctx).context
      have hact := Step.activate_leaf_of_ok he generator
      have htick := Step.tick_of_entry (s := Step.leaf a) rfl (u := ()) (by rw [hact]) dt
      simp only [Part.visit, hleaf, htick, hact, StepKind.tick_leaf]
      refine ⟨stage', _, _, rfl, ?_, hf'⟩
      have hentry : (Trace.here (a.enter ctx).events ++
            Trace.line (.stepActivated .leaf)).map (Told.entry dt) =
          (a.entrance ctx).map (Event.told dt) := by
        simp [Action.entrance, Trace.map_here, Trace.line, Event.told]
      rw [List.map_cons, List.map_append, hentry, Trace.map_here]
      exact .cons hn (hre.append hr)

theorem exists_reads (r : LeafReader next Fits) {due due' : Bool} {part part' : Part A C N}
    {told : List (Told N)} (h : Part.Lives due part told due' part') {stage : S}
    {state : StepState} {a : Action A C N} (hpart : part = .step ⟨state, .leaf a⟩)
    (hfits : Fits stage none (if due then .notStarted else state) a) :
    ∃ stage' state' a', part' = .step ⟨state', .leaf a'⟩ ∧ Reads next stage told stage' ∧
      Fits stage' none (if due' then .notStarted else state') a' := by
  induction h generalizing stage state a with
  | done due part => exact ⟨stage, state, a, hpart, .nil _ _, hfits⟩
  | renewed later ih =>
    obtain ⟨mid, hn, hf⟩ := r.renewed hfits
    obtain ⟨stage', state', a', hp, hr, hf'⟩ := ih hpart hf
    exact ⟨stage', state', a', hp, .cons hn hr, hf'⟩
  | @reset due due' part part' told later ih =>
    subst hpart
    refine ih rfl ?_
    rwa [ite_self]
  | entered hun clock ctx generator later ih =>
    subst hpart
    change Fits stage none state a at hfits
    have ht : (Visit.enter ctx generator).TicksAt clock := trivial
    obtain ⟨mid, state₁, a₁, hp₁, hr₁, hf₁⟩ :=
      r.exists_reads_visit hfits (v := .enter ctx generator) hun ht
    obtain ⟨stage', state', a', hp, hr, hf⟩ := ih hp₁ hf₁
    exact ⟨stage', state', a', hp, hr₁.append hr, hf⟩
  | ticked clock ctx generator later ih =>
    subst hpart
    change Fits stage none state a at hfits
    have ht : (Visit.tick clock ctx generator).TicksAt clock := rfl
    obtain ⟨mid, state₁, a₁, hp₁, hr₁, hf₁⟩ :=
      r.exists_reads_visit hfits (v := .tick clock ctx generator) trivial ht
    obtain ⟨stage', state', a', hp, hr, hf⟩ := ih hp₁ hf₁
    exact ⟨stage', state', a', hp, hr₁.append hr, hf⟩

/-- The automaton reads the chronicle of every leaf that it fits, over any history of a sequence
that has not been started. -/
theorem exists_reads_chronicle (r : LeafReader next Fits) {s : Sequence A C N}
    (hs : s.status = .notStarted) (commands : List (Command C)) {path : List Hop}
    {state : StepState} {a : Action A C N}
    (h : (Part.sequence s).find? path = some (.step ⟨state, .leaf a⟩)) {stage : S}
    (hfits : Fits stage none .notStarted a) :
    ∃ stage' state' a',
      (Part.sequence (s.after commands)).find? path = some (.step ⟨state', .leaf a'⟩) ∧
        Reads next stage (s.chronicle path commands) stage' ∧
        Fits stage' none
          (if (Part.sequence (s.after commands)).awaitsReset path then .notStarted else state')
          a' := by
  obtain ⟨found', hfound, hlives⟩ := s.exists_lives commands h
  have hdue : (Part.sequence s).awaitsReset path = true := by
    have hu : (Part.sequence s).isUnstarted = true := beq_iff_eq.mpr hs
    cases path with
    | nil => cases h
    | cons hop path => exact Part.awaitsReset_of_isUnstarted hu hop path
  rw [hdue] at hlives
  obtain ⟨stage', state', a', rfl, hr, hf⟩ := r.exists_reads hlives rfl hfits
  exact ⟨stage', state', a', hfound, hr, hf⟩

end LeafReader

end Sequencer

import Sequencer.Proofs.Consistency
import Sequencer.Proofs.News
import Sequencer.Proofs.Selections

/-!
# The life of a branch

An automaton says what a branch may be told about itself and its children: it decides once for each
activation, then only the child that was picked is ticked, from a fresh start on, and the branch is
complete in the very tick that completes the child. The main statement is that the news of a branch,
over any history of the sequence at the root, are a walk of the automaton.
-/

namespace Sequencer

variable {A C N : Type}

/-- The stage that a branch is in. A flag says that its step has been ticked, so that the tick has
to go on with it. -/
inductive BranchStage (A C N : Type)
  /-- Not entered. -/
  | out (ticking : Bool) (b : Branch A C N)
  /-- Entered: the choice has been made. -/
  | decided (ticking : Bool) (b : Branch A C N)
  | finished (b : Branch A C N)

namespace BranchStage

def branch : BranchStage A C N → Branch A C N
  | out _ b | decided _ b | finished b => b

/-- Whether a branch may be in this stage between two ticks. -/
def IsResting : BranchStage A C N → Prop
  | out false _ | decided false _ | finished _ => True
  | _ => False

def choice : BranchStage A C N → Option (Option Nat)
  | out _ _ => none
  | decided _ b | finished b => some b.chosen

/-- The stage of a branch whose step is in the given state. One that is going to be reset before it
is used is not entered. -/
def ofState (due : Bool) (state : StepState) (b : Branch A C N) : BranchStage A C N :=
  if due then out false b
  else match state with
    | .notStarted => out false b
    | .active => decided false b
    | .complete => finished b

@[simp] theorem ofState_true (state : StepState) (b : Branch A C N) :
    ofState true state b = out false b := rfl

theorem ofState_notStarted (due : Bool) (b : Branch A C N) :
    ofState due .notStarted b = out false b := by
  cases due <;> rfl

theorem isResting_ofState (due : Bool) (state : StepState) (b : Branch A C N) :
    (ofState due state b).IsResting := by
  cases due <;> cases state <;> exact trivial

@[simp] theorem branch_ofState (due : Bool) (state : StepState) (b : Branch A C N) :
    (ofState due state b).branch = b := by
  cases due <;> cases state <;> rfl

variable [Behavior A C N]

inductive Next : BranchStage A C N → List (News N) → BranchStage A C N → Prop
  | renewed {s : BranchStage A C N} (h : s.IsResting) : Next s [.renewed] (out false s.branch)
  | tickedOut (b : Branch A C N) : Next (out false b) [.entry ⟨[], .ticked⟩] (out true b)
  | tickedDecided (b : Branch A C N) :
      Next (decided false b) [.entry ⟨[], .ticked⟩] (decided true b)
  | tickedFinished (b : Branch A C N) : Next (finished b) [.entry ⟨[], .ticked⟩] (finished b)
  /-- A guard fails, and the next attempt starts over. -/
  | refused (ticking : Bool) {b : Branch A C N} {ctx : C} {generator : Generator}
      {events : List (Event N)} {e : TickError}
      (h : b.selector.Decides b.children.length ctx generator events (.error e)) :
      Next (out ticking b) ((Trace.here events).map .entry) (out false b)
  /-- A child is picked, and will start afresh. -/
  | picked (ticking : Bool) {b : Branch A C N} {ctx : C} {generator : Generator}
      {events : List (Event N)} {index : Nat} {child : Step A C N}
      (h : b.selector.Decides b.children.length ctx generator events (.ok (some index)))
      (hchild : b.children[index]? = some child) :
      Next (out ticking b)
        ((Trace.here events ++ Trace.line (.branchSelected index) ++
          Trace.line (.stepActivated .branch)).map .entry)
        (decided ticking
          { b with children := b.children.set index child.reset, chosen := some index })
  | pickedNone (ticking : Bool) {b : Branch A C N} {ctx : C} {generator : Generator}
      {events : List (Event N)}
      (h : b.selector.Decides b.children.length ctx generator events (.ok none)) :
      Next (out ticking b)
        ((Trace.here events ++ Trace.line (.branchSelected none) ++
          Trace.line (.stepActivated .branch)).map .entry)
        (decided ticking { b with chosen := none })
  /-- With nothing picked, the first tick is the last. -/
  | skipped {b : Branch A C N} (hb : b.chosen = none) :
      Next (decided true b) ((Trace.line (.stepComplete .branch)).map .entry) (finished b)
  /-- The picked child is ticked, and needs more ticks. -/
  | held {b : Branch A C N} {index : Nat} {child : Step A C N} (hb : b.chosen = some index)
      (hchild : b.children[index]? = some child) (dt : Float32) (ctx : C) (generator : Generator)
      (h : (Step.tick false dt child ctx generator).step.state ≠ .complete) :
      Next (decided true b)
        (((Step.tick false dt child ctx generator).trace.under (.child index)).map .entry)
        (decided false { b with
          children := b.children.set index (Step.tick false dt child ctx generator).step })
  /-- The picked child is ticked, and completes. -/
  | passed {b : Branch A C N} {index : Nat} {child : Step A C N} (hb : b.chosen = some index)
      (hchild : b.children[index]? = some child) (dt : Float32) (ctx : C) (generator : Generator)
      (h : (Step.tick false dt child ctx generator).step.state = .complete) :
      Next (decided true b)
        (((Step.tick false dt child ctx generator).trace.under (.child index) ++
          Trace.line (.stepComplete .branch)).map .entry)
        (finished { b with
          children := b.children.set index (Step.tick false dt child ctx generator).step })

inductive Walk : BranchStage A C N → List (News N) → BranchStage A C N → Prop
  | nil (s : BranchStage A C N) : Walk s [] s
  | cons {s t u : BranchStage A C N} {v w : List (News N)} (first : Next s v t)
      (rest : Walk t w u) : Walk s (v ++ w) u

theorem Walk.append {s t u : BranchStage A C N} {v w : List (News N)} (h : Walk s v t)
    (k : Walk t w u) : Walk s (v ++ w) u := by
  induction h with
  | nil s => exact k
  | cons first rest ih =>
    rw [List.append_assoc]
    exact .cons first (ih k)

theorem Walk.single {s t : BranchStage A C N} {v : List (News N)} (h : Next s v t) :
    Walk s v t := by
  rw [← List.append_nil v]
  exact .cons h (.nil t)

end BranchStage

/-- Whether an event takes part in the choice of a branch. -/
def Event.chooses : Event N → Bool
  | .log (.branchSelected _) => true
  | e => e.isDecision

def News.choiceAfter (choice : Option (Option Nat)) : News N → Option (Option Nat)
  | renewed => none
  | entry ⟨[], .log (.branchSelected chosen)⟩ => some chosen
  | entry _ => choice

/-- Whether a piece of news goes with the choice in force: the branch chooses only if there is none,
and of all children only the one that was picked is heard of. -/
def News.Respects (choice : Option (Option Nat)) : News N → Prop
  | renewed => True
  | entry ⟨[], event⟩ => event.chooses = true → choice = none
  | entry ⟨hop :: _, _⟩ => ∃ index, hop = .child index ∧ choice = some (some index)

/-- Whether a branch stays with its choice until something around it is reset or entered anew: no
guard is evaluated and nothing is drawn once a choice is in force, and only the child that was
picked is heard of. -/
def KeepsChoice (choice : Option (Option Nat)) : List (News N) → Prop
  | [] => True
  | first :: later => first.Respects choice ∧ KeepsChoice (first.choiceAfter choice) later

theorem keepsChoice_append (choice : Option (Option Nat)) (u v : List (News N)) :
    KeepsChoice choice (u ++ v) ↔
      KeepsChoice choice u ∧ KeepsChoice (u.foldl News.choiceAfter choice) v := by
  induction u generalizing choice with
  | nil => simp [KeepsChoice]
  | cons first later ih => simp [KeepsChoice, ih, and_assoc]

theorem keepsChoice_decision {events : List (Event N)} (h : ∀ e ∈ events, e.isDecision = true) :
    KeepsChoice none ((Trace.here events).map .entry) ∧
      ((Trace.here events).map .entry).foldl News.choiceAfter none = none := by
  induction events with
  | nil => exact ⟨trivial, rfl⟩
  | cons e events ih =>
    have hopen : (News.entry ⟨[], e⟩ : News N).choiceAfter none = none := by
      have he := h e List.mem_cons_self
      cases e with
      | log line => cases he
      | _ => rfl
    obtain ⟨hk, hf⟩ := ih fun e he => h e (List.mem_cons_of_mem _ he)
    simp only [Trace.here, List.map_cons, KeepsChoice, List.foldl_cons, hopen] at hk hf ⊢
    exact ⟨⟨fun _ => rfl, hk⟩, hf⟩

theorem keepsChoice_under (index : Nat) (t : Trace N) :
    KeepsChoice (some (some index)) ((t.under (.child index)).map .entry) ∧
      ((t.under (.child index)).map .entry).foldl News.choiceAfter (some (some index)) =
        some (some index) := by
  induction t with
  | nil => exact ⟨trivial, rfl⟩
  | cons e t ih => exact ⟨⟨⟨index, rfl, rfl⟩, ih.1⟩, ih.2⟩

variable [Behavior A C N]

/-- A move of the automaton goes with the choice in force, and leaves the one of its stage. -/
theorem BranchStage.Next.keepsChoice {s t : BranchStage A C N} {v : List (News N)}
    (h : Next s v t) :
    KeepsChoice s.choice v ∧ v.foldl News.choiceAfter s.choice = t.choice := by
  have htick : ∀ choice, KeepsChoice choice [(.entry ⟨[], .ticked⟩ : News N)] :=
    fun _ => ⟨fun h => Bool.noConfusion h, trivial⟩
  have hcomplete : ∀ choice, KeepsChoice choice
      ((Trace.line (.stepComplete .branch) : Trace N).map .entry) :=
    fun _ => ⟨fun h => Bool.noConfusion h, trivial⟩
  have hselected : ∀ chosen, KeepsChoice none
      ((Trace.line (.branchSelected chosen) ++ Trace.line (.stepActivated .branch) :
        Trace N).map .entry) :=
    fun _ => ⟨fun _ => rfl, fun h => Bool.noConfusion h, trivial⟩
  cases h with
  | renewed h => exact ⟨⟨trivial, trivial⟩, rfl⟩
  | tickedOut b => exact ⟨htick _, rfl⟩
  | tickedDecided b => exact ⟨htick _, rfl⟩
  | tickedFinished b => exact ⟨htick _, rfl⟩
  | refused ticking h => exact keepsChoice_decision h.isDecision
  | picked ticking h hchild =>
    obtain ⟨hk, hf⟩ := keepsChoice_decision h.isDecision
    rw [List.append_assoc, List.map_append, keepsChoice_append, List.foldl_append, choice, hf]
    exact ⟨⟨hk, hselected _⟩, rfl⟩
  | pickedNone ticking h =>
    obtain ⟨hk, hf⟩ := keepsChoice_decision h.isDecision
    rw [List.append_assoc, List.map_append, keepsChoice_append, List.foldl_append, choice, hf]
    exact ⟨⟨hk, hselected _⟩, rfl⟩
  | skipped hb => exact ⟨hcomplete _, rfl⟩
  | held hb hchild dt ctx generator h =>
    rw [choice, choice, hb]
    exact keepsChoice_under ..
  | @passed b index child hb hchild dt ctx generator h =>
    obtain ⟨hk, hf⟩ := keepsChoice_under index (Step.tick false dt child ctx generator).trace
    rw [List.map_append, keepsChoice_append, List.foldl_append, choice, choice, hb, hf]
    exact ⟨⟨hk, hcomplete _⟩, rfl⟩

theorem BranchStage.Walk.keepsChoice {s t : BranchStage A C N} {v : List (News N)}
    (h : Walk s v t) : KeepsChoice s.choice v := by
  induction h with
  | nil s => exact trivial
  | cons first rest ih =>
    obtain ⟨hk, hf⟩ := first.keepsChoice
    rw [keepsChoice_append, hf]
    exact ⟨hk, ih⟩

theorem Step.next_activate_branch_of_error (ticking : Bool) {b : Branch A C N} {ctx : C}
    {generator : Generator} {e : TickError}
    (h : ((Step.branch b).activate ctx generator).result = .error e) :
    ((Step.branch b).activate ctx generator).step = Step.branch b ∧
      BranchStage.Next (.out ticking b)
        (((Step.branch b).activate ctx generator).trace.map .entry) (.out false b) := by
  have hd := b.selector.decides_select b.children.length ctx generator
  simp only [Step.activate, Step.branch, Step.ofKind] at h ⊢
  split at h
  case h_1 hr =>
    rw [hr] at hd
    exact ⟨rfl, .refused ticking hd⟩
  case h_2 => cases h

theorem Step.next_activate_branch_of_ok (ticking : Bool) {b : Branch A C N} (hfits : b.Fits)
    {ctx : C} {generator : Generator} {u : Unit}
    (h : ((Step.branch b).activate ctx generator).result = .ok u) :
    ∃ b', ((Step.branch b).activate ctx generator).step = ⟨.active, .branch b'⟩ ∧ b'.Fits ∧
      BranchStage.Next (.out ticking b)
        (((Step.branch b).activate ctx generator).trace.map .entry) (.decided ticking b') := by
  have hd := b.selector.decides_select b.children.length ctx generator
  simp only [Step.activate, Step.branch, Step.ofKind] at h ⊢
  split at h
  case h_1 => cases h
  case h_2 chosen hr =>
    rw [hr] at hd
    cases chosen with
    | none =>
      exact ⟨b.choose none, rfl, hfits.choose (by simp), .pickedNone ticking hd⟩
    | some index =>
      have hlt := hfits.selector.lt_of_decides hd
      have hchild : b.children[index]? = some b.children[index] := List.getElem?_eq_getElem hlt
      refine ⟨b.choose (some index), rfl, hfits.choose (fun _ h => Option.some.inj h ▸ hlt), ?_⟩
      rw [Branch.choose_some hchild]
      exact .picked ticking hd hchild

theorem StepKind.next_tick_branch {b : Branch A C N} (hfits : b.Fits) (dt : Float32) (ctx : C)
    (generator : Generator) :
    let driven := StepKind.tick false dt (.branch b) ctx generator
    ∃ state b', driven.step = ⟨state, .branch b'⟩ ∧ b'.Fits ∧
      BranchStage.Next (.decided true b) (driven.trace.map .entry) (.ofState false state b') := by
  obtain ⟨selector, children, chosen⟩ := b
  simp only [StepKind.tick, StepTick.ofBranch, Bool.false_eq_true, ↓reduceIte]
  cases chosen with
  | none => exact ⟨.complete, _, rfl, ⟨hfits.selector, hfits.chosen⟩, .skipped rfl⟩
  | some index =>
    have hlt : index < children.length := hfits.chosen index rfl
    have hchild : children[index]? = some children[index] := List.getElem?_eq_getElem hlt
    have hsettled := Step.isSettled_tick false dt children[index] ctx generator
    have hfits' := hfits.set index (Step.tick false dt children[index] ctx generator).step
    unfold StepTick.IsSettled at hsettled
    simp only [StepTick.ofChosen, tickChild_of_some hchild, List.nil_append]
    unfold StepTick.ofDriven
    split
    case h_1 hr =>
      rw [hr] at hsettled
      exact ⟨.complete, _, rfl, hfits', .passed rfl hchild dt ctx generator hsettled⟩
    case h_2 hr =>
      rw [hr] at hsettled
      refine ⟨.active, _, rfl, hfits', .held rfl hchild dt ctx generator ?_⟩
      rw [hsettled]
      exact StepState.noConfusion
    case h_3 hr =>
      rw [hr] at hsettled
      exact ⟨.active, _, rfl, hfits', .held rfl hchild dt ctx generator hsettled⟩

/-- A visit that drives a branch takes it along a walk. -/
theorem Step.walk_branch (state : StepState) {b : Branch A C N} (hfits : b.Fits) {v : Visit C}
    (hv : v.Drives (.step ⟨state, .branch b⟩)) :
    ∃ state' b', ((Part.step ⟨state, .branch b⟩).visit v).part = .step ⟨state', .branch b'⟩ ∧
      b'.Fits ∧ BranchStage.Walk (.ofState false state b)
        (((Part.step ⟨state, .branch b⟩).visit v).trace.map .entry)
        (.ofState false state' b') := by
  have hb : (⟨.notStarted, .branch b⟩ : Step A C N) = Step.branch b := rfl
  cases v with
  | reset => exact hv.elim
  | enter ctx generator =>
    obtain rfl : state = .notStarted := eq_of_beq hv
    simp only [Part.visit, hb]
    cases hr : ((Step.branch b).activate ctx generator).result with
    | error e =>
      obtain ⟨hstep, hnext⟩ := Step.next_activate_branch_of_error false hr
      exact ⟨.notStarted, b, congrArg Part.step hstep, hfits, .single hnext⟩
    | ok =>
      obtain ⟨b', hstep, hfits', hnext⟩ := Step.next_activate_branch_of_ok false hfits hr
      exact ⟨.active, b', congrArg Part.step hstep, hfits', .single hnext⟩
  | tick dt ctx generator =>
    cases state with
    | complete =>
      simp only [Part.visit, Step.tick_of_complete (s := ⟨.complete, .branch b⟩) rfl]
      exact ⟨.complete, b, rfl, hfits, .single (.tickedFinished b)⟩
    | active =>
      simp only [Part.visit, Step.tick_of_active (s := ⟨.active, .branch b⟩) rfl]
      obtain ⟨state', b', hstep, hfits', hnext⟩ :=
        StepKind.next_tick_branch hfits dt ctx generator
      exact ⟨state', b', congrArg Part.step hstep, hfits',
        .cons (.tickedDecided b) (.single hnext)⟩
    | notStarted =>
      simp only [Part.visit, hb]
      cases hr : ((Step.branch b).activate ctx generator).result with
      | error e =>
        obtain ⟨hstep, hnext⟩ := Step.next_activate_branch_of_error true hr
        rw [Step.tick_of_entry_error rfl hr]
        exact ⟨.notStarted, b, congrArg Part.step hstep, hfits,
          .cons (.tickedOut b) (.single hnext)⟩
      | ok =>
        obtain ⟨b₁, hstep, hfits₁, hnext⟩ := Step.next_activate_branch_of_ok true hfits hr
        obtain ⟨state', b', hstep', hfits', hnext'⟩ :=
          StepKind.next_tick_branch hfits₁ dt ((Step.branch b).activate ctx generator).context
            ((Step.branch b).activate ctx generator).generator
        rw [Step.tick_of_entry rfl hr]
        simp only [hstep]
        refine ⟨state', b', congrArg Part.step hstep', hfits', ?_⟩
        rw [List.map_cons, List.map_append]
        exact .cons (.tickedOut b) (.cons hnext (.single hnext'))

/-- A branch that follows its news does so along a walk. -/
theorem Part.Follows.walk_branch {due due' : Bool} {part part' : Part A C N} {news : List (News N)}
    (h : Follows due part news due' part') {state : StepState} {b : Branch A C N}
    (hpart : part = .step ⟨state, .branch b⟩) (hfits : b.Fits) :
    ∃ state' b', part' = .step ⟨state', .branch b'⟩ ∧ b'.Fits ∧
      BranchStage.Walk (.ofState due state b) news (.ofState due' state' b') := by
  obtain ⟨told, rfl, h⟩ := h
  induction h generalizing state b with
  | done due part => exact ⟨state, b, hpart, hfits, .nil _⟩
  | @renewed due _ _ _ _ later ih =>
    obtain ⟨state', b', hp, hf, hw⟩ := ih hpart hfits
    have hnext := BranchStage.Next.renewed (BranchStage.isResting_ofState due state b)
    rw [BranchStage.branch_ofState] at hnext
    exact ⟨state', b', hp, hf, .cons hnext hw⟩
  | reset later ih =>
    subst hpart
    obtain ⟨state', b', hp, hf, hw⟩ := ih rfl hfits
    rw [BranchStage.ofState_notStarted] at hw
    exact ⟨state', b', hp, hf, hw⟩
  | entered hun clock ctx generator later ih =>
    subst hpart
    obtain ⟨state₁, b₁, hp₁, hf₁, hw₁⟩ :=
      Step.walk_branch state hfits (v := .enter ctx generator) hun
    obtain ⟨state', b', hp, hf, hw⟩ := ih hp₁ hf₁
    refine ⟨state', b', hp, hf, ?_⟩
    rw [List.map_append, Told.map_news_entry]
    exact hw₁.append hw
  | ticked clock ctx generator later ih =>
    subst hpart
    obtain ⟨state₁, b₁, hp₁, hf₁, hw₁⟩ :=
      Step.walk_branch state hfits (v := .tick clock ctx generator) trivial
    obtain ⟨state', b', hp, hf, hw⟩ := ih hp₁ hf₁
    refine ⟨state', b', hp, hf, ?_⟩
    rw [List.map_append, Told.map_news_entry]
    exact hw₁.append hw

namespace Sequence

/-- Whatever happens to the sequence at the root, the news of every branch are a walk of the
automaton, from the stage that the branch is in before to the one that it is in afterwards, and the
branch chooses once for each activation. The news are the entries that the trace shows at the branch
and behind it, and what is reset or entered anew around it. In a sequence that has not been started
no branch has chosen. -/
theorem branch_lifecycle (s : Sequence A C N) (commands : List (Command C)) {path : List Hop}
    {state : StepState} {b : Branch A C N} (hfits : b.Fits)
    (h : (Part.sequence s).find? path = some (.step ⟨state, .branch b⟩)) :
    ((s.news path commands).filterMap News.entry? = (s.history commands).within path) ∧
      ∃ state' b',
        (Part.sequence (s.after commands)).find? path = some (.step ⟨state', .branch b'⟩) ∧
        let before := BranchStage.ofState ((Part.sequence s).awaitsReset path) state b
        (s.status = .notStarted → before = .out false b) ∧
        before.Walk (s.news path commands)
          (.ofState ((Part.sequence (s.after commands)).awaitsReset path) state' b') ∧
        KeepsChoice before.choice (s.news path commands) := by
  obtain ⟨found', hfound, hfollows⟩ := s.exists_follows commands h
  obtain ⟨state', b', rfl, _, hwalk⟩ := hfollows.walk_branch rfl hfits
  refine ⟨s.entries_news path commands, state', b', hfound, ?_, hwalk, hwalk.keepsChoice⟩
  intro hn
  have hu : (Part.sequence s).isUnstarted = true := beq_iff_eq.mpr hn
  cases path with
  | nil => cases h
  | cons hop path => rw [Part.awaitsReset_of_isUnstarted hu hop path, BranchStage.ofState_true]

/-- A branch as the arm of another branch, in a sequence that repeats. -/
theorem branch_lifecycle_nested :
    let inner : Branch Rehearsal.Act Rehearsal.Stage String :=
      .guarded [(Rehearsal.flagIsSet, Step.leaf (.custom .raiseFlag))] none
    let outer : Branch Rehearsal.Act Rehearsal.Stage String :=
      .guarded [(.always, Step.branch inner)] none
    let s : Sequence Rehearsal.Act Rehearsal.Stage String :=
      (((Builder.new "loop").run (.branch outer)).repeatForever).toSequence (fun _ => .ofSeed 0) 0
    let commands : List (Command Rehearsal.Stage) :=
      [.advance 0.5 ⟨true, 0, false⟩, .reset, .advance 0.5 ⟨false, 0, true⟩]
    let path : List Hop := [.step 0, .child 0]
    inner.Fits ∧
      (Part.sequence s).find? path = some (.step ⟨.notStarted, .branch inner⟩) ∧
      ((s.news path commands).filterMap News.entry? = (s.history commands).within path) ∧
      ∃ state' b',
        (Part.sequence (s.after commands)).find? path = some (.step ⟨state', .branch b'⟩) ∧
        let before := BranchStage.ofState ((Part.sequence s).awaitsReset path) .notStarted inner
        (s.status = .notStarted → before = .out false inner) ∧
        before.Walk (s.news path commands)
          (.ofState ((Part.sequence (s.after commands)).awaitsReset path) state' b') ∧
        KeepsChoice before.choice (s.news path commands) :=
  ⟨Branch.fits_guarded _ _, rfl, branch_lifecycle _ _ (Branch.fits_guarded _ _) rfl⟩

end Sequence

end Sequencer

import Sequencer.Builder.Basic
import Sequencer.Proofs.Letters
import Sequencer.Proofs.Histories
import Sequencer.Rehearsal

/-!
# The life of a leaf

An automaton says in which order the hooks of a leaf are called, and on which instance of its
action: every stage carries the instance on which the next hook is called. `Part.stage?` reads the
stage of a leaf off its tree. What a leaf shows for itself may be stale, since resets are lazy: it
counts as outside as long as something around it is going to reset it before it is used. The main
statement is that the word of a leaf, over any history of the sequence at the root, is a walk of the
automaton between the stages that are read off before and after.
-/

namespace Sequencer

variable {A C N : Type}

/-- The stage that a leaf is in, with the instance on which its next hook is called. A flag says
that the leaf has been ticked, so that the tick has to go on with it. -/
inductive Stage (A C N : Type)
  /-- Not entered. -/
  | out (ticking : Bool) (action : Action A C N)
  | reloaded (ticking : Bool) (action : Action A C N)
  | active (ticking : Bool) (action : Action A C N)
  | updated (action : Action A C N)
  /-- Updated, and reported complete. -/
  | passed (action : Action A C N)
  | finished (action : Action A C N)

namespace Stage

/-- The instance on which the next hook is called. -/
def action : Stage A C N → Action A C N
  | out _ a | reloaded _ a | active _ a | updated a | passed a | finished a => a

def IsResting : Stage A C N → Prop
  | out false _ | active false _ | finished _ => True
  | _ => False

def ofState : StepState → Action A C N → Stage A C N
  | .notStarted, a => out false a
  | .active, a => active false a
  | .complete, a => finished a

/-- The stage of a leaf as its surroundings take it: one that is going to be reset is outside. -/
def behind (due : Bool) (s : Stage A C N) : Stage A C N :=
  if due then out false s.action else s

@[simp] theorem behind_true (s : Stage A C N) : s.behind true = out false s.action := rfl

@[simp] theorem action_behind (due : Bool) (s : Stage A C N) :
    (s.behind due).action = s.action := by
  cases due <;> rfl

@[simp] theorem action_ofState (state : StepState) (a : Action A C N) :
    (ofState state a).action = a := by
  cases state <;> rfl

theorem isResting_ofState (state : StepState) (a : Action A C N) : (ofState state a).IsResting := by
  cases state <;> exact trivial

theorem IsResting.behind {s : Stage A C N} (h : s.IsResting) (due : Bool) :
    (s.behind due).IsResting := by
  cases due with
  | false => exact h
  | true => exact trivial

variable [Behavior A C N]

inductive Next : Stage A C N → Letter → Stage A C N → Prop
  | renewed {s : Stage A C N} (h : s.IsResting) : Next s .renewed (out false s.action)
  | tickedOut (a : Action A C N) : Next (out false a) .ticked (out true a)
  | tickedActive (a : Action A C N) : Next (active false a) .ticked (active true a)
  | tickedFinished (a : Action A C N) : Next (finished a) .ticked (finished a)
  | reloaded (ticking : Bool) (a : Action A C N) :
      Next (out ticking a) .reloaded (reloaded ticking a.reload.2)
  | startFailed (ticking : Bool) {a : Action A C N} (ctx : C) {e : TickError}
      (h : (a.start ctx).result = .error e) :
      Next (reloaded ticking a) (.started (.error e)) (out false (a.start ctx).action)
  | started (ticking : Bool) {a : Action A C N} (ctx : C) (h : (a.start ctx).result = .ok ()) :
      Next (reloaded ticking a) (.started (.ok ())) (active ticking (a.start ctx).action)
  | updateFailed {a : Action A C N} (dt : Float32) (ctx : C) {e : TickError}
      (h : (a.update dt ctx).result = .error e) :
      Next (active true a) (.updated (.error e)) (active false (a.update dt ctx).action)
  | updated {a : Action A C N} (dt : Float32) (ctx : C) (h : (a.update dt ctx).result = .ok ()) :
      Next (active true a) (.updated (.ok ())) (updated (a.update dt ctx).action)
  | checkFailed {a : Action A C N} (ctx : C) {e : TickError}
      (h : (a.check ctx).result = .error e) :
      Next (updated a) (.checked (.error e)) (active false (a.check ctx).action)
  | incomplete {a : Action A C N} (ctx : C) (h : (a.check ctx).result = .ok false) :
      Next (updated a) (.checked (.ok false)) (active false (a.check ctx).action)
  | passed {a : Action A C N} (ctx : C) (h : (a.check ctx).result = .ok true) :
      Next (updated a) (.checked (.ok true)) (passed (a.check ctx).action)
  | endFailed {a : Action A C N} (ctx : C) {e : TickError}
      (h : (a.finish ctx).result = .error e) :
      Next (passed a) (.ended (.error e)) (active false (a.finish ctx).action)
  | ended {a : Action A C N} (ctx : C) (h : (a.finish ctx).result = .ok ()) :
      Next (passed a) (.ended (.ok ())) (finished (a.finish ctx).action)

inductive Walk : Stage A C N → List Letter → Stage A C N → Prop
  | nil (s : Stage A C N) : Walk s [] s
  | cons {s t u : Stage A C N} {letter : Letter} {word : List Letter} (first : Next s letter t)
      (rest : Walk t word u) : Walk s (letter :: word) u

theorem Walk.append {s t u : Stage A C N} {v w : List Letter} (h : Walk s v t) (k : Walk t w u) :
    Walk s (v ++ w) u := by
  induction h with
  | nil s => exact k
  | cons first rest ih => exact .cons first (ih k)

theorem Walk.single {s t : Stage A C N} {letter : Letter} (h : Next s letter t) :
    Walk s [letter] t :=
  .cons h (.nil t)

/-- An instance that is reloaded and does not start leaves the leaf outside. -/
theorem Walk.enter_of_error (ticking : Bool) {a : Action A C N} {ctx : C} {e : TickError}
    (h : (a.enter ctx).result = .error e) :
    Walk (out ticking a) ((a.enter ctx).events.filterMap Event.letter?)
      (out false (a.enter ctx).action) := by
  have hs : (a.reload.2.start ctx).result = .error e := h
  have hw : (a.enter ctx).events.filterMap Event.letter? = [.reloaded, .started (.error e)] := by
    simp [Action.enter, hs]
  rw [hw]
  exact .cons (.reloaded ticking a) (.single (.startFailed ticking ctx hs))

theorem Walk.enter_of_ok (ticking : Bool) {a : Action A C N} {ctx : C} {u : Unit}
    (h : (a.enter ctx).result = .ok u) :
    Walk (out ticking a) ((a.enter ctx).events.filterMap Event.letter?)
      (active ticking (a.enter ctx).action) := by
  have hs : (a.reload.2.start ctx).result = .ok () := h
  have hw : (a.enter ctx).events.filterMap Event.letter? = [.reloaded, .started (.ok ())] := by
    simp [Action.enter, hs]
  rw [hw]
  exact .cons (.reloaded ticking a) (.single (.started ticking ctx hs))

def ofDriven : Except TickError Bool → Action A C N → Stage A C N
  | .ok true, a => finished a
  | _, a => active false a

/-- An active leaf is updated, then checked, then ended, as far as nothing fails. -/
theorem Walk.drive (a : Action A C N) (dt : Float32) (ctx : C) :
    Walk (active true a) ((a.drive dt ctx).events.filterMap Event.letter?)
      (ofDriven (a.drive dt ctx).result (a.drive dt ctx).action) := by
  match hu : (a.update dt ctx).result with
  | .error e =>
    simp only [Action.drive, hu, Action.letters_update, ofDriven]
    exact .single (.updateFailed dt ctx hu)
  | .ok () =>
    have hupdate := Next.updated dt ctx hu
    match hc : ((a.update dt ctx).action.check (a.update dt ctx).context).result with
    | .error e =>
      simp only [Action.drive, hu, hc, List.filterMap_append, Action.letters_update,
        Action.letters_check, ofDriven]
      exact .cons hupdate (.single (.checkFailed _ hc))
    | .ok false =>
      simp only [Action.drive, hu, hc, List.filterMap_append, Action.letters_update,
        Action.letters_check, ofDriven]
      exact .cons hupdate (.single (.incomplete _ hc))
    | .ok true =>
      have hpass := Walk.cons hupdate (.single (.passed _ hc))
      generalize hchecked : (a.update dt ctx).action.check (a.update dt ctx).context = checked
        at hc hpass
      have hw : (checked.events).filterMap Event.letter? = [.checked (.ok true)] := by
        rw [← hc, ← hchecked, Action.letters_check]
      match he : (checked.action.finish checked.context).result with
      | .error e =>
        simp only [Action.drive, hu, hchecked, hc, he, List.filterMap_append,
          Action.letters_update, hw, Action.letters_finish, Except.map, ofDriven]
        exact hpass.append (.single (.endFailed _ he))
      | .ok () =>
        simp only [Action.drive, hu, hchecked, hc, he, List.filterMap_append,
          Action.letters_update, hw, Action.letters_finish, Except.map, ofDriven]
        exact hpass.append (.single (.ended _ he))

end Stage

namespace Part

def stage? : Part A C N → List Hop → Option (Stage A C N)
  | .step ⟨state, .leaf action⟩, [] => some (.ofState state action)
  | _, [] => none
  | part, hop :: path =>
    ((part.child? hop).bind (·.stage? path)).map (Stage.behind (part.renews hop))

theorem stage?_nil_eq_some {part : Part A C N} {stage : Stage A C N}
    (h : part.stage? [] = some stage) :
    ∃ state action, part = .step ⟨state, .leaf action⟩ ∧ stage = .ofState state action := by
  match part with
  | .sequence s => cases h
  | .step ⟨state, .leaf action⟩ => exact ⟨state, action, rfl, (Option.some.inj h).symm⟩
  | .step ⟨state, .nested body⟩ => cases h
  | .step ⟨state, .parallel group⟩ => cases h
  | .step ⟨state, .branch branch⟩ => cases h

theorem stage?_cons_eq_some {part : Part A C N} {hop : Hop} {path : List Hop}
    {stage : Stage A C N} :
    part.stage? (hop :: path) = some stage ↔
      ∃ c own, part.child? hop = some c ∧ c.stage? path = some own ∧
        stage = own.behind (part.renews hop) := by
  simp only [stage?, Option.map_eq_some_iff, Option.bind_eq_some_iff]
  constructor
  · rintro ⟨own, ⟨c, hc, ho⟩, rfl⟩
    exact ⟨c, own, hc, ho, rfl⟩
  · rintro ⟨c, own, hc, ho, rfl⟩
    exact ⟨own, ⟨c, hc, ho⟩, rfl⟩

theorem exists_stage {part : Part A C N} {path : List Hop} {state : StepState}
    {action : Action A C N} (h : part.find? path = some (.step ⟨state, .leaf action⟩)) :
    ∃ stage, part.stage? path = some stage ∧ stage.action = action := by
  induction path generalizing part with
  | nil =>
    obtain rfl : part = _ := Option.some.inj h
    exact ⟨_, rfl, Stage.action_ofState state action⟩
  | cons hop path ih =>
    obtain ⟨c, hc, hf⟩ := find?_cons_eq_some.mp h
    obtain ⟨own, ho, rfl⟩ := ih hf
    exact ⟨_, stage?_cons_eq_some.mpr ⟨c, own, hc, ho, rfl⟩, Stage.action_behind _ own⟩

theorem isResting_of_stage? {part : Part A C N} {path : List Hop} {stage : Stage A C N}
    (h : part.stage? path = some stage) : stage.IsResting := by
  induction path generalizing part stage with
  | nil =>
    obtain ⟨state, action, rfl, rfl⟩ := stage?_nil_eq_some h
    exact Stage.isResting_ofState state action
  | cons hop path ih =>
    obtain ⟨c, own, _, ho, rfl⟩ := stage?_cons_eq_some.mp h
    exact (ih ho).behind _

theorem renews_of_isUnstarted {part : Part A C N} (h : part.isUnstarted = true) (hop : Hop) :
    part.renews hop = true := by
  match part with
  | .sequence s => exact h
  | .step ⟨state, kind⟩ =>
    have hs : (state == .notStarted) = true := h
    cases kind <;> cases hop <;> simp [renews, hs]

theorem stage?_of_isUnstarted {part : Part A C N} (h : part.isUnstarted = true) {path : List Hop}
    {stage : Stage A C N} (hs : part.stage? path = some stage) :
    stage = .out false stage.action := by
  cases path with
  | nil =>
    obtain ⟨state, action, rfl, rfl⟩ := stage?_nil_eq_some hs
    obtain rfl : state = .notStarted := eq_of_beq h
    rfl
  | cons hop path =>
    obtain ⟨c, own, _, _, rfl⟩ := stage?_cons_eq_some.mp hs
    rw [renews_of_isUnstarted h hop]
    rfl

theorem isUnstarted_reset (part : Part A C N) : part.reset.isUnstarted = true := by
  match part with
  | .sequence s => simp [reset, isUnstarted]
  | .step s => rfl

/-- A reset leaves every leaf outside, and its instance as it is. -/
theorem stage?_reset {part : Part A C N} {path : List Hop} {stage : Stage A C N}
    (h : part.stage? path = some stage) :
    part.reset.stage? path = some (.out false stage.action) := by
  induction path generalizing part stage with
  | nil =>
    obtain ⟨state, action, rfl, rfl⟩ := stage?_nil_eq_some h
    rw [Stage.action_ofState]
    rfl
  | cons hop path ih =>
    obtain ⟨c, own, hc, ho, rfl⟩ := stage?_cons_eq_some.mp h
    have hr := renews_of_isUnstarted part.isUnstarted_reset hop
    rw [stage?_cons_eq_some, hr]
    match part with
    | .sequence s =>
      refine ⟨c.reset, _, child?_sequence_reset hc, ih ho, ?_⟩
      rw [Stage.action_behind]
      rfl
    | .step s =>
      refine ⟨c, own, (child?_step_reset s hop).trans hc, ho, ?_⟩
      rw [Stage.action_behind]
      rfl

end Part

variable [Behavior A C N]

/-- Whether a visit is one in which hooks may be called: a tick, or an entrance that is due. -/
def Visit.Drives (part : Part A C N) : Visit C → Prop
  | .reset => False
  | .enter .. => part.isUnstarted = true
  | .tick .. => True

omit [Behavior A C N] in
theorem Visit.Drives.ne_reset {part : Part A C N} {v : Visit C} (h : v.Drives part) :
    v ≠ .reset := by
  rintro rfl
  exact h

/-- If every visit of a part takes a leaf of it along a walk, so does every trace of its owner. -/
theorem Seen.walk {hop : Hop} {clock : Float32} {due due' : Bool} {part part' : Part A C N}
    {t : Trace N} {n : Nat} (hs : Seen hop clock due part t n due' part') {path : List Hop}
    (ih : ∀ (c : Part A C N) (v : Visit C) (stage : Stage A C N), v.Drives c →
      c.stage? path = some stage → ∃ later, (c.visit v).part.stage? path = some later ∧
        stage.Walk ((c.visit v).trace.letters path) later)
    {stage : Stage A C N} (h : part.stage? path = some stage) :
    ∃ later, part'.stage? path = some later ∧
      (stage.behind due).Walk (t.letters (hop :: path)) (later.behind due') := by
  induction hs generalizing stage with
  | done due part => exact ⟨stage, h, .nil _⟩
  | @own due due' part part' t n event later ihs =>
    obtain ⟨stage', h', hw⟩ := ihs h
    refine ⟨stage', h', ?_⟩
    rw [Trace.letters_cons_own]
    cases hr : event.reenters hop with
    | false => simpa [hr] using hw
    | true =>
      have hrest := (Part.isResting_of_stage? h).behind due
      rw [hr, Bool.or_true, Stage.behind_true, ← Stage.action_behind due stage] at hw
      exact .cons (.renewed hrest) hw
  | aside hne place event later ihs =>
    obtain ⟨stage', h', hw⟩ := ihs h
    exact ⟨stage', h', by rwa [Trace.letters_cons_of_ne hne]⟩
  | reset later ihs =>
    obtain ⟨stage', h', hw⟩ := ihs (Part.stage?_reset h)
    exact ⟨stage', h', hw⟩
  | @entered due' part part' t n hun ctx generator later ihs =>
    obtain ⟨mid, hm, hw⟩ := ih part (.enter ctx generator) stage hun h
    obtain ⟨stage', h', hw'⟩ := ihs hm
    refine ⟨stage', h', ?_⟩
    rw [Trace.letters_append, Trace.letters_under]
    exact hw.append hw'
  | @ticked due' part part' t n ctx generator later ihs =>
    obtain ⟨mid, hm, hw⟩ := ih part (.tick clock ctx generator) stage trivial h
    obtain ⟨stage', h', hw'⟩ := ihs hm
    refine ⟨stage', h', ?_⟩
    rw [Trace.letters_append, Trace.letters_under]
    exact hw.append hw'

theorem Trace.letters_ticked (t : Trace N) :
    letters [] (⟨[], .ticked⟩ :: t) = .ticked :: letters [] t :=
  rfl

theorem Step.activate_leaf_of_error {a : Action A C N} {ctx : C} {e : TickError}
    (h : (a.enter ctx).result = .error e) (generator : Generator) :
    (Step.leaf a).activate ctx generator =
      ⟨Trace.here (a.enter ctx).events, (a.enter ctx).context, generator,
        Step.leaf (a.enter ctx).action, .error e⟩ := by
  simp [Step.activate, Step.leaf, Step.ofKind, h]

theorem Step.activate_leaf_of_ok {a : Action A C N} {ctx : C} {u : Unit}
    (h : (a.enter ctx).result = .ok u) (generator : Generator) :
    (Step.leaf a).activate ctx generator =
      ⟨Trace.here (a.enter ctx).events ++ Trace.line (.stepActivated .leaf), (a.enter ctx).context,
        generator, ⟨.active, .leaf (a.enter ctx).action⟩, .ok ()⟩ := by
  simp [Step.activate, Step.leaf, Step.ofKind, h]

theorem StepKind.walk_tick_leaf (a : Action A C N) (dt : Float32) (ctx : C)
    (generator : Generator) :
    let t := StepKind.tick false dt (.leaf a) ctx generator
    ∃ later, (Part.step t.step).stage? [] = some later ∧
      (Stage.active true a).Walk (t.trace.letters []) later := by
  have hw := Stage.Walk.drive a dt ctx
  simp only [StepKind.tick, StepTick.ofAction, activation, Bool.false_eq_true, ↓reduceIte,
    Trace.here_nil, List.nil_append, StepTick.ofDriven]
  split
  case h_1 hr =>
    rw [hr] at hw
    refine ⟨_, rfl, ?_⟩
    rw [Trace.letters_append, Trace.letters_here, Trace.letters_line, List.append_nil]
    exact hw
  case h_2 hr =>
    rw [hr] at hw
    exact ⟨_, rfl, by rwa [Trace.letters_here]⟩
  case h_3 hr =>
    rw [hr] at hw
    exact ⟨_, rfl, by rwa [Trace.letters_here]⟩

theorem Step.walk_leaf (state : StepState) (a : Action A C N) {v : Visit C}
    (hv : v.Drives (.step ⟨state, .leaf a⟩)) :
    ∃ later, ((Part.step ⟨state, .leaf a⟩).visit v).part.stage? [] = some later ∧
      (Stage.ofState state a).Walk (((Part.step ⟨state, .leaf a⟩).visit v).trace.letters [])
        later := by
  cases v with
  | reset => exact absurd rfl hv.ne_reset
  | enter ctx generator =>
    obtain rfl : state = .notStarted := eq_of_beq hv
    have hl : (⟨.notStarted, .leaf a⟩ : Step A C N) = Step.leaf a := rfl
    cases he : (a.enter ctx).result with
    | error e =>
      simp only [Part.visit, hl, Step.activate_leaf_of_error he, Trace.letters_here]
      exact ⟨_, rfl, .enter_of_error false he⟩
    | ok entered =>
      simp only [Part.visit, hl, Step.activate_leaf_of_ok he, Trace.letters_append,
        Trace.letters_here, Trace.letters_line, List.append_nil]
      exact ⟨_, rfl, .enter_of_ok false he⟩
  | tick dt ctx generator =>
    cases state with
    | complete =>
      simp only [Part.visit, Step.tick_of_complete (s := ⟨.complete, .leaf a⟩) rfl]
      exact ⟨_, rfl, .single (.tickedFinished a)⟩
    | active =>
      simp only [Part.visit, Step.tick_of_active (s := ⟨.active, .leaf a⟩) rfl]
      obtain ⟨later, hl, hw⟩ := StepKind.walk_tick_leaf a dt ctx generator
      exact ⟨later, hl, .cons (.tickedActive a) hw⟩
    | notStarted =>
      have hl : (⟨.notStarted, .leaf a⟩ : Step A C N) = Step.leaf a := rfl
      cases he : (a.enter ctx).result with
      | error e =>
        have hact := Step.activate_leaf_of_error he generator
        have ht := Step.tick_of_entry_error (s := Step.leaf a) rfl (by rw [hact]) dt
        simp only [Part.visit, hl, ht, hact, Trace.letters_ticked, Trace.letters_here]
        exact ⟨_, rfl, .cons (.tickedOut a) (.enter_of_error true he)⟩
      | ok entered =>
        have hact := Step.activate_leaf_of_ok he generator
        have ht := Step.tick_of_entry (s := Step.leaf a) rfl (u := ()) (by rw [hact]) dt
        obtain ⟨later, hl', hw⟩ := StepKind.walk_tick_leaf (a.enter ctx).action dt
          (a.enter ctx).context generator
        simp only [Part.visit, hl, ht, hact, Trace.letters_ticked, Trace.letters_append,
          Trace.letters_here, Trace.letters_line, List.append_nil]
        exact ⟨later, hl', .cons (.tickedOut a) ((Stage.Walk.enter_of_ok true he).append hw)⟩

/-- A visit of a part takes every leaf in it along a walk. -/
theorem Part.walk_visit (part : Part A C N) (v : Visit C) (path : List Hop)
    {stage : Stage A C N} (hv : v.Drives part) (h : part.stage? path = some stage) :
    ∃ later, (part.visit v).part.stage? path = some later ∧
      stage.Walk ((part.visit v).trace.letters path) later := by
  induction path generalizing part v stage with
  | nil =>
    obtain ⟨state, action, rfl, rfl⟩ := Part.stage?_nil_eq_some h
    exact Step.walk_leaf state action hv
  | cons hop path ih =>
    obtain ⟨c, own, hc, ho, rfl⟩ := Part.stage?_cons_eq_some.mp h
    obtain ⟨clock, ht⟩ := v.exists_ticksAt
    obtain ⟨n, _, c', hc', hs⟩ := part.seen_visit hv.ne_reset ht hc
    obtain ⟨own', ho', hw⟩ := hs.walk (fun c v stage => ih c v) ho
    exact ⟨_, Part.stage?_cons_eq_some.mpr ⟨c', own', hc', ho', rfl⟩, hw⟩

namespace Sequence

def lettersOf (s : Sequence A C N) (path : List Hop) : Command C → List Letter
  | .advance dt ctx => (s.advance dt ctx).trace.letters path
  | .reset => [.renewed]

def word (s : Sequence A C N) (path : List Hop) : List (Command C) → List Letter
  | [] => []
  | command :: later => s.lettersOf path command ++ (s.obey command).word path later

theorem walk_obey (s : Sequence A C N) (command : Command C) {path : List Hop}
    {stage : Stage A C N} (h : (Part.sequence s).stage? path = some stage) :
    ∃ later, (Part.sequence (s.obey command)).stage? path = some later ∧
      stage.Walk (s.lettersOf path command) later := by
  cases command with
  | advance dt ctx => exact (Part.sequence s).walk_visit (.tick dt ctx s.generator) path trivial h
  | reset =>
    have hrest := Part.isResting_of_stage? h
    exact ⟨_, Part.stage?_reset h, .single (.renewed hrest)⟩

theorem walk_word (s : Sequence A C N) (commands : List (Command C)) {path : List Hop}
    {stage : Stage A C N} (h : (Part.sequence s).stage? path = some stage) :
    ∃ later, (Part.sequence (s.after commands)).stage? path = some later ∧
      stage.Walk (s.word path commands) later := by
  induction commands generalizing s stage with
  | nil => exact ⟨stage, h, .nil stage⟩
  | cons command commands ih =>
    obtain ⟨mid, hm, hw⟩ := s.walk_obey command h
    obtain ⟨later, hl, hw'⟩ := ih (s.obey command) hm
    exact ⟨later, hl, hw.append hw'⟩

/-- But for renewals, the word of a leaf lists its ticks and the calls of its hooks. -/
theorem filter_word (s : Sequence A C N) (path : List Hop) (commands : List (Command C)) :
    (s.word path commands).filter (!·.isRenewal) =
      ((s.history commands).eventsAt path).filterMap Event.letter? := by
  rw [← Trace.filter_letters]
  induction commands generalizing s with
  | nil => rfl
  | cons command commands ih =>
    rw [word, history, Trace.letters_append, List.filter_append, List.filter_append, ih]
    cases command <;> rfl

/-- Whatever happens to the sequence at the root, the word of every leaf is a walk of the automaton,
from the stage that the leaf is in before to the one that it is in afterwards, and the hooks called
in it are those that the trace shows at the leaf. In a sequence that has not been started every leaf
is outside. -/
theorem leaf_lifecycle (s : Sequence A C N) (commands : List (Command C)) {path : List Hop}
    {state : StepState} {action : Action A C N}
    (h : (Part.sequence s).find? path = some (.step ⟨state, .leaf action⟩)) :
    ((s.word path commands).filter (!·.isRenewal) =
        ((s.history commands).eventsAt path).filterMap Event.letter?) ∧
      ∃ stage later, (Part.sequence s).stage? path = some stage ∧ stage.action = action ∧
        (s.status = .notStarted → stage = .out false action) ∧
        (Part.sequence (s.after commands)).stage? path = some later ∧
        stage.Walk (s.word path commands) later := by
  obtain ⟨stage, hs, ha⟩ := Part.exists_stage h
  obtain ⟨later, hl, hw⟩ := s.walk_word commands hs
  refine ⟨s.filter_word path commands, stage, later, hs, ha, ?_, hl, hw⟩
  intro hn
  have hu : (Part.sequence s).isUnstarted = true := beq_iff_eq.mpr hn
  rw [Part.stage?_of_isUnstarted hu hs, ha]

/-- The leaf in an arm of a branch, in a sequence that repeats: entered, given up by a reset, and
entered again. -/
theorem leaf_lifecycle_in_branch :
    let arm := (Rehearsal.flagIsSet, Step.leaf (.custom .raiseFlag))
    let s : Sequence Rehearsal.Act Rehearsal.Stage String :=
      (((Builder.new "loop").run (.branch (.guarded [arm] none))).repeatForever).toSequence
        (fun _ => .ofSeed 0) 0
    let commands : List (Command Rehearsal.Stage) :=
      [.advance 0.5 ⟨true, 0, false⟩, .reset, .advance 0.5 ⟨true, 0, false⟩]
    let path : List Hop := [.step 0, .child 0]
    (Part.sequence s).find? path = some (.step ⟨.notStarted, .leaf (.custom .raiseFlag)⟩) ∧
      ((s.word path commands).filter (!·.isRenewal) =
        ((s.history commands).eventsAt path).filterMap Event.letter?) ∧
      ∃ stage later, (Part.sequence s).stage? path = some stage ∧
        stage.action = .custom .raiseFlag ∧
        (s.status = .notStarted → stage = .out false (.custom .raiseFlag)) ∧
        (Part.sequence (s.after commands)).stage? path = some later ∧
        stage.Walk (s.word path commands) later :=
  ⟨rfl, leaf_lifecycle _ _ rfl⟩

end Sequence

end Sequencer

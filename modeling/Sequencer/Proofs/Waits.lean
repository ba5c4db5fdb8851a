import Sequencer.Builder.Basic
import Sequencer.Proofs.Chronicles
import Sequencer.Rehearsal

/-!
# Waits end on time

An automaton says what a wait may be told. It adds up the lengths of the ticks in which the wait is
ticked, from the reload on, and wants the wait to complete in the first tick that brings the sum up
to the duration. It reads the chronicle of every wait, over any history of the sequence at the root.
The tick that reaches the step counts in full, whatever else it does; a tick that only enters it for
the pass to come does not count.
-/

namespace Sequencer

variable {A C N : Type}

def Wait.total (deltas : List Float32) : Float32 := deltas.foldl (· + ·) 0

/-- Whether the time of a wait is over after ticks of these lengths. -/
def Wait.isDue (duration : Float32) (deltas : List Float32) : Bool := total deltas ≥ duration

/-- The events with which a wait is counted in a tick. -/
def Wait.turn (due : Bool) : List (Event N) :=
  [.updated (.ok ()), .checked (.ok due)] ++
    if due then [.ended (.ok ()), .log (.stepComplete .leaf)] else []

theorem Action.turn_wait [Behavior A C N] (duration clock : Float32) (deltas : List Float32)
    (ctx : C) :
    let a : Action A C N := .wait ⟨duration, Wait.total deltas⟩
    let due := Wait.isDue duration (deltas ++ [clock])
    a.turn clock ctx = Wait.turn due ∧
      (a.drive clock ctx).action = .wait ⟨duration, Wait.total (deltas ++ [clock])⟩ ∧
      (a.drive clock ctx).result = .ok due := by
  have htotal : Wait.total (deltas ++ [clock]) = Wait.total deltas + clock := by
    simp [Wait.total]
  have hover : (Wait.mk duration (Wait.total deltas + clock)).isOver =
      Wait.isDue duration (deltas ++ [clock]) := by
    rw [Wait.isDue, htotal, Wait.isOver]
  cases hdue : Wait.isDue duration (deltas ++ [clock]) <;>
    simp [turn, drive, update, check, finish, Wait.addTime, Wait.turn, htotal, hover, hdue,
      Except.map]

section Past

/-- The events with which a wait is entered. -/
def Wait.entrance : List (Event N) :=
  [.reloaded, .started (.ok ()), .log (.stepActivated .leaf)]

/-- Whether the news leave the step in the activation that it is in. -/
def Told.isWithin : Told N → Bool
  | .renewed => false
  | .entry _ ⟨[], .reloaded⟩ => false
  | .entry _ ⟨[], .log (.stepComplete _)⟩ => false
  | _ => true

/-- The length of the tick, if the news are that the step was updated. -/
def Told.delta? : Told N → Option Float32
  | .entry clock ⟨[], .updated _⟩ => some clock
  | _ => none

/-- The step is in an activation, and has been updated in ticks of the given lengths since its
reload. -/
def InActivation (before : List (Told N)) (deltas : List Float32) : Prop :=
  ∃ earlier start stretch, before = earlier ++ Event.reloaded.told start :: stretch ∧
    (∀ l ∈ stretch, l.isWithin = true) ∧ stretch.filterMap Told.delta? = deltas

/-- The step has completed, and nothing around it has been reset since. -/
def HasCompleted (before : List (Told N)) : Prop :=
  ∃ earlier clock stretch,
    before = earlier ++ (Event.log (.stepComplete .leaf)).told clock :: stretch ∧
      ∀ l ∈ stretch, l.isWithin = true

/-- The given events are the last ones, all in a tick of the given length. -/
def EndsWith (before : List (Told N)) (clock : Float32) (events : List (Event N)) : Prop :=
  events.map (Event.told clock) <:+ before

theorem EndsWith.snoc {before : List (Told N)} {clock : Float32} {events : List (Event N)}
    (h : EndsWith before clock events) (e : Event N) :
    EndsWith (before ++ [e.told clock]) clock (events ++ [e]) := by
  obtain ⟨earlier, rfl⟩ := h
  exact ⟨earlier, by simp⟩

theorem EndsWith.single (before : List (Told N)) (clock : Float32) (e : Event N) :
    EndsWith (before ++ [e.told clock]) clock [e] :=
  List.suffix_append before _

theorem InActivation.start (before : List (Told N)) (clock : Float32) :
    InActivation (before ++ [Event.reloaded.told clock]) [] :=
  ⟨before, clock, [], rfl, by simp, rfl⟩

theorem InActivation.snoc {before : List (Told N)} {deltas : List Float32}
    (h : InActivation before deltas) {l : Told N} (hl : l.isWithin = true) :
    InActivation (before ++ [l]) (deltas ++ l.delta?.toList) := by
  obtain ⟨earlier, start, stretch, rfl, hstretch, rfl⟩ := h
  refine ⟨earlier, start, stretch ++ [l], by simp, ?_, ?_⟩
  · intro k hk
    rcases List.mem_append.mp hk with hk | hk
    · exact hstretch k hk
    · rwa [List.mem_singleton.mp hk]
  · cases hd : l.delta? <;> simp [List.filterMap_append, hd]

theorem InActivation.snoc_of_none {before : List (Told N)} {deltas : List Float32}
    (h : InActivation before deltas) {l : Told N} (hl : l.isWithin = true)
    (hd : l.delta? = none) : InActivation (before ++ [l]) deltas := by
  have hs := h.snoc hl
  rwa [hd, Option.toList_none, List.append_nil] at hs

theorem HasCompleted.snoc {before : List (Told N)} (h : HasCompleted before) {l : Told N}
    (hl : l.isWithin = true) : HasCompleted (before ++ [l]) := by
  obtain ⟨earlier, clock, stretch, rfl, hstretch⟩ := h
  refine ⟨earlier, clock, stretch ++ [l], by simp, ?_⟩
  intro k hk
  rcases List.mem_append.mp hk with hk | hk
  · exact hstretch k hk
  · rwa [List.mem_singleton.mp hk]

/-- The time of a wait was over after none of the ticks. -/
def NeverDue (duration : Float32) (deltas : List Float32) : Prop :=
  ∀ first, first <+: deltas → first ≠ [] → Wait.isDue duration first = false

theorem neverDue_nil (duration : Float32) : NeverDue duration [] :=
  fun _ h hne => absurd (List.prefix_nil.mp h) hne

theorem NeverDue.snoc {duration clock : Float32} {deltas : List Float32}
    (h : NeverDue duration deltas) (hlast : Wait.isDue duration (deltas ++ [clock]) = false) :
    NeverDue duration (deltas ++ [clock]) := by
  intro first hfirst hne
  rcases List.prefix_concat_iff.mp hfirst with rfl | hfirst
  · exact hlast
  · exact h first hfirst hne

end Past

/-- The stage that a wait is in. Once its leaf has been ticked, the tick has to go on with it, and
the stage tells the length of the tick. -/
inductive WaitStage
  /-- Not entered. -/
  | out (ticking : Option Float32)
  | reloaded (ticking : Option Float32)
  | started (ticking : Option Float32)
  /-- Active, after ticks of the given lengths. -/
  | running (ticking : Option Float32) (deltas : List Float32)
  /-- The tick has been added. -/
  | counted (clock : Float32) (deltas : List Float32)
  /-- The time is over; the leaf is about to complete. -/
  | elapsed (clock : Float32)
  | ended (clock : Float32)
  | finished

namespace WaitStage

def isResting : WaitStage → Bool
  | out none | running none _ | finished => true
  | _ => false

/-- The stage after an event at the leaf, in a tick of the given length. -/
def after (duration clock : Float32) : WaitStage → Event N → Option WaitStage
  | out none, .ticked => some (out (some clock))
  | running none deltas, .ticked => some (running (some clock) deltas)
  | finished, .ticked => some finished
  | out ticking, .reloaded =>
    if ∀ c ∈ ticking, c = clock then some (reloaded ticking) else none
  | reloaded ticking, .started (.ok ()) =>
    if ∀ c ∈ ticking, c = clock then some (started ticking) else none
  | started ticking, .log (.stepActivated .leaf) =>
    if ∀ c ∈ ticking, c = clock then some (running ticking []) else none
  | running (some c) deltas, .updated (.ok ()) =>
    if c = clock then some (counted c (deltas ++ [c])) else none
  | counted c deltas, .checked (.ok answer) =>
    if c = clock ∧ answer = Wait.isDue duration deltas then
      some (if answer then elapsed c else running none deltas)
    else none
  | elapsed c, .ended (.ok ()) => if c = clock then some (ended c) else none
  | ended c, .log (.stepComplete .leaf) => if c = clock then some finished else none
  | _, _ => none

def next (duration : Float32) (stage : WaitStage) : Told N → Option WaitStage
  | .renewed => if stage.isResting then some (out none) else none
  | .entry clock ⟨[], e⟩ => stage.after duration clock e
  | .entry _ ⟨_ :: _, _⟩ => none

inductive Fits (duration : Float32) :
    WaitStage → Option Float32 → StepState → Action A C N → Prop
  | out (ticking : Option Float32) (elapsed : Float32) :
    Fits duration (out ticking) ticking .notStarted (.wait ⟨duration, elapsed⟩)
  | running (ticking : Option Float32) (deltas : List Float32) :
    Fits duration (running ticking deltas) ticking .active
      (.wait ⟨duration, Wait.total deltas⟩)
  | finished (elapsed : Float32) :
    Fits duration finished none .complete (.wait ⟨duration, elapsed⟩)

theorem Fits.isResting {duration : Float32} {stage : WaitStage} {state : StepState}
    {a : Action A C N} (h : Fits duration stage none state a) : stage.isResting = true := by
  cases h <;> rfl

variable [Behavior A C N]

theorem reader (duration : Float32) :
    LeafReader (next (N := N) duration) (Fits (A := A) (C := C) duration) where
  renewed h := by
    cases h with
    | out _ elapsed => exact ⟨_, rfl, .out none elapsed⟩
    | running _ deltas => exact ⟨_, rfl, .out none _⟩
    | finished elapsed => exact ⟨_, rfl, .out none elapsed⟩
  ticked h hs clock := by
    cases h with
    | out _ elapsed => exact ⟨_, rfl, .out (some clock) elapsed⟩
    | running _ deltas => exact ⟨_, rfl, .running (some clock) deltas⟩
    | finished => exact absurd rfl hs
  tickedComplete h clock := by
    cases h with
    | finished elapsed => exact ⟨_, rfl, .finished elapsed⟩
  entered {_ ticking _} h clock ht ctx := by
    cases h with
    | out _ elapsed =>
      have hreloaded : next (N := N) duration (out ticking) (Event.reloaded.told clock) =
          some (reloaded ticking) := by
        cases ticking with
        | none => rfl
        | some c => exact if_pos ht
      have hstarted : next (N := N) duration (reloaded ticking)
          ((Event.started (.ok ())).told clock) = some (started ticking) := if_pos ht
      have hactive : next (N := N) duration (started ticking)
          ((Event.log (.stepActivated .leaf)).told clock) = some (running ticking []) := if_pos ht
      exact ⟨rfl, running ticking [], .cons hreloaded (.cons hstarted (.cons hactive (.nil _ _))),
        .running ticking []⟩
  driven {_ clock _} h ctx := by
    cases h with
    | running _ deltas =>
      have hupdated : next (N := N) duration (running (some clock) deltas)
          ((Event.updated (.ok ())).told clock) = some (counted clock (deltas ++ [clock])) :=
        if_pos rfl
      have hchecked : next (N := N) duration (counted clock (deltas ++ [clock]))
          ((Event.checked (.ok (Wait.isDue duration (deltas ++ [clock])))).told clock) = some
            (if Wait.isDue duration (deltas ++ [clock]) then elapsed clock
              else running none (deltas ++ [clock])) := if_pos ⟨rfl, rfl⟩
      obtain ⟨hturn, haction, hresult⟩ :=
        Action.turn_wait (A := A) (N := N) duration clock deltas ctx
      rw [hturn, haction, hresult]
      cases hdue : Wait.isDue duration (deltas ++ [clock]) with
      | false =>
        rw [hdue] at hchecked
        exact ⟨running none (deltas ++ [clock]), .cons hupdated (.cons hchecked (.nil _ _)),
          .running none _⟩
      | true =>
        rw [hdue] at hchecked
        have hended : next (N := N) duration (elapsed clock) ((Event.ended (.ok ())).told clock) =
            some (ended clock) := if_pos rfl
        have hcomplete : next (N := N) duration (ended clock)
            ((Event.log (.stepComplete .leaf)).told clock) = some finished := if_pos rfl
        exact ⟨finished,
          .cons hupdated (.cons hchecked (.cons hended (.cons hcomplete (.nil _ _)))),
          .finished _⟩

section Required

omit [Behavior A C N]

variable {duration : Float32} {stage stage' : WaitStage} {l : Told N} {letters : List (Told N)}

/-- What has to have been told when a stage is reached. -/
def Past (duration : Float32) (before : List (Told N)) : WaitStage → Prop
  | out none => True
  | out (some c) => EndsWith before c [.ticked]
  | reloaded ticking =>
    InActivation before [] ∧ ∀ c ∈ ticking, EndsWith before c [.ticked, .reloaded]
  | started ticking =>
    InActivation before [] ∧
      ∀ c ∈ ticking, EndsWith before c [.ticked, .reloaded, .started (.ok ())]
  | running none deltas => InActivation before deltas ∧ NeverDue duration deltas
  | running (some c) deltas =>
    (InActivation before deltas ∧ NeverDue duration deltas) ∧
      (EndsWith before c [.ticked] ∨ EndsWith before c (.ticked :: Wait.entrance))
  | counted c deltas =>
    (InActivation before deltas ∧
      ∃ earlier, deltas = earlier ++ [c] ∧ NeverDue duration earlier) ∧
        EndsWith before c [.updated (.ok ())]
  | elapsed c => EndsWith before c [.updated (.ok ()), .checked (.ok true)]
  | ended c => EndsWith before c [.updated (.ok ()), .checked (.ok true), .ended (.ok ())]
  | finished => HasCompleted before

theorem Past.next {before : List (Told N)} (h : Past duration before stage)
    (hnext : WaitStage.next duration stage l = some stage') :
    Past duration (before ++ [l]) stage' := by
  unfold WaitStage.next at hnext
  split at hnext
  case h_1 =>
    split at hnext <;> cases hnext
    trivial
  case h_3 => cases hnext
  case h_2 clock e =>
    unfold after at hnext
    split at hnext
    case h_1 =>
      cases hnext
      exact .single before clock _
    case h_2 deltas =>
      cases hnext
      exact ⟨⟨h.1.snoc_of_none rfl rfl, h.2⟩, .inl (.single before clock _)⟩
    case h_3 =>
      cases hnext
      exact h.snoc rfl
    case h_4 ticking =>
      split at hnext
      case isFalse => cases hnext
      case isTrue hclock =>
        cases hnext
        refine ⟨.start before clock, ?_⟩
        rintro c rfl
        obtain rfl := hclock c rfl
        exact h.snoc _
    case h_5 ticking =>
      split at hnext
      case isFalse => cases hnext
      case isTrue hclock =>
        cases hnext
        refine ⟨h.1.snoc_of_none rfl rfl, fun c hc => ?_⟩
        obtain rfl := hclock c hc
        exact (h.2 c hc).snoc _
    case h_6 ticking =>
      split at hnext
      case isFalse => cases hnext
      case isTrue hclock =>
        cases hnext
        have hactive :=
          h.1.snoc_of_none (l := (Event.log (.stepActivated .leaf)).told clock) rfl rfl
        cases ticking with
        | none => exact ⟨hactive, neverDue_nil duration⟩
        | some c =>
          obtain rfl := hclock c rfl
          exact ⟨⟨hactive, neverDue_nil duration⟩, .inr ((h.2 c rfl).snoc _)⟩
    case h_7 c deltas =>
      split at hnext
      case isFalse => cases hnext
      case isTrue hclock =>
        cases hnext
        subst hclock
        exact ⟨⟨h.1.1.snoc rfl, deltas, rfl, h.1.2⟩, .single before c _⟩
    case h_8 c deltas answer =>
      split at hnext
      case isFalse => cases hnext
      case isTrue hchecked =>
        obtain ⟨rfl, hanswer⟩ := hchecked
        cases hnext
        cases answer with
        | true => exact h.2.snoc _
        | false =>
          obtain ⟨⟨hactive, earlier, rfl, hnever⟩, -⟩ := h
          exact ⟨hactive.snoc_of_none rfl rfl, hnever.snoc hanswer.symm⟩
    case h_9 c =>
      split at hnext
      case isFalse => cases hnext
      case isTrue hclock =>
        cases hnext
        subst hclock
        exact EndsWith.snoc h _
    case h_10 c =>
      split at hnext
      case isFalse => cases hnext
      case isTrue hclock =>
        cases hnext
        exact ⟨before, clock, [], rfl, by simp⟩
    case h_11 => cases hnext

/-- Whatever is read has been told as the stage requires. -/
theorem past_of_reads {before : List (Told N)}
    (h : Reads (WaitStage.next duration) (out none) before stage) : Past duration before stage :=
  h.induct trivial fun _ _ _ _ => Past.next

/-- The length of the tick that has to go on. -/
def clock? : WaitStage → Option Float32
  | out ticking | reloaded ticking | started ticking | running ticking _ => ticking
  | counted c _ | elapsed c | ended c => some c
  | finished => none

/-- What is still to come in the tick, if the tick has to go on. -/
def owed (duration : Float32) : WaitStage → List (Event N)
  | out (some c) => Wait.entrance ++ Wait.turn (Wait.isDue duration [c])
  | reloaded (some c) => Wait.entrance.drop 1 ++ Wait.turn (Wait.isDue duration [c])
  | started (some c) => Wait.entrance.drop 2 ++ Wait.turn (Wait.isDue duration [c])
  | running (some c) deltas => Wait.turn (Wait.isDue duration (deltas ++ [c]))
  | counted _ deltas => (Wait.turn (Wait.isDue duration deltas)).drop 1
  | elapsed _ => [.ended (.ok ()), .log (.stepComplete .leaf)]
  | ended _ => [.log (.stepComplete .leaf)]
  | _ => []

theorem clock?_of_isResting (h : stage.isResting = true) : stage.clock? = none := by
  cases stage with
  | out ticking | running ticking => cases ticking <;> first | rfl | cases h
  | finished => rfl
  | _ => cases h

/-- A stage of a tick is left by the event that is due next. -/
theorem owed_next (hnext : WaitStage.next duration stage l = some stage') {c : Float32}
    (hc : stage.clock? = some c) :
    ∃ e, l = Event.told c e ∧ stage.owed duration = e :: stage'.owed duration ∧
      (stage'.clock? = some c ∨ stage'.owed (N := N) duration = []) := by
  unfold WaitStage.next at hnext
  split at hnext
  case h_1 =>
    split at hnext
    case isTrue hrest =>
      obtain hnone := clock?_of_isResting hrest
      cases hnone.symm.trans hc
    case isFalse => cases hnext
  case h_3 => cases hnext
  case h_2 clock e =>
    unfold after at hnext
    split at hnext
    case h_1 | h_2 | h_3 => cases hc
    case h_11 => cases hnext
    case h_8 deltas answer =>
      split at hnext
      case isFalse => cases hnext
      case isTrue hchecked =>
        obtain ⟨rfl, rfl⟩ := hchecked
        cases hnext
        cases hc
        refine ⟨_, rfl, ?_⟩
        rw [owed, Wait.turn]
        cases Wait.isDue duration deltas with
        | true => exact ⟨rfl, .inl rfl⟩
        | false => exact ⟨rfl, .inr rfl⟩
    case h_10 =>
      split at hnext
      case isFalse => cases hnext
      case isTrue hclock =>
        cases hnext
        cases hc
        subst hclock
        exact ⟨_, rfl, rfl, .inr rfl⟩
    case h_4 | h_5 | h_6 =>
      split at hnext
      case isFalse => cases hnext
      case isTrue hclock =>
        cases hnext
        obtain rfl := hc
        obtain rfl := hclock c rfl
        exact ⟨_, rfl, rfl, .inl rfl⟩
    case h_7 | h_9 =>
      split at hnext
      case isFalse => cases hnext
      case isTrue hclock =>
        cases hnext
        cases hc
        subst hclock
        exact ⟨_, rfl, rfl, .inl rfl⟩

theorem owed_prefix (h : Reads (WaitStage.next duration) stage letters stage')
    (hrest : stage'.isResting = true) {c : Float32} (hc : stage.clock? = some c) :
    (stage.owed duration).map (Event.told c) <+: letters := by
  induction letters generalizing stage with
  | nil =>
    obtain rfl := h.eq_of_nil
    rw [clock?_of_isResting hrest] at hc
    cases hc
  | cons l letters ih =>
    obtain ⟨mid, hl, hr⟩ := h.exists_of_cons
    obtain ⟨e, rfl, howed, hgo⟩ := owed_next hl hc
    rw [howed, List.map_cons]
    refine List.cons_prefix_cons.mpr ⟨rfl, ?_⟩
    rcases hgo with hgo | hnone
    · exact ih hr hgo
    · rw [hnone]
      exact List.nil_prefix

end Required

end WaitStage

/-- What the chronicle of a wait is like. -/
structure Wait.IsTimed (duration : Float32) (told : List (Told N)) : Prop where
  /-- A tick of the wait counts, be it on the way in or later, until the wait has completed. -/
  ticked (before later : List (Told N)) (c : Float32)
    (h : told = before ++ Event.ticked.told c :: later) :
    HasCompleted before ∨
      ∃ due, (turn due).map (Event.told c) <+: later ∨
        (entrance ++ turn due).map (Event.told c) <+: later
  /-- Nothing but a tick of the wait counts. It completes the wait if and only if the time is over
  with it, and the time was not over with any tick before in the activation. -/
  counted (before later : List (Told N)) (c : Float32) (result : Except TickError Unit)
    (h : told = before ++ (Event.updated result).told c :: later) :
    (EndsWith before c [.ticked] ∨ EndsWith before c (.ticked :: entrance)) ∧
      ∃ deltas, InActivation before deltas ∧ NeverDue duration deltas ∧
        (turn (isDue duration (deltas ++ [c]))).map (Event.told c) <+:
          (Event.updated result).told c :: later
  /-- The wait completes in no other way. -/
  completed (before later : List (Told N)) (c : Float32) (shape : StepShape)
    (h : told = before ++ (Event.log (.stepComplete shape)).told c :: later) :
    EndsWith before c [.updated (.ok ()), .checked (.ok true), .ended (.ok ())]

theorem Wait.isTimed_of_reads {duration : Float32} {told : List (Told N)} {stage : WaitStage}
    (h : Reads (WaitStage.next duration) (.out none) told stage)
    (hrest : stage.isResting = true) : IsTimed duration told where
  ticked before later c htold := by
    subst htold
    obtain ⟨mid, hbefore, hlater⟩ := h.exists_of_append
    obtain ⟨mid', hnext, hgo⟩ := hlater.exists_of_cons
    have hpast := WaitStage.past_of_reads hbefore
    cases mid with
    | out ticking =>
      cases ticking with
      | some => cases hnext
      | none =>
        cases hnext
        exact .inr ⟨_, .inr (WaitStage.owed_prefix hgo hrest rfl)⟩
    | running ticking deltas =>
      cases ticking with
      | some => cases hnext
      | none =>
        cases hnext
        exact .inr ⟨_, .inl (WaitStage.owed_prefix hgo hrest rfl)⟩
    | finished => exact .inl hpast
    | _ => cases hnext
  counted before later c result htold := by
    subst htold
    obtain ⟨mid, hbefore, hlater⟩ := h.exists_of_append
    obtain ⟨mid', hnext, -⟩ := hlater.exists_of_cons
    have hpast := WaitStage.past_of_reads hbefore
    cases mid with
    | out ticking => cases ticking <;> cases hnext
    | running ticking deltas =>
      cases ticking with
      | none => cases hnext
      | some c' =>
        obtain ⟨e, hl, -, -⟩ := WaitStage.owed_next hnext rfl
        cases hl
        obtain ⟨⟨hactive, hnever⟩, hends⟩ := hpast
        exact ⟨hends, deltas, hactive, hnever, WaitStage.owed_prefix hlater hrest rfl⟩
    | _ => cases hnext
  completed before later c shape htold := by
    subst htold
    obtain ⟨mid, hbefore, hlater⟩ := h.exists_of_append
    obtain ⟨mid', hnext, -⟩ := hlater.exists_of_cons
    have hpast := WaitStage.past_of_reads hbefore
    cases mid with
    | out ticking => cases ticking <;> cases hnext
    | running ticking deltas => cases ticking <;> cases hnext
    | ended c' =>
      obtain ⟨e, hl, -, -⟩ := WaitStage.owed_next hnext rfl
      cases hl
      exact hpast
    | _ => cases hnext

variable [Behavior A C N]

namespace Sequence

/-- Every wait ends on time, over any history of a sequence that has not been started: it completes
in the first tick with which the lengths of its ticks in this activation add up to its duration. The
chronicle consists of the news of the leaf: the entries that the trace shows at it, each with the
length of the tick of the root that it is from, and what is reset or entered anew around it. -/
theorem wait_isTimed (s : Sequence A C N) (hs : s.status = .notStarted)
    (commands : List (Command C)) {path : List Hop} {state : StepState} {w : Wait}
    (h : (Part.sequence s).find? path = some (.step ⟨state, .leaf (.wait w)⟩)) :
    (s.chronicle path commands).map Told.news = s.news path commands ∧
      (s.news path commands).filterMap News.entry? = (s.history commands).within path ∧
      Wait.IsTimed w.duration (s.chronicle path commands) := by
  obtain ⟨stage, state', a', -, hr, hfits⟩ :=
    (WaitStage.reader w.duration).exists_reads_chronicle hs commands h (.out none w.elapsed)
  exact ⟨s.news_chronicle path commands, s.entries_news path commands,
    Wait.isTimed_of_reads hr hfits.isResting⟩

/-- A wait that is reached by a cascade, given up by a reset and reached again. -/
theorem wait_isTimed_after_reset :
    let s : Sequence Rehearsal.Act Rehearsal.Stage String :=
      ((((Builder.new "loop").run (.leaf (.callback (Rehearsal.cues [.push "go"])))).run
        (.leaf (.wait (.ofSeconds 1)))).repeatForever).toSequence (fun _ => .ofSeed 0) 0
    let commands : List (Command Rehearsal.Stage) :=
      [.advance 0.5 .empty, .reset, .advance 0.5 .empty, .advance 0.5 .empty]
    let path : List Hop := [.step 1]
    s.status = .notStarted ∧
      (Part.sequence s).find? path = some (.step ⟨.notStarted, .leaf (.wait (.ofSeconds 1))⟩) ∧
      (s.chronicle path commands).map Told.news = s.news path commands ∧
      (s.news path commands).filterMap News.entry? = (s.history commands).within path ∧
      Wait.IsTimed (Wait.ofSeconds 1).duration (s.chronicle path commands) :=
  ⟨rfl, rfl, wait_isTimed _ rfl _ (w := .ofSeconds 1) rfl⟩

end Sequence

end Sequencer

import Sequencer.Builder.Basic
import Sequencer.Proofs.Chronicles
import Sequencer.Proofs.Failures

/-!
# Callbacks fire once for each completion

An automaton says what a callback may be told: a function that succeeds is run once in an
activation, and its leaf completes in that very tick; one that fails is run again by the next tick,
without a reload. It reads the chronicle of every callback, over any history of the sequence at the
root, and what the automaton forbids does not happen.
-/

namespace Sequencer

variable {A C N : Type}

def Callback.Infallible (c : Callback C N) : Prop := ∀ n ctx, (c.run n ctx).result = .ok ()

theorem Callback.infallible_noting (run : C → List N × C) : (noting run).Infallible :=
  fun _ _ => rfl

theorem Callback.infallible_modifying (change : C → C) :
    (modifying change : Callback C N).Infallible :=
  infallible_noting _

namespace News

def isRun : News N → Bool
  | entry ⟨[], .ran _⟩ => true
  | _ => false

def isSuccess : News N → Bool
  | entry ⟨[], .ran (.ok ())⟩ => true
  | _ => false

def isCompletion : News N → Bool
  | entry ⟨[], .log (.stepComplete _)⟩ => true
  | _ => false

end News

section Turns

variable [Behavior A C N]

theorem Action.turn_callback_of_ok {run : Nat → C → Effect C N} {runs : Nat} {ctx : C} {u : Unit}
    (dt : Float32) (h : (run runs ctx).result = .ok u) :
    let a : Action A C N := .callback ⟨run, runs, false⟩
    a.turn dt ctx = (run runs ctx).notes.map .note ++ [.ran (.ok ()), .updated (.ok ()),
        .checked (.ok true), .ended (.ok ()), .log (.stepComplete .leaf)] ∧
      (a.drive dt ctx).action = .callback ⟨run, runs + 1, true⟩ ∧
      (a.drive dt ctx).result = .ok true := by
  simp [turn, drive, update, check, finish, h, Except.map]

theorem Action.turn_callback_of_error {run : Nat → C → Effect C N} {runs : Nat} {ctx : C}
    {e : TickError} (dt : Float32) (h : (run runs ctx).result = .error e) :
    let a : Action A C N := .callback ⟨run, runs, false⟩
    a.turn dt ctx = (run runs ctx).notes.map .note ++ [.ran (.error e), .updated (.error e)] ∧
      (a.drive dt ctx).action = .callback ⟨run, runs + 1, false⟩ ∧
      (a.drive dt ctx).result = .error e := by
  simp [turn, drive, update, h]

end Turns

/-- The stage that a callback is in. A flag says that its leaf has been ticked, so that the tick has
to go on with it. -/
inductive CallbackStage
  /-- Not entered. -/
  | out (ticking : Bool)
  /-- Reloaded, to become active at once. -/
  | entering (ticking : Bool)
  /-- Active; the function has not succeeded in this activation. -/
  | armed (ticking : Bool)
  | ran (result : Except TickError Unit)
  /-- The function has succeeded; the leaf is about to complete. -/
  | spent
  | finished

namespace CallbackStage

def isResting : CallbackStage → Bool
  | out false | armed false | finished => true
  | _ => false

/-- The stage after an event at the leaf. `possible` tells with which results the function may
come back. -/
def after (possible : Except TickError Unit → Bool) : CallbackStage → Event N → Option CallbackStage
  | out false, .ticked => some (out true)
  | armed false, .ticked => some (armed true)
  | finished, .ticked => some finished
  | out ticking, .reloaded => some (entering ticking)
  | entering ticking, .started (.ok ()) => some (entering ticking)
  | entering ticking, .log (.stepActivated .leaf) => some (armed ticking)
  | armed true, .note _ => some (armed true)
  | armed true, .ran result => if possible result then some (ran result) else none
  | ran (.ok ()), .updated (.ok ()) => some spent
  | ran (.error e), .updated (.error e') => if e' = e then some (armed false) else none
  | spent, .checked (.ok true) => some spent
  | spent, .ended (.ok ()) => some spent
  | spent, .log (.stepComplete .leaf) => some finished
  | _, _ => none

def next (possible : Except TickError Unit → Bool) (stage : CallbackStage) :
    News N → Option CallbackStage
  | .renewed => if stage.isResting then some (out false) else none
  | .entry ⟨[], e⟩ => stage.after possible e
  | .entry ⟨_ :: _, _⟩ => none

inductive Fits (run : Nat → C → Effect C N) :
    CallbackStage → Option Float32 → StepState → Action A C N → Prop
  | out (ticking : Option Float32) (runs : Nat) (fired : Bool) :
    Fits run (out ticking.isSome) ticking .notStarted (.callback ⟨run, runs, fired⟩)
  | armed (ticking : Option Float32) (runs : Nat) :
    Fits run (armed ticking.isSome) ticking .active (.callback ⟨run, runs, false⟩)
  | finished (runs : Nat) (fired : Bool) :
    Fits run finished none .complete (.callback ⟨run, runs, fired⟩)

theorem Fits.isResting {run : Nat → C → Effect C N} {stage : CallbackStage} {state : StepState}
    {a : Action A C N} (h : Fits run stage none state a) : stage.isResting = true := by
  cases h <;> rfl

theorem reads_notes (possible : Except TickError Unit → Bool) (clock : Float32) (notes : List N) :
    Reads (fun stage told => next possible stage told.news) (armed true)
      (notes.map (Event.told clock ∘ Event.note)) (armed true) := by
  induction notes with
  | nil => rfl
  | cons n notes ih => exact .cons rfl ih

variable [Behavior A C N]

theorem reader {possible : Except TickError Unit → Bool} {run : Nat → C → Effect C N}
    (hrun : ∀ n ctx, possible (run n ctx).result = true) :
    LeafReader (fun stage told => next (N := N) possible stage told.news) (Fits (A := A) run) where
  renewed h := by
    cases h with
    | out _ runs fired => exact ⟨_, rfl, .out none runs fired⟩
    | armed _ runs => exact ⟨_, rfl, .out none runs false⟩
    | finished runs fired => exact ⟨_, rfl, .out none runs fired⟩
  ticked h hs clock := by
    cases h with
    | out _ runs fired => exact ⟨_, rfl, .out (some clock) runs fired⟩
    | armed _ runs => exact ⟨_, rfl, .armed (some clock) runs⟩
    | finished => exact absurd rfl hs
  tickedComplete h clock := by
    cases h with
    | finished runs fired => exact ⟨_, rfl, .finished runs fired⟩
  entered {_ ticking _} h _ _ _ := by
    cases h with
    | out _ runs fired =>
      exact ⟨rfl, armed ticking.isSome, by cases ticking <;> rfl, .armed ticking runs⟩
  driven {_ clock _} h ctx := by
    cases h with
    | armed _ runs =>
      have hpossible := hrun runs ctx
      cases hr : (run runs ctx).result with
      | ok u =>
        rw [hr] at hpossible
        obtain ⟨hturn, haction, hresult⟩ := Action.turn_callback_of_ok (A := A) clock hr
        rw [hturn, haction, hresult, List.map_append, List.map_map]
        have hran : CallbackStage.next (N := N) possible (armed true)
            (Event.ran (.ok ())).news = some (ran (.ok ())) := if_pos hpossible
        exact ⟨finished, (reads_notes possible clock _).append (.cons hran rfl),
          .finished (runs + 1) true⟩
      | error e =>
        rw [hr] at hpossible
        obtain ⟨hturn, haction, hresult⟩ := Action.turn_callback_of_error (A := A) clock hr
        rw [hturn, haction, hresult, List.map_append, List.map_map]
        have hran : CallbackStage.next (N := N) possible (armed true)
            (Event.ran (.error e)).news = some (ran (.error e)) := if_pos hpossible
        have hupdated : CallbackStage.next (N := N) possible (ran (.error e))
            (Event.updated (.error e)).news = some (armed false) := if_pos rfl
        exact ⟨armed false,
          (reads_notes possible clock _).append (.cons hran (.cons hupdated (.nil _ _))),
          .armed none (runs + 1)⟩

section Forbidden

omit [Behavior A C N]

variable {possible : Except TickError Unit → Bool} {stage stage' : CallbackStage} {l : News N}
  {letters : List (News N)}

/-- One, if the function has succeeded but the leaf has not completed yet. -/
def owed : CallbackStage → Nat
  | ran (.ok ()) | spent => 1
  | _ => 0

theorem owed_next (h : next possible stage l = some stage') :
    (if l.isSuccess then 1 else 0) + stage.owed =
      (if l.isCompletion then 1 else 0) + stage'.owed := by
  unfold next at h
  split at h
  case h_1 =>
    split at h
    case isTrue hrest =>
      obtain rfl := Option.some.inj h
      cases stage <;> first | rfl | cases hrest
    case isFalse => cases h
  case h_2 =>
    unfold after at h
    split at h
    case h_8 result =>
      split at h <;> cases h
      rcases result with e | ⟨⟩ <;> rfl
    all_goals (try split at h) <;> cases h <;> rfl
  case h_3 => cases h

/-- Each run that succeeds completes the leaf, and nothing else does. -/
theorem countP_of_reads (h : Reads (next possible) stage letters stage') :
    letters.countP News.isSuccess + stage.owed =
      letters.countP News.isCompletion + stage'.owed := by
  induction letters generalizing stage with
  | nil => rw [h.eq_of_nil, List.countP_nil, List.countP_nil]
  | cons l letters ih =>
    obtain ⟨mid, hl, hr⟩ := h.exists_of_cons
    have hfirst := owed_next hl
    have hrest := ih hr
    rw [List.countP_cons, List.countP_cons]
    omega

/-- Whether the function is not run again before a reload. -/
def isOver : CallbackStage → Bool
  | out _ | ran (.ok ()) | spent | finished => true
  | _ => false

theorem isOver_next (h : next possible stage l = some stage') (hover : stage.isOver = true)
    (hl : l ≠ Event.reloaded.news) : stage'.isOver = true := by
  unfold next at h
  split at h
  case h_1 =>
    split at h <;> cases h
    rfl
  case h_2 =>
    unfold after at h
    split at h
    all_goals
      (try split at h) <;> cases h <;>
        first | rfl | exact absurd rfl hl | exact absurd hover Bool.false_ne_true
  case h_3 => cases h

theorem eq_of_next_ran {result : Except TickError Unit}
    (h : next possible stage (Event.ran result : Event N).news = some stage') :
    stage' = ran result ∧ possible result = true := by
  cases stage with
  | armed ticking =>
    cases ticking with
    | false => cases h
    | true =>
      have hif : (if possible result then some (ran result) else none) = some stage' := h
      split at hif
      case isTrue hp => exact ⟨(Option.some.inj hif).symm, hp⟩
      case isFalse => cases hif
  | out ticking => cases ticking <;> cases h
  | ran r => rcases r with e | ⟨⟩ <;> cases h
  | _ => cases h

theorem mem_of_reads {result : Except TickError Unit} {between later : List (News N)}
    (h : Reads (next possible) (ran (.ok ())) (between ++ (Event.ran result).news :: later)
      stage') : Event.reloaded.news ∈ between := by
  obtain ⟨mid, hbetween, hrest⟩ := h.exists_of_append
  obtain ⟨_, hran, -⟩ := hrest.exists_of_cons
  apply Classical.byContradiction
  intro hnot
  have hover : Event.reloaded.news ∉ between → mid.isOver = true := by
    refine hbetween.induct (P := fun told s => Event.reloaded.news ∉ told → s.isOver = true)
      (fun _ => rfl) ?_
    intro before s l s' ih hn hmem
    rw [List.mem_append, List.mem_singleton, not_or] at hmem
    exact isOver_next hn (ih hmem.1) (Ne.symm hmem.2)
  have hover := hover hnot
  cases mid with
  | armed ticking => cases hover
  | out ticking => cases ticking <;> cases hran
  | ran r => rcases r with e | ⟨⟩ <;> cases hran
  | _ => cases hran

theorem exists_run_of_reads (h : Reads (next possible) (armed true) letters stage')
    (hrest : stage'.isResting = true) :
    ∃ (notes : List N) (result : Except TickError Unit) (more : List (News N)), letters =
      notes.map (fun n => (Event.note n).news) ++ (Event.ran result).news :: more := by
  induction letters with
  | nil =>
    obtain rfl := h.eq_of_nil
    cases hrest
  | cons l letters ih =>
    obtain ⟨mid, hl, hr⟩ := h.exists_of_cons
    unfold next at hl
    split at hl
    case h_1 => cases hl
    case h_2 e =>
      cases e with
      | note n =>
        obtain rfl : armed true = mid := Option.some.inj hl
        obtain ⟨notes, result, more, rfl⟩ := ih hr
        exact ⟨n :: notes, result, more, rfl⟩
      | ran result => exact ⟨[], result, letters, rfl⟩
      | _ => cases hl
    case h_3 => cases hl

/-- After a run that fails the next tick runs the function again, unless there is a reset before. -/
theorem retries_of_reads {e : TickError} {later : List (News N)}
    (h : Reads (next possible) (ran (.error e)) later stage') (hrest : stage'.isResting = true) :
    ∃ rest, later = (Event.updated (.error e)).news :: rest ∧
      (rest = [] ∨ (∃ more, rest = .renewed :: more) ∨
        ∃ (notes : List N) (result : Except TickError Unit) (more : List (News N)),
          rest = Event.ticked.news ::
            (notes.map (fun n => (Event.note n).news) ++ (Event.ran result).news :: more)) := by
  cases later with
  | nil =>
    obtain rfl := h.eq_of_nil
    cases hrest
  | cons l rest =>
    obtain ⟨mid, hl, hr⟩ := h.exists_of_cons
    have hupdated : l = (Event.updated (.error e)).news ∧ mid = armed false := by
      unfold next at hl
      split at hl
      case h_1 => cases hl
      case h_2 event =>
        cases event with
        | updated result =>
          rcases result with e' | ⟨⟩
          · by_cases he : e' = e
            · subst he
              rw [after, if_pos rfl] at hl
              exact ⟨rfl, (Option.some.inj hl).symm⟩
            · rw [after, if_neg he] at hl
              cases hl
          · cases hl
        | _ => cases hl
      case h_3 => cases hl
    obtain ⟨rfl, rfl⟩ := hupdated
    refine ⟨rest, rfl, ?_⟩
    cases rest with
    | nil => exact .inl rfl
    | cons first rest =>
      obtain ⟨mid, hfirst, hr⟩ := hr.exists_of_cons
      unfold next at hfirst
      split at hfirst
      case h_1 => exact .inr (.inl ⟨rest, rfl⟩)
      case h_2 event =>
        cases event with
        | ticked =>
          obtain rfl : armed true = mid := Option.some.inj hfirst
          obtain ⟨notes, result, more, rfl⟩ := exists_run_of_reads hr hrest
          exact .inr (.inr ⟨notes, result, more, rfl⟩)
        | _ => cases hfirst
      case h_3 => cases hfirst

theorem possible_of_reads {result : Except TickError Unit}
    (h : Reads (next possible) stage letters stage') (hmem : (Event.ran result).news ∈ letters) :
    possible result = true := by
  obtain ⟨before, later, rfl⟩ := List.append_of_mem hmem
  obtain ⟨mid, -, hrest⟩ := h.exists_of_append
  obtain ⟨mid', hran, -⟩ := hrest.exists_of_cons
  exact (eq_of_next_ran hran).2

end Forbidden

end CallbackStage

section Runs

def News.runsAfter (n : Nat) (news : News N) : Option Nat :=
  some (if news.isRun then n + 1 else n)

theorem eq_of_reads_runsAfter {news : List (News N)} {n n' : Nat}
    (h : Reads News.runsAfter n news n') : n' = n + news.countP News.isRun := by
  induction news generalizing n with
  | nil => exact h.eq_of_nil.symm
  | cons l news ih =>
    obtain ⟨mid, hl, hr⟩ := h.exists_of_cons
    obtain rfl := Option.some.inj hl
    rw [ih hr, List.countP_cons]
    split <;> omega

theorem reads_runsAfter_notes (n : Nat) (clock : Float32) (notes : List N) :
    Reads (fun n told => News.runsAfter n told.news) n
      (notes.map (Event.told clock ∘ Event.note)) n := by
  induction notes with
  | nil => rfl
  | cons m notes ih => exact .cons rfl ih

theorem runsReader [Behavior A C N] (run : Nat → C → Effect C N) :
    LeafReader (A := A) (fun n told => News.runsAfter n told.news)
      (fun n _ _ a => ∃ fired, a = .callback ⟨run, n, fired⟩) where
  renewed h := ⟨_, rfl, h⟩
  ticked h _ _ := ⟨_, rfl, h⟩
  tickedComplete h _ := ⟨_, rfl, h⟩
  entered {n _ _} h _ _ _ := by
    obtain ⟨fired, rfl⟩ := h
    exact ⟨rfl, n, rfl, false, rfl⟩
  driven {n clock _} h ctx := by
    obtain ⟨fired, rfl⟩ := h
    cases fired with
    | true => exact ⟨n, rfl, true, rfl⟩
    | false =>
      cases hr : (run n ctx).result with
      | ok u =>
        obtain ⟨hturn, haction, -⟩ := Action.turn_callback_of_ok (A := A) clock hr
        rw [hturn, haction, List.map_append, List.map_map]
        exact ⟨n + 1, (reads_runsAfter_notes n clock _).append rfl, true, rfl⟩
      | error e =>
        obtain ⟨hturn, haction, -⟩ := Action.turn_callback_of_error (A := A) clock hr
        rw [hturn, haction, List.map_append, List.map_map]
        exact ⟨n + 1, (reads_runsAfter_notes n clock _).append rfl, false, rfl⟩

end Runs

/-- What the news of a callback are like. -/
structure Callback.Fires (c : Callback C N) (news : List (News N)) : Prop where
  /-- There are as many successful runs as completions. -/
  successes : news.countP News.isSuccess = news.countP News.isCompletion
  /-- In one activation no run follows one that succeeds. -/
  once (before between later : List (News N)) (result : Except TickError Unit)
    (h : news = before ++ (Event.ran (.ok ())).news ::
      (between ++ (Event.ran result).news :: later)) : Event.reloaded.news ∈ between
  /-- After a run that fails the function is run again by the next tick of the leaf, in the same
  activation, unless something is reset before. -/
  retried (before later : List (News N)) (e : TickError)
    (h : news = before ++ (Event.ran (.error e)).news :: later) :
    ∃ rest, later = (Event.updated (.error e)).news :: rest ∧
      (rest = [] ∨ (∃ more, rest = .renewed :: more) ∨
        ∃ (notes : List N) (result : Except TickError Unit) (more : List (News N)),
          rest = Event.ticked.news ::
            (notes.map (fun n => (Event.note n).news) ++ (Event.ran result).news :: more))
  /-- If the function cannot fail, there are as many runs as completions. -/
  runs (h : c.Infallible) : news.countP News.isRun = news.countP News.isCompletion
  /-- If the function cannot fail, there are no two runs in one activation. -/
  onceInAll (h : c.Infallible) (before between later : List (News N))
    (result result' : Except TickError Unit)
    (h : news = before ++ (Event.ran result).news ::
      (between ++ (Event.ran result').news :: later)) : Event.reloaded.news ∈ between

/-- An automaton that allows the results of the function reads the news of the callback, from
outside to a stage between two ticks. -/
def Callback.IsRead (c : Callback C N) (news : List (News N)) : Prop :=
  ∀ possible : Except TickError Unit → Bool, (∀ n ctx, possible (c.run n ctx).result = true) →
    ∃ stage : CallbackStage, Reads (CallbackStage.next possible) (.out false) news stage ∧
      stage.isResting = true

theorem CallbackStage.owed_of_isResting {stage : CallbackStage} (h : stage.isResting = true) :
    stage.owed = 0 := by
  cases stage <;> first | rfl | cases h

namespace Callback.IsRead

variable {c : Callback C N} {news : List (News N)}

theorem ok_of_mem (hread : c.IsRead news) (h : c.Infallible) {result : Except TickError Unit}
    (hmem : (Event.ran result).news ∈ news) : result = .ok () := by
  have hpossible : ∀ n ctx, (c.run n ctx).result.isOk = true := fun n ctx => by rw [h n ctx]; rfl
  obtain ⟨stage, hr, -⟩ := hread Except.isOk hpossible
  have hok := CallbackStage.possible_of_reads hr hmem
  rcases result with e | ⟨⟩
  · cases hok
  · rfl

theorem isRun_eq_isSuccess (hread : c.IsRead news) (h : c.Infallible) {l : News N}
    (hmem : l ∈ news) : l.isRun = l.isSuccess := by
  match l with
  | .renewed => rfl
  | .entry ⟨_ :: _, _⟩ => rfl
  | .entry ⟨[], e⟩ =>
    cases e with
    | ran result =>
      obtain rfl := hread.ok_of_mem h hmem
      rfl
    | _ => rfl

theorem once (hread : c.IsRead news) {before between later : List (News N)}
    {result : Except TickError Unit} (h : news = before ++ (Event.ran (.ok ())).news ::
      (between ++ (Event.ran result).news :: later)) : Event.reloaded.news ∈ between := by
  subst h
  obtain ⟨stage, hr, -⟩ := hread (fun _ => true) fun _ _ => rfl
  obtain ⟨mid, -, hrest⟩ := hr.exists_of_append
  obtain ⟨mid', hran, hrest⟩ := hrest.exists_of_cons
  obtain ⟨rfl, -⟩ := CallbackStage.eq_of_next_ran hran
  exact CallbackStage.mem_of_reads hrest

theorem successes (hread : c.IsRead news) :
    news.countP News.isSuccess = news.countP News.isCompletion := by
  obtain ⟨stage, hr, hrest⟩ := hread (fun _ => true) fun _ _ => rfl
  have hcount := CallbackStage.countP_of_reads hr
  rwa [CallbackStage.owed_of_isResting hrest] at hcount

theorem fires (hread : c.IsRead news) : c.Fires news where
  successes := hread.successes
  once _ _ _ _ h := hread.once h
  retried before later e h := by
    subst h
    obtain ⟨stage, hr, hrest⟩ := hread (fun _ => true) fun _ _ => rfl
    obtain ⟨mid, -, hlater⟩ := hr.exists_of_append
    obtain ⟨mid', hran, hlater⟩ := hlater.exists_of_cons
    obtain ⟨rfl, -⟩ := CallbackStage.eq_of_next_ran hran
    exact CallbackStage.retries_of_reads hlater hrest
  runs h := by
    have hsame : news.countP News.isRun = news.countP News.isSuccess :=
      List.countP_congr fun l hl => by rw [hread.isRun_eq_isSuccess h hl]
    exact hsame.trans hread.successes
  onceInAll h before between later result result' hnews := by
    have hmem : (Event.ran result).news ∈ news := by simp [hnews]
    obtain rfl := hread.ok_of_mem h hmem
    exact hread.once hnews

end Callback.IsRead

theorem Failure.failure?_of_mem {e : TickError} {events : List (Event N)} (h : Failure e events)
    {event : Event N} (hmem : event ∈ events) : event.failure? = some e := by
  cases h <;> simp only [List.mem_cons, List.not_mem_nil, or_false] at hmem
  case ran | waited | guarded | repeatChecked => rcases hmem with rfl | rfl <;> rfl
  all_goals subst hmem; rfl

variable [Behavior A C N]

namespace Sequence

/-- A tick in which the function of a callback fails has exactly its error as the result. -/
theorem result_of_failed_run (s : Sequence A C N) {dt : Float32} {ctx : C} {path : List Hop}
    {e : TickError} (h : ⟨path, .ran (.error e)⟩ ∈ (s.advance dt ctx).trace) :
    (s.advance dt ctx).result = .error e := by
  have htells : (s.advance dt ctx).trace.Tells (s.advance dt ctx).result :=
    s.tells_advanceFrom false dt ctx
  cases hr : (s.advance dt ctx).result with
  | ok outcome => cases s.succeeds_of_ok hr _ h
  | error e' =>
    rw [hr] at htells
    obtain ⟨before, place, ending, ht, hbefore, hending⟩ := htells
    rw [ht] at h
    rcases List.mem_append.mp h with h | h
    · cases hbefore _ h
    · obtain ⟨event, hmem, heq⟩ := List.mem_map.mp h
      cases heq
      cases hending.failure?_of_mem hmem
      rfl

/-- The news of every callback are as they should be, over any history of a sequence that has not
been started: successful runs and completions correspond one to one, a failing run fails its tick
with exactly its error, and is repeated by the next tick of the leaf. The news are the entries that
the trace shows at the leaf, and what is reset or entered anew around it, and the callback itself
counts its runs in them. -/
theorem callback_fires (s : Sequence A C N) (hs : s.status = .notStarted)
    (commands : List (Command C)) {path : List Hop} {state : StepState} {c : Callback C N}
    (h : (Part.sequence s).find? path = some (.step ⟨state, .leaf (.callback c)⟩)) :
    ((s.news path commands).filterMap News.entry? = (s.history commands).within path) ∧
      (∃ state' fired, (Part.sequence (s.after commands)).find? path = some (.step ⟨state',
        .leaf (.callback ⟨c.run, c.runs + (s.news path commands).countP News.isRun, fired⟩)⟩)) ∧
      c.Fires (s.news path commands) ∧
      ∀ earlier dt ctx later e, commands = earlier ++ .advance dt ctx :: later →
        ⟨path, .ran (.error e)⟩ ∈ ((s.after earlier).advance dt ctx).trace →
        ((s.after earlier).advance dt ctx).result = .error e := by
  have hread : c.IsRead (s.news path commands) := by
    intro possible hrun
    obtain ⟨stage', state', a', -, hr, hfits⟩ :=
      (CallbackStage.reader hrun).exists_reads_chronicle hs commands h (.out none c.runs c.fired)
    refine ⟨stage', ?_, hfits.isResting⟩
    rw [← s.news_chronicle]
    exact hr.map
  obtain ⟨runs', state', a', hfound, hr, fired, rfl⟩ :=
    (runsReader c.run).exists_reads_chronicle hs commands h ⟨c.fired, rfl⟩
  have hruns := eq_of_reads_runsAfter hr.map
  rw [s.news_chronicle] at hruns
  subst hruns
  exact ⟨s.entries_news path commands, ⟨state', fired, hfound⟩, hread.fires,
    fun earlier dt ctx _ _ _ hmem => (s.after earlier).result_of_failed_run hmem⟩

/-- A callback that fails in its first run, in a sequence that repeats. -/
theorem callback_fires_in_loop :
    let c : Callback Rehearsal.Stage String := Rehearsal.cuesAfter 1 .action [.push "done"]
    let s : Sequence Rehearsal.Act Rehearsal.Stage String :=
      (((Builder.new "loop").run (.leaf (.callback c))).repeatForever).toSequence
        (fun _ => .ofSeed 0) 0
    let commands : List (Command Rehearsal.Stage) :=
      [.advance 0.5 .empty, .advance 0.5 .empty, .advance 0.5 .empty]
    let path : List Hop := [.step 0]
    s.status = .notStarted ∧
      (Part.sequence s).find? path = some (.step ⟨.notStarted, .leaf (.callback c)⟩) ∧
      ((s.news path commands).filterMap News.entry? = (s.history commands).within path) ∧
      (∃ state' fired, (Part.sequence (s.after commands)).find? path = some (.step ⟨state',
        .leaf (.callback ⟨c.run, c.runs + (s.news path commands).countP News.isRun, fired⟩)⟩)) ∧
      c.Fires (s.news path commands) ∧
      ∀ earlier dt ctx later e, commands = earlier ++ .advance dt ctx :: later →
        ⟨path, .ran (.error e)⟩ ∈ ((s.after earlier).advance dt ctx).trace →
        ((s.after earlier).advance dt ctx).result = .error e :=
  ⟨rfl, rfl, callback_fires _ rfl _ rfl⟩

end Sequence

end Sequencer

import Sequencer.Proofs.Receipts

/-!
# The accounts of a sequence

What has been written down since a sequence was last started adds up to where it stands: every
finished pass completed each step once, in order, and asked the condition that ends the repetition
once; the running pass has completed the steps before the cursor. Failures leave no receipt, so
nothing is counted twice however often a step or the condition is tried again.
-/

namespace Sequencer

/-- The indices below `size`, round after round. -/
def rounds (size count : Nat) : List Nat := (List.replicate count (List.range size)).flatten

theorem rounds_succ (size count : Nat) :
    rounds size (count + 1) = rounds size count ++ List.range size := by
  simp [rounds, List.replicate_succ']

theorem count_rounds {size i : Nat} (hi : i < size) (count : Nat) :
    (rounds size count).count i = count := by
  induction count with
  | zero => rfl
  | succ count ih => rw [rounds_succ, List.count_append, ih, List.count_range, if_pos hi]

theorem map_mod_range {size n : Nat} (h : n ≤ size) (count : Nat) :
    (List.range n).map (fun i => (count * size + i) % size) = List.range n := by
  have hid : ∀ i ∈ List.range n, (count * size + i) % size = i := by
    intro i hi
    rw [Nat.mul_add_mod', Nat.mod_eq_of_lt (Nat.lt_of_lt_of_le (List.mem_range.mp hi) h)]
  rw [List.map_congr_left hid, List.map_id']

theorem rounds_eq_map (size count : Nat) :
    rounds size count = (List.range (count * size)).map (· % size) := by
  induction count with
  | zero => simp [rounds]
  | succ count ih =>
    have hturn := map_mod_range (Nat.le_refl size) count
    rw [rounds_succ, ih, Nat.succ_mul, List.range_add, List.map_append, List.map_map]
    exact congrArg _ hturn.symm

/-- Rounds, and the beginning of one more, count through the indices in a circle. -/
theorem rounds_append_range {size reached : Nat} (h : reached ≤ size) (count : Nat) :
    rounds size count ++ List.range reached =
      (List.range (count * size + reached)).map (· % size) := by
  rw [rounds_eq_map, List.range_add, List.map_append, List.map_map]
  exact congrArg _ (map_mod_range h count).symm

def Receipt.step? : Receipt → Option Nat
  | completed index => some index
  | _ => none

def Receipt.answer? : Receipt → Option Bool
  | answered answer => some answer
  | _ => none

section Views

variable {N : Type}

/-- The direct steps that complete in a trace of a sequence, in the order of time. -/
def Trace.stepsCompleted (trace : Trace N) : List Nat := trace.receipts.filterMap Receipt.step?

/-- The answers of the condition that ends the repetition, failures left out. -/
def Trace.repeatAnswers (trace : Trace N) : List Bool := trace.receipts.filterMap Receipt.answer?

def Trace.passesEnded (trace : Trace N) : Nat := trace.receipts.count .passEnded

end Views

theorem filterMap_step?_completed (indices : List Nat) :
    (indices.map Receipt.completed).filterMap Receipt.step? = indices := by
  simp [List.filterMap_map, Function.comp_def, Receipt.step?]

theorem filterMap_answer?_completed (indices : List Nat) :
    (indices.map Receipt.completed).filterMap Receipt.answer? = [] := by
  simp [List.filterMap_map, Function.comp_def, Receipt.answer?]

theorem count_passEnded_completed (indices : List Nat) :
    (indices.map Receipt.completed).count .passEnded = 0 := by
  apply List.count_eq_zero_of_not_mem
  intro hm
  obtain ⟨index, _, h⟩ := List.mem_map.mp hm
  cases h

namespace Sequence

variable {A C N : Type}

/-- The receipts of a whole pass; `final` says that it is the last one. -/
def passReceipts (s : Sequence A C N) (final : Bool) : List Receipt :=
  (List.range s.size).map .completed ++ s.endReceipts final

theorem steps_passReceipts (s : Sequence A C N) (final : Bool) :
    (s.passReceipts final).filterMap Receipt.step? = List.range s.size := by
  rw [passReceipts, List.filterMap_append, filterMap_step?_completed, endReceipts]
  split <;> simp [Receipt.step?]

theorem answers_passReceipts {s : Sequence A C N} (h : s.policy.name = .untilHolds) (final : Bool) :
    (s.passReceipts final).filterMap Receipt.answer? = [final] := by
  rw [passReceipts, List.filterMap_append, filterMap_answer?_completed, endReceipts, if_pos h]
  rfl

theorem count_passEnded_passReceipts (s : Sequence A C N) (final : Bool) :
    (s.passReceipts final).count .passEnded = 1 := by
  rw [passReceipts, List.count_append, count_passEnded_completed, endReceipts]
  split <;> rfl

/-- The receipts of `count` passes that other passes followed. -/
def earlierReceipts (s : Sequence A C N) (count : Nat) : List Receipt :=
  (List.replicate count (s.passReceipts false)).flatten

theorem earlierReceipts_succ (s : Sequence A C N) (count : Nat) :
    s.earlierReceipts (count + 1) = s.earlierReceipts count ++ s.passReceipts false := by
  simp [earlierReceipts, List.replicate_succ']

theorem steps_earlierReceipts (s : Sequence A C N) (count : Nat) :
    (s.earlierReceipts count).filterMap Receipt.step? = rounds s.size count := by
  induction count with
  | zero => rfl
  | succ count ih =>
    rw [earlierReceipts_succ, List.filterMap_append, ih, steps_passReceipts, rounds_succ]

theorem answers_earlierReceipts {s : Sequence A C N} (h : s.policy.name = .untilHolds)
    (count : Nat) :
    (s.earlierReceipts count).filterMap Receipt.answer? = List.replicate count false := by
  induction count with
  | zero => rfl
  | succ count ih =>
    rw [earlierReceipts_succ, List.filterMap_append, ih, answers_passReceipts h,
      List.replicate_succ']

theorem count_passEnded_earlierReceipts (s : Sequence A C N) (count : Nat) :
    (s.earlierReceipts count).count .passEnded = count := by
  induction count with
  | zero => rfl
  | succ count ih =>
    rw [earlierReceipts_succ, List.count_append, ih, count_passEnded_passReceipts]

/-- What has been written down since a sequence was last started, by where it stands. -/
inductive Books (s : Sequence A C N) (receipts : List Receipt) : Prop
  | running (ended : Nat) (hs : s.status ≠ .complete) (hpasses : s.passes = min ended maxPasses)
      (hreceipts : receipts =
        s.earlierReceipts ended ++ (List.range s.cursor).map .completed)
  | complete (earlier : Nat) (hs : s.status = .complete)
      (hpasses : s.passes = min (earlier + 1) maxPasses)
      (hreceipts : receipts = s.earlierReceipts earlier ++ s.passReceipts true)

theorem Books.of_isNew {s : Sequence A C N} (h : s.IsNew) : s.Books [] := by
  refine .running 0 (h.status ▸ Status.noConfusion) (congrArg Progress.passes h.1) ?_
  have hcursor : s.cursor = 0 := congrArg Progress.cursor h.1
  rw [hcursor]
  rfl

theorem Consistent.cursor_le {s : Sequence A C N} (h : s.Consistent) : s.cursor ≤ s.size := by
  unfold Consistent at h
  split at h
  · exact h.1 ▸ Nat.zero_le _
  · exact h.1
  · exact Nat.le_of_eq h.1

theorem range_append_range' (start count : Nat) :
    List.range start ++ List.range' start count = List.range (start + count) := by
  have h := List.range'_append_1 (s := 0) (m := start) (n := count)
  rwa [Nat.zero_add, ← List.range_eq_range', ← List.range_eq_range'] at h

/-- The running pass and what is left of it make up a whole pass. -/
theorem passReceipts_eq {s : Sequence A C N} (h : s.cursor ≤ s.size) (final : Bool) :
    (List.range s.cursor).map Receipt.completed ++
        ((List.range' s.cursor (s.size - s.cursor)).map .completed ++ s.endReceipts final) =
      s.passReceipts final := by
  rw [passReceipts, ← List.append_assoc, ← List.map_append, range_append_range',
    Nat.add_sub_cancel' h]

theorem Books.proceed {s later : Sequence A C N} {receipts new : List Receipt}
    (h : s.Books receipts) (hcursor : s.cursor ≤ s.size) (hframe : s.SameFrame later)
    (hp : s.Proceeds new later) : later.Books (receipts ++ new) := by
  have hsize : later.size = s.size := hframe.steps
  have hend (final : Bool) : later.endReceipts final = s.endReceipts final := by
    rw [endReceipts, hframe.policy]
    rfl
  have hpass (final : Bool) : later.passReceipts final = s.passReceipts final := by
    rw [passReceipts, passReceipts, hsize, hend]
  have hearlier (count : Nat) : later.earlierReceipts count = s.earlierReceipts count := by
    rw [earlierReceipts, hpass, earlierReceipts]
  cases h with
  | complete earlier hs hpasses hreceipts =>
    cases hp with
    | idle _ hlater hpasses' hnew =>
      refine .complete earlier hlater (hpasses'.trans hpasses) ?_
      rw [hreceipts, hnew, List.append_nil, hearlier, hpass]
    | within _ hne => exact absurd hs hne
    | wrapped hne => exact absurd hs hne
    | last hne => exact absurd hs hne
  | running ended hs hpasses hreceipts =>
    cases hp with
    | idle hc => exact absurd hc hs
    | within count _ hlater hcursor' hpasses' hnew =>
      refine .running ended (hlater ▸ Status.noConfusion) (hpasses'.trans hpasses) ?_
      rw [hreceipts, hnew, hcursor', List.append_assoc, ← List.map_append, range_append_range',
        hearlier]
    | wrapped _ hlater hcursor' hpasses' hnew =>
      refine .running (ended + 1) (hlater ▸ Status.noConfusion) (by omega) ?_
      rw [hreceipts, hnew, hcursor', List.append_assoc, passReceipts_eq hcursor, hearlier,
        earlierReceipts_succ]
      simp
    | last _ hlater hpasses' hnew =>
      refine .complete ended hlater (by omega) ?_
      rw [hreceipts, hnew, List.append_assoc, passReceipts_eq hcursor, hearlier, hpass]

/-- Whether what a trace since the last start tells about a sequence agrees with where the sequence
stands. The number of passes is only known as far as it is counted. -/
structure Accounts (s : Sequence A C N) (trace : Trace N) : Prop where
  /-- The steps complete one after the other, in a circle. -/
  inOrder : trace.stepsCompleted =
    (List.range trace.stepsCompleted.length).map (· % s.size)
  counted : s.passes < maxPasses → ∀ i < s.size, trace.stepsCompleted.count i =
    if s.status = .running ∧ i < s.cursor then s.passes + 1 else s.passes
  ended : s.passes = min trace.passesEnded maxPasses
  /-- The condition that ends the repetition was false at the end of every pass but the one that
  completed the sequence. -/
  answered : s.passes < maxPasses → s.policy.name = .untilHolds → trace.repeatAnswers =
    (List.range s.passes).map fun pass => decide (s.status = .complete ∧ pass + 1 = s.passes)

/-- The steps that a trace tells of by the passes that it tells of: every pass that ended completed
every step, and the running one those before the cursor. -/
theorem Books.count_stepsCompleted {s : Sequence A C N} {trace : Trace N}
    (h : s.Books trace.receipts) (hk : s.Consistent) {i : Nat} (hi : i < s.size) :
    trace.stepsCompleted.count i =
      if s.status = .running ∧ i < s.cursor then trace.passesEnded + 1 else trace.passesEnded := by
  cases h with
  | running ended hs hpasses hreceipts =>
    have hsteps : trace.stepsCompleted = rounds s.size ended ++ List.range s.cursor := by
      rw [Trace.stepsCompleted, hreceipts, List.filterMap_append, steps_earlierReceipts,
        filterMap_step?_completed]
    have hended : trace.passesEnded = ended := by
      rw [Trace.passesEnded, hreceipts, List.count_append, count_passEnded_earlierReceipts,
        count_passEnded_completed, Nat.add_zero]
    have hcursor : (s.status = .running ∧ i < s.cursor) ↔ i < s.cursor := by
      refine ⟨And.right, fun h => ⟨?_, h⟩⟩
      unfold Consistent at hk
      split at hk
      · omega
      · assumption
      · exact absurd ‹_› hs
    rw [hsteps, List.count_append, count_rounds hi, List.count_range, hended]
    simp only [hcursor]
    split <;> rfl
  | complete earlier hs hpasses hreceipts =>
    have hsteps : trace.stepsCompleted = rounds s.size (earlier + 1) := by
      rw [Trace.stepsCompleted, hreceipts, List.filterMap_append, steps_earlierReceipts,
        steps_passReceipts, rounds_succ]
    have hended : trace.passesEnded = earlier + 1 := by
      rw [Trace.passesEnded, hreceipts, List.count_append, count_passEnded_earlierReceipts,
        count_passEnded_passReceipts]
    rw [hsteps, count_rounds hi, hended, if_neg (by simp [hs])]

theorem Books.passes_eq {s : Sequence A C N} {trace : Trace N} (h : s.Books trace.receipts) :
    s.passes = min trace.passesEnded maxPasses := by
  cases h with
  | running ended hs hpasses hreceipts =>
    rw [hpasses, Trace.passesEnded, hreceipts, List.count_append, count_passEnded_earlierReceipts,
      count_passEnded_completed, Nat.add_zero]
  | complete earlier hs hpasses hreceipts =>
    rw [hpasses, Trace.passesEnded, hreceipts, List.count_append, count_passEnded_earlierReceipts,
      count_passEnded_passReceipts]

theorem Books.accounts {s : Sequence A C N} {trace : Trace N} (h : s.Books trace.receipts)
    (hk : s.Consistent) : s.Accounts trace := by
  have hcircle : ∀ {steps : List Nat} (n : Nat), steps = (List.range n).map (· % s.size) →
      steps = (List.range steps.length).map (· % s.size) := by
    rintro steps n rfl
    simp
  have hcounted : s.passes < maxPasses → ∀ i < s.size, trace.stepsCompleted.count i =
      if s.status = .running ∧ i < s.cursor then s.passes + 1 else s.passes := by
    intro hlt i hi
    have hpasses : s.passes = trace.passesEnded := by
      have := h.passes_eq
      omega
    rw [h.count_stepsCompleted hk hi, hpasses]
  have hended := h.passes_eq
  cases h with
  | running ended hs hpasses hreceipts =>
    have hsteps : trace.stepsCompleted = rounds s.size ended ++ List.range s.cursor := by
      rw [Trace.stepsCompleted, hreceipts, List.filterMap_append, steps_earlierReceipts,
        filterMap_step?_completed]
    refine ⟨hcircle _ (hsteps.trans (rounds_append_range hk.cursor_le ended)), hcounted, hended, ?_⟩
    intro hlt hp
    have hended : s.passes = ended := by omega
    rw [Trace.repeatAnswers, hreceipts, List.filterMap_append, answers_earlierReceipts hp,
      filterMap_answer?_completed, hended]
    simp [hs, List.map_const']
  | complete earlier hs hpasses hreceipts =>
    have hsteps : trace.stepsCompleted = rounds s.size (earlier + 1) := by
      rw [Trace.stepsCompleted, hreceipts, List.filterMap_append, steps_earlierReceipts,
        steps_passReceipts, rounds_succ]
    refine ⟨hcircle _ (hsteps.trans (rounds_eq_map s.size _)), hcounted, hended, ?_⟩
    intro hlt hp
    have hended : s.passes = earlier + 1 := by omega
    have hfalse : ∀ pass ∈ List.range earlier,
        decide (s.status = .complete ∧ pass + 1 = earlier + 1) = false := by
      intro pass hm
      have := List.mem_range.mp hm
      exact decide_eq_false fun h => absurd h.2 (by omega)
    rw [Trace.repeatAnswers, hreceipts, List.filterMap_append, answers_earlierReceipts hp,
      answers_passReceipts hp, hended, List.range_succ, List.map_append,
      List.map_congr_left hfalse, List.map_const', List.length_range]
    simp [hs]

variable [Behavior A C N]

theorem Books.advance {s : Sequence A C N} {receipts : List Receipt} (h : s.Books receipts)
    (hk : s.Consistent) (dt : Float32) (ctx : C) :
    (s.advance dt ctx).sequence.Books (receipts ++ (s.advance dt ctx).trace.receipts) ∧
      s.passes ≤ (s.advance dt ctx).sequence.passes ∧
      (s.advance dt ctx).sequence.passes ≤ s.passes + 1 := by
  have hproceeds := Sequence.proceeds_advance hk dt ctx
  have hmax : s.passes ≤ maxPasses := by cases h <;> omega
  refine ⟨h.proceed hk.cursor_le (Sequence.SameFrame.advance s dt ctx) hproceeds, ?_⟩
  cases hproceeds <;> omega

theorem Books.after {s : Sequence A C N} {receipts : List Receipt} (h : s.Books receipts)
    (hk : s.Consistent) {run : List (Command C)} (hrun : .reset ∉ run) :
    (s.after run).Books (receipts ++ (s.history run).receipts) := by
  induction run generalizing s receipts with
  | nil => simpa [Sequence.after, Sequence.history, Trace.receipts] using h
  | cons command run ih =>
    cases command with
    | reset => exact absurd List.mem_cons_self hrun
    | advance dt ctx =>
      have hlater := ih (h.advance hk dt ctx).1 (Sequence.consistent_obey hk (.advance dt ctx))
        fun hm => hrun (List.mem_cons_of_mem _ hm)
      rw [Sequence.history, Trace.receipts_append, ← List.append_assoc]
      exact hlater

/-- The accounts of a sequence that was new and has been ticked since. -/
theorem IsNew.accounts_after {new : Sequence A C N} (h : new.IsNew) {run : List (Command C)}
    (hrun : .reset ∉ run) : (new.after run).Accounts (new.history run) :=
  Books.accounts ((Books.of_isNew h).after h.consistent hrun)
    (Sequence.consistent_after h.consistent run)

/-- In a run of a new sequence the number of passes never shrinks, and grows by at most one in a
tick. -/
theorem IsNew.passes_obey {new : Sequence A C N} (h : new.IsNew) {run : List (Command C)}
    (hrun : .reset ∉ run) (dt : Float32) (ctx : C) :
    (new.after run).passes ≤ ((new.after run).advance dt ctx).sequence.passes ∧
      ((new.after run).advance dt ctx).sequence.passes ≤ (new.after run).passes + 1 :=
  (((Books.of_isNew h).after h.consistent hrun).advance
    (Sequence.consistent_after h.consistent run) dt ctx).2

omit [Behavior A C N] in
/-- A history up to its last reset, and the ticks since. -/
theorem exists_lastReset (commands : List (Command C)) :
    ∃ before run, commands = before ++ run ∧ Command.reset ∉ run ∧
      (before = [] ∨ ∃ earlier, before = earlier ++ [.reset]) := by
  induction commands with
  | nil => exact ⟨[], [], rfl, by simp, .inl rfl⟩
  | cons command commands ih =>
    obtain ⟨before, run, rfl, hrun, hbefore⟩ := ih
    rcases hbefore with rfl | ⟨earlier, rfl⟩
    · cases command with
      | reset => exact ⟨[.reset], run, rfl, hrun, .inr ⟨[], rfl⟩⟩
      | advance dt ctx => exact ⟨[], .advance dt ctx :: run, rfl, by simpa using hrun, .inl rfl⟩
    · exact ⟨command :: (earlier ++ [.reset]), run, rfl, hrun, .inr ⟨command :: earlier, rfl⟩⟩

/-- The accounts of every sequence in a reachable one, after any further history of the root: what
its trace tells since it was new or last reset, whichever came later, adds up to where it stands,
and no tick takes its number of passes back, or on by more than one. The calls of the sequence since
the root was as given are those of which the trace of the root tells. -/
theorem accounts_of_reachable {s : Sequence A C N} (hs : (Part.sequence s).Reachable)
    (commands : List (Command C)) {path : List Hop} {t : Sequence A C N}
    (h : (Part.sequence (s.after commands)).find? path = some (.sequence t)) :
    ∃ (new : Sequence A C N) (earlier later : List (Command C)), new.IsNew ∧
      (Part.sequence s).find? path = some (.sequence (new.after earlier)) ∧
      (new.after earlier).history later = (s.history commands).within path ∧
      t = new.after (earlier ++ later) ∧
      ∃ before run, earlier ++ later = before ++ run ∧ .reset ∉ run ∧
        (before = [] ∨ ∃ calls, before = calls ++ [.reset]) ∧
        t.Accounts ((new.after before).history run) ∧
        ∀ ticks rest, run = ticks ++ rest → ∀ dt ctx,
          let u := (new.after before).after ticks
          u.passes ≤ (u.advance dt ctx).sequence.passes ∧
            (u.advance dt ctx).sequence.passes ≤ u.passes + 1 := by
  obtain ⟨given, ds, hb, rfl, ht, _⟩ := s.exists_commands_of_after commands path h
  obtain ⟨new, es, hn, rfl⟩ := hs.exists_history hb
  obtain ⟨before, run, hsplit, hrun, hbefore⟩ := exists_lastReset (es ++ ds)
  have hstart : (new.after before).IsNew := by
    rcases hbefore with rfl | ⟨calls, rfl⟩
    · exact hn
    · rw [Sequence.after_append]
      exact (new.after calls).isNew_reset
  refine ⟨new, es, ds, hn, hb, ht, (new.after_append es ds).symm, before, run, hsplit, hrun,
    hbefore, ?_, ?_⟩
  · rw [← Sequence.after_append, hsplit, Sequence.after_append]
    exact hstart.accounts_after hrun
  · rintro ticks rest rfl dt ctx
    exact hstart.passes_obey (fun hm => hrun (List.mem_append_left _ hm)) dt ctx

/-- A loop whose condition fails at the end of the first pass, is false when it is asked again, and
holds at the end of the second pass. -/
theorem accounts_of_loop :
    let calls : List (Call Rehearsal.Act Rehearsal.Stage String) :=
      [.run (.leaf (.callback (Rehearsal.cues [.push "step"]))),
        .repeatUntil (Rehearsal.checked Rehearsal.Stage.invalid Rehearsal.flagIsSet)]
    let s := (Builder.ofCalls "loop" calls).toSequence (fun _ => .ofSeed 0) 0
    let commands : List (Command Rehearsal.Stage) :=
      [.advance 0.5 ⟨false, 0, true⟩, .advance 0.5 .empty, .advance 0.5 ⟨true, 0, false⟩]
    let t := s.after commands
    (Part.sequence s).Reachable ∧
      (s.history commands).stepsCompleted = [0, 0] ∧
      (s.history commands).repeatAnswers = [false, true] ∧ t.passes = 2 ∧
      ∃ (new : Sequence Rehearsal.Act Rehearsal.Stage String) (before run : List _),
        new.IsNew ∧ t = new.after (before ++ run) ∧ Command.reset ∉ run ∧
        t.Accounts ((new.after before).history run) := by
  intro calls s commands t
  have hs : (Part.sequence s).Reachable := by
    refine .built "loop" calls (fun _ => .ofSeed 0) 0 ?_ ?_ rfl
    · simpa [calls, Call.steps] using .leaf _
    · simp [calls, Call.sequences]
  have hroot : (Part.sequence (s.after commands)).find? [] = some (.sequence t) := rfl
  obtain ⟨new, earlier, later, hn, _, _, ht, before, run, hsplit, hrun, _, haccounts, _⟩ :=
    accounts_of_reachable hs commands hroot
  exact ⟨hs, by decide +kernel +zetaReduce, by decide +kernel +zetaReduce,
    by decide +kernel +zetaReduce, new, before, run, hn, hsplit ▸ ht, hrun, haccounts⟩

end Sequence

end Sequencer

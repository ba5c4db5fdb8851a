import Sequencer.Proofs.Accounts
import Sequencer.Proofs.CallMoves

/-!
# Counted passes

A sequence that repeats a number of times keeps two numbers: the passes that have ended, and those
that are left, the running one included. While it runs they add up to the number of passes that it
was built with, so it completes at the end of the last of them and at no other time, whatever fails
on the way. A sequence with a count of one cannot be told from one that runs once, except by the
policy that its first log line names.
-/

namespace Sequencer

variable {A C N : Type}

namespace Call

theorem one_le_of_validFrom {calls : List (Call A C N)} {settings : Settings}
    (h : ValidFrom settings calls) {n : Nat}
    (hp : .count n ∈ calls.filterMap Call.policy?) : 1 ≤ n := by
  induction calls generalizing settings with
  | nil => cases hp
  | cons call later ih =>
    obtain ⟨hcall, hlater⟩ := h
    by_cases hc : call.policy? = some (.count n)
    · cases call with
      | repeatTimes count =>
        cases hc
        exact hcall
      | _ => cases hc
    · refine ih hlater ?_
      obtain ⟨other, hm, ho⟩ := List.mem_filterMap.mp hp
      rcases List.mem_cons.mp hm with rfl | hm
      · exact absurd ho hc
      · exact List.mem_filterMap.mpr ⟨other, hm, ho⟩

end Call

namespace Sequence

theorem IsBuilt.one_le_count {s : Sequence A C N} (h : s.IsBuilt) {n : Nat}
    (hp : s.policy = .count n) : 1 ≤ n := by
  obtain ⟨name, calls, entropy, serial, hresult⟩ := h
  obtain ⟨clean, rfl⟩ := Builder.result_ok_iff.mp hresult
  have hmisuses := ((Builder.closeBlock_misuses _).mp clean).1
  obtain ⟨-, valid, run⟩ := Builder.foldl_clean_iff.mp ⟨rfl, hmisuses⟩
  have held : (Builder.ofCalls name calls).policy.toList = calls.filterMap Call.policy? :=
    run.policy_eq
  refine Call.one_le_of_validFrom valid ?_
  rw [← held, Option.mem_toList]
  simp only [Builder.toSequence, Builder.closeBlock_policy] at hp
  cases hpolicy : (Builder.ofCalls name calls).policy with
  | none =>
    rw [hpolicy] at hp
    cases hp
  | some policy =>
    rw [hpolicy] at hp
    exact congrArg some hp

end Sequence

namespace Trace

@[simp] theorem passesEnded_append (t u : Trace N) :
    passesEnded (t ++ u) = t.passesEnded + u.passesEnded := by
  simp [passesEnded]

/-- A trace of a sequence without the line that says that it starts. -/
def withoutOpening (t : Trace N) : Trace N :=
  t.filter fun
    | ⟨[], .log (.sequenceStarted ..)⟩ => false
    | _ => true

theorem withoutOpening_append (t u : Trace N) :
    withoutOpening (t ++ u) = t.withoutOpening ++ u.withoutOpening :=
  List.filter_append t u

theorem passesEnded_of_path_ne {t : Trace N} (h : ∀ e ∈ t, e.path ≠ []) : t.passesEnded = 0 := by
  apply List.count_eq_zero_of_not_mem
  intro hm
  obtain ⟨e, he, hr⟩ := List.mem_filterMap.mp hm
  obtain ⟨path, event⟩ := e
  have hpath := h _ he
  unfold Entry.receipt? at hr
  split at hr <;> simp_all

end Trace

namespace Sequence

/-- Where a sequence stands that was built to run `n` passes. What is left of the count means
nothing before the first tick, which sets it. -/
structure Counts (s : Sequence A C N) (n : Nat) : Prop where
  policy : s.policy = .count n
  idle : s.status = .notStarted → s.passes = 0
  running : s.status = .running → s.passes + s.progress.remaining = n ∧ 1 ≤ s.progress.remaining
  complete : s.status = .complete → s.passes = n

theorem Counts.of_isNew {s : Sequence A C N} (h : s.IsNew) {n : Nat} (hp : s.policy = .count n) :
    s.Counts n where
  policy := hp
  idle _ := congrArg Progress.passes h.1
  running hr := Status.noConfusion (h.status.symm.trans hr)
  complete hc := Status.noConfusion (h.status.symm.trans hc)

theorem Counts.of_running {s : Sequence A C N} {n : Nat} (hp : s.policy = .count n)
    (hs : s.status = .running) (hsum : s.passes + s.progress.remaining = n)
    (hleft : 1 ≤ s.progress.remaining) : s.Counts n where
  policy := hp
  idle hi := Status.noConfusion (hs.symm.trans hi)
  running _ := ⟨hsum, hleft⟩
  complete hc := Status.noConfusion (hs.symm.trans hc)

theorem Counts.of_complete {s : Sequence A C N} {n : Nat} (hp : s.policy = .count n)
    (hs : s.status = .complete) (hpasses : s.passes = n) : s.Counts n where
  policy := hp
  idle hi := Status.noConfusion (hs.symm.trans hi)
  running hr := Status.noConfusion (hs.symm.trans hr)
  complete _ := hpasses

theorem Counts.passes_le {s : Sequence A C N} {n : Nat} (h : s.Counts n) : s.passes ≤ n := by
  cases hs : s.status with
  | notStarted => exact h.idle hs ▸ Nat.zero_le n
  | running => exact Nat.le.intro (h.running hs).1
  | complete => exact Nat.le_of_eq (h.complete hs)

theorem Counts.complete_iff {s : Sequence A C N} {n : Nat} (h : s.Counts n) (hn : 1 ≤ n) :
    s.status = .complete ↔ s.passes = n := by
  refine ⟨h.complete, fun hpasses => ?_⟩
  cases hs : s.status with
  | notStarted =>
    have := h.idle hs
    omega
  | running =>
    have := h.running hs
    omega
  | complete => rfl

theorem Counts.begun {s : Sequence A C N} {n : Nat} (h : s.Counts n) (hn : 1 ≤ n) :
    s.begun.Counts n ∧ s.begun.passes = s.passes := by
  by_cases hs : s.status = .notStarted
  · have hprogress : s.begun.progress = { Progress.initial s.policy with status := .running } := by
      rw [Sequence.begun, if_pos hs, progress_reset]
    have hpasses : s.begun.passes = 0 := congrArg Progress.passes hprogress
    have hleft : s.begun.progress.remaining = n := by
      rw [hprogress, h.policy]
      rfl
    have hstatus : s.begun.status = .running := congrArg Progress.status hprogress
    have hpolicy : s.begun.policy = .count n := (SameFrame.begun s).policy.trans h.policy
    refine ⟨.of_running hpolicy hstatus ?_ (hleft ▸ hn), hpasses.trans (h.idle hs).symm⟩
    rw [hpasses, hleft, Nat.zero_add]
  · rw [begun_of_ne hs]
    exact ⟨h, rfl⟩

/-- What driving a body does to a counted repetition, when `ended` passes end in it. -/
inductive MovesCount (p later : Progress) (ended : Nat) : Prop
  | within (hstatus : later.status = p.status) (hpasses : later.passes = p.passes)
      (hremaining : later.remaining = p.remaining) (hended : ended = 0)
  | wrapped (hleft : 1 < p.remaining) (hstatus : later.status = p.status)
      (hpasses : later.passes = min (p.passes + 1) maxPasses)
      (hremaining : later.remaining = p.remaining - 1) (hended : ended = 1)
  | last (hleft : ¬ 1 < p.remaining) (hstatus : later.status = .complete)
      (hpasses : later.passes = min (p.passes + 1) maxPasses) (hended : ended = 1)

theorem Counts.of_moves {s later : Sequence A C N} {n ended : Nat} (h : s.Counts n)
    (hr : s.status = .running) (hmax : n ≤ maxPasses) (hpolicy : later.policy = s.policy)
    (hmoves : MovesCount s.progress later.progress ended) :
    later.Counts n ∧ later.passes = s.passes + ended := by
  obtain ⟨hsum, hleft⟩ := h.running hr
  have hp : later.policy = .count n := hpolicy.trans h.policy
  have hstart : s.progress.passes = s.passes := rfl
  have hend : later.progress.passes = later.passes := rfl
  cases hmoves with
  | within hstatus hpasses hremaining hended =>
    exact ⟨.of_running hp (hstatus.trans hr) (by omega) (by omega), by omega⟩
  | wrapped hmore hstatus hpasses hremaining hended =>
    exact ⟨.of_running hp (hstatus.trans hr) (by omega) (by omega), by omega⟩
  | last hnone hstatus hpasses hended =>
    exact ⟨.of_complete hp hstatus (by omega), by omega⟩

section Ticks

variable [Behavior A C N]

theorem passesEnded_walk (s : Sequence A C N) (dt : Float32) (ctx : C) :
    (s.walk dt ctx).trace.passesEnded = 0 :=
  Trace.passesEnded_of_path_ne (s.path_ne_of_mem_walk dt ctx)

theorem passesEnded_wrap (s : Sequence A C N) (ctx : C) : (s.wrap ctx).trace.passesEnded = 1 := by
  rw [Trace.passesEnded, receipts_wrap]
  rfl

theorem passesEnded_advance (s : Sequence A C N) (dt : Float32) (ctx : C) :
    (s.advance dt ctx).trace.passesEnded = (s.begun.resume dt ctx).trace.passesEnded := by
  rw [Trace.passesEnded, receipts_advance, Trace.passesEnded]

theorem passesEnded_finishPass_le (s : Sequence A C N) (ctx : C) :
    (s.finishPass ctx).trace.passesEnded ≤ 1 := by
  have hverdict : (Trace.here (s.verdict ctx).events).passesEnded = 0 := by
    rw [Trace.passesEnded, receipts_verdict]
    split
    · split <;> rfl
    · rfl
  cases ha : (s.verdict ctx).answer with
  | error e =>
    rw [finishPass_of_error ha, hverdict]
    exact Nat.zero_le 1
  | ok again =>
    cases again with
    | true =>
      have hended : (s.finishPass ctx).trace.passesEnded = 1 := by
        rw [finishPass_of_again ha, Advance.after, Trace.passesEnded_append, hverdict,
          passesEnded_wrap]
      exact Nat.le_of_eq hended
    | false =>
      have hended : (s.finishPass ctx).trace.passesEnded = 1 := by
        rw [finishPass_of_over ha, Trace.passesEnded_append, hverdict]
        rfl
      exact Nat.le_of_eq hended

theorem passesEnded_resume_le (s : Sequence A C N) (dt : Float32) (ctx : C) :
    (s.resume dt ctx).trace.passesEnded ≤ 1 := by
  have hwalk := s.passesEnded_walk dt ctx
  by_cases hs : s.status = .complete
  · rw [resume_of_complete hs]
    exact Nat.zero_le 1
  cases hr : (s.walk dt ctx).result with
  | error e =>
    rw [resume_of_error hs hr, hwalk]
    exact Nat.zero_le 1
  | ok passed =>
    cases passed with
    | false =>
      rw [resume_of_held hs hr, hwalk]
      exact Nat.zero_le 1
    | true =>
      rw [resume_of_passed hs hr, Advance.after, Trace.passesEnded_append, hwalk, Nat.zero_add]
      exact passesEnded_finishPass_le _ _

/-- At most one pass ends in a tick. -/
theorem passesEnded_advance_le (s : Sequence A C N) (dt : Float32) (ctx : C) :
    (s.advance dt ctx).trace.passesEnded ≤ 1 := by
  rw [passesEnded_advance]
  exact s.begun.passesEnded_resume_le dt ctx

theorem movesCount_finishPass {s : Sequence A C N} {n : Nat} (hp : s.policy = .count n) (ctx : C) :
    MovesCount s.progress (s.finishPass ctx).sequence.progress
      (s.finishPass ctx).trace.passesEnded := by
  have hverdict : s.verdict ctx = ⟨[], .ok (1 < s.progress.remaining)⟩ := by
    rw [verdict, hp]
    rfl
  by_cases hleft : 1 < s.progress.remaining
  · have hagain : (s.verdict ctx).answer = .ok true := by simp [hverdict, hleft]
    have hended := s.passesEnded_wrap ctx
    have hprogress := s.progress_wrap ctx
    rw [finishPass_of_again hagain, hverdict]
    rw [hp] at hprogress
    refine .wrapped hleft (s.status_wrap ctx) ?_ ?_ hended
    · exact congrArg Progress.passes hprogress
    · exact congrArg Progress.remaining hprogress
  · have hover : (s.verdict ctx).answer = .ok false := by simp [hverdict, hleft]
    rw [finishPass_of_over hover, hverdict]
    exact .last hleft rfl rfl rfl

theorem movesCount_resume {s : Sequence A C N} {n : Nat} (hp : s.policy = .count n)
    (hs : s.status ≠ .complete) (dt : Float32) (ctx : C) :
    MovesCount s.progress (s.resume dt ctx).sequence.progress
      (s.resume dt ctx).trace.passesEnded := by
  have hwalk := s.passesEnded_walk dt ctx
  match hr : (s.walk dt ctx).result with
  | .error e =>
    rw [resume_of_error hs hr]
    exact .within rfl rfl rfl hwalk
  | .ok false =>
    rw [resume_of_held hs hr]
    exact .within rfl rfl rfl hwalk
  | .ok true =>
    -- the cascade has moved the cursor, and nothing that the count depends on
    have hfinish := movesCount_finishPass (s := s.stopped (s.walk dt ctx)) hp
      (s.walk dt ctx).context
    rw [resume_of_passed hs hr, Advance.after, Trace.passesEnded_append, hwalk, Nat.zero_add]
    cases hfinish with
    | within hstatus hpasses hremaining hended =>
      exact .within hstatus hpasses hremaining hended
    | wrapped hleft hstatus hpasses hremaining hended =>
      exact .wrapped hleft hstatus hpasses hremaining hended
    | last hleft hstatus hpasses hended => exact .last hleft hstatus hpasses hended

theorem Counts.advance {s : Sequence A C N} {n : Nat} (h : s.Counts n) (hn : 1 ≤ n)
    (hmax : n ≤ maxPasses) (dt : Float32) (ctx : C) :
    (s.advance dt ctx).sequence.Counts n ∧
      (s.advance dt ctx).sequence.passes = s.passes + (s.advance dt ctx).trace.passesEnded := by
  obtain ⟨hbegun, hsame⟩ := h.begun hn
  have hpolicy : (s.advance dt ctx).sequence.policy = s.begun.policy :=
    ((SameFrame.begun s).symm.trans (SameFrame.advance s dt ctx)).policy
  have hprogress := s.progress_advance dt ctx
  rw [s.passesEnded_advance dt ctx, ← hsame]
  cases hs : s.begun.status with
  | notStarted => exact absurd hs s.begun_status_ne
  | running =>
    have hbody := movesCount_resume hbegun.policy (hs ▸ Status.noConfusion) dt ctx
    exact hbegun.of_moves hs hmax hpolicy (hprogress ▸ hbody)
  | complete =>
    rw [resume_of_complete hs] at hprogress ⊢
    have hlater : (s.advance dt ctx).sequence.status = .complete :=
      (congrArg Progress.status hprogress).trans hs
    have hpasses : (s.advance dt ctx).sequence.passes = s.begun.passes :=
      congrArg Progress.passes hprogress
    have hcomplete := hpasses.trans (hbegun.complete hs)
    exact ⟨.of_complete (hpolicy.trans hbegun.policy) hlater hcomplete, hpasses⟩

theorem Counts.obey {s : Sequence A C N} {n : Nat} (h : s.Counts n) (hn : 1 ≤ n)
    (hmax : n ≤ maxPasses) (command : Command C) : (s.obey command).Counts n := by
  cases command with
  | advance dt ctx => exact (h.advance hn hmax dt ctx).1
  | reset => exact .of_isNew s.isNew_reset (s.policy_reset.trans h.policy)

theorem Counts.after {s : Sequence A C N} {n : Nat} (h : s.Counts n) (hn : 1 ≤ n)
    (hmax : n ≤ maxPasses) (commands : List (Command C)) : (s.after commands).Counts n := by
  induction commands generalizing s with
  | nil => exact h
  | cons command commands ih => exact ih (h.obey hn hmax command)

/-- For as long as a sequence is not reset, its number of passes grows with those that end. -/
theorem Counts.passes_after {s : Sequence A C N} {n : Nat} (h : s.Counts n) (hn : 1 ≤ n)
    (hmax : n ≤ maxPasses) {run : List (Command C)} (hrun : .reset ∉ run) :
    (s.after run).passes = s.passes + (s.history run).passesEnded := by
  induction run generalizing s with
  | nil => rfl
  | cons command run ih =>
    cases command with
    | reset => exact absurd List.mem_cons_self hrun
    | advance dt ctx =>
      obtain ⟨hcounts, hpasses⟩ := h.advance hn hmax dt ctx
      have hlater := ih hcounts fun hm => hrun (List.mem_cons_of_mem _ hm)
      rw [Sequence.history, Trace.passesEnded_append, ← Nat.add_assoc]
      simp only [Sequence.traceOf]
      rw [← hpasses]
      exact hlater

/-- Whether a sequence that was built to run `n` passes stands where a trace since its last start
says. -/
structure CountsTo (s : Sequence A C N) (n : Nat) (trace : Trace N) : Prop where
  /-- While it runs, the passes that have ended and those that are left make up the whole, and at
  least the running one is left. -/
  left : s.status = .running → s.passes + s.progress.remaining = n ∧ 1 ≤ s.progress.remaining
  ended : s.passes = trace.passesEnded
  bounded : s.passes ≤ n
  /-- It is complete from the end of its last pass on. -/
  complete : s.status = .complete ↔ trace.passesEnded = n
  /-- Every pass that ended completed every step, and the running one those before the cursor. -/
  steps : ∀ i < s.size, trace.stepsCompleted.count i =
    if s.status = .running ∧ i < s.cursor then s.passes + 1 else s.passes

theorem IsNew.countsTo_after {new : Sequence A C N} (h : new.IsNew) {n : Nat}
    (hp : new.policy = .count n) (hn : 1 ≤ n) (hmax : n ≤ maxPasses) {run : List (Command C)}
    (hrun : .reset ∉ run) : (new.after run).CountsTo n (new.history run) := by
  have hcounts := (Counts.of_isNew h hp).after hn hmax run
  have hbooks := (Books.of_isNew h).after h.consistent hrun
  have hk := Sequence.consistent_after h.consistent run
  have hended : (new.after run).passes = (new.history run).passesEnded := by
    have hpasses := (Counts.of_isNew h hp).passes_after hn hmax hrun
    rwa [show new.passes = 0 from congrArg Progress.passes h.1, Nat.zero_add] at hpasses
  refine ⟨hcounts.running, hended, hcounts.passes_le, ?_, fun i hi => ?_⟩
  · rw [← hended]
    exact hcounts.complete_iff hn
  · rw [hended]
    exact hbooks.count_stepsCompleted hk hi

omit [Behavior A C N] in
/-- The same sequence, to be run once instead of a number of times. -/
def underOnce (s : Sequence A C N) : Sequence A C N :=
  { s with policy := .once, progress := { s.progress with remaining := 0 } }

omit [Behavior A C N] in
theorem reset_underOnce (s : Sequence A C N) : s.underOnce.reset = s.reset.underOnce := by
  cases s
  rfl

omit [Behavior A C N] in
theorem begun_underOnce (s : Sequence A C N) : s.underOnce.begun = s.begun.underOnce := by
  by_cases hs : s.status = .notStarted
  · have hs' : s.underOnce.status = .notStarted := hs
    rw [begun, if_pos hs', begun, if_pos hs, reset_underOnce]
    rfl
  · have hs' : s.underOnce.status ≠ .notStarted := hs
    rw [begun_of_ne hs', begun_of_ne hs]

theorem resume_underOnce {s : Sequence A C N} {n : Nat} (hp : s.policy = .count n)
    (hleft : s.status ≠ .complete → ¬ 1 < s.progress.remaining) (dt : Float32) (ctx : C) :
    s.underOnce.resume dt ctx =
      { s.resume dt ctx with sequence := (s.resume dt ctx).sequence.underOnce } := by
  have hwalk : s.underOnce.walk dt ctx = s.walk dt ctx := rfl
  by_cases hs : s.status = .complete
  · have hs' : s.underOnce.status = .complete := hs
    rw [resume_of_complete hs', resume_of_complete hs]
  have hs' : s.underOnce.status ≠ .complete := hs
  match hr : (s.walk dt ctx).result with
  | .error e =>
    rw [resume_of_error hs' (hwalk ▸ hr), resume_of_error hs hr, hwalk]
    rfl
  | .ok false =>
    rw [resume_of_held hs' (hwalk ▸ hr), resume_of_held hs hr, hwalk]
    rfl
  | .ok true =>
    have hover : ((s.stopped (s.walk dt ctx)).verdict (s.walk dt ctx).context) =
        ⟨[], .ok false⟩ := by
      have hnone : ¬ 1 < (s.stopped (s.walk dt ctx)).progress.remaining := hleft hs
      have hpolicy : (s.stopped (s.walk dt ctx)).policy = .count n := hp
      rw [verdict, hpolicy]
      simp [Policy.again, hnone]
    have hover' : ((s.underOnce.stopped (s.walk dt ctx)).verdict (s.walk dt ctx).context) =
        ⟨[], .ok false⟩ := rfl
    rw [resume_of_passed hs' (hwalk ▸ hr), resume_of_passed hs hr, hwalk,
      finishPass_of_over (congrArg Evaluation.answer hover'),
      finishPass_of_over (congrArg Evaluation.answer hover), hover, hover']
    rfl

omit [Behavior A C N] in
theorem withoutOpening_opening (s : Sequence A C N) : s.opening.withoutOpening = [] := by
  unfold opening
  split <;> rfl

/-- A tick of a sequence that has at most the running pass left is that of one that runs once, but
for the line that says that it starts. -/
theorem advance_underOnce {s : Sequence A C N} (h : s.Counts 1) (dt : Float32) (ctx : C) :
    let a := s.advance dt ctx
    let b := s.underOnce.advance dt ctx
    b.result = a.result ∧ b.context = a.context ∧ b.sequence = a.sequence.underOnce ∧
      b.trace.withoutOpening = a.trace.withoutOpening := by
  have hbegun := (h.begun (Nat.le_refl 1)).1
  have hleft : s.begun.status ≠ .complete → ¬ 1 < s.begun.progress.remaining := by
    intro hc
    cases hs : s.begun.status with
    | notStarted => exact absurd hs s.begun_status_ne
    | running =>
      have := hbegun.running hs
      omega
    | complete => exact absurd hs hc
  have hbody : s.underOnce.begun.resume dt ctx = { s.begun.resume dt ctx with
      sequence := (s.begun.resume dt ctx).sequence.underOnce } := by
    rw [begun_underOnce]
    exact resume_underOnce hbegun.policy hleft dt ctx
  have hcompanions : s.underOnce.begun.companions = s.begun.companions := by
    rw [begun_underOnce]
    rfl
  have htrace : ∀ rest : Trace N, Trace.withoutOpening (⟨[], .ticked⟩ :: (s.underOnce.opening ++
      rest)) = Trace.withoutOpening (⟨[], .ticked⟩ :: (s.opening ++ rest)) := by
    intro rest
    have hhead (t : Trace N) :
        Trace.withoutOpening (⟨[], .ticked⟩ :: t) = ⟨[], .ticked⟩ :: t.withoutOpening := rfl
    rw [hhead, hhead, Trace.withoutOpening_append, Trace.withoutOpening_append,
      withoutOpening_opening, withoutOpening_opening]
  match hr : (s.begun.resume dt ctx).result with
  | .error e =>
    have hr' : (s.underOnce.begun.resume dt ctx).result = .error e := by rw [hbody, hr]
    rw [advance_of_error hr', advance_of_error hr, hbody]
    exact ⟨rfl, rfl, rfl, htrace _⟩
  | .ok outcome =>
    have hr' : (s.underOnce.begun.resume dt ctx).result = .ok outcome := by rw [hbody, hr]
    rw [advance_of_ok hr', advance_of_ok hr, hbody, hcompanions]
    refine ⟨rfl, rfl, rfl, ?_⟩
    simp only [List.append_assoc]
    exact htrace _

theorem after_underOnce {s : Sequence A C N} (h : s.Counts 1) (commands : List (Command C)) :
    s.underOnce.after commands = (s.after commands).underOnce := by
  have hmax : 1 ≤ maxPasses := by decide
  induction commands generalizing s with
  | nil => rfl
  | cons command commands ih =>
    have hobey : s.underOnce.obey command = (s.obey command).underOnce := by
      cases command with
      | advance dt ctx => exact (advance_underOnce h dt ctx).2.2.1
      | reset => exact s.reset_underOnce
    rw [after, after, hobey]
    exact ih (h.obey (Nat.le_refl 1) hmax command)

/-- The passes of a counted repetition, in every sequence inside of a reachable one, after any
further history of the root. The sequence was new at some time and has been called since; from
every start on, the first or one by a reset, and for as long as it is not reset, it counts to its
number of passes. A sequence with a count of one behaves in every call as if it ran once. -/
theorem countsTo_of_reachable {s : Sequence A C N} (hs : (Part.sequence s).Reachable)
    (commands : List (Command C)) {path : List Hop} {t : Sequence A C N} {n : Nat}
    (h : (Part.sequence (s.after commands)).find? path = some (.sequence t))
    (hp : t.policy = .count n) (hmax : n ≤ maxPasses) :
    1 ≤ n ∧ (t.status = .running →
      t.passes + t.progress.remaining = n ∧ 1 ≤ t.progress.remaining) ∧
    ∃ (new : Sequence A C N) (earlier later : List (Command C)), new.IsNew ∧
      (Part.sequence s).find? path = some (.sequence (new.after earlier)) ∧
      (new.after earlier).history later = (s.history commands).within path ∧
      t = new.after (earlier ++ later) ∧
      (∀ before run, .reset ∉ run → (before = [] ∨ ∃ calls, before = calls ++ [.reset]) →
        (new.after (before ++ run)).CountsTo n ((new.after before).history run)) ∧
      (n = 1 → ∀ calls dt ctx,
        let a := (new.after calls).advance dt ctx
        let b := (new.underOnce.after calls).advance dt ctx
        b.result = a.result ∧ b.context = a.context ∧
          b.trace.withoutOpening = a.trace.withoutOpening) := by
  obtain ⟨given, ds, hb, rfl, ht, _⟩ := s.exists_commands_of_after commands path h
  have hn : 1 ≤ n := by
    obtain ⟨built, es, hbuilt, rfl⟩ := hs.exists_built hb
    rw [(SameFrame.after _ ds).policy, (SameFrame.after _ es).policy] at hp
    exact hbuilt.one_le_count hp
  obtain ⟨new, es, hnew, rfl⟩ := hs.exists_history hb
  rw [← Sequence.after_append] at hp ⊢
  have hpolicy : new.policy = .count n := (SameFrame.after new _).policy.symm.trans hp
  have hcounts := Counts.of_isNew hnew hpolicy
  refine ⟨hn, ((hcounts.after hn hmax _).running), new, es, ds, hnew, hb, ht, rfl, ?_, ?_⟩
  · intro before run hrun hbefore
    have hstart : (new.after before).IsNew := by
      rcases hbefore with rfl | ⟨calls, rfl⟩
      · exact hnew
      · rw [Sequence.after_append]
        exact (new.after calls).isNew_reset
    rw [Sequence.after_append]
    refine hstart.countsTo_after ?_ hn hmax hrun
    exact (SameFrame.after new before).policy.trans hpolicy
  · rintro rfl calls dt ctx a b
    have hlater := hcounts.after hn hmax calls
    obtain ⟨hresult, hcontext, -, htrace⟩ := advance_underOnce hlater dt ctx
    rw [← after_underOnce hcounts calls] at hresult hcontext htrace
    exact ⟨hresult, hcontext, htrace⟩

/-- A loop of two passes whose first tick fails. It is reset after a pass, and counts anew. -/
theorem countsTo_of_restarted_loop :
    let calls : List (Call Rehearsal.Act Rehearsal.Stage String) :=
      [.run (.leaf (.callback (Rehearsal.cuesAfter 1 .action []))), .repeatTimes 2]
    let s := (Builder.ofCalls "dance" calls).toSequence (fun _ => .ofSeed 0) 0
    let tick : Command Rehearsal.Stage := .advance 0.5 .empty
    let commands := [tick, tick, .reset, tick]
    let t := s.after commands
    (Part.sequence s).Reachable ∧ (s.advance 0.5 .empty).result = .error (.action "not yet") ∧
      (s.after [tick, tick]).passes = 1 ∧ t.status = .running ∧ t.passes = 1 ∧
      t.progress.remaining = 1 ∧ (s.after (commands ++ [tick])).status = .complete ∧
      ∃ (new : Sequence Rehearsal.Act Rehearsal.Stage String) (before run : List _),
        new.IsNew ∧ t = new.after (before ++ run) ∧ Command.reset ∉ run ∧
        t.CountsTo 2 ((new.after before).history run) := by
  intro calls s tick commands t
  have hs : (Part.sequence s).Reachable := by
    refine .built "dance" calls (fun _ => .ofSeed 0) 0 ?_ ?_ rfl
    · simpa [calls, Call.steps] using .leaf _
    · simp [calls, Call.sequences]
  have hroot : (Part.sequence (s.after commands)).find? [] = some (.sequence t) := rfl
  have hpolicy : t.policy = .count 2 := (SameFrame.after s commands).policy
  obtain ⟨-, -, new, earlier, later, hnew, -, -, hafter, hcounts, -⟩ :=
    countsTo_of_reachable hs commands hroot hpolicy (by decide)
  obtain ⟨before, run, hsplit, hrun, hbefore⟩ := exists_lastReset (earlier ++ later)
  rw [hsplit] at hafter
  have hlast := hcounts before run hrun hbefore
  rw [← hafter] at hlast
  refine ⟨hs, rfl, ?_, ?_, ?_, ?_, ?_, new, before, run, hnew, hafter, hrun, hlast⟩
  all_goals decide +kernel +zetaReduce

end Ticks

end Sequence

end Sequencer

import Sequencer.Proofs.Accounts
import Sequencer.Proofs.InstantLoops

/-!
# The journal of a sequence

The log lines that a sequence writes itself follow a fixed pattern from one reset to the next: a
line that it starts, one for each pass that another one follows, numbered without gap, and one that
it is complete. A failure may come between any two lines and changes nothing of the pattern. The
warning of an endless loop stands directly before the line of the pass that it is about, and is
written once in the life of a sequence, resets or not.
-/

namespace Sequencer

variable {A C N : Type}

namespace LogEvent

def isWarning : LogEvent → Bool
  | instantLoop _ => true
  | _ => false

def isWrapped : LogEvent → Bool
  | sequenceWrapped .. => true
  | _ => false

end LogEvent

def Entry.ownLine? : Entry N → Option LogEvent
  | ⟨[], .log line⟩ => some line
  | _ => none

namespace Trace

/-- The log lines in a trace of a sequence that it has written itself, in the order of time. -/
def ownLines (t : Trace N) : List LogEvent := t.filterMap Entry.ownLine?

/-- These lines without the warnings. -/
def journal (t : Trace N) : List LogEvent := t.ownLines.filter fun line => !line.isWarning

@[simp] theorem ownLines_append (t u : Trace N) : ownLines (t ++ u) = t.ownLines ++ u.ownLines := by
  simp [ownLines]

@[simp] theorem journal_append (t u : Trace N) : journal (t ++ u) = t.journal ++ u.journal := by
  simp [journal]

theorem ownLines_of_path_ne {t : Trace N} (h : ∀ e ∈ t, e.path ≠ []) : t.ownLines = [] := by
  refine List.filterMap_eq_nil_iff.mpr fun e he => ?_
  have hpath := h e he
  obtain ⟨path, event⟩ := e
  cases path with
  | nil => exact absurd rfl hpath
  | cons hop place => rfl

@[simp] theorem ownLines_under (hop : Hop) (t : Trace N) : (t.under hop).ownLines = [] := by
  apply ownLines_of_path_ne
  intro e he
  obtain ⟨inner, -, rfl⟩ := List.mem_map.mp he
  exact List.cons_ne_nil _ _

theorem ownLines_here {events : List (Event N)} (h : ∀ e ∈ events, e.isDecision = true) :
    (here events).ownLines = [] := by
  rw [ownLines, here, List.filterMap_map]
  refine filterMap_of_isDecision (fun e hd => ?_) h
  cases e with
  | log line => cases hd
  | _ => rfl

/-- Whether every warning in a trace of a sequence comes directly before the line that the pass has
ended. -/
def WarnsAtWraps (t : Trace N) : Prop :=
  ∀ before name after, t = before ++ ⟨[], .log (.instantLoop name)⟩ :: after →
    ∃ pass later, after = ⟨[], .log (.sequenceWrapped name pass)⟩ :: later

theorem WarnsAtWraps.of_silent {t : Trace N} (h : ¬ t.WarnsOfLoop) : t.WarnsAtWraps := by
  rintro before name after rfl
  exact absurd ⟨name, List.mem_append_right _ List.mem_cons_self⟩ h

theorem WarnsAtWraps.of_ownLines {t : Trace N} (h : t.ownLines = []) : t.WarnsAtWraps := by
  refine .of_silent ?_
  rintro ⟨name, hm⟩
  have hline : LogEvent.instantLoop name ∈ t.ownLines := List.mem_filterMap.mpr ⟨_, hm, rfl⟩
  rw [h] at hline
  cases hline

theorem WarnsAtWraps.append {t u : Trace N} (ht : t.WarnsAtWraps) (hu : u.WarnsAtWraps) :
    WarnsAtWraps (t ++ u) := by
  intro before name after h
  rcases List.append_eq_append_iff.mp h with ⟨mid, -, hsplit⟩ | ⟨mid, hsplit, hrest⟩
  · exact hu mid name after hsplit
  · cases mid with
    | nil => exact hu [] name after hrest.symm
    | cons first mid =>
      obtain ⟨rfl, hafter⟩ := List.cons.inj hrest
      obtain ⟨pass, later, rfl⟩ := ht before name mid hsplit
      exact ⟨pass, later ++ u, hafter⟩

end Trace

namespace Sequence

/-- The journal of a sequence that has been started and has begun another pass `wraps` times. -/
def journalTo (s : Sequence A C N) (wraps : Nat) : List LogEvent :=
  .sequenceStarted s.name s.size s.policy.name ::
    (List.range wraps).map fun k => .sequenceWrapped s.name (min (k + 1) maxPasses)

/-- What a sequence has written since it was last reset, by where it stands. -/
inductive Journal (s : Sequence A C N) : List LogEvent → Prop
  /-- Nothing before the first tick. -/
  | silent (hs : s.status = .notStarted) (hpasses : s.passes = 0) : Journal s []
  | running (wraps : Nat) (hs : s.status = .running) (hpasses : s.passes = min wraps maxPasses) :
      Journal s (s.journalTo wraps)
  | complete (wraps : Nat) (hs : s.status = .complete)
      (hpasses : s.passes = min (wraps + 1) maxPasses) :
      Journal s (s.journalTo wraps ++ [.sequenceComplete s.name (min (wraps + 1) maxPasses)])

theorem journalTo_of_sameFrame {s later : Sequence A C N} (h : s.SameFrame later) (wraps : Nat) :
    later.journalTo wraps = s.journalTo wraps := by
  have hsize : later.size = s.size := h.steps
  rw [journalTo, h.name, h.policy, hsize, journalTo]

theorem journalTo_succ (s : Sequence A C N) (wraps : Nat) :
    s.journalTo (wraps + 1) =
      s.journalTo wraps ++ [.sequenceWrapped s.name (min (wraps + 1) maxPasses)] := by
  simp [journalTo, List.range_succ]

/-- What driving a body writes, and what it does to the progress. -/
inductive Writes (s : Sequence A C N) (lines : List LogEvent) (later : Sequence A C N) : Prop
  /-- The body is complete, fails, or leaves a step running. -/
  | nothing (hstatus : later.status = s.status) (hpasses : later.passes = s.passes)
      (hwarned : later.warned = s.warned) (hlines : lines = [])
  /-- Another pass begins, whether its first step can be entered or not. -/
  | wrapped (warns : Bool) (hs : s.status ≠ .complete) (hstatus : later.status = s.status)
      (hpasses : later.passes = min (s.passes + 1) maxPasses)
      (hwarned : later.warned = (s.warned || warns))
      (hwarns : warns = true → s.policy.name = .forever ∧ s.warnOnInstantLoops = true ∧
        s.warned = false)
      (hlines : lines = (if warns then [.instantLoop s.name] else []) ++
        [.sequenceWrapped s.name later.passes])
  | complete (hs : s.status ≠ .complete) (hstatus : later.status = .complete)
      (hpasses : later.passes = min (s.passes + 1) maxPasses) (hwarned : later.warned = s.warned)
      (hlines : lines = [.sequenceComplete s.name later.passes])

theorem Journal.writes {s later : Sequence A C N} {lines new : List LogEvent} (h : s.Journal lines)
    (hs : s.status ≠ .notStarted) (hframe : s.SameFrame later) (hnew : s.Writes new later) :
    later.Journal (lines ++ new.filter fun line => !line.isWarning) := by
  have hto := journalTo_of_sameFrame hframe
  cases h with
  | silent hsilent => exact absurd hsilent hs
  | running wraps hrunning hpasses =>
    cases hnew with
    | nothing hstatus hsame hwarned hlines =>
      rw [hlines, List.filter_nil, List.append_nil, ← hto]
      exact .running wraps (hstatus.trans hrunning) (hsame.trans hpasses)
    | wrapped warns hc hstatus hsucc hwarned hwarns hlines =>
      have hlater : later.passes = min (wraps + 1) maxPasses := by omega
      have hkept : (new.filter fun line => !line.isWarning) =
          [.sequenceWrapped s.name later.passes] := by
        rw [hlines]
        cases warns <;> rfl
      rw [hkept, hlater, ← journalTo_succ, ← hto]
      exact .running (wraps + 1) (hstatus.trans hrunning) hlater
    | complete hc hstatus hsucc hwarned hlines =>
      have hlater : later.passes = min (wraps + 1) maxPasses := by omega
      have hkept : (new.filter fun line => !line.isWarning) =
          [.sequenceComplete later.name (min (wraps + 1) maxPasses)] := by
        rw [hlines, hframe.name, hlater]
        rfl
      rw [hkept, ← hto]
      exact .complete wraps hstatus hlater
  | complete wraps hcomplete hpasses =>
    cases hnew with
    | nothing hstatus hsame hwarned hlines =>
      rw [hlines, List.filter_nil, List.append_nil, ← hto, ← hframe.name]
      exact .complete wraps (hstatus.trans hcomplete) (hsame.trans hpasses)
    | wrapped _ hc => exact absurd hcomplete hc
    | complete hc => exact absurd hcomplete hc

section Ticks

variable [Behavior A C N]

theorem ownLines_walk (s : Sequence A C N) (dt : Float32) (ctx : C) :
    (s.walk dt ctx).trace.ownLines = [] :=
  Trace.ownLines_of_path_ne (s.path_ne_of_mem_walk dt ctx)

omit [Behavior A C N] in
theorem ownLines_verdict (s : Sequence A C N) (ctx : C) :
    (Trace.here (s.verdict ctx).events).ownLines = [] :=
  Trace.ownLines_here (s.policy.isDecision_again _ ctx)

theorem ownLines_wrap (s : Sequence A C N) (ctx : C) :
    (s.wrap ctx).trace.ownLines = (if s.isInstantLoop then [.instantLoop s.name] else []) ++
      [.sequenceWrapped s.name (s.progress.wrap s.policy).passes] := by
  have hlines : s.wrapLines.ownLines = (if s.isInstantLoop then [.instantLoop s.name] else []) ++
      [.sequenceWrapped s.name (s.progress.wrap s.policy).passes] := by
    unfold wrapLines
    split <;> rfl
  cases h : s.steps with
  | nil => rwa [wrap_of_nil h]
  | cons first rest =>
    rw [wrap_of_cons h]
    simp only [Trace.ownLines_append, Trace.ownLines_under, List.append_nil, hlines]

theorem writes_finishPass {s : Sequence A C N} (hs : s.status ≠ .complete) (ctx : C) :
    s.Writes (s.finishPass ctx).trace.ownLines (s.finishPass ctx).sequence := by
  have hverdict := s.ownLines_verdict ctx
  match ha : (s.verdict ctx).answer with
  | .error e =>
    rw [finishPass_of_error ha]
    exact .nothing rfl rfl rfl hverdict
  | .ok true =>
    have hprogress := s.progress_wrap ctx
    rw [finishPass_of_again ha]
    refine .wrapped s.isInstantLoop hs (s.status_wrap ctx) ?_ (s.warned_wrap ctx) ?_ ?_
    · exact congrArg Progress.passes hprogress
    · intro hinstant
      simp only [isInstantLoop, Bool.and_eq_true, beq_iff_eq, Bool.not_eq_true'] at hinstant
      exact ⟨hinstant.1.1.1, hinstant.1.2, hinstant.2⟩
    · simp only [Advance.after, Trace.ownLines_append, hverdict, List.nil_append, ownLines_wrap,
        passes, hprogress]
  | .ok false =>
    rw [finishPass_of_over ha]
    refine .complete hs rfl rfl rfl ?_
    rw [Trace.ownLines_append, hverdict]
    rfl

theorem writes_resume (s : Sequence A C N) (dt : Float32) (ctx : C) :
    s.Writes (s.resume dt ctx).trace.ownLines (s.resume dt ctx).sequence := by
  have hwalk := s.ownLines_walk dt ctx
  by_cases hs : s.status = .complete
  · rw [resume_of_complete hs]
    exact .nothing rfl rfl rfl rfl
  match hr : (s.walk dt ctx).result with
  | .error e =>
    rw [resume_of_error hs hr]
    exact .nothing rfl rfl rfl hwalk
  | .ok false =>
    rw [resume_of_held hs hr]
    exact .nothing rfl rfl rfl hwalk
  | .ok true =>
    have hfinish := writes_finishPass (s := s.stopped (s.walk dt ctx)) hs (s.walk dt ctx).context
    rw [resume_of_passed hs hr, Advance.after, Trace.ownLines_append, hwalk, List.nil_append]
    cases hfinish with
    | nothing hstatus hpasses hwarned hlines => exact .nothing hstatus hpasses hwarned hlines
    | wrapped warns hc hstatus hpasses hwarned hwarns hlines =>
      exact .wrapped warns hc hstatus hpasses hwarned hwarns hlines
    | complete hc hstatus hpasses hwarned hlines =>
      exact .complete hc hstatus hpasses hwarned hlines

theorem ownLines_advance (s : Sequence A C N) (dt : Float32) (ctx : C) :
    (s.advance dt ctx).trace.ownLines =
      s.opening.ownLines ++ (s.begun.resume dt ctx).trace.ownLines := by
  obtain ⟨beside, hbeside, ht, -⟩ := s.exists_beside dt ctx
  have hnone : beside.ownLines = [] :=
    Trace.ownLines_of_path_ne (Trace.path_ne_of_companions hbeside)
  have hhead (t : Trace N) : Trace.ownLines (⟨[], .ticked⟩ :: t) = t.ownLines := rfl
  rw [ht, hhead, Trace.ownLines_append, Trace.ownLines_append, hnone, List.append_nil]

theorem writes_advance (s : Sequence A C N) (dt : Float32) (ctx : C) :
    s.begun.Writes (s.begun.resume dt ctx).trace.ownLines (s.advance dt ctx).sequence := by
  obtain ⟨companions, hleft⟩ := s.exists_companions_advance dt ctx
  have hbody := s.begun.writes_resume dt ctx
  rw [hleft]
  cases hbody with
  | nothing hstatus hpasses hwarned hlines => exact .nothing hstatus hpasses hwarned hlines
  | wrapped warns hc hstatus hpasses hwarned hwarns hlines =>
    exact .wrapped warns hc hstatus hpasses hwarned hwarns hlines
  | complete hc hstatus hpasses hwarned hlines =>
    exact .complete hc hstatus hpasses hwarned hlines

/-- A tick goes on with the pattern, whatever its result is. -/
theorem Journal.advance {s : Sequence A C N} {lines : List LogEvent} (h : s.Journal lines)
    (dt : Float32) (ctx : C) :
    (s.advance dt ctx).sequence.Journal (lines ++ (s.advance dt ctx).trace.journal) := by
  have hwrites := s.writes_advance dt ctx
  have hframe : s.begun.SameFrame (s.advance dt ctx).sequence :=
    (SameFrame.begun s).symm.trans (SameFrame.advance s dt ctx)
  have hopened : s.begun.Journal (lines ++ s.opening.journal) := by
    by_cases hs : s.status = .notStarted
    · have hpasses : s.begun.passes = 0 := by
        rw [Sequence.begun, if_pos hs]
        exact congrArg Progress.passes s.progress_reset
      have hstatus : s.begun.status = .running := by
        rw [Sequence.begun, if_pos hs]
        rfl
      have hstarted : lines ++ s.opening.journal = s.begun.journalTo 0 := by
        rw [journalTo_of_sameFrame (SameFrame.begun s), opening, if_pos hs]
        cases h with
        | silent => rfl
        | running _ hrunning => exact Status.noConfusion (hs.symm.trans hrunning)
        | complete _ hcomplete => exact Status.noConfusion (hs.symm.trans hcomplete)
      rw [hstarted]
      exact .running 0 hstatus hpasses
    · rw [begun_of_ne hs, opening, if_neg hs]
      simpa [Trace.journal, Trace.ownLines] using h
  have hlater := hopened.writes s.begun_status_ne hframe hwrites
  rw [Trace.journal, ownLines_advance, List.filter_append, ← List.append_assoc]
  exact hlater

/-- A pass ends at most once in a tick. -/
theorem countP_isWrapped_advance_le (s : Sequence A C N) (dt : Float32) (ctx : C) :
    (s.advance dt ctx).trace.ownLines.countP LogEvent.isWrapped ≤ 1 := by
  have hopening : s.opening.ownLines.countP LogEvent.isWrapped = 0 := by
    unfold opening
    split <;> rfl
  rw [ownLines_advance, List.countP_append, hopening, Nat.zero_add]
  cases s.writes_advance dt ctx with
  | nothing hstatus hpasses hwarned hlines => simp [hlines]
  | wrapped warns hc hstatus hpasses hwarned hwarns hlines =>
    rw [hlines]
    cases warns <;> exact Nat.le_refl 1
  | complete hc hstatus hpasses hwarned hlines =>
    rw [hlines]
    exact Nat.zero_le 1

omit [Behavior A C N] in
/-- A warning is written only if none was before, by an endless loop that is to be warned of. -/
theorem Writes.warning {s later : Sequence A C N} {lines : List LogEvent}
    (h : s.Writes lines later) :
    lines.countP LogEvent.isWarning + s.warned.toNat = later.warned.toNat ∧
      ∀ name, .instantLoop name ∈ lines →
        s.policy.name = .forever ∧ s.warnOnInstantLoops = true := by
  cases h with
  | nothing hstatus hpasses hwarned hlines => simp [hlines, hwarned]
  | wrapped warns hc hstatus hpasses hwarned hwarns hlines =>
    cases warns with
    | false => simp [hlines, hwarned, LogEvent.isWarning]
    | true =>
      obtain ⟨hforever, hon, hfirst⟩ := hwarns rfl
      refine ⟨?_, fun name _ => ⟨hforever, hon⟩⟩
      rw [hlines, hwarned, hfirst]
      rfl
  | complete hc hstatus hpasses hwarned hlines => simp [hlines, hwarned, LogEvent.isWarning]

theorem warning_advance (s : Sequence A C N) (dt : Float32) (ctx : C) :
    (s.advance dt ctx).trace.ownLines.countP LogEvent.isWarning + s.warned.toNat =
        (s.advance dt ctx).sequence.warned.toNat ∧
      ∀ name, .instantLoop name ∈ (s.advance dt ctx).trace.ownLines →
        s.policy.name = .forever ∧ s.warnOnInstantLoops = true := by
  obtain ⟨hcount, hpolicy⟩ := (s.writes_advance dt ctx).warning
  have hframe := SameFrame.begun s
  have hopening : s.opening.ownLines.countP LogEvent.isWarning = 0 ∧
      ∀ name, .instantLoop name ∉ s.opening.ownLines := by
    unfold opening
    split <;> simp [Trace.ownLines, Trace.line, Entry.ownLine?, LogEvent.isWarning]
  rw [s.warned_begun] at hcount
  rw [hframe.policy, hframe.warnOnInstantLoops] at hpolicy
  rw [ownLines_advance, List.countP_append, hopening.1, Nat.zero_add]
  refine ⟨hcount, fun name hm => ?_⟩
  exact hpolicy name ((List.mem_append.mp hm).resolve_left (hopening.2 name))

omit [Behavior A C N] in
theorem warnsAtWraps_wrapLines (s : Sequence A C N) : s.wrapLines.WarnsAtWraps := by
  intro before name after h
  unfold wrapLines at h
  split at h
  · rcases before with - | ⟨first, - | ⟨second, before⟩⟩
    · obtain ⟨hfirst, rfl⟩ := List.cons.inj h
      obtain rfl := LogEvent.instantLoop.inj (Event.log.inj (Entry.mk.inj hfirst).2)
      exact ⟨_, [], rfl⟩
    · cases (List.cons.inj (List.cons.inj h).2).1
    · exact absurd (List.cons.inj (List.cons.inj h).2).2 (by simp)
  · rcases before with - | ⟨first, before⟩
    · cases (List.cons.inj h).1
    · cases before <;> cases (List.cons.inj h).2

theorem warnsAtWraps_finishPass (s : Sequence A C N) (ctx : C) :
    (s.finishPass ctx).trace.WarnsAtWraps := by
  have hverdict := Trace.WarnsAtWraps.of_ownLines (s.ownLines_verdict ctx)
  match ha : (s.verdict ctx).answer with
  | .error e =>
    rw [finishPass_of_error ha]
    exact hverdict
  | .ok true =>
    rw [finishPass_of_again ha]
    refine hverdict.append ?_
    cases h : s.steps with
    | nil =>
      rw [wrap_of_nil h]
      exact s.warnsAtWraps_wrapLines
    | cons first rest =>
      rw [wrap_of_cons h]
      refine s.warnsAtWraps_wrapLines.append (.of_ownLines ?_)
      exact Trace.ownLines_under (.step 0) _
  | .ok false =>
    rw [finishPass_of_over ha]
    refine hverdict.append (.of_silent ?_)
    rintro ⟨name, hm⟩
    cases List.mem_singleton.mp hm

/-- Nothing comes between a warning and the line of the pass that it is about. -/
theorem warnsAtWraps_advance (s : Sequence A C N) (dt : Float32) (ctx : C) :
    (s.advance dt ctx).trace.WarnsAtWraps := by
  have hbody : (s.begun.resume dt ctx).trace.WarnsAtWraps := by
    have hwalk := Trace.WarnsAtWraps.of_ownLines (s.begun.ownLines_walk dt ctx)
    by_cases hs : s.begun.status = .complete
    · rw [resume_of_complete hs]
      exact .of_ownLines rfl
    match hr : (s.begun.walk dt ctx).result with
    | .error e => rwa [resume_of_error hs hr]
    | .ok false => rwa [resume_of_held hs hr]
    | .ok true =>
      rw [resume_of_passed hs hr]
      exact hwalk.append (warnsAtWraps_finishPass _ _)
  have hopening : s.opening.WarnsAtWraps := by
    refine .of_silent ?_
    rintro ⟨name, hm⟩
    unfold opening at hm
    split at hm
    · cases List.mem_singleton.mp hm
    · cases hm
  obtain ⟨beside, hbeside, ht, -⟩ := s.exists_beside dt ctx
  have hcompanions : beside.WarnsAtWraps :=
    .of_ownLines (Trace.ownLines_of_path_ne (Trace.path_ne_of_companions hbeside))
  rw [ht]
  exact Trace.WarnsAtWraps.append (t := [⟨[], .ticked⟩]) (.of_ownLines rfl)
    ((hopening.append hbody).append hcompanions)

theorem Journal.after {s : Sequence A C N} {lines : List LogEvent} (h : s.Journal lines)
    {run : List (Command C)} (hrun : .reset ∉ run) :
    (s.after run).Journal (lines ++ (s.history run).journal) := by
  induction run generalizing s lines with
  | nil => simpa [Sequence.after, history, Trace.journal, Trace.ownLines] using h
  | cons command run ih =>
    cases command with
    | reset => exact absurd List.mem_cons_self hrun
    | advance dt ctx =>
      rw [history, Trace.journal_append, ← List.append_assoc]
      exact ih (h.advance dt ctx) fun hm => hrun (List.mem_cons_of_mem _ hm)

theorem status_after_iff {s : Sequence A C N} {run : List (Command C)} (hrun : .reset ∉ run) :
    (s.after run).status = .notStarted ↔ s.status = .notStarted ∧ run = [] := by
  induction run generalizing s with
  | nil => exact (and_iff_left rfl).symm
  | cons command run ih =>
    cases command with
    | reset => exact absurd List.mem_cons_self hrun
    | advance dt ctx =>
      have hlater := ih (s := (s.advance dt ctx).sequence)
        fun hm => hrun (List.mem_cons_of_mem _ hm)
      simp [Sequence.after, Sequence.obey, hlater, s.status_advance_ne dt ctx]

theorem warning_history (s : Sequence A C N) (commands : List (Command C)) :
    (s.history commands).ownLines.countP LogEvent.isWarning + s.warned.toNat =
        (s.after commands).warned.toNat ∧
      (∀ name, .instantLoop name ∈ (s.history commands).ownLines →
        s.policy.name = .forever ∧ s.warnOnInstantLoops = true) ∧
      (s.history commands).WarnsAtWraps := by
  induction commands generalizing s with
  | nil => exact ⟨Nat.zero_add _, fun _ hm => (nomatch hm), .of_ownLines rfl⟩
  | cons command commands ih =>
    obtain ⟨hcount, hpolicy, hwraps⟩ := ih (s.obey command)
    cases command with
    | reset =>
      have hframe := SameFrame.reset s
      have hwarned : s.reset.warned = s.warned := by cases s; rfl
      rw [obey, hwarned] at hcount
      rw [obey, hframe.policy, hframe.warnOnInstantLoops] at hpolicy
      exact ⟨hcount, hpolicy, hwraps⟩
    | advance dt ctx =>
      have hframe := SameFrame.advance s dt ctx
      obtain ⟨hfirst, hpolicyFirst⟩ := s.warning_advance dt ctx
      rw [obey] at hcount
      rw [obey, hframe.policy, hframe.warnOnInstantLoops] at hpolicy
      simp only [history, traceOf, Trace.ownLines_append, List.countP_append]
      refine ⟨?_, fun name hm => ?_, (s.warnsAtWraps_advance dt ctx).append hwraps⟩
      · rw [Sequence.after, obey]
        omega
      · exact (List.mem_append.mp hm).elim (hpolicyFirst name) (hpolicy name)

omit [Behavior A C N] in
theorem IsBuilt.fresh {s : Sequence A C N} (h : s.IsBuilt) :
    s.progress = .initial s.policy ∧ s.warned = false := by
  obtain ⟨name, calls, entropy, serial, hresult⟩ := h
  obtain ⟨-, rfl⟩ := Builder.result_ok_iff.mp hresult
  exact ⟨rfl, rfl⟩

/-- The log of every sequence in a reachable one, after any further history of the root. The
sequence was built and has been called since; from every start on, the first or one by a reset, and
for as long as it is not reset, its lines follow the pattern, and no call writes two lines of passes
that end. In all of its life it warns at most once, as an endless loop that is to be warned of, and
directly before such a line. -/
theorem journal_of_reachable {s : Sequence A C N} (hs : (Part.sequence s).Reachable)
    (commands : List (Command C)) {path : List Hop} {t : Sequence A C N}
    (h : (Part.sequence (s.after commands)).find? path = some (.sequence t)) :
    ∃ (built : Sequence A C N) (earlier later : List (Command C)), built.IsBuilt ∧
      (Part.sequence s).find? path = some (.sequence (built.after earlier)) ∧
      (built.after earlier).history later = (s.history commands).within path ∧
      t = built.after (earlier ++ later) ∧
      (∀ before run, .reset ∉ run → (before = [] ∨ ∃ calls, before = calls ++ [.reset]) →
        let u := built.after (before ++ run)
        u.Journal ((built.after before).history run).journal ∧
          (u.status = .notStarted ↔ run = [])) ∧
      (∀ calls dt ctx,
        ((built.after calls).advance dt ctx).trace.ownLines.countP LogEvent.isWrapped ≤ 1) ∧
      ∀ calls, (built.history calls).ownLines.countP LogEvent.isWarning ≤ 1 ∧
        (∀ name, .instantLoop name ∈ (built.history calls).ownLines →
          t.policy.name = .forever ∧ t.warnOnInstantLoops = true) ∧
        (built.history calls).WarnsAtWraps := by
  obtain ⟨given, ds, hb, rfl, ht, -⟩ := s.exists_commands_of_after commands path h
  obtain ⟨built, es, hbuilt, rfl⟩ := hs.exists_built hb
  obtain ⟨hprogress, hwarned⟩ := hbuilt.fresh
  rw [← Sequence.after_append]
  refine ⟨built, es, ds, hbuilt, hb, ht, rfl, ?pattern, ?once, ?warnings⟩
  case pattern =>
    intro before run hrun hbefore u
    have hstart : (built.after before).progress = .initial (built.after before).policy := by
      rcases hbefore with rfl | ⟨calls, rfl⟩
      · exact hprogress
      · rw [Sequence.after_append]
        exact (built.after calls).isNew_reset.1
    have hsilent : (built.after before).status = .notStarted := congrArg Progress.status hstart
    have hpasses : (built.after before).passes = 0 := congrArg Progress.passes hstart
    have hjournal := (Journal.silent hsilent hpasses).after hrun
    rw [List.nil_append, ← Sequence.after_append] at hjournal
    have hstatus := status_after_iff (s := built.after before) hrun
    rw [← Sequence.after_append, and_iff_right hsilent] at hstatus
    exact ⟨hjournal, hstatus⟩
  case once => exact fun calls dt ctx => countP_isWrapped_advance_le _ dt ctx
  case warnings =>
    intro calls
    obtain ⟨hcount, hpolicy, hwraps⟩ := built.warning_history calls
    have hframe := SameFrame.after built (es ++ ds)
    have hbound := (built.after calls).warned.toNat_le
    refine ⟨by omega, ?_, hwraps⟩
    rw [hframe.policy, hframe.warnOnInstantLoops]
    exact hpolicy

/-- An endless loop that never waits, reset after its first pass. The second pass ends without
another warning. -/
theorem journal_of_restarted_loop :
    let calls : List (Call Rehearsal.Act Rehearsal.Stage String) :=
      [.run (.leaf (.callback (Rehearsal.cues [.push "step"]))), .repeatForever]
    let s := (Builder.ofCalls "loop" calls).toSequence (fun _ => .ofSeed 0) 0
    let commands : List (Command Rehearsal.Stage) :=
      [.advance 0.5 .empty, .reset, .advance 0.5 .empty]
    let t := s.after commands
    (Part.sequence s).Reachable ∧
      (s.history commands).ownLines =
        [.sequenceStarted "loop" 1 .forever, .instantLoop "loop", .sequenceWrapped "loop" 1,
          .sequenceStarted "loop" 1 .forever, .sequenceWrapped "loop" 1] ∧
      ∃ (built : Sequence Rehearsal.Act Rehearsal.Stage String) (before run : List _),
        built.IsBuilt ∧ t = built.after (before ++ run) ∧ Command.reset ∉ run ∧
        t.Journal ((built.after before).history run).journal ∧
        (built.history (before ++ run)).ownLines.countP LogEvent.isWarning ≤ 1 ∧
        (built.history (before ++ run)).WarnsAtWraps := by
  intro calls s commands t
  have hs : (Part.sequence s).Reachable := by
    refine .built "loop" calls (fun _ => .ofSeed 0) 0 ?_ ?_ rfl
    · simpa [calls, Call.steps] using .leaf _
    · simp [calls, Call.sequences]
  have hroot : (Part.sequence (s.after commands)).find? [] = some (.sequence t) := rfl
  obtain ⟨built, earlier, later, hbuilt, -, -, ht, hpattern, -, hwarnings⟩ :=
    journal_of_reachable hs commands hroot
  obtain ⟨before, run, hsplit, hrun, hbefore⟩ := exists_lastReset (earlier ++ later)
  rw [hsplit] at ht
  obtain ⟨hjournal, -⟩ := hpattern before run hrun hbefore
  obtain ⟨hcount, -, hwraps⟩ := hwarnings (before ++ run)
  rw [← ht] at hjournal
  refine ⟨hs, ?_, built, before, run, hbuilt, ht, hrun, hjournal, hcount, hwraps⟩
  decide +kernel +zetaReduce

end Ticks

end Sequence

end Sequencer

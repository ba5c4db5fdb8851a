import Sequencer.Tick

/-!
# Identities do not matter

No tick looks at what tells sequences apart. So a behavior that is built a second time, under
another serial number, goes through the same run as the first.
-/

namespace Sequencer

variable {A C N : Type}

mutual

/-- A sequence without what tells it and its companions apart from others. -/
def Sequence.anonymous : Sequence A C N → Sequence A C N
  | ⟨_, name, steps, policy, companions, generator, warns, warned, progress⟩ =>
    ⟨.given 0, name, steps, policy, anonymousAll companions, generator, warns, warned, progress⟩

def anonymousAll : List (Sequence A C N) → List (Sequence A C N)
  | [] => []
  | s :: rest => s.anonymous :: anonymousAll rest

end

def Advance.anonymous (a : Advance A C N) : Advance A C N :=
  { a with sequence := a.sequence.anonymous }

def Round.anonymous (r : Round A C N) : Round A C N :=
  { r with members := anonymousAll r.members }

mutual

theorem Sequence.anonymous_reset (s : Sequence A C N) : s.reset.anonymous = s.anonymous.reset := by
  obtain ⟨id, name, steps, policy, companions, generator, warns, warned, progress⟩ := s
  simp only [Sequence.reset, Sequence.anonymous, anonymousAll_resetAll companions]
termination_by structural s

theorem anonymousAll_resetAll (ss : List (Sequence A C N)) :
    anonymousAll (resetAll ss) = resetAll (anonymousAll ss) := by
  match ss with
  | [] => rfl
  | s :: rest =>
    simp only [resetAll, anonymousAll, Sequence.anonymous_reset s, anonymousAll_resetAll rest]
termination_by structural ss

end

theorem anonymousAll_waiting (fresh : Bool) (ss : List (Sequence A C N)) :
    anonymousAll (if fresh then resetAll ss else ss) =
      if fresh then resetAll (anonymousAll ss) else anonymousAll ss := by
  cases fresh with
  | true => exact anonymousAll_resetAll ss
  | false => rfl

theorem Sequence.anonymous_entry (fresh : Bool) (s : Sequence A C N) :
    (if fresh then s.reset else s).anonymous =
      if fresh then s.anonymous.reset else s.anonymous := by
  cases fresh with
  | true => exact s.anonymous_reset
  | false => rfl

@[simp] theorem Sequence.isComplete_anonymous (s : Sequence A C N) :
    s.anonymous.isComplete = s.isComplete := by
  cases s
  rfl

@[simp] theorem Sequence.cursor_anonymous (s : Sequence A C N) : s.anonymous.cursor = s.cursor := by
  cases s
  rfl

theorem Advance.anonymous_beside (body : Advance A C N) {companions companions' : C → Round A C N}
    (h : ∀ ctx, companions' ctx = (companions ctx).anonymous) :
    body.anonymous.beside companions' = (body.beside companions).anonymous := by
  obtain ⟨trace, context, sequence, result⟩ := body
  obtain ⟨id, name, steps, policy, ss, generator, warns, warned, progress⟩ := sequence
  cases result with
  | error e => rfl
  | ok outcome => simp [beside, anonymous, h, Round.anonymous, Sequence.anonymous]

theorem Advance.anonymous_andThen (hop : Hop) (a : Advance A C N) (waiting : List (Sequence A C N))
    {later later' : C → Round A C N} (h : ∀ ctx, later' ctx = (later ctx).anonymous) :
    a.anonymous.andThen hop (anonymousAll waiting) later' =
      (a.andThen hop waiting later).anonymous := by
  obtain ⟨trace, context, sequence, result⟩ := a
  cases result with
  | error e => rfl
  | ok outcome => simp [andThen, anonymous, h, Round.anonymous, anonymousAll]

section Ticks

variable [Behavior A C N]

namespace Sequence

theorem anonymous_wrap (s : Sequence A C N) (ctx : C) :
    s.anonymous.wrap ctx = (s.wrap ctx).anonymous := by
  obtain ⟨id, name, steps, policy, ss, generator, warns, warned, progress⟩ := s
  cases steps <;> rfl

theorem anonymous_finishPass (s : Sequence A C N) (ctx : C) :
    s.anonymous.finishPass ctx = (s.finishPass ctx).anonymous := by
  have hwrap := s.anonymous_wrap ctx
  obtain ⟨id, name, steps, policy, ss, generator, warns, warned, progress⟩ := s
  simp only [finishPass, anonymous] at hwrap ⊢
  match (policy.again progress.remaining ctx).answer with
  | .error e => rfl
  | .ok true => simp [hwrap, Advance.anonymous]
  | .ok false => rfl

theorem anonymous_runBody (s : Sequence A C N) (ctx : C) (run : C → Generator → Cascade A C N) :
    s.anonymous.runBody ctx run = (s.runBody ctx run).anonymous := by
  obtain ⟨id, name, steps, policy, ss, generator, warns, warned, progress⟩ := s
  simp only [runBody, anonymous]
  cases (run ctx generator).result with
  | error e => rfl
  | ok passed =>
    cases passed with
    | false => rfl
    | true =>
      have hfinish := anonymous_finishPass (⟨id, name, (run ctx generator).steps, policy, ss,
        (run ctx generator).generator, warns, warned,
        { progress with cursor := (run ctx generator).cursor }⟩ : Sequence A C N)
          (run ctx generator).context
      simp only [anonymous] at hfinish
      simp [hfinish, Advance.anonymous]

theorem anonymous_body (fresh : Bool) (s : Sequence A C N) (ctx : C)
    (run : C → Generator → Cascade A C N) :
    s.anonymous.body fresh ctx run = (s.body fresh ctx run).anonymous := by
  cases fresh with
  | true =>
    have hrun := anonymous_runBody
      { s with progress := { s.progress with status := .running } } ctx run
    obtain ⟨id, name, steps, policy, ss, generator, warns, warned, progress⟩ := s
    simp only [anonymous] at hrun
    simp [body, anonymous, hrun, Advance.anonymous]
  | false =>
    simp only [body, Bool.false_eq_true, ↓reduceIte, isComplete_anonymous]
    cases s.isComplete with
    | true => rfl
    | false => exact s.anonymous_runBody ctx run

end Sequence

mutual

theorem Sequence.anonymous_advanceFrom (restart : Bool) (dt : Float32) (s : Sequence A C N)
    (ctx : C) :
    s.anonymous.advanceFrom restart dt ctx = (s.advanceFrom restart dt ctx).anonymous := by
  -- the body goes on from this entry, which is the only thing it takes from the whole sequence
  have hentry := s.anonymous_entry (restart || s.progress.status == .notStarted)
  obtain ⟨id, name, steps, policy, companions, generator, warns, warned, progress⟩ := s
  simp only [Sequence.anonymous] at hentry
  simp only [Sequence.anonymous, Sequence.advanceFrom]
  rw [← Advance.anonymous_beside _ (anonymousAll_advanceAll _ dt .companion 0 companions),
    ← Sequence.anonymous_body, ← hentry, Sequence.cursor_anonymous]
termination_by structural s

theorem anonymousAll_advanceAll (fresh : Bool) (dt : Float32) (hop : Nat → Hop) (index : Nat)
    (ss : List (Sequence A C N)) (ctx : C) :
    advanceAll fresh dt hop index (anonymousAll ss) ctx =
      (advanceAll fresh dt hop index ss ctx).anonymous := by
  match ss with
  | [] => rfl
  | s :: rest =>
    simp only [anonymousAll, advanceAll]
    rw [Sequence.anonymous_advanceFrom fresh dt s, ← anonymousAll_waiting]
    exact Advance.anonymous_andThen (hop index) _ _
      (anonymousAll_advanceAll fresh dt hop (index + 1) rest)
termination_by structural ss

end

/-- A sequence without its identity is ticked as it is with it. -/
theorem Sequence.anonymous_advance (s : Sequence A C N) (dt : Float32) (ctx : C) :
    s.anonymous.advance dt ctx = (s.advance dt ctx).anonymous :=
  s.anonymous_advanceFrom false dt ctx

end Ticks

end Sequencer

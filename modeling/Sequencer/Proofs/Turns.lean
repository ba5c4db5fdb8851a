import Sequencer.Proofs.Owners

/-!
# Turns

Sequences that run side by side, the members of a group or the companions of a sequence, take turns
in a tick: each is ticked once, in order, in the context that the one before it left, up to the
first that fails. A round is determined by its turns: its trace is theirs, in order, each sequence
is replaced by what its turn left, and those that had no turn are as they were.
-/

namespace Sequencer

variable {A C N : Type}

def Advance.Succeeds (a : Advance A C N) : Prop := ∃ outcome, a.result = .ok outcome

def Advance.reportsComplete (a : Advance A C N) : Bool :=
  match a.result with
  | .ok outcome => outcome == .complete
  | .error _ => false

/-- The traces of turns one after the other, each behind the hop of its sequence. -/
def traceOfTurns (hop : Nat → Hop) (index : Nat) : List (Advance A C N) → Trace N
  | [] => []
  | turn :: later => turn.trace.under (hop index) ++ traceOfTurns hop (index + 1) later

theorem inside_under_of_ne {hop other : Hop} (h : other ≠ hop) (t : Trace N) :
    (t.under other).inside hop = [] := by
  simp [Trace.inside, Trace.under, h]

theorem inside_traceOfTurns_of_lt {hop : Nat → Hop} (inj : ∀ i j, hop i = hop j → i = j)
    (turns : List (Advance A C N)) {i index : Nat} (h : i < index) :
    (traceOfTurns hop index turns).inside (hop i) = [] := by
  induction turns generalizing index with
  | nil => rfl
  | cons turn later ih =>
    have hne : hop index ≠ hop i := fun hk => Nat.ne_of_gt h (inj _ _ hk)
    rw [traceOfTurns, Trace.inside_append, inside_under_of_ne hne, ih (Nat.lt_succ_of_lt h)]
    rfl

/-- What is seen of turns behind a hop is the turn of the sequence there, if it had one. -/
theorem inside_traceOfTurns {hop : Nat → Hop} (inj : ∀ i j, hop i = hop j → i = j)
    (turns : List (Advance A C N)) (index j : Nat) :
    (traceOfTurns hop index turns).inside (hop (index + j)) =
      (turns[j]?.map Advance.trace).getD [] := by
  induction turns generalizing index j with
  | nil => rfl
  | cons turn later ih =>
    rw [traceOfTurns, Trace.inside_append]
    cases j with
    | zero =>
      rw [Nat.add_zero, Trace.inside_under_self,
        inside_traceOfTurns_of_lt inj later (Nat.lt_succ_self index)]
      simp
    | succ j =>
      have hne : hop index ≠ hop (index + (j + 1)) := fun hk => by
        have := inj _ _ hk
        omega
      rw [inside_under_of_ne hne, List.nil_append, ← Nat.add_assoc, Nat.add_right_comm, ih]
      rfl

/-- The sequences after turns: those that had none are left as they were. -/
def leftByTurns (members : List (Sequence A C N)) (turns : List (Advance A C N)) :
    List (Sequence A C N) :=
  turns.map Advance.sequence ++ members.drop turns.length

theorem length_leftByTurns {members : List (Sequence A C N)} {turns : List (Advance A C N)}
    (h : turns.length ≤ members.length) : (leftByTurns members turns).length = members.length := by
  simp only [leftByTurns, List.length_append, List.length_map, List.length_drop]
  omega

theorem getElem?_leftByTurns (members : List (Sequence A C N)) (turns : List (Advance A C N))
    (j : Nat) :
    (leftByTurns members turns)[j]? =
      match turns[j]? with
      | some turn => some turn.sequence
      | none => members[j]? := by
  unfold leftByTurns
  split
  case h_1 turn hj =>
    rw [List.getElem?_append_left (by simpa using (List.getElem?_eq_some_iff.mp hj).1)]
    simp [hj]
  case h_2 hj =>
    have hle := List.getElem?_eq_none_iff.mp hj
    rw [List.getElem?_append_right (by simpa using hle), List.length_map, List.getElem?_drop,
      Nat.add_sub_cancel' hle]

theorem map_eq_error_iff {α β : Type} {result : Except TickError α} {f : α → β} {e : TickError} :
    result.map f = .error e ↔ result = .error e := by
  cases result <;> simp [Except.map]

theorem map_eq_ok_iff {α β : Type} {result : Except TickError α} {f : α → β} {b : β} :
    result.map f = .ok b ↔ ∃ a, result = .ok a ∧ f a = b := by
  cases result <;> simp [Except.map]

variable [Behavior A C N]

/-- The turns that sequences have in a tick: one after the other, each in the context that the one
before it left, up to the first that fails. -/
def turns (dt : Float32) : List (Sequence A C N) → C → List (Advance A C N)
  | [], _ => []
  | first :: rest, ctx =>
    let turn := first.advance dt ctx
    match turn.result with
    | .error _ => [turn]
    | .ok _ => turn :: turns dt rest turn.context

theorem turns_of_error {dt : Float32} {first : Sequence A C N} {ctx : C} {e : TickError}
    (h : (first.advance dt ctx).result = .error e) (rest : List (Sequence A C N)) :
    turns dt (first :: rest) ctx = [first.advance dt ctx] := by
  simp only [turns, h]

theorem turns_of_ok {dt : Float32} {first : Sequence A C N} {ctx : C} {outcome : Outcome}
    (h : (first.advance dt ctx).result = .ok outcome) (rest : List (Sequence A C N)) :
    turns dt (first :: rest) ctx =
      first.advance dt ctx :: turns dt rest (first.advance dt ctx).context := by
  simp only [turns, h]

theorem exists_of_getElem?_turns {dt : Float32} {members : List (Sequence A C N)} {ctx : C}
    {index : Nat} {turn : Advance A C N} (h : (turns dt members ctx)[index]? = some turn) :
    ∃ member ctx', members[index]? = some member ∧ turn = member.advance dt ctx' := by
  induction members generalizing ctx index with
  | nil => simp [turns] at h
  | cons first rest ih =>
    cases index with
    | zero =>
      refine ⟨first, ctx, rfl, ?_⟩
      match hr : (first.advance dt ctx).result with
      | .error e => simpa [turns_of_error hr] using h.symm
      | .ok outcome => simpa [turns_of_ok hr] using h.symm
    | succ index =>
      match hr : (first.advance dt ctx).result with
      | .error e => simp [turns_of_error hr] at h
      | .ok outcome => exact ih (by simpa [turns_of_ok hr] using h)

/-- A sequence has a turn if and only if no one before it fails. -/
theorem exists_turn_iff {dt : Float32} {members : List (Sequence A C N)} {ctx : C} {index : Nat}
    (h : index < members.length) :
    (∃ turn, (turns dt members ctx)[index]? = some turn) ↔
      ∀ turn ∈ (turns dt members ctx).take index, turn.Succeeds := by
  induction members generalizing ctx index with
  | nil => cases h
  | cons first rest ih =>
    match index, hr : (first.advance dt ctx).result with
    | 0, .error e => simp [turns_of_error hr]
    | 0, .ok outcome => simp [turns_of_ok hr]
    | index + 1, .error e => simp [turns_of_error hr, Advance.Succeeds, hr]
    | index + 1, .ok outcome =>
      have hfirst : (first.advance dt ctx).Succeeds := ⟨outcome, hr⟩
      simpa [turns_of_ok hr, hfirst] using ih (Nat.lt_of_succ_lt_succ h)

theorem length_turns_le (dt : Float32) (members : List (Sequence A C N)) (ctx : C) :
    (turns dt members ctx).length ≤ members.length := by
  induction members generalizing ctx with
  | nil => exact Nat.le_refl 0
  | cons first rest ih =>
    match hr : (first.advance dt ctx).result with
    | .error e => simp [turns_of_error hr]
    | .ok outcome =>
      rw [turns_of_ok hr]
      exact Nat.succ_le_succ (ih _)

theorem trace_advanceAll (dt : Float32) (hop : Nat → Hop) (index : Nat)
    (members : List (Sequence A C N)) (ctx : C) :
    (advanceAll false dt hop index members ctx).trace =
      traceOfTurns hop index (turns dt members ctx) := by
  induction members generalizing index ctx with
  | nil => rfl
  | cons first rest ih =>
    rw [advanceAll_cons, Advance.andThen]
    cases hr : (first.advance dt ctx).result with
    | error e => simp [turns_of_error hr, traceOfTurns]
    | ok outcome => simp [turns_of_ok hr, traceOfTurns, ih]

theorem members_advanceAll (dt : Float32) (hop : Nat → Hop) (index : Nat)
    (members : List (Sequence A C N)) (ctx : C) :
    (advanceAll false dt hop index members ctx).members =
      leftByTurns members (turns dt members ctx) := by
  induction members generalizing index ctx with
  | nil => rfl
  | cons first rest ih =>
    rw [advanceAll_cons, Advance.andThen]
    cases hr : (first.advance dt ctx).result with
    | error e => simp [turns_of_error hr, leftByTurns]
    | ok outcome => simp [turns_of_ok hr, leftByTurns, ih]

theorem result_advanceAll_error_iff (dt : Float32) (hop : Nat → Hop) (index : Nat)
    (members : List (Sequence A C N)) (ctx : C) (e : TickError) :
    (advanceAll false dt hop index members ctx).result = .error e ↔
      ∃ turn ∈ turns dt members ctx, turn.result = .error e := by
  induction members generalizing index ctx with
  | nil => simp [advanceAll, turns]
  | cons first rest ih =>
    rw [advanceAll_cons, Advance.andThen]
    cases hr : (first.advance dt ctx).result with
    | error e' => simp [turns_of_error hr, hr]
    | ok outcome => simp [turns_of_ok hr, hr, map_eq_error_iff, ih]

/-- A round that does not fail counts the turns that reported completion. -/
theorem result_advanceAll_ok_iff (dt : Float32) (hop : Nat → Hop) (index : Nat)
    (members : List (Sequence A C N)) (ctx : C) (complete : Nat) :
    (advanceAll false dt hop index members ctx).result = .ok complete ↔
      (∀ turn ∈ turns dt members ctx, turn.Succeeds) ∧
        (turns dt members ctx).countP Advance.reportsComplete = complete := by
  induction members generalizing index ctx complete with
  | nil => simp [advanceAll, turns]
  | cons first rest ih =>
    rw [advanceAll_cons, Advance.andThen]
    cases hr : (first.advance dt ctx).result with
    | error e => simp [turns_of_error hr, hr, Advance.Succeeds]
    | ok outcome =>
      have hfirst : (first.advance dt ctx).Succeeds := ⟨outcome, hr⟩
      have hreport : (first.advance dt ctx).reportsComplete = (outcome == .complete) := by
        rw [Advance.reportsComplete, hr]
      have hsum : ∀ n, (if outcome == .complete then n + 1 else n) =
          n + if outcome == .complete then 1 else 0 := by
        intro n
        split <;> rfl
      simp only [turns_of_ok hr, map_eq_ok_iff, ih, List.forall_mem_cons, hfirst, true_and,
        List.countP_cons, hreport, and_assoc, exists_and_left, exists_eq_left']
      rw [hsum]

theorem exists_result_advanceAll_iff (dt : Float32) (hop : Nat → Hop) (index : Nat)
    (members : List (Sequence A C N)) (ctx : C) :
    (∃ complete, (advanceAll false dt hop index members ctx).result = .ok complete) ↔
      ∀ turn ∈ turns dt members ctx, turn.Succeeds := by
  simp only [result_advanceAll_ok_iff, exists_and_left, exists_eq', and_true]

end Sequencer

import Sequencer.Proofs.Companions

/-!
# Ticks of a group

The members of a group take their turns in a tick, in order, each in the context that the one before
it left, up to the first that fails. A tick that does not fail reports that the group is complete if
and only if the members that are complete after it make it so. For as long as the group is not
reset, complete members stay as they are, so a group that was complete in one tick is complete in
every later one that does not fail.
-/

namespace Sequencer

variable {A C N : Type}

def contextAfter (ctx : C) : List (Advance A C N) → C
  | [] => ctx
  | turn :: later => contextAfter turn.context later

/-- Whether the members that are complete make their group complete. -/
def Completion.IsReached (members : List (Sequence A C N)) : Completion → Prop
  | all => ∀ m ∈ members, m.status = .complete
  | any => ∃ m ∈ members, m.status = .complete
  | never => False

theorem Completion.IsReached.of_kept {members later : List (Sequence A C N)}
    {completion : Completion} (h : completion.IsReached members)
    (hlength : later.length = members.length)
    (hkept : ∀ (j : Nat) (m : Sequence A C N), members[j]? = some m → m.status = .complete →
      ∃ m', later[j]? = some m' ∧ m'.status = .complete) : completion.IsReached later := by
  cases completion with
  | never => exact h
  | any =>
    obtain ⟨m, hm, hs⟩ := h
    obtain ⟨j, hj⟩ := List.mem_iff_getElem?.mp hm
    obtain ⟨m', hj', hs'⟩ := hkept j m hj hs
    exact ⟨m', List.mem_of_getElem? hj', hs'⟩
  | all =>
    intro m' hm'
    obtain ⟨j, hlt, hj⟩ := List.mem_iff_getElem.mp hm'
    have hbound : j < members.length := hlength ▸ hlt
    have hmember : members[j]? = some members[j] := List.getElem?_eq_getElem hbound
    obtain ⟨m'', hj'', hs⟩ := hkept j _ hmember (h _ (List.getElem_mem hbound))
    rw [List.getElem?_eq_getElem hlt, hj] at hj''
    rwa [Option.some.inj hj'']

variable [Behavior A C N]

theorem Sequence.complete_iff_of_ok {s : Sequence A C N} {dt : Float32} {ctx : C}
    {outcome : Outcome} (h : (s.advance dt ctx).result = .ok outcome) :
    outcome = .complete ↔ (s.advance dt ctx).sequence.status = .complete := by
  obtain ⟨-, -, -, -, -, hbody⟩ := s.exists_beside dt ctx
  have hresult := hbody outcome h
  rw [Sequence.status_advance]
  by_cases hs : s.begun.status = .complete
  · rw [Sequence.resume_of_complete hs] at hresult ⊢
    exact ⟨fun _ => hs, fun _ => (Except.ok.inj hresult).symm⟩
  · rw [(Sequence.finishes_resume_iff hs dt ctx).2, hresult]
    exact ⟨fun ho => ho ▸ rfl, fun ho => Except.ok.inj ho⟩

theorem Advance.reportsComplete_iff {s : Sequence A C N} {dt : Float32} {ctx : C}
    (h : (s.advance dt ctx).Succeeds) :
    (s.advance dt ctx).reportsComplete = true ↔
      (s.advance dt ctx).sequence.status = .complete := by
  obtain ⟨outcome, ho⟩ := h
  rw [← Sequence.complete_iff_of_ok ho, Advance.reportsComplete, ho]
  exact beq_iff_eq

theorem getElem?_turns {dt : Float32} {members : List (Sequence A C N)} {ctx : C} {j : Nat}
    {turn : Advance A C N} (h : (turns dt members ctx)[j]? = some turn) :
    ∃ member, members[j]? = some member ∧
      turn = member.advance dt (contextAfter ctx ((turns dt members ctx).take j)) := by
  induction members generalizing ctx j with
  | nil => simp [turns] at h
  | cons first rest ih =>
    cases j with
    | zero =>
      refine ⟨first, rfl, ?_⟩
      cases hr : (first.advance dt ctx).result with
      | error e => simpa [turns_of_error hr, contextAfter] using h.symm
      | ok outcome => simpa [turns_of_ok hr, contextAfter] using h.symm
    | succ j =>
      cases hr : (first.advance dt ctx).result with
      | error e => simp [turns_of_error hr] at h
      | ok outcome =>
        rw [turns_of_ok hr] at h ⊢
        exact ih h

theorem context_advanceAll (dt : Float32) (hop : Nat → Hop) (index : Nat)
    (members : List (Sequence A C N)) (ctx : C) :
    (advanceAll false dt hop index members ctx).context =
      contextAfter ctx (turns dt members ctx) := by
  induction members generalizing index ctx with
  | nil => rfl
  | cons first rest ih =>
    rw [advanceAll_cons, Advance.andThen]
    cases hr : (first.advance dt ctx).result with
    | error e => simp [turns_of_error hr, contextAfter]
    | ok outcome => simp [turns_of_ok hr, contextAfter, ih]

theorem length_turns_of_succeed {dt : Float32} {members : List (Sequence A C N)} {ctx : C}
    (h : ∀ turn ∈ turns dt members ctx, turn.Succeeds) :
    (turns dt members ctx).length = members.length := by
  refine Nat.le_antisymm (length_turns_le dt members ctx) (Nat.le_of_not_lt fun hlt => ?_)
  obtain ⟨turn, hturn⟩ := (exists_turn_iff hlt).mpr fun turn hm => h turn (List.mem_of_mem_take hm)
  rw [List.getElem?_eq_none (Nat.le_refl _)] at hturn
  cases hturn

/-- The turn that fails is the last one, and no turn before it fails. -/
theorem turns_of_failure {dt : Float32} {members : List (Sequence A C N)} {ctx : C} {j : Nat}
    {turn : Advance A C N} {e : TickError} (h : (turns dt members ctx)[j]? = some turn)
    (he : turn.result = .error e) :
    (turns dt members ctx).length = j + 1 ∧
      ∀ turn ∈ (turns dt members ctx).take j, turn.Succeeds := by
  have hj : j < (turns dt members ctx).length := (List.getElem?_eq_some_iff.mp h).1
  have hbound : j < members.length := Nat.lt_of_lt_of_le hj (length_turns_le dt members ctx)
  refine ⟨Nat.le_antisymm (Nat.le_of_not_lt fun hlt => ?_) hj, (exists_turn_iff hbound).mp ⟨_, h⟩⟩
  have hnext : j + 1 < members.length := Nat.lt_of_lt_of_le hlt (length_turns_le dt members ctx)
  have hall := (exists_turn_iff hnext).mp ⟨_, List.getElem?_eq_getElem hlt⟩
  obtain ⟨outcome, ho⟩ := hall turn (List.mem_of_getElem? (i := j) (by simp [h]))
  rw [he] at ho
  cases ho

namespace Group

theorem members_advance (g : Group A C N) (dt : Float32) (ctx : C) :
    (g.advance dt ctx).group.members = leftByTurns g.members (turns dt g.members ctx) :=
  members_advanceAll dt .member 0 g.members ctx

theorem length_members_advance (g : Group A C N) (dt : Float32) (ctx : C) :
    (g.advance dt ctx).group.members.length = g.members.length := by
  rw [members_advance, length_leftByTurns (length_turns_le dt g.members ctx)]

theorem members_of_succeed {g : Group A C N} {dt : Float32} {ctx : C}
    (h : ∀ turn ∈ turns dt g.members ctx, turn.Succeeds) :
    (g.advance dt ctx).group.members = (turns dt g.members ctx).map Advance.sequence := by
  rw [members_advance, leftByTurns, length_turns_of_succeed h, List.drop_length, List.append_nil]

theorem isMet_iff_isReached {g : Group A C N} {dt : Float32} {ctx : C}
    (h : ∀ turn ∈ turns dt g.members ctx, turn.Succeeds) :
    g.completion.isMet ((turns dt g.members ctx).countP Advance.reportsComplete)
        (g.advance dt ctx).group.members.length = true ↔
      g.completion.IsReached (g.advance dt ctx).group.members := by
  have hreport : ∀ turn ∈ turns dt g.members ctx,
      (turn.reportsComplete = true ↔ turn.sequence.status = .complete) := by
    intro turn hm
    obtain ⟨j, hj⟩ := List.mem_iff_getElem?.mp hm
    obtain ⟨member, ctx', -, rfl⟩ := exists_of_getElem?_turns hj
    exact Advance.reportsComplete_iff (h _ hm)
  rw [members_of_succeed h, List.length_map]
  cases g.completion with
  | never => simp [Completion.isMet, Completion.IsReached]
  | any =>
    simp only [Completion.isMet, Completion.IsReached, decide_eq_true_eq, List.countP_pos_iff]
    constructor
    · rintro ⟨turn, hm, hturn⟩
      exact ⟨turn.sequence, List.mem_map_of_mem hm, (hreport turn hm).mp hturn⟩
    · rintro ⟨m, hm, hs⟩
      obtain ⟨turn, ht, rfl⟩ := List.mem_map.mp hm
      exact ⟨turn, ht, (hreport turn ht).mpr hs⟩
  | all =>
    simp only [Completion.isMet, Completion.IsReached, beq_iff_eq, List.countP_eq_length,
      List.forall_mem_map]
    exact forall₂_congr hreport

theorem result_advance_ok_iff {g : Group A C N} {dt : Float32} {ctx : C} {outcome : Outcome} :
    (g.advance dt ctx).result = .ok outcome ↔
      (∀ turn ∈ turns dt g.members ctx, turn.Succeeds) ∧
        (outcome = .complete ↔ g.completion.IsReached (g.advance dt ctx).group.members) := by
  have hround : (g.advance dt ctx).result = .ok outcome ↔
      (∀ turn ∈ turns dt g.members ctx, turn.Succeeds) ∧
        (if g.completion.isMet ((turns dt g.members ctx).countP Advance.reportsComplete)
          (g.advance dt ctx).group.members.length then Outcome.complete else .running) =
            outcome := by
    simp only [advance, map_eq_ok_iff, result_advanceAll_ok_iff]
    constructor
    · rintro ⟨complete, ⟨hall, rfl⟩, ho⟩
      exact ⟨hall, ho⟩
    · rintro ⟨hall, ho⟩
      exact ⟨_, ⟨hall, rfl⟩, ho⟩
  rw [hround]
  refine and_congr_right fun hall => ?_
  rw [← isMet_iff_isReached hall]
  cases outcome <;> split <;> simp_all

theorem result_advance_error_iff {g : Group A C N} {dt : Float32} {ctx : C} {e : TickError} :
    (g.advance dt ctx).result = .error e ↔
      ∃ turn ∈ turns dt g.members ctx, turn.result = .error e := by
  rw [← result_advanceAll_error_iff dt .member 0]
  exact map_eq_error_iff

/-- What a tick of a group does, by the turns of its members. -/
structure Goes (g : Group A C N) (dt : Float32) (ctx : C) (round : List (Advance A C N)) :
    Prop where
  /-- The turns take place in the order of the members, each in the context that the one before it
  left. -/
  inOrder : ∀ (j : Nat) (turn : Advance A C N), round[j]? = some turn →
    ∃ member, g.members[j]? = some member ∧
      turn = member.advance dt (contextAfter ctx (round.take j))
  trace : (g.advance dt ctx).trace = traceOfTurns .member 0 round
  context : (g.advance dt ctx).context = contextAfter ctx round
  completion : (g.advance dt ctx).group.completion = g.completion
  members : (g.advance dt ctx).group.members = leftByTurns g.members round
  /-- If no turn fails, every member has had its own, and the result is what the states of the
  members say after it. -/
  succeeds : (∀ turn ∈ round, turn.Succeeds) → round.length = g.members.length ∧
    ∃ outcome, (g.advance dt ctx).result = .ok outcome ∧
      (outcome = .complete ↔ g.completion.IsReached (g.advance dt ctx).group.members)
  /-- If a turn fails, the tick ends with it, and leaves the members after it alone. -/
  fails : ∀ (j : Nat) (failed : Advance A C N) (e : TickError), round[j]? = some failed →
    failed.result = .error e → (g.advance dt ctx).result = .error e ∧ round.length = j + 1 ∧
      (∀ i < j, ∃ turn, round[i]? = some turn ∧ turn.Succeeds ∧
        (g.advance dt ctx).group.members[i]? = some turn.sequence) ∧
      (g.advance dt ctx).group.members[j]? = some failed.sequence ∧
      ∀ k, j < k → (g.advance dt ctx).group.members[k]? = g.members[k]?

theorem goes (g : Group A C N) (dt : Float32) (ctx : C) :
    g.Goes dt ctx (turns dt g.members ctx) where
  inOrder _ _ h := getElem?_turns h
  trace := trace_advanceAll dt .member 0 g.members ctx
  context := context_advanceAll dt .member 0 g.members ctx
  completion := rfl
  members := g.members_advance dt ctx
  succeeds hall := by
    refine ⟨length_turns_of_succeed hall, ?_⟩
    cases hr : (g.advance dt ctx).result with
    | ok outcome => exact ⟨outcome, rfl, (result_advance_ok_iff.mp hr).2⟩
    | error e =>
      obtain ⟨failed, hm, hfailed⟩ := result_advance_error_iff.mp hr
      obtain ⟨outcome, ho⟩ := hall failed hm
      rw [hfailed] at ho
      cases ho
  fails j failed e hj hfailed := by
    obtain ⟨hlength, hearlier⟩ := turns_of_failure hj hfailed
    have hresult := result_advance_error_iff.mpr ⟨failed, List.mem_of_getElem? hj, hfailed⟩
    simp only [members_advance, getElem?_leftByTurns]
    refine ⟨hresult, hlength, fun i hi => ?_, by rw [hj], fun k hk => ?_⟩
    · have hlt : i < (turns dt g.members ctx).length := by omega
      have hturn := List.getElem?_eq_getElem hlt
      refine ⟨_, hturn, hearlier _ ?_, by rw [hturn]⟩
      exact List.mem_of_getElem? (i := i) (by rw [List.getElem?_take_of_lt hi, hturn])
    · rw [List.getElem?_eq_none (by omega)]

def after (g : Group A C N) : List (Float32 × C) → Group A C N
  | [] => g
  | (dt, ctx) :: later => (g.advance dt ctx).group.after later

theorem length_members_after (g : Group A C N) (calls : List (Float32 × C)) :
    (g.after calls).members.length = g.members.length := by
  induction calls generalizing g with
  | nil => rfl
  | cons call calls ih => exact (ih _).trans (g.length_members_advance call.1 call.2)

theorem completion_after (g : Group A C N) (calls : List (Float32 × C)) :
    (g.after calls).completion = g.completion := by
  induction calls generalizing g with
  | nil => rfl
  | cons call calls ih => exact ih _

/-- A member that is complete stays as it is, but for its companions. -/
theorem getElem?_after_of_complete {g : Group A C N} {j : Nat} {m : Sequence A C N}
    (hj : g.members[j]? = some m) (hm : m.status = .complete) (calls : List (Float32 × C)) :
    ∃ companions, (g.after calls).members[j]? = some { m with companions } := by
  induction calls generalizing g m with
  | nil =>
    refine ⟨m.companions, ?_⟩
    cases m
    exact hj
  | cons call calls ih =>
    obtain ⟨dt, ctx⟩ := call
    obtain ⟨companions, hleft⟩ := getElem?_leftByTurns_of_complete hj hm dt ctx
    rw [← members_advance] at hleft
    exact ih (m := { m with companions }) hleft hm

theorem isReached_after {g : Group A C N} (h : g.completion.IsReached g.members)
    (calls : List (Float32 × C)) : g.completion.IsReached (g.after calls).members := by
  refine h.of_kept (g.length_members_after calls) fun j m hj hm => ?_
  obtain ⟨companions, hlater⟩ := getElem?_after_of_complete hj hm calls
  exact ⟨_, hlater, hm⟩

/-- Every tick of a group gives its members their turns. For as long as the group is ticked and not
reset, whatever the results of the ticks are, a member that is complete stays as it is, but for its
companions, and a group that was complete in one tick is complete in every later one that does not
fail. -/
theorem ticks_members (g : Group A C N) (calls : List (Float32 × C)) :
    (∀ dt ctx, (g.after calls).Goes dt ctx (turns dt (g.after calls).members ctx)) ∧
      (∀ (j : Nat) (m : Sequence A C N), g.members[j]? = some m → m.status = .complete →
        ∃ companions, (g.after calls).members[j]? = some { m with companions }) ∧
      ∀ dt ctx, (g.advance dt ctx).result = .ok .complete → ∀ dt' ctx' outcome,
        (((g.advance dt ctx).group.after calls).advance dt' ctx').result = .ok outcome →
          outcome = .complete := by
  refine ⟨(g.after calls).goes, fun j m hj hm => getElem?_after_of_complete hj hm calls, ?_⟩
  intro dt ctx hcomplete dt' ctx' outcome houtcome
  have hfirst := (result_advance_ok_iff.mp hcomplete).2.mp rfl
  have hbetween := isReached_after (g := (g.advance dt ctx).group) hfirst calls
  rw [← completion_after] at hbetween
  exact (result_advance_ok_iff.mp houtcome).2.mpr (isReached_after hbetween [(dt', ctx')])

/-- A group of which one member completes and the other fails. The call is tried again, and reports
that the group is complete from then on. -/
theorem ticks_members_of_any :
    let tracer : Rehearsal.Tracer := ⟨"legs", none, 0, 1, 0, 0, .action, false, false, 0⟩
    let wings : Sequence Rehearsal.Act Rehearsal.Stage String :=
      (Builder.ofCalls "wings" [.run (.leaf (.callback (Rehearsal.cues [.push "beat"])))]).toSequence
        (fun _ => .ofSeed 0) 0
    let legs := (Builder.ofCalls "legs" [.run (.leaf (.custom (.tracer tracer)))]).toSequence
      (fun _ => .ofSeed 0) 1
    let g : Group Rehearsal.Act Rehearsal.Stage String := ⟨.any, [wings, legs]⟩
    let failed := g.advance 0.5 .empty
    let retried := failed.group.advance 0.5 .empty
    failed.result = .error (.action "legs update failed") ∧
      g.Goes 0.5 .empty (turns 0.5 g.members .empty) ∧
      retried.result = .ok .complete ∧
      (∃ m companions, failed.group.members[0]? = some m ∧ m.status = .complete ∧
        retried.group.members[0]? = some { m with companions }) ∧
      ∀ outcome, (retried.group.advance 0.5 .empty).result = .ok outcome → outcome = .complete := by
  intro tracer wings legs g failed retried
  have hretried : retried.result = .ok .complete := rfl
  obtain ⟨hgoes, -, -⟩ := ticks_members g []
  obtain ⟨-, hkept, -⟩ := ticks_members failed.group [(0.5, .empty)]
  obtain ⟨-, -, hcomplete⟩ := ticks_members failed.group []
  have hwings : failed.group.members[0]? = some (wings.advance 0.5 .empty).sequence := rfl
  have hs : (wings.advance 0.5 .empty).sequence.status = .complete := rfl
  obtain ⟨companions, hleft⟩ := hkept 0 _ hwings hs
  exact ⟨rfl, hgoes 0.5 .empty, hretried, ⟨_, companions, hwings, hs, hleft⟩,
    hcomplete 0.5 .empty hretried 0.5 .empty⟩

end Group

end Sequencer

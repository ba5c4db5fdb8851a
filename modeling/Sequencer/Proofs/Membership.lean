import Mathlib.Data.Finset.Card
import Sequencer.Proofs.GroupTicks

/-!
# Members of a group

Whatever its owner does to a group, the identities of its members are distinct, and they stand in the
order of a plain list: a new identity goes to the end, one that is taken keeps its place, and one
that is removed leaves the others in their order. Under each identity there is the sequence that was
inserted last, as the ticks and the resets since then have left it.
-/

namespace Sequencer

variable {A C N : Type}

inductive GroupCommand (A C N : Type)
  | insert (s : Sequence A C N)
  | remove (id : SequenceId)
  | reset
  | advance (dt : Float32) (ctx : C)

namespace GroupCommand

/-- The identities in the order of ticks after a command, given those before it. -/
def order (ids : List SequenceId) : GroupCommand A C N → List SequenceId
  | insert s => if s.id ∈ ids then ids else ids ++ [s.id]
  | remove id => ids.erase id
  | reset | advance .. => ids

/-- Whether a command puts a sequence under an identity, or takes one away from there. -/
def Concerns (id : SequenceId) : GroupCommand A C N → Prop
  | insert s => s.id = id
  | remove removed => removed = id
  | reset | advance .. => False

theorem nodup_order {ids : List SequenceId} (h : ids.Nodup) (c : GroupCommand A C N) :
    (c.order ids).Nodup := by
  cases c with
  | insert s =>
    rw [order]
    split
    case isTrue => exact h
    case isFalse free =>
      refine List.nodup_append.mpr ⟨h, by simp, fun id hid other hother => ?_⟩
      obtain rfl := List.mem_singleton.mp hother
      exact fun hsame => free (hsame ▸ hid)
  | remove id => exact h.erase id
  | reset | advance => exact h

end GroupCommand

theorem forall_not_or_exists_last {α : Type} (p : α → Prop) (xs : List α) :
    (∀ x ∈ xs, ¬p x) ∨ ∃ before x after, xs = before ++ x :: after ∧ p x ∧ ∀ y ∈ after, ¬p y := by
  induction xs with
  | nil => exact .inl (List.forall_mem_nil _)
  | cons first rest ih =>
    rcases ih with hnone | ⟨before, x, after, rfl, hx, hafter⟩
    · by_cases hfirst : p first
      · exact .inr ⟨[], first, rest, rfl, hfirst, hnone⟩
      · exact .inl (List.forall_mem_cons.mpr ⟨hfirst, hnone⟩)
    · exact .inr ⟨first :: before, x, after, rfl, hx, hafter⟩

namespace Group

def ids (g : Group A C N) : List SequenceId := g.members.map Sequence.id

theorem get?_eq (g : Group A C N) (id : SequenceId) : g.get? id = g.members[g.ids.idxOf id]? := by
  rw [get?, List.find?_eq_getElem?_findIdx, ids, List.idxOf, List.findIdx_map]
  rfl

theorem contains_iff {g : Group A C N} {id : SequenceId} : g.contains id = true ↔ id ∈ g.ids := by
  simp [contains, ids]

theorem map_get?_ids {g : Group A C N} (h : g.ids.Nodup) :
    g.ids.map g.get? = g.members.map some := by
  rw [ids, List.map_map]
  refine List.map_congr_left fun m hm => ?_
  obtain ⟨j, hj, rfl⟩ := List.mem_iff_getElem.mp hm
  have hplace : g.ids.idxOf g.members[j].id = j := by
    have hlt : j < g.ids.length := by simpa [ids] using hj
    have hat : g.ids[j] = g.members[j].id := List.getElem_map ..
    rw [← hat, h.idxOf_getElem]
  simp [get?_eq, hplace]

theorem ids_insert (g : Group A C N) (s : Sequence A C N) :
    (g.insert s).ids = if s.id ∈ g.ids then g.ids else g.ids ++ [s.id] := by
  by_cases h : s.id ∈ g.ids
  · have hreplaced : (Sequence.id ∘ fun m : Sequence A C N => if m.id == s.id then s else m) =
        Sequence.id := by
      funext m
      by_cases hm : m.id = s.id <;> simp [hm]
    rw [insert, if_pos (contains_iff.mpr h), if_pos h, replace, ids, List.map_map, hreplaced]
    rfl
  · rw [insert, if_neg (mt contains_iff.mp h), if_neg h, ids, List.map_append]
    rfl

theorem ids_erase {g : Group A C N} (h : g.ids.Nodup) (id : SequenceId) :
    (g.erase id).ids = g.ids.erase id := by
  rw [h.erase_eq_filter, ids, ids, List.filter_map]
  rfl

theorem ids_reset (g : Group A C N) : g.reset.ids = g.ids := by
  rw [ids, reset, resetAll_eq_map, List.map_map]
  exact List.map_congr_left fun m _ => (Sequence.SameFrame.reset m).id

theorem ids_advance [Behavior A C N] (g : Group A C N) (dt : Float32) (ctx : C) :
    (g.advance dt ctx).group.ids = g.ids := by
  refine List.ext_getElem? fun j => ?_
  rw [ids, ids, List.getElem?_map, List.getElem?_map, members_advance, getElem?_leftByTurns]
  split
  case h_1 turn hj =>
    obtain ⟨member, hmember, rfl⟩ := getElem?_turns hj
    rw [hmember]
    exact congrArg some (Sequence.SameFrame.advance member dt _).id
  case h_2 => rfl

theorem get?_insert (g : Group A C N) (s : Sequence A C N) (id : SequenceId) :
    (g.insert s).get? id = if s.id = id then some s else g.get? id := by
  by_cases hid : s.id = id
  · rw [if_pos hid, ← hid, get?_insert_self]
  · rw [if_neg hid]
    unfold insert
    split
    case isTrue =>
      have hsame : ((·.id == id) ∘ fun m : Sequence A C N => if m.id == s.id then s else m) =
          (·.id == id) := by
        funext m
        by_cases hm : m.id = s.id <;> simp [hm]
      rw [get?, replace, List.find?_map, hsame, get?]
      cases hfound : g.members.find? (·.id == id) with
      | none => rfl
      | some m =>
        have hm : m.id = id := by simpa using List.find?_some hfound
        simp [hm, Ne.symm hid]
    case isFalse =>
      have hother : [s].find? (·.id == id) = none := by simp [hid]
      rw [get?, List.find?_append, hother, Option.or_none, get?]

theorem get?_erase (g : Group A C N) (removed id : SequenceId) :
    (g.erase removed).get? id = if removed = id then none else g.get? id := by
  by_cases hid : removed = id
  · rw [if_pos hid, ← hid, get?_erase_self]
  · rw [if_neg hid, get?, erase, List.find?_filter, get?]
    congr 1
    funext m
    by_cases hm : m.id = id <;> simp [hm, Ne.symm hid]

section Commands

variable [Behavior A C N]

def obey (g : Group A C N) : GroupCommand A C N → Group A C N
  | .insert s => g.insert s
  | .remove id => g.erase id
  | .reset => g.reset
  | .advance dt ctx => (g.advance dt ctx).group

def obeyAll (g : Group A C N) (commands : List (GroupCommand A C N)) : Group A C N :=
  commands.foldl obey g

/-- What a command of the group is for the member with an identity. In a tick it has its turn in the
context that the turns before it left, unless one of them has failed. -/
def commandFor (g : Group A C N) (id : SequenceId) : GroupCommand A C N → List (Command C)
  | .insert _ | .remove _ => []
  | .reset => [.reset]
  | .advance dt ctx =>
    let round := turns dt g.members ctx
    let place := g.ids.idxOf id
    if place < round.length then [.advance dt (contextAfter ctx (round.take place))] else []

/-- What a history of the group is for the member with an identity. -/
def commandsFor (g : Group A C N) (id : SequenceId) :
    List (GroupCommand A C N) → List (Command C)
  | [] => []
  | c :: later => g.commandFor id c ++ (g.obey c).commandsFor id later

theorem ids_obey {g : Group A C N} (h : g.ids.Nodup) (c : GroupCommand A C N) :
    (g.obey c).ids = c.order g.ids := by
  cases c with
  | insert s => exact g.ids_insert s
  | remove id => exact ids_erase h id
  | reset => exact g.ids_reset
  | advance dt ctx => exact g.ids_advance dt ctx

theorem ids_obeyAll {g : Group A C N} (h : g.ids.Nodup) (commands : List (GroupCommand A C N)) :
    (g.obeyAll commands).ids = commands.foldl GroupCommand.order g.ids ∧
      (g.obeyAll commands).ids.Nodup := by
  induction commands generalizing g with
  | nil => exact ⟨rfl, h⟩
  | cons c later ih =>
    have hids := ids_obey h c
    obtain ⟨horder, hnodup⟩ := ih (hids ▸ GroupCommand.nodup_order h c)
    rw [hids] at horder
    exact ⟨horder, hnodup⟩

/-- A command that does not concern an identity makes the member there obey. -/
theorem get?_obey {g : Group A C N} {id : SequenceId} {c : GroupCommand A C N}
    (h : ¬c.Concerns id) :
    (g.obey c).get? id = (g.get? id).map fun m => m.after (g.commandFor id c) := by
  cases c with
  | insert s =>
    have hid : s.id ≠ id := h
    rw [obey, get?_insert, if_neg hid]
    exact Option.map_id'.symm
  | remove removed =>
    have hid : removed ≠ id := h
    rw [obey, get?_erase, if_neg hid]
    exact Option.map_id'.symm
  | reset =>
    rw [obey, get?_eq, get?_eq, ids_reset, reset, resetAll_eq_map, List.getElem?_map]
    rfl
  | advance dt ctx =>
    rw [obey, get?_eq, get?_eq, ids_advance, members_advance, getElem?_leftByTurns, commandFor]
    split
    case h_1 turn hturn =>
      obtain ⟨member, hmember, rfl⟩ := getElem?_turns hturn
      have hlt := (List.getElem?_eq_some_iff.mp hturn).1
      rw [if_pos hlt, hmember]
      rfl
    case h_2 hnone =>
      have hge := List.getElem?_eq_none_iff.mp hnone
      rw [if_neg (Nat.not_lt.mpr hge)]
      exact Option.map_id'.symm

theorem get?_obeyAll {id : SequenceId} {commands : List (GroupCommand A C N)}
    (h : ∀ c ∈ commands, ¬c.Concerns id) (g : Group A C N) :
    (g.obeyAll commands).get? id =
      (g.get? id).map fun m => m.after (g.commandsFor id commands) := by
  induction commands generalizing g with
  | nil => exact Option.map_id'.symm
  | cons c later ih =>
    obtain ⟨hc, hlater⟩ := List.forall_mem_cons.mp h
    refine (ih hlater (g.obey c)).trans ?_
    rw [get?_obey hc, Option.map_map]
    congr 1
    funext m
    exact (m.after_append _ _).symm

theorem obeyAll_append (g : Group A C N) (commands later : List (GroupCommand A C N)) :
    g.obeyAll (commands ++ later) = (g.obeyAll commands).obeyAll later :=
  List.foldl_append

theorem ofList_eq_obeyAll (completion : Completion) (sequences : List (Sequence A C N)) :
    ofList completion sequences = (empty completion).obeyAll (sequences.map .insert) := by
  rw [obeyAll, List.foldl_map]
  rfl

/-- Under an identity there is the sequence that was inserted last and has not been removed since,
as the commands since then have left it. -/
theorem get?_eq_some_iff {completion : Completion} {history : List (GroupCommand A C N)}
    {id : SequenceId} {m : Sequence A C N} :
    ((empty completion).obeyAll history).get? id = some m ↔
      ∃ before s after, history = before ++ .insert s :: after ∧ s.id = id ∧
        (∀ c ∈ after, ¬c.Concerns id) ∧
        m = s.after (((empty completion).obeyAll (before ++ [.insert s])).commandsFor id after) := by
  have hlast {before after : List (GroupCommand A C N)} {c : GroupCommand A C N}
      (hafter : ∀ c ∈ after, ¬c.Concerns id) :
      ((empty completion).obeyAll (before ++ c :: after)).get? id =
        (((empty completion).obeyAll (before ++ [c])).get? id).map fun m =>
          m.after (((empty completion).obeyAll (before ++ [c])).commandsFor id after) := by
    rw [List.append_cons, obeyAll_append, get?_obeyAll hafter]
  have hinserted (before : List (GroupCommand A C N)) (s : Sequence A C N) :
      ((empty completion).obeyAll (before ++ [.insert s])).get? s.id = some s := by
    rw [obeyAll_append]
    exact get?_insert_self _ s
  constructor
  · intro h
    rcases forall_not_or_exists_last (GroupCommand.Concerns id) history with
      hnone | ⟨before, c, after, rfl, hc, hafter⟩
    · rw [get?_obeyAll hnone] at h
      cases h
    · rw [hlast hafter] at h
      cases c with
      | insert s =>
        obtain rfl : s.id = id := hc
        rw [hinserted] at h
        exact ⟨before, s, after, rfl, rfl, hafter, (Option.some.inj h).symm⟩
      | remove removed =>
        obtain rfl : removed = id := hc
        have hgone : ((empty completion).obeyAll (before ++ [.remove removed])).get? removed =
            none := by
          rw [obeyAll_append]
          exact get?_erase_self _ removed
        rw [hgone] at h
        cases h
      | reset | advance => cases hc
  · rintro ⟨before, s, after, rfl, rfl, hafter, rfl⟩
    rw [hlast hafter, hinserted]
    rfl

/-- The members of a group after any history are those of a plain list of identities, each being the
sequence that was inserted last under its identity, as it has gone on since. So sequences with
distinct identities make a group of just these sequences in their order, be it side by side in a step
or as companions. -/
theorem membership_of_history (completion : Completion) (sequences : List (Sequence A C N))
    (commands : List (GroupCommand A C N)) :
    let history := sequences.map .insert ++ commands
    let g := (ofList completion sequences).obeyAll commands
    g.ids = history.foldl GroupCommand.order [] ∧ g.ids.Nodup ∧
      g.members.map some = g.ids.map g.get? ∧ g.size = g.ids.toFinset.card ∧
      (∀ id m, g.get? id = some m ↔
        ∃ before s after, history = before ++ .insert s :: after ∧ s.id = id ∧
          (∀ c ∈ after, ¬c.Concerns id) ∧
          m = s.after
            (((empty completion).obeyAll (before ++ [.insert s])).commandsFor id after)) ∧
      (∀ b : Builder A C N, (sequences.map Sequence.id).Nodup →
        b.inParallel sequences = b.push (.parallel ⟨.all, sequences⟩)) ∧
      ∀ name (calls : List (Call A C N)) entropy serial s,
        ((Builder.ofCalls name calls).done entropy serial).result = .ok s →
          ((calls.filterMap Call.companion?).map Sequence.id).Nodup →
            s.companions = calls.filterMap Call.companion? := by
  intro history g
  have hg : g = (empty completion).obeyAll history := by
    rw [obeyAll_append, ← ofList_eq_obeyAll]
  obtain ⟨horder, hnodup⟩ := ids_obeyAll (g := empty (A := A) completion) List.nodup_nil history
  rw [← hg] at horder hnodup
  refine ⟨horder, hnodup, (map_get?_ids hnodup).symm, ?size, ?found, ?sideBySide, ?companions⟩
  case size => rw [List.toFinset_card_of_nodup hnodup, ids, List.length_map, size]
  case found =>
    intro id m
    rw [hg]
    exact get?_eq_some_iff
  case sideBySide =>
    intro b hdistinct
    rw [Builder.inParallel, ofList_of_nodup .all hdistinct]
  case companions =>
    intro name calls entropy serial s hs hdistinct
    rw [Builder.companions_of_done hs, members_ofList hdistinct]

/-- A member is removed between two ticks and another one comes in under its identity. It goes to the
end, and has nothing of the progress of the first. -/
theorem membership_of_history_reinserted :
    let named (name : String) (serial : Nat) : Sequence Rehearsal.Act Rehearsal.Stage String :=
      (Builder.ofCalls name [.wait 1]).toSequence (fun _ => .ofSeed 0) serial
    let both := [named "first" 0, named "second" 1]
    let g := (ofList .all both).obeyAll [.advance 0.5 .empty, .remove (.serial 0),
      .insert (named "third" 0), .advance 0.25 .empty, .reset]
    g.ids = [.serial 1, .serial 0] ∧
      g.get? (.serial 0) = some ((named "third" 0).after [.advance 0.25 .empty, .reset]) ∧
      (Builder.new "pair").inParallel both = (Builder.new "pair").push (.parallel ⟨.all, both⟩) ∧
      (((Builder.ofCalls "pair" (both.map .alongside)).toSequence
          (fun _ => .ofSeed 0) 2).companions = both) := by
  intro named both g
  have hdistinct : (both.map Sequence.id).Nodup := by decide
  obtain ⟨horder, -, -, -, hfound, hsideBySide, hcompanions⟩ :=
    membership_of_history .all both [.advance 0.5 .empty, .remove (.serial 0),
      .insert (named "third" 0), .advance 0.25 .empty, .reset]
  refine ⟨horder, ?found, hsideBySide _ hdistinct, ?companions⟩
  case companions =>
    exact hcompanions "pair" (both.map .alongside) (fun _ => .ofSeed 0) 2 _ rfl hdistinct
  case found =>
    exact (hfound _ _).mpr ⟨both.map .insert ++ [.advance 0.5 .empty, .remove (.serial 0)],
      named "third" 0, [.advance 0.25 .empty, .reset], rfl, rfl, by simp [GroupCommand.Concerns],
      rfl⟩

end Commands

end Group

end Sequencer

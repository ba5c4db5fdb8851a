import Sequencer.Tree

/-!
# Groups

A group keeps its members in the order in which they are ticked, and finds them by their identity.
No two members have the same identity: inserting a sequence whose identity is taken replaces the
member that had it, in its place.
-/

namespace Sequencer.Group

variable {A C N : Type}

def empty (completion : Completion) : Group A C N := ⟨completion, []⟩

def size (g : Group A C N) : Nat := g.members.length

def isEmpty (g : Group A C N) : Bool := g.members.isEmpty

def get? (g : Group A C N) (id : SequenceId) : Option (Sequence A C N) :=
  g.members.find? (·.id == id)

def contains (g : Group A C N) (id : SequenceId) : Bool := g.members.any (·.id == id)

/-- Puts a sequence in the place of the member with its identity, if there is one. -/
def replace (g : Group A C N) (s : Sequence A C N) : Group A C N :=
  { g with members := g.members.map fun m => if m.id == s.id then s else m }

/-- Adds a member at the end, or in the place of the member with the same identity. -/
def insert (g : Group A C N) (s : Sequence A C N) : Group A C N :=
  if g.contains s.id then g.replace s else { g with members := g.members ++ [s] }

/-- Removes a member; the others keep their order. -/
def erase (g : Group A C N) (id : SequenceId) : Group A C N :=
  { g with members := g.members.filter (·.id != id) }

@[simp] theorem get?_insert_self (g : Group A C N) (s : Sequence A C N) :
    (g.insert s).get? s.id = some s := by
  obtain ⟨completion, members⟩ := g
  unfold insert contains
  split
  case isTrue taken =>
    simp only [replace, get?]
    induction members with
    | nil => simp at taken
    | cons m rest ih =>
      by_cases same : m.id = s.id
      · simp [same]
      · have other : (m.id == s.id) = false := by simpa using same
        simp only [List.any_cons, other, Bool.false_or] at taken
        simpa only [List.map_cons, other, List.find?_cons, Bool.false_eq_true, if_false]
          using ih taken
  case isFalse free =>
    have unfound : members.find? (·.id == s.id) = none := by
      simpa using free
    simp [get?, List.find?_append, unfound]

@[simp] theorem get?_erase_self (g : Group A C N) (id : SequenceId) :
    (g.erase id).get? id = none := by
  simp [erase, get?]

def ofList (completion : Completion) (sequences : List (Sequence A C N)) : Group A C N :=
  sequences.foldl insert (empty completion)

end Sequencer.Group

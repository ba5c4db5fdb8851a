import Sequencer.Proofs.Parts

/-!
# What a part sees of its owner

`Seen hop` follows one part through a trace of its owner. Between the entries of the owner itself
and those of the other parts, the part is visited, and the entries behind `hop` are those of the
visits. The flag says whether the part awaits a reset: it is set by every entry that enters the
part's surroundings anew, only a reset clears it, and a part is never entered or ticked while it is
set. The clock is the length of the tick that the owner is in, and of every tick that it gives the
part. The main statement, `Part.seen_visit`, is that every visit of every owner keeps to this, with
at most one tick of the part in a tick of the owner.
-/

namespace Sequencer

variable {A C N : Type} [Behavior A C N]

/-- `Seen hop clock due part trace n due' part'`: along the trace of its owner, the part at `hop`
becomes `part'` and is ticked `n` times; the flags tell whether it awaits a reset before and
after. -/
inductive Seen (hop : Hop) (clock : Float32) :
    Bool → Part A C N → Trace N → Nat → Bool → Part A C N → Prop
  | done (due : Bool) (part : Part A C N) : Seen hop clock due part [] 0 due part
  /-- Something happened at the owner. -/
  | own {due due' : Bool} {part part' : Part A C N} {trace : Trace N} {n : Nat} (event : Event N)
      (later : Seen hop clock (due || event.reenters hop) part trace n due' part') :
      Seen hop clock due part (⟨[], event⟩ :: trace) n due' part'
  /-- Something happened in another part. -/
  | aside {due due' : Bool} {part part' : Part A C N} {trace : Trace N} {n : Nat} {other : Hop}
      (h : other ≠ hop) (place : List Hop) (event : Event N)
      (later : Seen hop clock due part trace n due' part') :
      Seen hop clock due part (⟨other :: place, event⟩ :: trace) n due' part'
  | reset {due' : Bool} {part part' : Part A C N} {trace : Trace N} {n : Nat}
      (later : Seen hop clock false part.reset trace n due' part') :
      Seen hop clock true part trace n due' part'
  | entered {due' : Bool} {part part' : Part A C N} {trace : Trace N} {n : Nat}
      (h : part.isUnstarted = true) (ctx : C) (generator : Generator)
      (later : Seen hop clock false (part.visit (.enter ctx generator)).part trace n due' part') :
      Seen hop clock false part ((part.visit (.enter ctx generator)).trace.under hop ++ trace) n
        due' part'
  | ticked {due' : Bool} {part part' : Part A C N} {trace : Trace N} {n : Nat} (ctx : C)
      (generator : Generator)
      (later : Seen hop clock false (part.visit (.tick clock ctx generator)).part trace n due'
        part') :
      Seen hop clock false part
        ((part.visit (.tick clock ctx generator)).trace.under hop ++ trace) (n + 1) due' part'

namespace Seen

variable {hop : Hop} {clock : Float32} {due due' due'' : Bool} {part part' part'' : Part A C N}
  {t u : Trace N} {n m : Nat}

theorem append (h : Seen hop clock due part t n due' part')
    (k : Seen hop clock due' part' u m due'' part'') :
    Seen hop clock due part (t ++ u) (n + m) due'' part'' := by
  induction h with
  | done due part => simpa using k
  | own event later ih => exact .own event (ih k)
  | aside h place event later ih => exact .aside h place event (ih k)
  | reset later ih => exact .reset (ih k)
  | entered h ctx generator later ih =>
    rw [List.append_assoc]
    exact .entered h ctx generator (ih k)
  | ticked ctx generator later ih =>
    rw [List.append_assoc, Nat.add_right_comm]
    exact .ticked ctx generator (ih k)

theorem here (clock : Float32) {events : List (Event N)}
    (h : ∀ e ∈ events, e.reenters hop = false) (due : Bool) (part : Part A C N) :
    Seen hop clock due part (Trace.here events) 0 due part := by
  induction events with
  | nil => exact .done due part
  | cons e events ih =>
    have he : e.reenters hop = false := h e List.mem_cons_self
    have hr := ih fun e he => h e (List.mem_cons_of_mem _ he)
    refine .own e ?_
    rw [he, Bool.or_false]
    exact hr

theorem elsewhere (h : ∀ e ∈ t, ∃ other place, e.path = other :: place ∧ other ≠ hop)
    (due : Bool) (part : Part A C N) : Seen hop clock due part t 0 due part := by
  induction t with
  | nil => exact .done due part
  | cons e t ih =>
    obtain ⟨path, event⟩ := e
    obtain ⟨other, place, hp, ho⟩ := h _ List.mem_cons_self
    have hr := ih fun e he => h e (List.mem_cons_of_mem _ he)
    simp only at hp
    subst hp
    exact .aside ho place event hr

theorem under_of_ne (clock : Float32) {other : Hop} (h : other ≠ hop) (t : Trace N) (due : Bool)
    (part : Part A C N) : Seen hop clock due part (t.under other) 0 due part := by
  apply elsewhere
  intro e he
  obtain ⟨e', _, rfl⟩ := List.mem_map.mp he
  exact ⟨other, e'.path, rfl, h⟩

/-- A log line that enters the part's surroundings anew leaves it to be reset. -/
theorem line_of_reenters (line : LogEvent) (h : (Event.log line : Event N).reenters hop = true)
    (due : Bool) (part : Part A C N) : Seen hop clock due part (Trace.line line) 0 true part := by
  refine .own _ ?_
  rw [h, Bool.or_true]
  exact .done true part

theorem line_of_not_reenters (line : LogEvent)
    (h : (Event.log line : Event N).reenters hop = false) (due : Bool) (part : Part A C N) :
    Seen hop clock due part (Trace.line line) 0 due part := by
  refine .own _ ?_
  rw [h, Bool.or_false]
  exact .done due part

theorem of_owner_ticked (hop : Hop) (clock : Float32) (due : Bool) (part : Part A C N) :
    Seen hop clock due part [⟨[], .ticked⟩] 0 due part := by
  have hn : (Event.ticked : Event N).reenters hop = false := rfl
  refine .own _ ?_
  rw [hn, Bool.or_false]
  exact .done due part

theorem of_reset (hop : Hop) (clock : Float32) (part : Part A C N) :
    Seen hop clock true part [] 0 false part.reset :=
  .reset (.done false _)

theorem of_enter (hop : Hop) (clock : Float32) (h : part.isUnstarted = true) (ctx : C)
    (generator : Generator) :
    Seen hop clock false part ((part.visit (.enter ctx generator)).trace.under hop) 0 false
      (part.visit (.enter ctx generator)).part := by
  have hs : Seen hop clock false part _ 0 false _ := .entered h ctx generator (.done false _)
  simpa using hs

theorem of_tick (hop : Hop) (dt : Float32) (ctx : C) (generator : Generator) (part : Part A C N) :
    Seen hop dt false part ((part.visit (.tick dt ctx generator)).trace.under hop) 1 false
      (part.visit (.tick dt ctx generator)).part := by
  have hs : Seen hop dt false part _ 1 false _ := .ticked ctx generator (.done false _)
  simpa using hs

end Seen

end Sequencer

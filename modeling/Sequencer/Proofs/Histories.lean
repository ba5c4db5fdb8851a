import Sequencer.Proofs.Owners

/-!
# Histories

The owner of a sequence may advance it and reset it, as often and in whatever order. What a history
of the root does to a part anywhere in the tree is a history of visits of that part: the entries of
the trace at the part and behind it are those of the visits, and there are no more ticks of the part
than of the root. So what holds of every history of a sequence on its own holds of every sequence of
a tree.
-/

namespace Sequencer

/-- What an owner does to a sequence. -/
inductive Command (C : Type)
  | advance (dt : Float32) (ctx : C)
  | reset

def Command.ticks {C : Type} : Command C → Nat
  | advance .. => 1
  | reset => 0

variable {A C N : Type} [Behavior A C N]

namespace Sequence

def obey (s : Sequence A C N) : Command C → Sequence A C N
  | .advance dt ctx => (s.advance dt ctx).sequence
  | .reset => s.reset

def traceOf (s : Sequence A C N) : Command C → Trace N
  | .advance dt ctx => (s.advance dt ctx).trace
  | .reset => []

def after (s : Sequence A C N) : List (Command C) → Sequence A C N
  | [] => s
  | command :: later => (s.obey command).after later

def history (s : Sequence A C N) : List (Command C) → Trace N
  | [] => []
  | command :: later => s.traceOf command ++ (s.obey command).history later

theorem after_append (s : Sequence A C N) (cs ds : List (Command C)) :
    s.after (cs ++ ds) = (s.after cs).after ds := by
  induction cs generalizing s with
  | nil => rfl
  | cons c cs ih => exact ih (s.obey c)

end Sequence

section Commands

omit [Behavior A C N]

def Visit.command? : Visit C → Option (Command C)
  | .reset => some .reset
  | .enter .. => none
  | .tick dt ctx _ => some (.advance dt ctx)

/-- A command as a visit. A sequence has no use for the generator. -/
def Command.visit (generator : Generator) : Command C → Visit C
  | .advance dt ctx => .tick dt ctx generator
  | .reset => .reset

def ticksOf : List (Visit C) → Nat
  | [] => 0
  | v :: later => v.ticks + ticksOf later

def advancesOf : List (Command C) → Nat
  | [] => 0
  | c :: later => c.ticks + advancesOf later

theorem ticksOf_append (vs ws : List (Visit C)) : ticksOf (vs ++ ws) = ticksOf vs + ticksOf ws := by
  induction vs with
  | nil => exact (Nat.zero_add _).symm
  | cons v vs ih => simp [ticksOf, ih, Nat.add_assoc]

theorem advancesOf_command? (vs : List (Visit C)) :
    advancesOf (vs.filterMap Visit.command?) = ticksOf vs := by
  induction vs with
  | nil => rfl
  | cons v vs ih =>
    cases v <;> simp [Visit.command?, Visit.ticks, Command.ticks, List.filterMap_cons, ticksOf,
      advancesOf, ih]

theorem ticksOf_visit (generator : Generator) (cs : List (Command C)) :
    ticksOf (cs.map (Command.visit generator)) = advancesOf cs := by
  induction cs with
  | nil => rfl
  | cons c cs ih =>
    have hc : (c.visit generator).ticks = c.ticks := by cases c <;> rfl
    simp only [List.map_cons, ticksOf, advancesOf, ih, hc]

end Commands

theorem Part.visits_sequence (s : Sequence A C N) (vs : List (Visit C)) :
    (Part.sequence s).visits vs =
      ⟨s.history (vs.filterMap Visit.command?),
        .sequence (s.after (vs.filterMap Visit.command?))⟩ := by
  induction vs generalizing s with
  | nil => rfl
  | cons v vs ih =>
    cases v with
    | reset => simp [Part.visits, Part.visit, Part.reset, ih, Visit.command?, Sequence.history,
        Sequence.after, Sequence.traceOf, Sequence.obey]
    | enter ctx generator =>
      simp [Part.visits, Part.visit, ih, Visit.command?, List.filterMap_cons]
    | tick dt ctx generator => simp [Part.visits, Part.visit, ih, Visit.command?,
        Sequence.history, Sequence.after, Sequence.traceOf, Sequence.obey]

theorem Part.visits_visit (s : Sequence A C N) (generator : Generator) (cs : List (Command C)) :
    (Part.sequence s).visits (cs.map (Command.visit generator)) =
      ⟨s.history cs, .sequence (s.after cs)⟩ := by
  have h : (cs.map (Command.visit generator)).filterMap Visit.command? = cs := by
    induction cs with
    | nil => rfl
    | cons c cs ih => cases c <;> simpa [Command.visit, Visit.command?] using ih
  rw [Part.visits_sequence, h]

/-- A step stays a step, and keeps every property that lasts. -/
theorem Step.IsLasting.visits {P : Step A C N → Prop} (h : Step.IsLasting P) {s : Step A C N}
    (hs : P s) (vs : List (Visit C)) : ∃ s', ((Part.step s).visits vs).part = .step s' ∧ P s' := by
  induction vs generalizing s with
  | nil => exact ⟨s, rfl, hs⟩
  | cons v vs ih =>
    cases v with
    | reset => exact ih (h.reset hs)
    | enter ctx generator => exact ih (h.enter ctx generator hs)
    | tick dt ctx generator => exact ih (h.tick hs dt ctx generator)

theorem Part.visits_step (s : Step A C N) (vs : List (Visit C)) :
    ∃ s', ((Part.step s).visits vs).part = .step s' := by
  have htrue : Step.IsLasting fun _ : Step A C N => True :=
    ⟨fun _ => trivial, fun _ _ _ => trivial, fun _ _ _ _ => trivial⟩
  obtain ⟨s', hs', -⟩ := htrue.visits trivial vs
  exact ⟨s', hs'⟩

theorem Seen.exists_visits {hop : Hop} {clock : Float32} {due due' : Bool} {part part' : Part A C N}
    {t : Trace N} {n : Nat} (h : Seen hop clock due part t n due' part') :
    ∃ vs, part.visits vs = ⟨t.inside hop, part'⟩ ∧ ticksOf vs = n := by
  induction h with
  | done due part => exact ⟨[], rfl, rfl⟩
  | own event later ih => simpa only [Trace.inside_cons_own] using ih
  | aside h place event later ih => simpa only [Trace.inside_cons_of_ne h] using ih
  | reset later ih =>
    obtain ⟨vs, hv, hn⟩ := ih
    refine ⟨.reset :: vs, ?_, (Nat.zero_add _).trans hn⟩
    simp [Part.visits, Part.visit, hv]
  | @entered _ part _ _ _ h ctx generator later ih =>
    obtain ⟨vs, hv, hn⟩ := ih
    refine ⟨.enter ctx generator :: vs, ?_, (Nat.zero_add _).trans hn⟩
    simp [Part.visits, hv]
  | @ticked _ part _ _ _ ctx generator later ih =>
    obtain ⟨vs, hv, hn⟩ := ih
    refine ⟨.tick clock ctx generator :: vs, ?_, ?_⟩
    · simp [Part.visits, hv]
    · simp [ticksOf, Visit.ticks, hn, Nat.add_comm]

theorem Part.exists_visits_child (part : Part A C N) (vs : List (Visit C)) {hop : Hop}
    {c : Part A C N} (h : part.child? hop = some c) :
    ∃ ws, (part.visits vs).part.child? hop = some (c.visits ws).part ∧
      (c.visits ws).trace = (part.visits vs).trace.inside hop ∧ ticksOf ws ≤ ticksOf vs := by
  induction vs generalizing part c with
  | nil => exact ⟨[], h, rfl, Nat.le_refl 0⟩
  | cons v vs ih =>
    have hone : ∃ us, (part.visit v).part.child? hop = some (c.visits us).part ∧
        (c.visits us).trace = (part.visit v).trace.inside hop ∧ ticksOf us ≤ v.ticks := by
      by_cases hv : v = .reset
      · subst hv
        match part with
        | .sequence s =>
          exact ⟨[.reset], Part.child?_sequence_reset h, rfl, Nat.le_refl 0⟩
        | .step s => exact ⟨[], (Part.child?_step_reset s hop).trans h, rfl, Nat.le_refl 0⟩
      · obtain ⟨clock, ht⟩ := v.exists_ticksAt
        obtain ⟨n, hn, c', hc, hs⟩ := part.seen_visit hv ht h
        obtain ⟨us, hu, hticks⟩ := hs.exists_visits
        exact ⟨us, by rw [hu]; exact hc, by rw [hu], hticks ▸ hn⟩
    obtain ⟨us, hc, ht, hn⟩ := hone
    obtain ⟨ws, hc', ht', hn'⟩ := ih (part.visit v).part hc
    refine ⟨us ++ ws, ?_, ?_, ?_⟩
    · rw [Part.visits_append]
      exact hc'
    · rw [Part.visits_append]
      simp [Part.visits, ht, ht']
    · rw [ticksOf_append]
      simp only [ticksOf] at hn hn' ⊢
      omega

theorem Part.exists_visits_find (part : Part A C N) (vs : List (Visit C)) (path : List Hop)
    {found : Part A C N} (h : part.find? path = some found) :
    ∃ ws, (part.visits vs).part.find? path = some (found.visits ws).part ∧
      (found.visits ws).trace = (part.visits vs).trace.within path ∧ ticksOf ws ≤ ticksOf vs := by
  induction path generalizing part vs with
  | nil =>
    obtain rfl : part = found := Option.some.inj h
    exact ⟨vs, rfl, rfl, Nat.le_refl _⟩
  | cons hop path ih =>
    obtain ⟨c, hc, hf⟩ := Part.find?_cons_eq_some.mp h
    obtain ⟨us, hc', ht, hn⟩ := part.exists_visits_child vs hc
    obtain ⟨ws, hf', ht', hn'⟩ := ih c us hf
    refine ⟨ws, Part.find?_cons_eq_some.mpr ⟨_, hc', hf'⟩, ?_, Nat.le_trans hn' hn⟩
    rw [ht', ht, Trace.within]

/-- What a history of the root is for a part of its tree: visits of that part. -/
theorem Sequence.exists_visits (s : Sequence A C N) (cs : List (Command C)) (path : List Hop)
    {found : Part A C N} (h : (Part.sequence s).find? path = some found) :
    ∃ vs, (Part.sequence (s.after cs)).find? path = some (found.visits vs).part ∧
      (found.visits vs).trace = (s.history cs).within path ∧
      ticksOf vs ≤ advancesOf cs := by
  have hv := (Part.sequence s).exists_visits_find (cs.map (Command.visit s.generator)) path h
  rwa [Part.visits_visit, ticksOf_visit] at hv

theorem Sequence.exists_commands (s : Sequence A C N) (cs : List (Command C)) (path : List Hop)
    {t : Sequence A C N} (h : (Part.sequence s).find? path = some (.sequence t)) :
    ∃ ds, (Part.sequence (s.after cs)).find? path = some (.sequence (t.after ds)) ∧
      t.history ds = (s.history cs).within path ∧
      advancesOf ds ≤ advancesOf cs := by
  obtain ⟨vs, hf, ht, hn⟩ := s.exists_visits cs path h
  rw [Part.visits_sequence] at hf ht
  exact ⟨vs.filterMap Visit.command?, hf, ht, by rwa [advancesOf_command?]⟩

end Sequencer

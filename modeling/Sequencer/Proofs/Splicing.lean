import Mathlib.Data.List.Basic
import Sequencer.Proofs.Draws
import Sequencer.Proofs.TickDiscipline

/-!
# Nested sequences in rows of steps

A sequence that runs once, has no companions and never draws can be taken out of the row of steps
that holds it: its own steps stand in its place. A `Row` has both forms, with the nested sequence
and with its steps. Cascades through the two forms come to the same, and where they stop they leave
the two forms of one row; only the bookkeeping of the nested sequence is missing in the trace of the
second.
-/

namespace Sequencer

variable {A C N : Type}

/-- A cascade that goes on with further steps when it gets to the end. -/
def Cascade.andThen (k : Cascade A C N) (waiting : List (Step A C N))
    (later : C → Generator → Cascade A C N) : Cascade A C N :=
  match k.result with
  | .ok true =>
    let after := later k.context k.generator
    { after with trace := k.trace ++ after.trace, steps := k.steps ++ after.steps }
  | _ => { k with steps := k.steps ++ waiting }

theorem Cascade.andThen_of_ne {k : Cascade A C N} (h : k.result ≠ .ok true)
    (waiting : List (Step A C N)) (later : C → Generator → Cascade A C N) :
    k.andThen waiting later = { k with steps := k.steps ++ waiting } := by
  unfold Cascade.andThen
  split
  case h_1 hr => exact absurd hr h
  case h_2 => rfl

theorem StepTick.andThen_of_ne {t : StepTick A C N} (h : t.result ≠ .ok true) (index : Nat)
    (waiting : List (Step A C N)) (later : C → Generator → Cascade A C N) :
    t.andThen index waiting later =
      ⟨t.trace.under (.step index), t.context, t.generator, t.step :: waiting, index,
        t.result⟩ := by
  unfold StepTick.andThen
  split
  case h_1 hr => exact absurd hr h
  case h_2 hr => rw [hr]
  case h_3 hr => rw [hr]

/-- The same entry, for steps that stand `distance` places further on. -/
def Entry.shift (distance : Nat) : Entry N → Entry N
  | ⟨.step i :: place, event⟩ => ⟨.step (i + distance) :: place, event⟩
  | entry => entry

def Trace.shift (distance : Nat) (t : Trace N) : Trace N := t.map (Entry.shift distance)

def Cascade.shift (distance : Nat) (k : Cascade A C N) : Cascade A C N :=
  { k with trace := k.trace.shift distance, cursor := k.cursor + distance }

theorem Trace.shift_append (distance : Nat) (t u : Trace N) :
    shift distance (t ++ u) = shift distance t ++ shift distance u :=
  List.map_append

theorem Trace.shift_under (distance index : Nat) (t : Trace N) :
    shift distance (t.under (.step index)) = t.under (.step (index + distance)) := by
  simp [shift, under, Entry.shift, Function.comp_def]

section Cascades

variable [Behavior A C N]

theorem cascade_append {xs : List (Step A C N)} {skip : Nat} (h : skip ≤ xs.length) (dt : Float32)
    (index : Nat) (ys : List (Step A C N)) (ctx : C) (generator : Generator) :
    cascade false dt index (xs ++ ys) skip ctx generator =
      (cascade false dt index xs skip ctx generator).andThen ys
        (cascade false dt (index + xs.length) ys 0) := by
  induction xs generalizing index skip ctx generator with
  | nil =>
    obtain rfl : skip = 0 := Nat.le_zero.mp h
    rfl
  | cons first rest ih =>
    have hlen : index + (first :: rest).length = index + 1 + rest.length := by
      rw [List.length_cons]
      omega
    rw [List.cons_append, hlen]
    cases skip with
    | zero =>
      rw [cascade_cons_zero, cascade_cons_zero]
      match hr : (Step.tick false dt first ctx generator).result with
      | .error e => simp [StepTick.andThen, Cascade.andThen, hr]
      | .ok false => simp [StepTick.andThen, Cascade.andThen, hr]
      | .ok true =>
        simp only [StepTick.andThen, hr, ih (Nat.zero_le _)]
        generalize cascade false dt (index + 1) rest 0 _ _ = k
        unfold Cascade.andThen
        split <;> simp_all
    | succ skip =>
      rw [cascade_cons_succ, cascade_cons_succ, ih (Nat.le_of_succ_le_succ h)]
      generalize cascade false dt (index + 1) rest skip ctx generator = k
      unfold Cascade.andThen Cascade.behind
      split <;> simp_all

/-- A cascade that gets to a step behind all others ends with its tick. -/
theorem cascade_concat_of_ok {xs : List (Step A C N)} {skip : Nat} (h : skip ≤ xs.length)
    {dt : Float32} {index : Nat} {ctx : C} {generator : Generator}
    (hr : (cascade false dt index xs skip ctx generator).result = .ok true) (last : Step A C N) :
    cascade false dt index (xs ++ [last]) skip ctx generator =
      let k := cascade false dt index xs skip ctx generator
      let t := Step.tick false dt last k.context k.generator
      { trace := k.trace ++ t.trace.under (.step (index + xs.length))
        context := t.context
        generator := t.generator
        steps := k.steps ++ [t.step]
        cursor := index + xs.length + if t.result = .ok true then 1 else 0
        result := t.result } := by
  rw [cascade_append h]
  simp only [Cascade.andThen, hr, cascade_cons_zero, StepTick.andThen]
  split <;> simp_all [cascade]

theorem cascade_append_length (dt : Float32) (index : Nat) (xs ys : List (Step A C N)) (skip : Nat)
    (ctx : C) (generator : Generator) :
    cascade false dt index (xs ++ ys) (xs.length + skip) ctx generator =
      let k := cascade false dt (index + xs.length) ys skip ctx generator
      { k with steps := xs ++ k.steps } := by
  induction xs generalizing index with
  | nil => simp
  | cons first rest ih =>
    rw [List.cons_append, List.length_cons, Nat.add_right_comm, cascade_cons_succ, ih,
      Nat.add_assoc index 1, Nat.add_comm 1]
    rfl

theorem cascade_shift (dt : Float32) (steps : List (Step A C N)) (index distance skip : Nat)
    (ctx : C) (generator : Generator) :
    cascade false dt (index + distance) steps skip ctx generator =
      (cascade false dt index steps skip ctx generator).shift distance := by
  induction steps generalizing index skip ctx generator with
  | nil => rfl
  | cons first rest ih =>
    have hnext : index + distance + 1 = index + 1 + distance := Nat.add_right_comm ..
    cases skip with
    | zero =>
      rw [cascade_cons_zero, cascade_cons_zero, hnext]
      match hr : (Step.tick false dt first ctx generator).result with
      | .error e => simp [StepTick.andThen, Cascade.shift, hr, Trace.shift_under]
      | .ok false => simp [StepTick.andThen, Cascade.shift, hr, Trace.shift_under]
      | .ok true =>
        simp [StepTick.andThen, Cascade.shift, hr, Trace.shift_under, Trace.shift_append, ih]
    | succ skip => rw [cascade_cons_succ, cascade_cons_succ, hnext, ih]; rfl

theorem exists_lt_of_mem_cascade (dt : Float32) (steps : List (Step A C N)) (index skip : Nat)
    (ctx : C) (generator : Generator) :
    ∀ e ∈ (cascade false dt index steps skip ctx generator).trace,
      ∃ k place, k < steps.length ∧ e.path = .step (index + k) :: place := by
  induction steps generalizing index skip ctx generator with
  | nil => simp [cascade]
  | cons first rest ih =>
    have hlater : ∀ k place, k < rest.length →
        ∀ e : Entry N, e.path = .step (index + 1 + k) :: place →
        ∃ k place, k < (first :: rest).length ∧ e.path = .step (index + k) :: place := by
      intro k place hk e hp
      exact ⟨k + 1, place, Nat.succ_lt_succ hk, by rw [hp, Nat.add_right_comm, Nat.add_assoc]⟩
    intro e he
    cases skip with
    | zero =>
      have hfirst : e ∈ (Step.tick false dt first ctx generator).trace.under (.step index) →
          ∃ k place, k < (first :: rest).length ∧ e.path = .step (index + k) :: place := by
        intro he
        obtain ⟨e', _, rfl⟩ := List.mem_map.mp he
        exact ⟨0, e'.path, Nat.succ_pos _, rfl⟩
      rw [cascade_cons_zero, StepTick.andThen] at he
      split at he
      · rcases List.mem_append.mp he with he | he
        · exact hfirst he
        · obtain ⟨k, place, hk, hp⟩ := ih (index + 1) 0 _ _ e he
          exact hlater k place hk e hp
      · exact hfirst he
      · exact hfirst he
    | succ skip =>
      obtain ⟨k, place, hk, hp⟩ := ih (index + 1) skip ctx generator e he
      exact hlater k place hk e hp

theorem cursor_cascade_le (dt : Float32) (steps : List (Step A C N)) (index skip : Nat) (ctx : C)
    (generator : Generator) (h : skip ≤ steps.length) :
    (cascade false dt index steps skip ctx generator).cursor ≤ index + steps.length := by
  induction steps generalizing index skip ctx generator with
  | nil => exact Nat.le_refl _
  | cons first rest ih =>
    rw [List.length_cons]
    cases skip with
    | zero =>
      rw [cascade_cons_zero, StepTick.andThen]
      split
      · have := ih (index + 1) 0 (Step.tick false dt first ctx generator).context
          (Step.tick false dt first ctx generator).generator (Nat.zero_le _)
        simp only
        omega
      · exact Nat.le_add_right ..
      · exact Nat.le_add_right ..
    | succ skip =>
      have := ih (index + 1) skip ctx generator (Nat.le_of_succ_le_succ h)
      exact Nat.le_trans this (by omega)

end Cascades

/-- Whether an event only says that a part is ticked, begins or is done. -/
def Event.isBookkeeping : Event N → Bool
  | .ticked => true
  | .log (.sequenceStarted ..) | .log (.sequenceComplete ..) => true
  | .log (.stepActivated _) | .log (.stepComplete _) => true
  | _ => false

/-- Where an entry belongs when the `size` steps of a sequence take the place of the step at `index`
that holds the sequence. The bookkeeping of that step and of the sequence itself goes away. -/
def Entry.splice (index size : Nat) : Entry N → Option (Entry N)
  | ⟨[], .log (.sequenceStarted name steps policy)⟩ =>
    some ⟨[], .log (.sequenceStarted name (steps - 1 + size) policy)⟩
  | ⟨.step i :: place, event⟩ =>
    if i < index then some ⟨.step i :: place, event⟩
    else if index < i then some ⟨.step (i - 1 + size) :: place, event⟩
    else
      match place with
      | .body :: .step j :: inner => some ⟨.step (index + j) :: inner, event⟩
      | _ => if event.isBookkeeping then none else some ⟨.step i :: place, event⟩
  | entry => some entry

namespace Trace

/-- A trace as it would be without the nested sequence. -/
def splice (index size : Nat) (t : Trace N) : Trace N := t.filterMap (Entry.splice index size)

def effects (t : Trace N) : List (Event N) :=
  (t.map Entry.event).filter fun event => !event.isBookkeeping

variable {index size : Nat} {t : Trace N}

@[simp] theorem splice_append (index size : Nat) (t u : Trace N) :
    splice index size (t ++ u) = splice index size t ++ splice index size u :=
  List.filterMap_append

@[simp] theorem effects_append (t u : Trace N) : effects (t ++ u) = effects t ++ effects u := by
  simp [effects]

/-- What took place stays the same without the nested sequence. -/
theorem effects_splice (index size : Nat) (t : Trace N) :
    (t.splice index size).effects = t.effects := by
  induction t with
  | nil => rfl
  | cons entry t ih =>
    have hentry : effects (splice index size [entry]) = effects [entry] := by
      cases hs : Entry.splice index size entry with
      | none =>
        have hb : entry.event.isBookkeeping = true := by
          unfold Entry.splice at hs
          repeat' split at hs
          all_goals first | assumption | cases hs
        simp [splice, effects, hs, hb]
      | some moved =>
        have hb : effects [moved] = effects [entry] := by
          unfold Entry.splice at hs
          repeat' split at hs
          all_goals first | (cases hs; rfl) | cases hs
        simpa [splice, hs] using hb
    rw [← List.singleton_append, splice_append, effects_append, effects_append, hentry, ih]

theorem splice_eq_self (h : ∀ e ∈ t, Entry.splice index size e = some e) :
    splice index size t = t := by
  rw [splice, List.filterMap_eq_map_iff_forall_eq_some (g := id) |>.mpr h, List.map_id]

theorem splice_root (h : ∀ e ∈ t, e.path = [] ∧
    ∀ name steps policy, e.event ≠ .log (.sequenceStarted name steps policy)) :
    splice index size t = t := by
  apply splice_eq_self
  intro e he
  obtain ⟨hp, hn⟩ := h e he
  obtain ⟨path, event⟩ := e
  obtain rfl : path = [] := hp
  unfold Entry.splice
  split
  case h_1 heq =>
    obtain ⟨-, rfl⟩ := Entry.mk.inj heq
    exact absurd rfl (hn _ _ _)
  case h_2 heq => cases heq
  case h_3 => rfl

theorem splice_companions (h : ∀ e ∈ t, ∃ j place, e.path = .companion j :: place) :
    splice index size t = t := by
  apply splice_eq_self
  intro e he
  obtain ⟨j, place, hp⟩ := h e he
  obtain ⟨path, event⟩ := e
  obtain rfl : path = .companion j :: place := hp
  rfl

theorem splice_before (h : ∀ e ∈ t, ∃ i place, i < index ∧ e.path = .step i :: place) :
    splice index size t = t := by
  apply splice_eq_self
  intro e he
  obtain ⟨i, place, hi, hp⟩ := h e he
  obtain ⟨path, event⟩ := e
  obtain rfl : path = .step i :: place := hp
  exact if_pos hi

theorem splice_behind (h : ∀ e ∈ t, ∃ i place, e.path = .step i :: place) :
    splice index size (t.shift (index + 1)) = t.shift (index + size) := by
  rw [splice, shift, List.filterMap_map, shift, List.filterMap_eq_map_iff_forall_eq_some]
  intro e he
  obtain ⟨i, place, hp⟩ := h e he
  obtain ⟨path, event⟩ := e
  obtain rfl : path = .step i :: place := hp
  have hlt : ¬i + (index + 1) < index := by omega
  have hgt : index < i + (index + 1) := by omega
  have hmoved : i + (index + 1) - 1 + size = i + (index + size) := by omega
  simp only [Function.comp_apply, Entry.shift, Entry.splice, if_neg hlt, if_pos hgt, hmoved]

theorem splice_inside (h : ∀ e ∈ t, ∃ i place, e.path = .step i :: place) :
    splice index size ((t.under .body).under (.step index)) = t.shift index := by
  rw [splice, under, under, List.map_map, List.filterMap_map, shift,
    List.filterMap_eq_map_iff_forall_eq_some]
  intro e he
  obtain ⟨i, place, hp⟩ := h e he
  obtain ⟨path, event⟩ := e
  obtain rfl : path = .step i :: place := hp
  simp only [Function.comp_apply, Entry.shift, Entry.splice, if_neg (Nat.lt_irrefl index),
    Nat.add_comm index i]

/-- Whether a trace of a step with a sequence inside is nothing but bookkeeping of the two. -/
def IsHousekeeping (t : Trace N) : Prop :=
  ∀ e ∈ t, (e.path = [] ∨ e.path = [.body]) ∧ e.event.isBookkeeping = true

theorem IsHousekeeping.splice (h : t.IsHousekeeping) (index size : Nat) :
    splice index size (t.under (.step index)) = [] := by
  rw [Trace.splice, under, List.filterMap_map, List.filterMap_eq_nil_iff]
  intro e he
  obtain ⟨hp, hb⟩ := h e he
  obtain ⟨path, event⟩ := e
  rcases hp with hp | hp
  all_goals
    cases hp
    simp only [Function.comp_apply, Entry.splice, if_neg (Nat.lt_irrefl index)]
    exact if_pos hb

end Trace

theorem Trace.isHousekeeping_line {line : LogEvent} (h : (Event.log line : Event N).isBookkeeping) :
    (Trace.line line : Trace N).IsHousekeeping := by
  intro e he
  rw [List.mem_singleton.mp he]
  exact ⟨.inl rfl, h⟩

theorem Trace.IsHousekeeping.append {t u : Trace N} (ht : t.IsHousekeeping)
    (hu : u.IsHousekeeping) : (t ++ u).IsHousekeeping := fun e he =>
  (List.mem_append.mp he).elim (ht e) (hu e)

theorem Trace.isHousekeeping_under_body {t : Trace N}
    (h : ∀ e ∈ t, e.path = [] ∧ e.event.isBookkeeping = true) : (t.under .body).IsHousekeeping := by
  intro e he
  obtain ⟨inner, hm, rfl⟩ := List.mem_map.mp he
  obtain ⟨hp, hb⟩ := h inner hm
  exact ⟨.inr (congrArg _ hp), hb⟩

/-- Whether a sequence runs once, on its own and without drawing. -/
structure Sequence.IsInline (s : Sequence A C N) : Prop where
  policy : s.policy = .once
  companions : s.companions = []
  steps : NoneDraws s.steps

theorem Sequence.IsInline.reset {s : Sequence A C N} (h : s.IsInline) : s.reset.IsInline where
  policy := s.policy_reset.trans h.policy
  companions := by rw [Sequence.companions_reset, h.companions]; rfl
  steps := by
    rw [Sequence.steps_reset]
    exact h.steps.map_reset

theorem Sequence.IsInline.begun {s : Sequence A C N} (h : s.IsInline) : s.begun.IsInline := by
  unfold Sequence.begun
  split
  · exact ⟨h.reset.policy, h.reset.companions, h.reset.steps⟩
  · exact h

/-- How a tick of a sequence that runs once and on its own follows from its cascade. -/
structure Advance.Follows (a : Advance A C N) (opening : Trace N) (k : Cascade A C N) : Prop where
  trace : ∃ closing, (∀ e ∈ closing, e.path = [] ∧ e.event.isBookkeeping = true) ∧
    a.trace = ⟨[], .ticked⟩ :: (opening ++ k.trace ++ closing)
  context : a.context = k.context
  result : a.result.map (· == .complete) = k.result
  isInline : a.sequence.IsInline
  steps : a.sequence.steps = k.steps
  running : k.result ≠ .ok true → a.sequence.status = .running ∧ a.sequence.cursor = k.cursor

section Inline

variable [Behavior A C N]

theorem Sequence.IsInline.advance {s : Sequence A C N} (h : s.IsInline) (hs : s.status ≠ .complete)
    (dt : Float32) (ctx : C) :
    (s.advance dt ctx).Follows s.opening (s.begun.walk dt ctx) := by
  have hrunning := Sequence.status_begun hs
  have hnc : s.begun.status ≠ .complete := hrunning ▸ Status.noConfusion
  obtain ⟨hpolicy, hcompanions, hsteps⟩ := h.begun
  have hdraws : NoneDraws (s.begun.walk dt ctx).steps :=
    (hsteps.cascade dt 0 s.begun.cursor ctx).steps _
  have hround (ctx' : C) : advanceAll false dt .companion 0 s.begun.companions ctx' =
      ⟨[], ctx', [], .ok 0⟩ := by rw [hcompanions]; rfl
  match hr : (s.begun.walk dt ctx).result with
  | .error e =>
    have hbody := Sequence.resume_of_error hnc hr
    rw [Sequence.advance_of_error (by rw [hbody]), hbody]
    exact ⟨⟨[], fun _ hm => (nomatch hm), by simp⟩, rfl, hr.symm, ⟨hpolicy, hcompanions, hdraws⟩,
      rfl, fun _ => ⟨hrunning, rfl⟩⟩
  | .ok false =>
    have hbody := Sequence.resume_of_held hnc hr
    rw [Sequence.advance_of_ok (by rw [hbody]), hbody]
    simp only [hround]
    exact ⟨⟨[], fun _ hm => (nomatch hm), rfl⟩, rfl, hr.symm, ⟨hpolicy, rfl, hdraws⟩, rfl,
      fun _ => ⟨hrunning, rfl⟩⟩
  | .ok true =>
    have hover : ((s.begun.stopped (s.begun.walk dt ctx)).verdict
        (s.begun.walk dt ctx).context) = ⟨[], .ok false⟩ := by
      rw [Sequence.verdict, show (s.begun.stopped _).policy = _ from hpolicy]
      rfl
    have hbody := Sequence.resume_of_passed hnc hr
    rw [Sequence.finishPass_of_over (by rw [hover]), hover] at hbody
    rw [Sequence.advance_of_ok (by rw [hbody]; rfl), hbody]
    simp only [hround]
    refine ⟨⟨Trace.line (.sequenceComplete _ _), ?_, by simp [Advance.after]; rfl⟩, rfl, hr.symm,
      ⟨hpolicy, rfl, hdraws⟩, rfl, fun hn => absurd hr hn⟩
    intro e he
    rw [List.mem_singleton.mp he]
    exact ⟨rfl, rfl⟩

end Inline

/-! ### The step that holds the sequence -/

/-- How a tick of a step with such a sequence inside follows from the cascade of the sequence. -/
structure StepTick.Follows (t : StepTick A C N) (generator : Generator) (k : Cascade A C N) :
    Prop where
  trace : ∃ opening closing : Trace N, opening.IsHousekeeping ∧ closing.IsHousekeeping ∧
    t.trace = opening ++ k.trace.under .body ++ closing
  context : t.context = k.context
  generator : t.generator = generator
  result : t.result = k.result
  step : ∃ state body, t.step = ⟨state, .nested body⟩ ∧ body.IsInline ∧ body.steps = k.steps ∧
    state ≠ .notStarted ∧ (k.result = .ok true → state = .complete) ∧
    (k.result ≠ .ok true → state = .active ∧ body.status = .running ∧ body.cursor = k.cursor)

namespace StepTick.Follows

theorem ofBody {a : Advance A C N} {opening : Trace N} {k : Cascade A C N}
    (h : a.Follows opening k) (ho : ∀ e ∈ opening, e.path = [] ∧ e.event.isBookkeeping = true)
    (generator : Generator) : (StepTick.ofBody false generator a).Follows generator k := by
  obtain ⟨closing, hc, ht⟩ := h.trace
  have hopened : (Trace.under .body (⟨[], .ticked⟩ :: opening)).IsHousekeeping := by
    apply Trace.isHousekeeping_under_body
    intro e he
    rcases List.mem_cons.mp he with rfl | he
    · exact ⟨rfl, rfl⟩
    · exact ho e he
  have hclosed := Trace.isHousekeeping_under_body hc
  have htrace : activation false .nested ++ a.trace.under .body =
      Trace.under .body (⟨[], .ticked⟩ :: opening) ++ k.trace.under .body ++
        closing.under .body := by
    rw [ht]
    simp [activation, Trace.under]
  have hstep := h.running
  rw [StepTick.ofBody, h.result, htrace, h.context]
  cases hr : k.result with
  | error e =>
    have hn : k.result ≠ .ok true := by simp [hr]
    exact ⟨⟨_, _, hopened, hclosed, rfl⟩, rfl, rfl, hr.symm, .active, a.sequence, rfl, h.isInline,
      h.steps, StepState.noConfusion, fun hk => absurd hk hn, fun _ => ⟨rfl, hstep hn⟩⟩
  | ok passed =>
    cases passed with
    | false =>
      have hn : k.result ≠ .ok true := by simp [hr]
      exact ⟨⟨_, _, hopened, hclosed, rfl⟩, rfl, rfl, hr.symm, .active, a.sequence, rfl, h.isInline,
        h.steps, StepState.noConfusion, fun hk => absurd hk hn, fun _ => ⟨rfl, hstep hn⟩⟩
    | true =>
      refine ⟨⟨_, closing.under .body ++ Trace.line (.stepComplete .nested), hopened,
        hclosed.append (Trace.isHousekeeping_line rfl), List.append_assoc ..⟩, rfl, rfl, hr.symm,
        ?_⟩
      exact ⟨.complete, a.sequence, rfl, h.isInline, h.steps, StepState.noConfusion,
        fun _ => rfl, fun hn => absurd hr hn⟩

theorem after {t : StepTick A C N} {generator : Generator} {k : Cascade A C N}
    (h : t.Follows generator k) {earlier : Trace N} (he : earlier.IsHousekeeping) :
    (t.after earlier).Follows generator k := by
  obtain ⟨opening, closing, ho, hc, ht⟩ := h.trace
  refine ⟨⟨earlier ++ opening, closing, he.append ho, hc, ?_⟩, h.context, h.generator, h.result,
    h.step⟩
  simp [StepTick.after, ht]

end StepTick.Follows

/-- A row of steps, one of which holds a sequence. -/
structure Row (A C N : Type) where
  before : List (Step A C N)
  state : StepState
  body : Sequence A C N
  after : List (Step A C N)

namespace Row

def host (r : Row A C N) : Step A C N := ⟨r.state, .nested r.body⟩

/-- The steps of the sequence, as far as the state of the host lets them be seen. -/
def inside (r : Row A C N) : List (Step A C N) :=
  if r.state = .notStarted then r.body.steps.map Step.reset else r.body.steps

/-- The place of the step of the sequence that is driven. -/
def offset (r : Row A C N) : Nat := if r.state = .active then r.body.cursor else 0

def nested (r : Row A C N) : List (Step A C N) := r.before ++ r.host :: r.after

/-- The row with the steps of the sequence in its place. -/
def spliced (r : Row A C N) : List (Step A C N) := r.before ++ (r.inside ++ r.after)

/-- The cursor of the spliced row, by that of the nested one. -/
def cursor (r : Row A C N) (cursor : Nat) : Nat :=
  if cursor < r.before.length then cursor
  else if cursor = r.before.length then r.before.length + r.offset
  else cursor - 1 + r.body.size

/-- Whether the sequence stands at `index`, has `size` steps and can be spliced. -/
structure IsOpen (r : Row A C N) (index size : Nat) : Prop where
  length_before : r.before.length = index
  size_body : r.body.size = size
  isInline : r.body.IsInline
  running : r.state = .active → r.body.status = .running ∧ r.body.cursor ≤ size

variable {r : Row A C N} {index size : Nat}

theorem length_inside (r : Row A C N) : r.inside.length = r.body.size := by
  unfold inside
  split
  · exact List.length_map _
  · rfl

theorem IsOpen.noneDraws (h : r.IsOpen index size) : NoneDraws r.inside := by
  unfold inside
  split
  · exact h.isInline.steps.map_reset
  · exact h.isInline.steps

theorem IsOpen.offset_le (h : r.IsOpen index size) : r.offset ≤ r.inside.length := by
  rw [length_inside, h.size_body, offset]
  split
  case isTrue ha => exact (h.running ha).2
  case isFalse => exact Nat.zero_le _

section Ticks

variable [Behavior A C N]

/-- A tick of the host is a cascade through the steps of the sequence. -/
theorem IsOpen.tick_host (h : r.IsOpen index size) (hs : r.state ≠ .complete) (dt : Float32)
    (ctx : C) (generator : Generator) :
    (Step.tick false dt r.host ctx generator).Follows generator
      (cascade false dt 0 r.inside r.offset ctx r.body.generator) := by
  have hticked : (Trace.here [.ticked] : Trace N).IsHousekeeping := by
    intro e he
    rw [List.mem_singleton.mp he]
    exact ⟨.inl rfl, rfl⟩
  match hstate : r.state with
  | .complete => exact absurd hstate hs
  | .active =>
    obtain ⟨hrunning, -⟩ := h.running hstate
    have hne : r.body.status ≠ .notStarted := hrunning ▸ Status.noConfusion
    have ha := h.isInline.advance (hrunning ▸ Status.noConfusion) dt ctx
    have hopening : r.body.opening = [] := if_neg hne
    rw [hopening, Sequence.begun_of_ne hne] at ha
    have hinside : r.inside = r.body.steps := if_neg (hstate ▸ StepState.noConfusion)
    have hoffset : r.offset = r.body.cursor := if_pos hstate
    rw [Step.tick_of_active hstate, hinside, hoffset]
    exact (StepTick.Follows.ofBody ha (fun _ hm => (nomatch hm)) generator).after hticked
  | .notStarted =>
    have hreset := r.body.status_reset
    have ha := h.isInline.reset.advance (hreset ▸ Status.noConfusion) dt ctx
    have hopening : ∀ e ∈ r.body.reset.opening, e.path = [] ∧ e.event.isBookkeeping = true := by
      intro e he
      rw [Sequence.opening, if_pos hreset] at he
      rw [List.mem_singleton.mp he]
      exact ⟨rfl, rfl⟩
    have hwalk : r.body.reset.begun.walk dt ctx =
        cascade false dt 0 r.inside r.offset ctx r.body.generator := by
      have hinside : r.inside = r.body.reset.steps := by
        rw [inside, if_pos hstate, Sequence.steps_reset]
      have hoffset : r.offset = r.body.reset.progress.cursor := by
        rw [offset, if_neg (hstate ▸ StepState.noConfusion), Sequence.progress_reset]
        rfl
      have hgenerator : r.body.generator = r.body.reset.generator := by cases r.body; rfl
      rw [Sequence.begun, if_pos hreset, Sequence.reset_reset, hinside, hoffset, hgenerator]
      rfl
    rw [hwalk] at ha
    rw [Step.tick_of_entry hstate rfl]
    exact (StepTick.Follows.ofBody ha hopening generator).after
      (hticked.append (Trace.isHousekeeping_line rfl))

omit [Behavior A C N] in
theorem splice_host {t : StepTick A C N} {generator : Generator} {k : Cascade A C N}
    (h : t.Follows generator k) (hk : ∀ e ∈ k.trace, ∃ i place, e.path = .step i :: place)
    (index size : Nat) :
    (t.trace.under (.step index)).splice index size = k.trace.shift index := by
  obtain ⟨opening, closing, ho, hc, ht⟩ := h.trace
  have hunder : t.trace.under (.step index) = opening.under (.step index) ++
      (k.trace.under .body).under (.step index) ++ closing.under (.step index) := by
    simp [ht, Trace.under]
  rw [hunder, Trace.splice_append, Trace.splice_append, ho.splice, hc.splice,
    Trace.splice_inside hk, List.nil_append, List.append_nil]

theorem exists_step_of_mem_cascade_zero (dt : Float32) (steps : List (Step A C N)) (skip : Nat)
    (ctx : C) (generator : Generator) :
    ∀ e ∈ (cascade false dt 0 steps skip ctx generator).trace,
      ∃ i place, e.path = .step i :: place := by
  intro e he
  obtain ⟨i, place, hp⟩ := exists_step_of_mem_cascade dt steps 0 skip ctx generator e he
  exact ⟨_, place, hp⟩

/-- A cascade that starts with the host, beside the one through the spliced row. -/
theorem IsOpen.cascade_host (h : r.IsOpen index size) (hs : r.state ≠ .complete)
    {before : List (Step A C N)} (hbefore : before.length = index) (dt : Float32) (ctx : C)
    (generator : Generator) :
    let k := cascade false dt index (r.host :: r.after) 0 ctx generator
    ∃ left : Row A C N, left.IsOpen index size ∧ left.before = before ∧
      k.steps = left.host :: left.after ∧
      cascade false dt index (r.inside ++ r.after) r.offset ctx generator =
        { k with
          trace := k.trace.splice index size
          steps := left.inside ++ left.after
          cursor := left.cursor k.cursor } := by
  have ht := h.tick_host hs dt ctx generator
  have hdraws := h.noneDraws.cascade dt 0 r.offset ctx
  have hsteps := exists_step_of_mem_cascade_zero dt r.inside r.offset ctx r.body.generator
  have hlength := length_cascade dt r.inside 0 r.offset ctx r.body.generator
  have hcursor := cursor_cascade_le dt r.inside 0 r.offset ctx r.body.generator h.offset_le
  have hinner : cascade false dt index r.inside r.offset ctx generator =
      { (cascade false dt 0 r.inside r.offset ctx r.body.generator).shift index with
        generator } := by
    rw [← Nat.zero_add index, cascade_shift, hdraws.generator r.body.generator, Nat.zero_add]
    rfl
  rw [cascade_cons_zero, cascade_append h.offset_le, hinner, length_inside, h.size_body]
  rw [length_inside, h.size_body] at hlength hcursor
  generalize cascade false dt 0 r.inside r.offset ctx r.body.generator = k at *
  generalize Step.tick false dt r.host ctx generator = t at *
  have hsplice := splice_host ht hsteps index size
  obtain ⟨state, body, hstep, hinline, hbody, hentered, hover, hheld⟩ := ht.step
  have hopen (after : List (Step A C N)) : IsOpen ⟨before, state, body, after⟩ index size := by
    refine ⟨hbefore, (congrArg List.length hbody).trans hlength, hinline, ?_⟩
    intro ha
    have hne : k.result ≠ .ok true := fun hk => by
      obtain rfl : state = .active := ha
      cases hover hk
    obtain ⟨-, hrunning, hat⟩ := hheld hne
    have hle : k.cursor ≤ size := by omega
    exact ⟨hrunning, hat ▸ hle⟩
  have hinside (after : List (Step A C N)) :
      inside ⟨before, state, body, after⟩ = k.steps := (if_neg hentered).trans hbody
  by_cases hr : k.result = .ok true
  · -- the host is done, and both cascades go on behind it
    have hbehind := exists_step_of_mem_cascade_zero dt r.after 0 k.context generator
    have hlater (distance : Nat) := cascade_shift dt r.after 0 distance 0 k.context generator
    generalize cascade false dt 0 r.after 0 k.context generator = rest at hbehind hlater
    simp only [Nat.zero_add] at hlater
    refine ⟨⟨before, state, body, rest.steps⟩, hopen _, rfl, ?_, ?_⟩
    · simp [StepTick.andThen, ht.result, hr, ht.context, ht.generator, hlater, hstep, host,
        Cascade.shift]
    · have hplace : cursor ⟨before, state, body, rest.steps⟩ (rest.cursor + (index + 1)) =
          rest.cursor + (index + size) := by
        have hsize : body.size = size := (hopen rest.steps).size_body
        rw [cursor, hbefore, if_neg (by omega), if_neg (by omega), hsize]
        omega
      simp [StepTick.andThen, Cascade.andThen, Cascade.shift, ht.result, hr, ht.context,
        ht.generator, hlater, hinside, hsplice, hplace, Trace.splice_behind hbehind]
  · obtain ⟨rfl, -, hat⟩ := hheld hr
    have hplace : cursor ⟨before, .active, body, r.after⟩ index = k.cursor + index := by
      rw [cursor, hbefore, if_neg (Nat.lt_irrefl _), if_pos rfl, offset, if_pos rfl, hat]
      omega
    rw [StepTick.andThen_of_ne (ht.result ▸ hr), Cascade.andThen_of_ne (by exact hr)]
    refine ⟨⟨before, .active, body, r.after⟩, hopen _, rfl, by rw [hstep]; rfl, ?_⟩
    simp [Cascade.shift, ht.result, ht.context, ht.generator, hinside, hsplice, hplace]

/-- How a cascade `k` through a nested row and a cascade `k'` through the spliced one end: they come
to the same, and leave the two forms of one row. -/
structure Ends (left : Row A C N) (index size : Nat) (k k' : Cascade A C N) : Prop where
  isOpen : left.IsOpen index size
  nested : k.steps = left.nested
  spliced : k' = { k with
    trace := k.trace.splice index size
    steps := left.spliced
    cursor := left.cursor k.cursor }

theorem IsOpen.ends_of_lt (h : r.IsOpen index size) {cursor : Nat} (hlt : cursor < index)
    (hstate : r.state = .notStarted) (dt : Float32) (ctx : C) (generator : Generator) :
    ∃ left : Row A C N, left.Ends index size
      (cascade false dt 0 r.nested cursor ctx generator)
      (cascade false dt 0 r.spliced (r.cursor cursor) ctx generator) := by
  have hlength := h.length_before
  have hle : cursor ≤ r.before.length := by omega
  have hsame : r.cursor cursor = cursor := if_pos (by omega)
  have hoffset : r.offset = 0 := if_neg (hstate ▸ StepState.noConfusion)
  have hplaces := exists_lt_of_mem_cascade dt r.before 0 cursor ctx generator
  have hlengths := length_cascade dt r.before 0 cursor ctx generator
  have hstop := cursor_cascade_le dt r.before 0 cursor ctx generator hle
  rw [Row.nested, Row.spliced, hsame, cascade_append hle, cascade_append hle, Nat.zero_add, hlength]
  generalize cascade false dt 0 r.before cursor ctx generator = k at *
  have hkept : k.trace.splice index size = k.trace := by
    apply Trace.splice_before
    intro e he
    obtain ⟨i, place, hi, hp⟩ := hplaces e he
    exact ⟨0 + i, place, by omega, hp⟩
  by_cases hr : k.result = .ok true
  · obtain ⟨left, hleft, hkeeps, hsteps, hspliced⟩ := h.cascade_host
      (hstate ▸ StepState.noConfusion) (hlengths.trans hlength) dt k.context k.generator
    rw [hoffset] at hspliced
    refine ⟨left, hleft, ?_, ?_⟩
    · simp [Cascade.andThen, hr, hsteps, Row.nested, hkeeps]
    · simp [Cascade.andThen, hr, hspliced, hkept, Row.spliced, hkeeps]
  · have hplace : Row.cursor { r with before := k.steps } k.cursor = k.cursor := by
      simp only [Row.cursor, hlengths]
      split
      · rfl
      · rw [if_pos (by omega)]
        show r.before.length + r.offset = k.cursor
        omega
    rw [Cascade.andThen_of_ne hr, Cascade.andThen_of_ne hr]
    refine ⟨{ r with before := k.steps }, ?_, rfl, ?_⟩
    · exact ⟨hlengths.trans hlength, h.size_body, h.isInline, h.running⟩
    · rw [hkept, hplace]
      rfl

theorem IsOpen.ends_at (h : r.IsOpen index size) (hstate : r.state ≠ .complete) (dt : Float32)
    (ctx : C) (generator : Generator) :
    ∃ left : Row A C N, left.Ends index size
      (cascade false dt 0 r.nested index ctx generator)
      (cascade false dt 0 r.spliced (r.cursor index) ctx generator) := by
  have hlength := h.length_before
  have hsame : r.cursor index = r.before.length + r.offset := by
    rw [Row.cursor, if_neg (by omega), if_pos hlength.symm]
  obtain ⟨left, hleft, hkeeps, hsteps, hspliced⟩ := h.cascade_host hstate hlength dt ctx generator
  have hnested := cascade_append_length dt 0 r.before (r.host :: r.after) 0 ctx generator
  rw [Nat.add_zero, Nat.zero_add, hlength] at hnested
  rw [hsame, Row.nested, Row.spliced, cascade_append_length, Nat.zero_add, hlength, hspliced,
    hnested]
  refine ⟨left, hleft, ?_, ?_⟩
  · simp [hsteps, Row.nested, hkeeps]
  · simp [Row.spliced, hkeeps]

theorem IsOpen.ends_of_gt (h : r.IsOpen index size) (d : Nat) (dt : Float32) (ctx : C)
    (generator : Generator) :
    ∃ left : Row A C N, left.Ends index size
      (cascade false dt 0 r.nested (index + (d + 1)) ctx generator)
      (cascade false dt 0 r.spliced (r.cursor (index + (d + 1))) ctx generator) := by
  have hlength := h.length_before
  have hbehind := exists_step_of_mem_cascade_zero dt r.after d ctx generator
  have hlater (distance : Nat) := cascade_shift dt r.after 0 distance d ctx generator
  have hinside : (r.before ++ r.inside).length = index + size := by
    rw [List.length_append, length_inside, h.size_body, hlength]
  have hsame : r.cursor (index + (d + 1)) = (r.before ++ r.inside).length + d := by
    rw [Row.cursor, if_neg (by omega), if_neg (by omega), h.size_body, hinside]
    omega
  have hnested : cascade false dt 0 r.nested (index + (d + 1)) ctx generator = _ :=
    hlength ▸ cascade_append_length dt 0 r.before (r.host :: r.after) (d + 1) ctx generator
  rw [hsame, Row.spliced, ← List.append_assoc, cascade_append_length, hinside, hnested,
    cascade_cons_succ, Nat.add_assoc, hlater, hlater]
  generalize cascade false dt 0 r.after d ctx generator = k at *
  have hplace : Row.cursor { r with after := k.steps } (k.cursor + (index + 1)) =
      k.cursor + (index + size) := by
    simp only [Row.cursor, hlength, h.size_body]
    rw [if_neg (by omega), if_neg (by omega)]
    omega
  refine ⟨{ r with after := k.steps }, ⟨h.length_before, h.size_body, h.isInline, h.running⟩, ?_,
    ?_⟩
  · simp [Cascade.shift, Cascade.behind, Row.nested, host]
  · simp [Cascade.shift, Cascade.behind, Row.spliced, inside, hplace, Trace.splice_behind hbehind]

/-- Cascades through the two forms of a row end in the two forms of a row, provided that the state
of the host suits the cursor. -/
theorem IsOpen.exists_ends (h : r.IsOpen index size) {cursor : Nat}
    (hbefore : cursor < index → r.state = .notStarted)
    (hat : cursor = index → r.state ≠ .complete) (dt : Float32) (ctx : C) (generator : Generator) :
    ∃ left : Row A C N, left.Ends index size
      (cascade false dt 0 r.nested cursor ctx generator)
      (cascade false dt 0 r.spliced (r.cursor cursor) ctx generator) := by
  rcases Nat.lt_trichotomy cursor index with hlt | rfl | hgt
  · exact h.ends_of_lt hlt (hbefore hlt) dt ctx generator
  · exact h.ends_at (hat rfl) dt ctx generator
  · obtain ⟨d, rfl⟩ := Nat.exists_eq_add_of_lt hgt
    exact h.ends_of_gt d dt ctx generator

end Ticks

end Row

end Sequencer

import Mathlib.Data.List.Forall2
import Sequencer.Proofs.Consistency

/-!
# Contracts of steps

A contract of a step says what the step needs of the context to be entered, what it promises when
it has finished, and what holds while it is active. Steps whose contracts fit together make a
sequence that never fails: wherever it stands, the contract of the step at its cursor says what the
context is like. Contracts of branches and of groups come from those of what they hold.
-/

namespace Sequencer

variable {A C N : Type}

/-- What is agreed on for a step. -/
structure Contract (A C N : Type) where
  /-- What the context is like whenever the step is entered. -/
  needs : C → Prop
  /-- What the context is like when the step has finished. -/
  gives : C → Prop
  /-- What the step may hold at any time. -/
  holds : StepKind A C N → Prop
  /-- What the step may hold while it is active, in what context. -/
  busy : StepKind A C N → C → Prop

def Contract.anything (_ : C) : Prop := True

/-- A bound on what happens to the context. -/
structure IsEffect (R : C → C → Prop) : Prop where
  refl : ∀ ctx, R ctx ctx
  trans : ∀ {ctx ctx' ctx'' : C}, R ctx ctx' → R ctx' ctx'' → R ctx ctx''

theorem isEffect_true : IsEffect fun (_ _ : C) => True :=
  ⟨fun _ => trivial, fun _ _ => trivial⟩

namespace Contract

def Ready (c : Contract A C N) (s : Step A C N) (ctx : C) : Prop :=
  s.state = .notStarted ∧ c.holds s.kind ∧ c.needs ctx ∨ s.state = .active ∧ c.busy s.kind ctx

/-- Whether a tick, in the context `ctx`, is as agreed. -/
def Meets (c : Contract A C N) (R : C → C → Prop) (ctx : C) (t : StepTick A C N) : Prop :=
  R ctx t.context ∧
    (t.result = .ok true ∧ t.step.state = .complete ∧ c.holds t.step.kind ∧ c.gives t.context ∨
      t.result = .ok false ∧ t.step.state = .active ∧ c.busy t.step.kind t.context)

/-- Whether a contract survives a change of the context. -/
structure Survives (c : Contract A C N) (R : C → C → Prop) : Prop where
  needs : ∀ {ctx ctx'}, R ctx ctx' → c.needs ctx → c.needs ctx'
  busy : ∀ {kind ctx ctx'}, R ctx ctx' → c.busy kind ctx → c.busy kind ctx'

theorem Survives.mono {c : Contract A C N} {R Q : C → C → Prop} (h : c.Survives R)
    (hQR : ∀ {ctx ctx'}, Q ctx ctx' → R ctx ctx') : c.Survives Q :=
  ⟨fun hQ => h.needs (hQR hQ), fun hQ => h.busy (hQR hQ)⟩

structure IsFree (c : Contract A C N) : Prop where
  needs : ∀ ctx, c.needs ctx
  change : c.Survives fun _ _ => True

theorem IsFree.survives {c : Contract A C N} (h : c.IsFree) (R : C → C → Prop) : c.Survives R :=
  h.change.mono fun _ => trivial

/-- Whether all steps that are entered as agreed go on as agreed, with effects within `R`. -/
structure Kept [Behavior A C N] (c : Contract A C N) (R : C → C → Prop) : Prop where
  holds : ∀ {kind ctx}, c.busy kind ctx → c.holds kind
  enter : ∀ {kind ctx}, c.holds kind → c.needs ctx → ∀ generator,
    let entered := (Step.ofKind kind).activate ctx generator
    entered.result = .ok () ∧ R ctx entered.context ∧ c.busy entered.step.kind entered.context
  drive : ∀ {kind ctx}, c.busy kind ctx → ∀ dt generator,
    c.Meets R ctx (StepKind.tick false dt kind ctx generator)

theorem meets_ofDriven {c : Contract A C N} {R : C → C → Prop} {ctx ctx' : C}
    {kind : StepKind A C N} {result : Except TickError Bool} (heffect : R ctx ctx')
    (h : result = .ok true ∧ c.holds kind ∧ c.gives ctx' ∨ result = .ok false ∧ c.busy kind ctx')
    (shape : StepShape) (trace : Trace N) (generator : Generator) :
    c.Meets R ctx (.ofDriven shape trace ctx' generator kind result) := by
  rcases h with ⟨rfl, hk, hg⟩ | ⟨rfl, hb⟩
  · exact ⟨heffect, .inl ⟨rfl, rfl, hk, hg⟩⟩
  · exact ⟨heffect, .inr ⟨rfl, rfl, hb⟩⟩

theorem Ready.of_survives {c : Contract A C N} {R : C → C → Prop} (hc : c.Survives R)
    {s : Step A C N} {ctx ctx' : C} (h : c.Ready s ctx) (hR : R ctx ctx') : c.Ready s ctx' := by
  rcases h with ⟨hs, hk, hn⟩ | ⟨hs, hb⟩
  · exact .inl ⟨hs, hk, hc.needs hR hn⟩
  · exact .inr ⟨hs, hc.busy hR hb⟩

section Steps

variable [Behavior A C N] {c : Contract A C N} {R : C → C → Prop}

theorem Ready.holds {s : Step A C N} {ctx : C} (h : c.Ready s ctx) (hc : c.Kept R) :
    c.holds s.kind := by
  rcases h with ⟨_, hk, _⟩ | ⟨_, hb⟩
  · exact hk
  · exact hc.holds hb

theorem Kept.tick (hc : c.Kept R) (hR : IsEffect R) {s : Step A C N} {ctx : C} (h : c.Ready s ctx)
    (dt : Float32) (generator : Generator) :
    c.Meets R ctx (Step.tick false dt s ctx generator) := by
  rcases h with ⟨hs, hk, hn⟩ | ⟨hs, hb⟩
  · obtain ⟨hr, heffect, hb⟩ := hc.enter hk hn generator
    have hfresh : Step.ofKind s.kind = s := by
      cases s
      cases hs
      rfl
    rw [hfresh] at hr heffect hb
    obtain ⟨heffect', hdriven⟩ := hc.drive hb dt (s.activate ctx generator).generator
    rw [Step.tick_of_entry hs hr]
    exact ⟨hR.trans heffect heffect', hdriven⟩
  · rw [Step.tick_of_active hs]
    exact hc.drive hb dt generator

theorem Kept.mono {Q : C → C → Prop} (hc : c.Kept Q) (hQR : ∀ {ctx ctx'}, Q ctx ctx' → R ctx ctx') :
    c.Kept R where
  holds := hc.holds
  enter hk hn generator :=
    have ⟨hr, heffect, hb⟩ := hc.enter hk hn generator
    ⟨hr, hQR heffect, hb⟩
  drive hb dt generator :=
    have ⟨heffect, hdriven⟩ := hc.drive hb dt generator
    ⟨hQR heffect, hdriven⟩

end Steps

/-- The contract of a step that leaves `P` as it is. -/
def carrying (P : C → Prop) (c : Contract A C N) : Contract A C N where
  needs ctx := c.needs ctx ∧ P ctx
  gives ctx := c.gives ctx ∧ P ctx
  holds := c.holds
  busy kind ctx := c.busy kind ctx ∧ P ctx

section Carrying

variable {c : Contract A C N} {R : C → C → Prop} {P : C → Prop}
  (hP : ∀ {ctx ctx'}, R ctx ctx' → P ctx → P ctx')

include hP

theorem Survives.carrying (h : c.Survives R) : (c.carrying P).Survives R :=
  ⟨fun hR hn => ⟨h.needs hR hn.1, hP hR hn.2⟩, fun hR hb => ⟨h.busy hR hb.1, hP hR hb.2⟩⟩

/-- What the effects of a step leave as it is can be added to its contract. -/
theorem Kept.carrying [Behavior A C N] (h : c.Kept R) : (c.carrying P).Kept R where
  holds hb := h.holds hb.1
  enter hk hn generator :=
    have ⟨hr, heffect, hb⟩ := h.enter hk hn.1 generator
    ⟨hr, heffect, hb, hP heffect hn.2⟩
  drive hb dt generator := by
    obtain ⟨heffect, hdriven⟩ := h.drive hb.1 dt generator
    have hafter := hP heffect hb.2
    refine ⟨heffect, ?_⟩
    rcases hdriven with ⟨hr, hs, hk, hg⟩ | ⟨hr, hs, hb⟩
    · exact .inl ⟨hr, hs, hk, hg, hafter⟩
    · exact .inr ⟨hr, hs, hb, hafter⟩

end Carrying

end Contract

section Rows

variable {α β : Type} {P : α → β → Prop} {as : List α} {bs : List β}

theorem exists_getElem?_of_forall₂ (h : List.Forall₂ P as bs) {i : Nat} {a : α}
    (ha : as[i]? = some a) : ∃ b, bs[i]? = some b ∧ P a b := by
  induction h generalizing i with
  | nil => cases ha
  | cons head tail ih =>
    cases i with
    | zero =>
      obtain rfl := Option.some.inj ha
      exact ⟨_, rfl, head⟩
    | succ i => exact ih ha

theorem forall₂_set (h : List.Forall₂ P as bs) {i : Nat} {a : α} (ha : as[i]? = some a) {b : β}
    (hb : P a b) : List.Forall₂ P as (bs.set i b) := by
  induction h generalizing i with
  | nil => exact .nil
  | cons head tail ih =>
    cases i with
    | zero =>
      obtain rfl := Option.some.inj ha
      exact .cons hb tail
    | succ i => exact .cons head (ih ha)

end Rows

namespace Contract

abbrev AllHold : List (Contract A C N) → List (Step A C N) → Prop :=
  List.Forall₂ fun c s => c.holds s.kind

abbrev AllRest : List (Contract A C N) → List (Step A C N) → Prop :=
  List.Forall₂ fun c s => s.state = .notStarted ∧ c.holds s.kind

/-- What the first of some steps in a row needs, or what is to hold behind the last. -/
def entry (gives : C → Prop) : List (Contract A C N) → C → Prop
  | [] => gives
  | c :: _ => c.needs

/-- Whether every step in a row gives what the next one needs. -/
def Fit (gives : C → Prop) : List (Contract A C N) → Prop
  | [] => True
  | c :: cs => (∀ ctx, c.gives ctx → entry gives cs ctx) ∧ Fit gives cs

end Contract

open Contract

theorem Contract.allHold_map_reset {cs : List (Contract A C N)} {ss : List (Step A C N)} :
    AllHold cs (ss.map Step.reset) ↔ AllHold cs ss :=
  List.forall₂_map_right_iff

theorem Contract.AllHold.reset {cs : List (Contract A C N)} {ss : List (Step A C N)}
    (h : AllHold cs ss) : AllRest cs (ss.map Step.reset) :=
  List.forall₂_map_right_iff.mpr (h.imp fun _ _ hk => ⟨rfl, hk⟩)

/-- Whether steps in a row are as agreed where a sequence stands at a cursor: the step there is
ready, those before it are complete, and those behind it are still to be entered. -/
inductive Course (gives : C → Prop) (ctx : C) :
    List (Contract A C N) → List (Step A C N) → Nat → Prop
  | done (h : gives ctx) : Course gives ctx [] [] 0
  | here {c cs s ss} (h : c.Ready s ctx) (later : AllRest cs ss) :
      Course gives ctx (c :: cs) (s :: ss) 0
  | passed {c cs s ss n} (hs : s.state = .complete) (hk : c.holds s.kind)
      (later : Course gives ctx cs ss n) : Course gives ctx (c :: cs) (s :: ss) (n + 1)

namespace Course

variable {gives : C → Prop} {ctx ctx' : C} {cs : List (Contract A C N)} {ss : List (Step A C N)}
  {n : Nat} {R : C → C → Prop}

theorem start (h : AllRest cs ss) (hn : entry gives cs ctx) : Course gives ctx cs ss 0 := by
  cases h with
  | nil => exact .done hn
  | cons head tail => exact .here (.inl ⟨head.1, head.2, hn⟩) tail

theorem of_survives (h : Course gives ctx cs ss n) (hc : ∀ c ∈ cs, c.Survives R)
    (hg : gives ctx → gives ctx') (hR : R ctx ctx') : Course gives ctx' cs ss n := by
  induction h with
  | done h => exact .done (hg h)
  | here h later => exact .here (h.of_survives (hc _ List.mem_cons_self) hR) later
  | passed hs hk later ih =>
    exact .passed hs hk (ih fun c hm => hc c (List.mem_cons_of_mem _ hm))

theorem gives_of_length (h : Course gives ctx cs ss n) (hn : n = cs.length) : gives ctx := by
  induction h with
  | done h => exact h
  | here h later => cases hn
  | passed hs hk later ih => exact ih (Nat.succ.inj hn)

theorem le_length (h : Course gives ctx cs ss n) : n ≤ ss.length := by
  induction h with
  | done h => exact Nat.le_refl 0
  | here h later => exact Nat.zero_le _
  | passed hs hk later ih => exact Nat.succ_le_succ ih

theorem always {P : C → Prop} (h : Course gives ctx cs ss n)
    (hneeds : ∀ c ∈ cs, c.needs ctx → P ctx)
    (hbusy : ∀ c ∈ cs, ∀ kind, c.busy kind ctx → P ctx) (hgives : gives ctx → P ctx) : P ctx := by
  induction h with
  | done h => exact hgives h
  | here h later =>
    rcases h with ⟨-, -, hn⟩ | ⟨-, hb⟩
    · exact hneeds _ List.mem_cons_self hn
    · exact hbusy _ List.mem_cons_self _ hb
  | passed _ _ later ih =>
    exact ih (fun c hm => hneeds c (List.mem_cons_of_mem _ hm))
      fun c hm => hbusy c (List.mem_cons_of_mem _ hm)

theorem busy_of_active (h : Course gives ctx cs ss n) {i : Nat} {c : Contract A C N}
    {s : Step A C N} (hc : cs[i]? = some c) (hs : ss[i]? = some s) (ha : s.state = .active) :
    c.busy s.kind ctx := by
  induction h generalizing i with
  | done h => cases hs
  | here h later =>
    cases i with
    | zero =>
      obtain rfl := Option.some.inj hc
      obtain rfl := Option.some.inj hs
      rcases h with ⟨hn, -, -⟩ | ⟨-, hb⟩
      · cases ha.symm.trans hn
      · exact hb
    | succ i =>
      obtain ⟨s', hs', hn, -⟩ := exists_getElem?_of_forall₂ later hc
      obtain rfl := Option.some.inj (hs'.symm.trans hs)
      cases ha.symm.trans hn
  | passed hcomplete _ later ih =>
    cases i with
    | zero =>
      obtain rfl := Option.some.inj hs
      cases ha.symm.trans hcomplete
    | succ i => exact ih hc hs

variable [Behavior A C N]

theorem allHold (h : Course gives ctx cs ss n) (hc : ∀ c ∈ cs, c.Kept R) : AllHold cs ss := by
  induction h with
  | done h => exact .nil
  | here h later =>
    exact .cons (h.holds (hc _ List.mem_cons_self)) (later.imp fun _ _ hr => hr.2)
  | passed hs hk later ih => exact .cons hk (ih fun c hm => hc c (List.mem_cons_of_mem _ hm))

/-- A cascade keeps steps on their course, and it does not fail. -/
theorem cascade (hR : IsEffect R) (hc : ∀ c ∈ cs, c.Kept R) (hfit : Fit gives cs)
    (h : Course gives ctx cs ss n) (dt : Float32) (index : Nat) (generator : Generator) :
    let k := Sequencer.cascade false dt index ss n ctx generator
    R ctx k.context ∧ ∃ place, k.cursor = index + place ∧ Course gives k.context cs k.steps place ∧
      (k.result = .ok false ∨ k.result = .ok true ∧ place = cs.length) := by
  induction cs generalizing ctx ss n index generator with
  | nil =>
    cases h with
    | done h => exact ⟨hR.refl ctx, 0, rfl, .done h, .inr ⟨rfl, rfl⟩⟩
  | cons c cs ih =>
    have hc' : ∀ c ∈ cs, c.Kept R := fun c hm => hc c (List.mem_cons_of_mem _ hm)
    cases h with
    | @here _ _ s ss hready later =>
      obtain ⟨heffect, hmeets⟩ := (hc c List.mem_cons_self).tick hR hready dt generator
      rw [cascade_cons_zero]
      generalize Step.tick false dt s ctx generator = t at heffect hmeets
      obtain ⟨trace, context, generator', step, result⟩ := t
      rcases hmeets with ⟨rfl, hs, hk, hg⟩ | ⟨rfl, hs, hb⟩
      -- the next step is entered in the same tick, and what it needs was just given
      · obtain ⟨heffect', place, hplace, hcourse, hresult⟩ :=
          ih hc' hfit.2 (.start later (hfit.1 _ hg)) (index + 1) generator'
        refine ⟨hR.trans heffect heffect', place + 1, ?_, .passed hs hk hcourse, ?_⟩
        · exact hplace.trans (Nat.add_right_comm index 1 place)
        · exact hresult.imp id fun hr => ⟨hr.1, congrArg (· + 1) hr.2⟩
      · exact ⟨heffect, 0, rfl, .here (.inr ⟨hs, hb⟩) later, .inl rfl⟩
    | passed hs hk later =>
      obtain ⟨heffect, place, hplace, hcourse, hresult⟩ :=
        ih hc' hfit.2 later (index + 1) generator
      refine ⟨heffect, place + 1, ?_, .passed hs hk hcourse, ?_⟩
      · exact hplace.trans (Nat.add_right_comm index 1 place)
      · exact hresult.imp id fun hr => ⟨hr.1, congrArg (· + 1) hr.2⟩

end Course

section Sequences

variable [Behavior A C N] {R Q : C → C → Prop}

/-- Whether a sequence never fails, whatever its owner does, and all its effects are within `R`. -/
def Sequence.Harmless (R : C → C → Prop) (s : Sequence A C N) : Prop :=
  ∀ (commands : List (Command C)) (dt : Float32) (ctx : C),
    let ticked := (s.after commands).advance dt ctx
    (∃ outcome, ticked.result = .ok outcome) ∧ R ctx ticked.context

theorem Sequence.Harmless.obey {s : Sequence A C N} (h : s.Harmless R) (c : Command C) :
    (s.obey c).Harmless R :=
  fun commands => h (c :: commands)

theorem harmless_advanceAll (hR : IsEffect R) (dt : Float32) (hop : Nat → Hop) (index : Nat)
    {members : List (Sequence A C N)} (h : ∀ m ∈ members, m.Harmless R) (ctx : C) :
    let round := advanceAll false dt hop index members ctx
    (∃ n, round.result = .ok n) ∧ R ctx round.context ∧ ∀ m ∈ round.members, m.Harmless R := by
  induction members generalizing index ctx with
  | nil => exact ⟨⟨0, rfl⟩, hR.refl ctx, h⟩
  | cons first rest ih =>
    have hfirst := h first List.mem_cons_self
    obtain ⟨⟨outcome, ho⟩, heffect⟩ := hfirst [] dt ctx
    change (first.advance dt ctx).result = .ok outcome at ho
    obtain ⟨⟨n, hn⟩, heffect', hmembers⟩ := ih (index + 1)
      (fun m hm => h m (List.mem_cons_of_mem _ hm)) (first.advance dt ctx).context
    simp only [advanceAll_cons, Advance.andThen, ho, hn]
    refine ⟨⟨_, rfl⟩, hR.trans heffect heffect', ?_⟩
    intro m hm
    rcases List.mem_cons.mp hm with rfl | hm
    · exact hfirst.obey (.advance dt ctx)
    · exact hmembers m hm

/-! ### Sequences under contracts -/

/-- Whether contracts in a row fit together, and are kept with effects within `R`. What is given in
the end is what is needed at the beginning. -/
structure Agreed (R : C → C → Prop) (gives : C → Prop) (cs : List (Contract A C N)) : Prop where
  effect : IsEffect R
  kept : ∀ c ∈ cs, c.Kept R
  fit : Fit gives cs
  again : ∀ ctx, gives ctx → entry gives cs ctx

/-- Whether a sequence stands where its contracts let it be in a context. It repeats without end or
not at all, and its companions do nothing outside `Q`. -/
structure Sequence.Follows (s : Sequence A C N) (Q : C → C → Prop) (gives : C → Prop)
    (cs : List (Contract A C N)) (ctx : C) : Prop where
  course : Course gives ctx cs s.begun.steps s.begun.cursor
  policy : s.policy = .once ∨ s.policy = .forever
  companions : ∀ c ∈ s.companions, c.Harmless Q

namespace Sequence

variable {gives : C → Prop} {cs : List (Contract A C N)} {s : Sequence A C N} {ctx : C}

theorem Follows.of_course (hs : s.status ≠ .notStarted)
    (hcourse : Course gives ctx cs s.steps s.cursor)
    (hpolicy : s.policy = .once ∨ s.policy = .forever)
    (hcompanions : ∀ c ∈ s.companions, c.Harmless Q) : s.Follows Q gives cs ctx :=
  ⟨by rwa [begun_of_ne hs], hpolicy, hcompanions⟩

theorem Follows.of_notStarted (hs : s.status = .notStarted) (hsteps : AllHold cs s.steps)
    (hentry : entry gives cs ctx) (hpolicy : s.policy = .once ∨ s.policy = .forever)
    (hcompanions : ∀ c ∈ s.companions, c.Harmless Q) : s.Follows Q gives cs ctx := by
  refine ⟨?_, hpolicy, hcompanions⟩
  have hstart := Course.start hsteps.reset hentry
  simpa [Sequence.begun, hs, Sequence.cursor, Progress.initial] using hstart

theorem Follows.course_of_ne (h : s.Follows Q gives cs ctx) (hs : s.status ≠ .notStarted) :
    Course gives ctx cs s.steps s.cursor := by
  have hc := h.course
  rwa [begun_of_ne hs] at hc

theorem harmless_companions_reset (h : ∀ c ∈ s.companions, c.Harmless Q) :
    ∀ c ∈ s.reset.companions, c.Harmless Q := by
  intro c hc
  rw [companions_reset] at hc
  obtain ⟨c', hc', rfl⟩ := List.mem_map.mp hc
  exact (h c' hc').obey .reset

theorem harmless_companions_begun (h : ∀ c ∈ s.companions, c.Harmless Q) :
    ∀ c ∈ s.begun.companions, c.Harmless Q := by
  unfold Sequence.begun
  split
  · exact harmless_companions_reset h
  · exact h

theorem Follows.begun (h : s.Follows Q gives cs ctx) : s.begun.Follows Q gives cs ctx := by
  refine .of_course s.begun_status_ne h.course ?_ (harmless_companions_begun h.companions)
  rw [policy_begun]
  exact h.policy

/-- What the part of a tick that drives a sequence comes to, in the context `ctx`, if it is as
agreed. -/
def Follows.Onward (Q R : C → C → Prop) (gives : C → Prop) (cs : List (Contract A C N)) (ctx : C)
    (a : Advance A C N) : Prop :=
  (∃ outcome, a.result = .ok outcome) ∧ R ctx a.context ∧ a.sequence.Follows Q gives cs a.context

theorem Follows.wrap (h : s.Follows Q gives cs ctx) (hA : Agreed R gives cs)
    (hs : s.status ≠ .notStarted) (hg : gives ctx) :
    Follows.Onward Q R gives cs ctx (s.wrap ctx) := by
  have hrest := ((h.course_of_ne hs).allHold hA.kept).reset
  cases hsteps : s.steps with
  | nil =>
    rw [hsteps] at hrest
    rw [wrap_of_nil hsteps]
    refine ⟨⟨_, rfl⟩, hA.effect.refl ctx, .of_course hs ?_ h.policy h.companions⟩
    have hstart := Course.start hrest (hA.again ctx hg)
    rwa [← hsteps] at hstart
  | cons first rest =>
    rw [hsteps] at hrest
    rw [wrap_of_cons hsteps]
    cases hrest with
    | @cons c _ cs _ hfirst hlater =>
      have hkept := hA.kept c List.mem_cons_self
      obtain ⟨hr, heffect, hb⟩ := hkept.enter hfirst.2 (hA.again ctx hg) s.generator
      have hactive := Step.state_activate_of_ok _ hr
      refine ⟨⟨.running, ?_⟩, heffect, .of_course hs ?_ h.policy h.companions⟩
      · exact congrArg (Except.map fun () => Outcome.running) hr
      · exact .here (.inr ⟨hactive, hb⟩) hlater

theorem Follows.finishPass (h : s.Follows Q gives cs ctx) (hA : Agreed R gives cs)
    (hs : s.status ≠ .notStarted) (hend : s.cursor = cs.length) :
    Follows.Onward Q R gives cs ctx (s.finishPass ctx) := by
  have hcourse := h.course_of_ne hs
  rcases h.policy with hp | hp
  · have ha : (s.verdict ctx).answer = .ok false := by
      rw [verdict, hp]
      rfl
    rw [finishPass_of_over ha]
    refine ⟨⟨_, rfl⟩, hA.effect.refl ctx, .of_course Status.noConfusion ?_ h.policy h.companions⟩
    exact hcourse
  · have ha : (s.verdict ctx).answer = .ok true := by
      rw [verdict, hp]
      rfl
    rw [finishPass_of_again ha]
    exact h.wrap hA hs (hcourse.gives_of_length hend)

theorem Follows.resume (h : s.Follows Q gives cs ctx) (hA : Agreed R gives cs)
    (hs : s.status ≠ .notStarted) (dt : Float32) :
    Follows.Onward Q R gives cs ctx (s.resume dt ctx) := by
  by_cases hc : s.status = .complete
  · rw [resume_of_complete hc]
    exact ⟨⟨_, rfl⟩, hA.effect.refl ctx, h⟩
  · obtain ⟨heffect, place, hplace, hcourse, hresult⟩ :=
      (h.course_of_ne hs).cascade hA.effect hA.kept hA.fit dt 0 s.generator
    change R ctx (s.walk dt ctx).context at heffect
    change (s.walk dt ctx).cursor = 0 + place at hplace
    rw [Nat.zero_add] at hplace
    rw [← hplace] at hcourse hresult
    have hstopped : (s.stopped (s.walk dt ctx)).Follows Q gives cs (s.walk dt ctx).context :=
      .of_course hs hcourse h.policy h.companions
    rcases hresult with hr | ⟨hr, hend⟩
    · rw [resume_of_held hc hr]
      exact ⟨⟨_, rfl⟩, heffect, .of_course hs hcourse h.policy h.companions⟩
    · rw [resume_of_passed hc hr]
      obtain ⟨ho, heffect', hnext⟩ := hstopped.finishPass hA hs hend
      exact ⟨ho, hA.effect.trans heffect heffect', hnext⟩

/-- A sequence that stands where its contracts let it be does not fail, and still does so after a
tick. -/
theorem Follows.advance (h : s.Follows Q gives cs ctx) (hA : Agreed R gives cs) (hQ : IsEffect Q)
    (hQR : ∀ {ctx ctx'}, Q ctx ctx' → R ctx ctx') (hsurvives : ∀ c ∈ cs, c.Survives Q)
    (hgives : ∀ {ctx ctx'}, Q ctx ctx' → gives ctx → gives ctx') (dt : Float32) :
    Follows.Onward Q R gives cs ctx (s.advance dt ctx) := by
  obtain ⟨⟨outcome, ho⟩, heffect, hbody⟩ := h.begun.resume hA s.begun_status_ne dt
  -- the companions come after the steps, which have to be ready for what they do
  obtain ⟨⟨n, hn⟩, hround, hcompanions⟩ := harmless_advanceAll hQ dt .companion 0
    h.begun.companions (s.begun.resume dt ctx).context
  have hs := status_resume_ne s.begun_status_ne dt ctx
  rw [advance_of_ok ho]
  refine ⟨⟨outcome, ?_⟩, hA.effect.trans heffect (hQR hround), .of_course hs ?_ ?_ hcompanions⟩
  · exact congrArg (Except.map fun _ => outcome) hn
  · exact (hbody.course_of_ne hs).of_survives hsurvives (hgives hround) hround
  · exact hbody.policy

/-- A change of the context leaves a sequence on its course if its contracts survive it. -/
theorem Follows.of_survives {S : C → C → Prop} {ctx' : C} (h : s.Follows Q gives cs ctx)
    (hsurvives : ∀ c ∈ cs, c.Survives S) (hgives : gives ctx → gives ctx') (hS : S ctx ctx') :
    s.Follows Q gives cs ctx' :=
  ⟨h.course.of_survives hsurvives hgives hS, h.policy, h.companions⟩

theorem Follows.allHold (h : s.Follows Q gives cs ctx) (hc : ∀ c ∈ cs, c.Kept R) :
    AllHold cs s.steps := by
  have hall := h.course.allHold hc
  unfold Sequence.begun at hall
  split at hall
  · rw [steps_reset] at hall
    exact allHold_map_reset.mp hall
  · exact hall

section Free

variable (hR : IsEffect R) (hkept : ∀ c ∈ cs, c.Kept R) (hfree : ∀ c ∈ cs, c.IsFree)

include hfree

omit [Behavior A C N] in
theorem entry_of_isFree (ctx : C) : entry anything cs ctx := by
  cases cs with
  | nil => trivial
  | cons c cs => exact (hfree c List.mem_cons_self).needs ctx

omit [Behavior A C N] in
theorem fit_of_isFree : Fit anything cs := by
  induction cs with
  | nil => trivial
  | cons c cs ih =>
    have hlater : ∀ c ∈ cs, c.IsFree := fun c hc => hfree c (List.mem_cons_of_mem _ hc)
    exact ⟨fun ctx _ => entry_of_isFree hlater ctx, ih hlater⟩

include hR hkept

theorem Follows.advance_of_isFree (h : s.Follows R anything cs ctx) (dt : Float32)
    (ctx' : C) : Follows.Onward R R anything cs ctx' (s.advance dt ctx') := by
  have hA : Agreed R anything cs :=
    ⟨hR, hkept, fit_of_isFree hfree, fun ctx _ => entry_of_isFree hfree ctx⟩
  have hsurvives (S : C → C → Prop) : ∀ c ∈ cs, c.Survives S := fun c hc => (hfree c hc).survives S
  have hhere : s.Follows R anything cs ctx' :=
    h.of_survives (hsurvives fun _ _ => True) (fun _ => trivial) trivial
  exact hhere.advance hA hR (fun hQ => hQ) (hsurvives R) (fun _ => fun _ => trivial) dt

omit hR in
theorem Follows.reset_of_isFree (h : s.Follows R anything cs ctx) :
    s.reset.Follows R anything cs ctx := by
  have hsteps : AllHold cs s.reset.steps := by
    rw [steps_reset]
    exact allHold_map_reset.mpr (h.allHold hkept)
  exact .of_notStarted s.status_reset hsteps (entry_of_isFree hfree ctx) (by simpa using h.policy)
    (harmless_companions_reset h.companions)

theorem Follows.harmless (h : s.Follows R anything cs ctx) : s.Harmless R := by
  intro commands
  induction commands generalizing s ctx with
  | nil =>
    intro dt ctx'
    obtain ⟨ho, heffect, -⟩ := h.advance_of_isFree hR hkept hfree dt ctx'
    exact ⟨ho, heffect⟩
  | cons command later ih =>
    cases command with
    | advance dt ctx' => exact ih (h.advance_of_isFree hR hkept hfree dt ctx').2.2
    | reset => exact ih (h.reset_of_isFree hkept hfree)

theorem harmless_of_notStarted (hs : s.status = .notStarted) (hsteps : AllHold cs s.steps)
    (hpolicy : s.policy = .once ∨ s.policy = .forever)
    (hcompanions : ∀ c ∈ s.companions, c.Harmless R) : s.Harmless R := by
  intro commands dt ctx
  have h : s.Follows R anything cs ctx :=
    .of_notStarted hs hsteps (entry_of_isFree hfree ctx) hpolicy hcompanions
  exact h.harmless hR hkept hfree commands dt ctx

end Free

/-! ### A single pass under contracts -/

/-- Whether a sequence is on the single pass that its contracts describe. What is given in the end
need not be what is needed at the beginning. -/
structure Passes (s : Sequence A C N) (gives : C → Prop) (cs : List (Contract A C N)) (ctx : C) :
    Prop where
  course : Course gives ctx cs s.begun.steps s.begun.cursor
  policy : s.policy = .once
  companions : s.companions = []
  ended : s.status = .complete → s.cursor = cs.length

namespace Passes

omit [Behavior A C N] in
theorem of_reset (hsteps : AllHold cs s.steps) (hentry : entry gives cs ctx)
    (hpolicy : s.policy = .once) (hcompanions : s.companions = []) :
    s.reset.Passes gives cs ctx where
  course := by
    have hrest : AllHold cs s.reset.steps := by rwa [steps_reset, allHold_map_reset]
    have hstart := Course.start hrest.reset hentry
    simpa [Sequence.begun, Sequence.cursor, Progress.initial] using hstart
  policy := by simpa using hpolicy
  companions := by simpa using hcompanions
  ended h := by simp at h

theorem allHold (h : s.Passes gives cs ctx) (hc : ∀ c ∈ cs, c.Kept R) : AllHold cs s.steps :=
  Follows.allHold (Q := R) ⟨h.course, .inl h.policy, by simp [h.companions]⟩ hc

omit [Behavior A C N] in
theorem of_course (hs : s.status ≠ .notStarted) (hcourse : Course gives ctx cs s.steps s.cursor)
    (hpolicy : s.policy = .once) (hcompanions : s.companions = [])
    (hended : s.status = .complete → s.cursor = cs.length) : s.Passes gives cs ctx :=
  ⟨by rwa [begun_of_ne hs], hpolicy, hcompanions, hended⟩

omit [Behavior A C N] in
theorem of_survives {S : C → C → Prop} {ctx' : C} (h : s.Passes gives cs ctx)
    (hsurvives : ∀ c ∈ cs, c.Survives S) (hgives : gives ctx → gives ctx') (hS : S ctx ctx') :
    s.Passes gives cs ctx' :=
  ⟨h.course.of_survives hsurvives hgives hS, h.policy, h.companions, h.ended⟩

omit [Behavior A C N] in
theorem begun (h : s.Passes gives cs ctx) : s.begun.Passes gives cs ctx := by
  refine .of_course s.begun_status_ne h.course (s.policy_begun.trans h.policy)
    (companions_begun_of_nil h.companions) ?_
  unfold Sequence.begun
  split
  · exact fun hs => nomatch hs
  · exact h.ended

theorem resume (h : s.Passes gives cs ctx) (hs : s.status ≠ .notStarted) (hR : IsEffect R)
    (hkept : ∀ c ∈ cs, c.Kept R) (hfit : Fit gives cs) (dt : Float32) :
    let body := s.resume dt ctx
    R ctx body.context ∧ body.sequence.Passes gives cs body.context ∧
      ∃ outcome, body.result = .ok outcome ∧ (outcome = .complete → gives body.context) := by
  have hcourse := begun_of_ne hs ▸ h.course
  by_cases hc : s.status = .complete
  · rw [resume_of_complete hc]
    exact ⟨hR.refl ctx, h, _, rfl, fun _ => hcourse.gives_of_length (h.ended hc)⟩
  · obtain ⟨heffect, place, hplace, hcourse', hresult⟩ :=
      hcourse.cascade hR hkept hfit dt 0 s.generator
    change R ctx (s.walk dt ctx).context at heffect
    change (s.walk dt ctx).cursor = 0 + place at hplace
    rw [Nat.zero_add] at hplace
    rw [← hplace] at hcourse' hresult
    rcases hresult with hr | ⟨hr, hend⟩
    · rw [resume_of_held hc hr]
      have hpass := of_course (s := (s.stopped (s.walk dt ctx)).held) hs hcourse' h.policy
        h.companions fun hcomplete => absurd hcomplete hc
      exact ⟨heffect, hpass, _, rfl, fun ho => nomatch ho⟩
    · have ha : ((s.stopped (s.walk dt ctx)).verdict (s.walk dt ctx).context).answer =
          .ok false := by
        change (s.policy.again _ _).answer = _
        rw [h.policy]
        rfl
      rw [resume_of_passed hc hr, finishPass_of_over ha]
      have hpass := of_course (s := (s.stopped (s.walk dt ctx)).finished) Status.noConfusion
        hcourse' h.policy h.companions fun _ => hend
      exact ⟨heffect, hpass, _, rfl, fun _ => hcourse'.gives_of_length hend⟩

/-- A sequence on its single pass does not fail, and is still on it after a tick. What the pass
gives is there when the sequence says that it is complete. -/
theorem advance (h : s.Passes gives cs ctx) (hR : IsEffect R) (hkept : ∀ c ∈ cs, c.Kept R)
    (hfit : Fit gives cs) (dt : Float32) :
    let ticked := s.advance dt ctx
    R ctx ticked.context ∧ ticked.sequence.Passes gives cs ticked.context ∧
      ∃ outcome, ticked.result = .ok outcome ∧ (outcome = .complete → gives ticked.context) := by
  rw [advance_of_companions_nil h.companions]
  exact h.begun.resume s.begun_status_ne hR hkept hfit dt

end Passes

end Sequence

end Sequences

end Sequencer

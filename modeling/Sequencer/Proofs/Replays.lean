import Sequencer.Proofs.StandardContracts
import Sequencer.Proofs.TickDiscipline

/-!
# Replaying a trace

What a tick does to the context can be told entry by entry: a few of the entries of its trace stand
for a change, and the others for none. A relation says which changes an entry may stand for. Along
the contracts of steps, such a relation is put together from those of the parts.
-/

namespace Sequencer

variable {A C N : Type}

/-- Whether a context becomes another one along a trace, when each entry changes it as `M` says. -/
inductive Replays (M : Entry N → C → C → Prop) : C → Trace N → C → Prop
  | nil (ctx : C) : Replays M ctx [] ctx
  | cons {e : Entry N} {t : Trace N} {ctx ctx' ctx'' : C} (change : M e ctx ctx')
      (later : Replays M ctx' t ctx'') : Replays M ctx (e :: t) ctx''

def behind (hop : Hop) (M : Entry N → C → C → Prop) : Entry N → C → C → Prop :=
  fun e => M ⟨hop :: e.path, e.event⟩

namespace Replays

variable {M : Entry N → C → C → Prop} {t u : Trace N} {ctx ctx' ctx'' : C}

theorem append (h : Replays M ctx t ctx') (h' : Replays M ctx' u ctx'') :
    Replays M ctx (t ++ u) ctx'' := by
  induction h with
  | nil => exact h'
  | cons change _ ih => exact .cons change (ih h')

theorem under {hop : Hop} (h : Replays (behind hop M) ctx t ctx') :
    Replays M ctx (t.under hop) ctx' := by
  induction h with
  | nil => exact .nil _
  | cons change _ ih => exact .cons change ih

theorem still (h : ∀ e ∈ t, M e ctx ctx) : Replays M ctx t ctx := by
  induction t with
  | nil => exact .nil ctx
  | cons e t ih =>
    obtain ⟨he, ht⟩ := List.forall_mem_cons.mp h
    exact .cons he (ih ht)

theorem exists_of_mem (h : Replays M ctx t ctx') {e : Entry N} (he : e ∈ t) :
    ∃ before after, M e before after := by
  induction h with
  | nil => cases he
  | cons change _ ih =>
    rcases List.mem_cons.mp he with rfl | he
    · exact ⟨_, _, change⟩
    · exact ih he

end Replays

section Parts

variable {M : Entry N → C → C → Prop} {R : C → C → Prop}

theorem replays_ofDriven (hM : ∀ e ctx, M e ctx ctx) {trace : Trace N} {ctx ctx' : C}
    (h : Replays M ctx trace ctx') (shape : StepShape) (generator : Generator)
    (kind : StepKind A C N) (result : Except TickError Bool) :
    let t := StepTick.ofDriven shape trace ctx' generator kind result
    Replays M ctx t.trace t.context := by
  unfold StepTick.ofDriven
  split
  · exact h.append (.still fun e _ => hM e ctx')
  · exact h
  · exact h

/-- All that companions do is within `R`, and may be taken to happen when they are ticked. -/
theorem replays_advanceAll [Behavior A C N] (hR : IsEffect R) (dt : Float32) (hop : Nat → Hop)
    (hM : ∀ j place event ctx ctx', R ctx ctx' → M ⟨hop j :: place, event⟩ ctx ctx') (index : Nat)
    {members : List (Sequence A C N)} (h : ∀ m ∈ members, m.Harmless R) (ctx : C) :
    let round := advanceAll false dt hop index members ctx
    Replays M ctx round.trace round.context := by
  induction members generalizing index ctx with
  | nil => exact .nil ctx
  | cons first rest ih =>
    obtain ⟨⟨outcome, ho⟩, heffect⟩ := h first List.mem_cons_self [] dt ctx
    change (first.advance dt ctx).result = .ok outcome at ho
    change R ctx (first.advance dt ctx).context at heffect
    obtain ⟨beside, -, htrace, -⟩ := first.exists_beside dt ctx
    have hfirst : Replays M ctx ((first.advance dt ctx).trace.under (hop index))
        (first.advance dt ctx).context := by
      rw [htrace]
      refine .under (.cons (hM index [] .ticked _ _ heffect) (.still fun e _ => ?_))
      exact hM index e.path e.event _ _ (hR.refl _)
    have hrest := ih (index + 1) (fun m hm => h m (List.mem_cons_of_mem _ hm))
      (first.advance dt ctx).context
    simp only [advanceAll_cons, Advance.andThen, ho]
    exact hfirst.append hrest

end Parts

namespace Contract

/-- Whether every tick of a step under its contract can be replayed. -/
structure Tells [Behavior A C N] (c : Contract A C N) (M : Entry N → C → C → Prop) : Prop where
  enter : ∀ {kind ctx}, c.holds kind → c.needs ctx → ∀ generator,
    let entered := (Step.ofKind kind).activate ctx generator
    Replays M ctx entered.trace entered.context
  drive : ∀ {kind ctx}, c.busy kind ctx → ∀ dt generator,
    let driven := StepKind.tick false dt kind ctx generator
    Replays M ctx driven.trace driven.context

variable [Behavior A C N] {M : Entry N → C → C → Prop} {R : C → C → Prop} {c : Contract A C N}

theorem Tells.tick (h : c.Tells M) (hM : ∀ e ctx, M e ctx ctx) (hc : c.Kept R) {s : Step A C N}
    {ctx : C} (hs : c.Ready s ctx) (dt : Float32) (generator : Generator) :
    let t := Step.tick false dt s ctx generator
    Replays M ctx t.trace t.context := by
  rcases hs with ⟨hs, hk, hn⟩ | ⟨hs, hb⟩
  · obtain ⟨hr, -, hb⟩ := hc.enter hk hn generator
    have hentered := h.enter hk hn generator
    have hfresh : Step.ofKind s.kind = s := by
      cases s
      cases hs
      rfl
    rw [hfresh] at hr hb hentered
    rw [Step.tick_of_entry hs hr]
    exact .cons (hM _ ctx) (hentered.append (h.drive hb dt _))
  · rw [Step.tick_of_active hs]
    exact .cons (hM _ ctx) (h.drive hb dt generator)

theorem Tells.carrying (h : c.Tells M) (P : C → Prop) : (c.carrying P).Tells M :=
  ⟨fun hk hn => h.enter hk hn.1, fun hb => h.drive hb.1⟩

theorem tells_leaf (hM : ∀ e ctx, M e ctx ctx) {needs gives : C → Prop}
    {holds : Action A C N → Prop} {busy : Action A C N → C → Prop}
    (henter : ∀ action ctx, holds action → needs ctx →
      Replays M ctx (Trace.here (action.enter ctx).events) (action.enter ctx).context)
    (hdrive : ∀ action ctx, busy action ctx → ∀ dt,
      Replays M ctx (Trace.here (action.drive dt ctx).events) (action.drive dt ctx).context) :
    (leaf needs gives holds busy).Tells M where
  enter := by
    rintro kind ctx ⟨action, rfl, ha⟩ hn generator
    have hentered := henter action ctx ha hn
    simp only [Step.activate, Step.ofKind]
    split
    · exact hentered
    · exact hentered.append (.still fun e _ => hM e _)
  drive := by
    rintro kind ctx ⟨action, rfl, hb⟩ dt generator
    exact replays_ofDriven hM (hdrive action ctx hb dt) ..

theorem tells_waiting (hM : ∀ e ctx, M e ctx ctx) (P : C → Prop) :
    (waiting P : Contract A C N).Tells M := by
  apply tells_leaf hM
  · rintro action ctx ⟨w, rfl⟩ -
    exact .still fun e _ => hM e ctx
  · rintro action ctx ⟨⟨w, rfl⟩, -⟩ dt
    have hsame : (Action.drive (A := A) (N := N) (.wait w) dt ctx).context = ctx := by
      cases hover : (w.addTime dt).isOver <;>
        simp [Action.drive, Action.update, Action.check, Action.finish, hover]
    rw [hsame]
    exact .still fun e _ => hM e ctx

theorem tells_choosing (hM : ∀ e ctx, M e ctx ctx) {selector : Selector C N}
    {children : List (Contract A C N)} {needs gives : C → Prop}
    (hkept : ∀ c ∈ children, c.Kept R)
    (htells : ∀ i (c : Contract A C N), children[i]? = some c → c.Tells (behind (.child i) M)) :
    (choosing selector children needs gives).Tells M where
  enter := by
    rintro kind ctx ⟨ss, chosen, rfl, -⟩ - generator
    simp only [Step.activate, Step.ofKind]
    split <;> exact .still fun e _ => hM e ctx
  drive := by
    rintro kind ctx ⟨ss, chosen, rfl, -, hchosen⟩ dt generator
    simp only [StepKind.tick, StepTick.ofBranch, Bool.false_eq_true, if_false]
    cases chosen with
    | none => exact replays_ofDriven hM (.nil ctx) ..
    | some i =>
      obtain ⟨c, s, hc, hs, hready⟩ := hchosen
      have hchild := (htells i c hc).tick (fun e => hM _) (hkept c (List.mem_of_getElem? hc)) hready
        dt generator
      simp only [StepTick.ofChosen, tickChild_of_some hs]
      exact replays_ofDriven hM hchild.under ..

end Contract

open Contract

/-- A cascade can be replayed if its steps can. -/
theorem Course.replays [Behavior A C N] {M : Entry N → C → C → Prop} {R : C → C → Prop}
    {gives : C → Prop} {ctx : C} {cs : List (Contract A C N)} {ss : List (Step A C N)} {n : Nat}
    (hR : IsEffect R) (hkept : ∀ c ∈ cs, c.Kept R) (hfit : Fit gives cs) (index : Nat)
    (hM : ∀ i < cs.length, ∀ e ctx, behind (.step (index + i)) M e ctx ctx)
    (htells : ∀ i (c : Contract A C N), cs[i]? = some c → c.Tells (behind (.step (index + i)) M))
    (h : Course gives ctx cs ss n) (dt : Float32) (generator : Generator) :
    let k := Sequencer.cascade false dt index ss n ctx generator
    Replays M ctx k.trace k.context := by
  induction cs generalizing ctx ss n index generator with
  | nil =>
    cases h with
    | done h => exact .nil ctx
  | cons c cs ih =>
    have hkept' : ∀ c ∈ cs, c.Kept R := fun c hm => hkept c (List.mem_cons_of_mem _ hm)
    have hplace (i : Nat) : index + 1 + i = index + (i + 1) := by omega
    have hM' : ∀ i < cs.length, ∀ e ctx, behind (.step (index + 1 + i)) M e ctx ctx := by
      intro i hi
      rw [hplace]
      exact hM (i + 1) (Nat.succ_lt_succ hi)
    have htells' : ∀ i (c : Contract A C N), cs[i]? = some c →
        c.Tells (behind (.step (index + 1 + i)) M) := by
      intro i c hc
      rw [hplace]
      exact htells (i + 1) c hc
    cases h with
    | @here _ _ s ss hready later =>
      obtain ⟨heffect, hmeets⟩ := (hkept c List.mem_cons_self).tick hR hready dt generator
      have hfirst := (htells 0 c rfl).tick (hM 0 (Nat.succ_pos _)) (hkept c List.mem_cons_self)
        hready dt generator
      rw [cascade_cons_zero]
      generalize Step.tick false dt s ctx generator = t at heffect hmeets hfirst
      obtain ⟨trace, context, generator', step, result⟩ := t
      rcases hmeets with ⟨rfl, hs, hk, hg⟩ | ⟨rfl, hs, hb⟩
      · have hlater := ih hkept' hfit.2 (index + 1) hM' htells' (.start later (hfit.1 _ hg))
          generator'
        exact hfirst.under.append hlater
      · exact hfirst.under
    | passed hs hk later => exact ih hkept' hfit.2 (index + 1) hM' htells' later generator

end Sequencer

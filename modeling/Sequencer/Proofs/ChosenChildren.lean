import Sequencer.Proofs.CallMoves
import Sequencer.Proofs.Definitions
import Sequencer.Proofs.Selections
import Sequencer.Rehearsal

/-!
# The child that was chosen exists

A branch looks its chosen child up by index, and a missing child counts as finished, so an index out
of range would skip the step without a word. The functions that make branches leave no such index to
pick, and no selection or tick changes what there is to pick from. After any history of selections
and ticks a branch remembers what its latest selection that succeeded has picked: one of its
children, or none if the selector had nothing to pick.
-/

namespace Sequencer

variable {A C N : Type}

theorem Search.eq_otherwise {ctx : C} {otherwise picked : Option Nat} {index : Nat}
    {guards : List (Condition C N)} {events : List (Event N)}
    (h : Search ctx otherwise index guards events (.ok picked))
    (hfalse : ∀ guard ∈ guards, (guard.evaluate ctx).answer = .ok false) : picked = otherwise := by
  cases h with
  | @held before guard after hbefore h =>
    have hguard := hfalse guard (List.mem_append_right _ List.mem_cons_self)
    rw [h] at hguard
    cases hguard
  | noneHolds h => rfl

theorem Search.of_none {ctx : C} {otherwise : Option Nat} {index : Nat}
    {guards : List (Condition C N)} {events : List (Event N)}
    (h : Search ctx otherwise index guards events (.ok none)) :
    (∀ guard ∈ guards, (guard.evaluate ctx).answer = .ok false) ∧ otherwise = none := by
  cases h with
  | noneHolds h => exact ⟨h, rfl⟩

namespace Selector

/-- Whether there is nothing to pick: no guard holds and there is no fallback, or the chance
fails. -/
def PicksNothing (ctx : C) (generator : Generator) : Selector C N → Prop
  | guarded guards fallback =>
    (∀ guard ∈ guards, (guard.evaluate ctx).answer = .ok false) ∧ fallback = false
  | chance probability => (generator.chance probability).1 = false
  | uniform | weighted _ => False

def IsCertain : Selector C N → Prop
  | uniform | weighted _ => True
  | guarded .. | chance _ => False

theorem IsCertain.exists_picked {selector : Selector C N} (h : selector.IsCertain) (size : Nat)
    (ctx : C) (generator : Generator) :
    ∃ index, (selector.select size ctx generator).result = .ok (some index) := by
  cases selector with
  | uniform | weighted weights => exact ⟨_, rfl⟩
  | guarded guards fallback | chance probability => exact h.elim

/-- A decision comes to no child if and only if there is nothing to pick. -/
theorem Decides.eq_none_iff {selector : Selector C N} {size : Nat} {ctx : C}
    {generator : Generator} {events : List (Event N)} {picked : Option Nat}
    (h : selector.Decides size ctx generator events (.ok picked)) :
    picked = none ↔ selector.PicksNothing ctx generator := by
  cases h with
  | guarded fallback h =>
    constructor
    · rintro rfl
      obtain ⟨hfalse, hotherwise⟩ := h.of_none
      cases fallback with
      | false => exact ⟨hfalse, rfl⟩
      | true => cases hotherwise
    · rintro ⟨hfalse, rfl⟩
      exact h.eq_otherwise hfalse
  | uniform | weighted weights => exact ⟨fun hn => (nomatch hn), False.elim⟩
  | hit h => exact ⟨fun hn => (nomatch hn), fun hmissed => Bool.noConfusion (h.symm.trans hmissed)⟩
  | missed h => exact ⟨fun _ => h, fun _ => rfl⟩

theorem Decides.eq_fallback {guards : List (Condition C N)} {size : Nat} {ctx : C}
    {generator : Generator} {events : List (Event N)} {picked : Option Nat}
    (h : Decides size ctx generator (.guarded guards true) events (.ok picked))
    (hfalse : ∀ guard ∈ guards, (guard.evaluate ctx).answer = .ok false) :
    picked = some guards.length := by
  cases h with
  | guarded fallback h => exact h.eq_otherwise hfalse

end Selector

inductive BranchCall (C : Type)
  | select (ctx : C) (generator : Generator)
  | tick (dt : Float32) (ctx : C) (generator : Generator)

namespace Branch

/-- Whether a branch is as one of the functions that make branches has left it. -/
inductive IsMade : Branch A C N → Prop
  | guarded (arms : List (Condition C N × Step A C N)) (otherwise : Option (Step A C N)) :
      IsMade (Branch.guarded arms otherwise)
  | uniform {options : List (Step A C N)} {b : Branch A C N} (h : Branch.uniform options = .ok b) :
      IsMade b
  | weighted {options : List (Float × Step A C N)} {b : Branch A C N}
      (h : Branch.weighted options = .ok b) : IsMade b
  | chance {probability : Float} {step : Step A C N} {b : Branch A C N}
      (h : Branch.chance probability step = .ok b) : IsMade b

theorem IsMade.fits {b : Branch A C N} (h : b.IsMade) : b.Fits := by
  cases h with
  | guarded arms otherwise => exact fits_guarded arms otherwise
  | uniform h => exact fits_of_uniform h
  | weighted h => exact fits_of_weighted h
  | chance h => exact fits_of_chance h

theorem IsMade.chosen {b : Branch A C N} (h : b.IsMade) : b.chosen = none := by
  cases h with
  | guarded arms otherwise => rfl
  | uniform h => exact (Builder.uniform_eq_ok.mp h).2 ▸ rfl
  | weighted h => exact (Builder.weighted_eq_ok.mp h).2 ▸ rfl
  | chance h => exact (Builder.chance_eq_ok.mp h).2 ▸ rfl

variable {b b' : Branch A C N}

theorem Fits.getLast?_children (hfits : b.Fits) {guards : List (Condition C N)}
    (h : b.selector = .guarded guards true) : b.children.getLast? = b.children[guards.length]? := by
  have hsize := hfits.selector
  rw [h] at hsize
  rw [List.getLast?_eq_getElem?, ← hsize]
  rfl

theorem Fits.exists_chosenStep? (hfits : b.Fits) {index : Nat} (h : b.chosen = some index) :
    ∃ child, b.children[index]? = some child ∧ b.chosenStep? = some child := by
  have hchild := List.getElem?_eq_getElem (hfits.chosen index h)
  exact ⟨_, hchild, by rw [chosenStep?, h, Option.bind_some, hchild]⟩

/-- What a call picks, if it is a selection that succeeds. -/
def pick? (b : Branch A C N) : BranchCall C → Option (Option Nat)
  | .select ctx generator => (b.selector.select b.size ctx generator).result.toOption
  | .tick .. => none

theorem pick?_congr (hselector : b.selector = b'.selector) (hsize : b.size = b'.size) :
    b.pick? = b'.pick? := by
  funext call
  cases call with
  | select ctx generator => rw [pick?, hselector, hsize]; rfl
  | tick dt ctx generator => rfl

theorem exists_decides_of_pick? {call : BranchCall C} {picked : Option Nat}
    (h : b.pick? call = some picked) :
    ∃ ctx generator events, call = .select ctx generator ∧
      b.selector.Decides b.size ctx generator events (.ok picked) := by
  cases call with
  | tick dt ctx generator => cases h
  | select ctx generator =>
    have hdecides := b.selector.decides_select b.size ctx generator
    rw [pick?] at h
    cases hr : (b.selector.select b.size ctx generator).result with
    | error e =>
      rw [hr] at h
      cases h
    | ok chosen =>
      rw [hr] at h hdecides
      obtain rfl : chosen = picked := Option.some.inj h
      exact ⟨ctx, generator, _, rfl, hdecides⟩

theorem exists_pick?_of_isCertain (h : b.selector.IsCertain) (ctx : C) (generator : Generator) :
    ∃ index, b.pick? (.select ctx generator) = some (some index) := by
  obtain ⟨index, hr⟩ := h.exists_picked b.size ctx generator
  exact ⟨index, by rw [pick?, hr]; rfl⟩

end Branch

variable [Behavior A C N]

/-- What a step holds after a call of its branch: by a selection the step is entered, and by a tick
it is driven. -/
def StepKind.afterCall (kind : StepKind A C N) : BranchCall C → StepKind A C N
  | .select ctx generator => ((Step.ofKind kind).activate ctx generator).step.kind
  | .tick dt ctx generator => (StepKind.tick false dt kind ctx generator).step.kind

theorem Step.activate_branch_of_ok (state : StepState) {b : Branch A C N} {ctx : C}
    {generator : Generator} {picked : Option Nat}
    (h : (b.selector.select b.size ctx generator).result = .ok picked) :
    let entered := (⟨state, .branch b⟩ : Step A C N).activate ctx generator
    entered.result = .ok () ∧ entered.step = ⟨.active, .branch (b.choose picked)⟩ := by
  rw [Branch.size] at h
  simp [Step.activate, h]

theorem Step.activate_branch_of_error (state : StepState) {b : Branch A C N} {ctx : C}
    {generator : Generator} {e : TickError}
    (h : (b.selector.select b.size ctx generator).result = .error e) :
    let entered := (⟨state, .branch b⟩ : Step A C N).activate ctx generator
    entered.result = .error e ∧ entered.step = ⟨state, .branch b⟩ := by
  rw [Branch.size] at h
  simp [Step.activate, h]

/-- Whether a call is a selection that succeeds. -/
def Branch.Accepts (b : Branch A C N) : BranchCall C → Prop
  | .select ctx generator => ((Step.branch b).activate ctx generator).result = .ok ()
  | .tick .. => False

theorem Branch.accepts_iff {b : Branch A C N} {call : BranchCall C} :
    b.Accepts call ↔ ∃ picked, b.pick? call = some picked := by
  cases call with
  | tick dt ctx generator => simp [Accepts, pick?]
  | select ctx generator =>
    simp only [Accepts, Step.branch, Step.ofKind, pick?]
    cases hr : (b.selector.select b.size ctx generator).result with
    | error e =>
      rw [(Step.activate_branch_of_error .notStarted hr).1]
      simp [Except.toOption]
    | ok picked =>
      rw [(Step.activate_branch_of_ok .notStarted hr).1]
      exact ⟨fun _ => ⟨picked, rfl⟩, fun _ => rfl⟩

theorem Branch.accepts_congr {b b' : Branch A C N} (hselector : b.selector = b'.selector)
    (hsize : b.size = b'.size) (call : BranchCall C) : b.Accepts call ↔ b'.Accepts call := by
  rw [Branch.accepts_iff, Branch.accepts_iff, Branch.pick?_congr hselector hsize]

theorem StepKind.tick_branch_of_some {b : Branch A C N} {index : Nat} {child : Step A C N}
    (hchosen : b.chosen = some index) (hchild : b.children[index]? = some child) (dt : Float32)
    (ctx : C) (generator : Generator) :
    StepKind.tick false dt (.branch b) ctx generator =
      let t := Step.tick false dt child ctx generator
      .ofDriven .branch (t.trace.under (.child index)) t.context t.generator
        (.branch { b with children := b.children.set index t.step }) t.result := by
  obtain ⟨selector, children, chosen⟩ := b
  obtain rfl : chosen = some index := hchosen
  simp [StepKind.tick, StepTick.ofBranch, StepTick.ofChosen, tickChild_of_some hchild]

theorem StepKind.exists_tick_branch {b : Branch A C N} (hfits : b.Fits) (dt : Float32) (ctx : C)
    (generator : Generator) :
    ∃ b', (StepKind.tick false dt (.branch b) ctx generator).step.kind = .branch b' ∧ b'.Fits ∧
      b'.selector = b.selector ∧ b'.size = b.size ∧ b'.chosen = b.chosen := by
  cases hchosen : b.chosen with
  | none =>
    obtain ⟨selector, children, chosen⟩ := b
    obtain rfl : chosen = none := hchosen
    exact ⟨_, rfl, hfits, rfl, rfl, rfl⟩
  | some index =>
    have hchild := List.getElem?_eq_getElem (hfits.chosen index hchosen)
    rw [StepKind.tick_branch_of_some hchosen hchild]
    exact ⟨_, StepTick.kind_ofDriven .., hfits.set index _, rfl, by simp [Branch.size], hchosen⟩

/-- A call keeps what there is to pick from, and the branch remembers what the call picked. -/
theorem StepKind.exists_afterCall_branch {b : Branch A C N} (hfits : b.Fits)
    (call : BranchCall C) :
    ∃ b', (StepKind.branch b).afterCall call = .branch b' ∧ b'.Fits ∧
      b'.selector = b.selector ∧ b'.size = b.size ∧ b'.chosen = (b.pick? call).getD b.chosen := by
  cases call with
  | tick dt ctx generator => exact StepKind.exists_tick_branch hfits dt ctx generator
  | select ctx generator =>
    have hdecides := b.selector.decides_select b.size ctx generator
    simp only [StepKind.afterCall, Step.ofKind, Branch.pick?]
    cases hr : (b.selector.select b.size ctx generator).result with
    | error e =>
      rw [(Step.activate_branch_of_error .notStarted hr).2]
      exact ⟨b, rfl, hfits, rfl, rfl, rfl⟩
    | ok picked =>
      rw [hr] at hdecides
      have hpicked : ∀ index, picked = some index → index < b.children.length := by
        rintro index rfl
        exact hfits.selector.lt_of_decides hdecides
      rw [(Step.activate_branch_of_ok .notStarted hr).2]
      exact ⟨b.choose picked, rfl, hfits.choose hpicked, rfl, b.length_children_choose picked, rfl⟩

def StepKind.afterCalls (kind : StepKind A C N) (calls : List (BranchCall C)) : StepKind A C N :=
  calls.foldl StepKind.afterCall kind

theorem StepKind.afterCalls_append (kind : StepKind A C N) (calls later : List (BranchCall C)) :
    kind.afterCalls (calls ++ later) = (kind.afterCalls calls).afterCalls later :=
  List.foldl_append

/-- After any calls there is the same to pick from, and the branch remembers what the latest
selection that succeeded has picked. -/
theorem StepKind.exists_afterCalls_branch {b : Branch A C N} (hfits : b.Fits)
    (calls : List (BranchCall C)) :
    ∃ b', (StepKind.branch b).afterCalls calls = .branch b' ∧ b'.Fits ∧
      b'.selector = b.selector ∧ b'.size = b.size ∧
      b'.chosen = (calls.filterMap b.pick?).getLast?.getD b.chosen := by
  -- `pick?` is the same function all along, so the later calls are read as if made of `b` itself
  induction calls generalizing b with
  | nil => exact ⟨b, rfl, hfits, rfl, rfl, rfl⟩
  | cons call later ih =>
    obtain ⟨b₁, hcall, hfits₁, hselector₁, hsize₁, hchosen₁⟩ :=
      StepKind.exists_afterCall_branch hfits call
    obtain ⟨b', hlater, hfits', hselector, hsize, hchosen⟩ := ih hfits₁
    refine ⟨b', ?_, hfits', hselector.trans hselector₁, hsize.trans hsize₁, ?_⟩
    · rw [StepKind.afterCalls, List.foldl_cons, hcall]
      exact hlater
    · rw [hchosen, hchosen₁, Branch.pick?_congr hselector₁ hsize₁, List.filterMap_cons]
      cases b.pick? call with
      | none => rfl
      | some picked => simp [List.getLast?_cons]

namespace Branch

theorem pick?_eq_none {b : Branch A C N} {call : BranchCall C} (h : ¬ b.Accepts call) :
    b.pick? call = none := by
  cases hp : b.pick? call with
  | none => rfl
  | some picked => exact absurd (accepts_iff.mpr ⟨picked, hp⟩) h

theorem getLast?_picks {b : Branch A C N} {earlier later : List (BranchCall C)}
    {call : BranchCall C} {picked : Option Nat} (h : b.pick? call = some picked)
    (hlater : ∀ call ∈ later, ¬ b.Accepts call) :
    ((earlier ++ call :: later).filterMap b.pick?).getLast? = some picked := by
  have hnone : later.filterMap b.pick? = [] :=
    List.filterMap_eq_nil_iff.mpr fun call hcall => pick?_eq_none (hlater call hcall)
  simp [h, hnone]

theorem exists_pick?_getLast? {b : Branch A C N} {calls : List (BranchCall C)}
    {call : BranchCall C} (hcall : call ∈ calls) (h : b.Accepts call) (chosen : Option Nat) :
    ∃ call ∈ calls, b.pick? call = some ((calls.filterMap b.pick?).getLast?.getD chosen) := by
  obtain ⟨picked, hpicked⟩ := accepts_iff.mp h
  have hne : calls.filterMap b.pick? ≠ [] :=
    List.ne_nil_of_mem (List.mem_filterMap.mpr ⟨call, hcall, hpicked⟩)
  rw [List.getLast?_eq_some_getLast hne, Option.getD_some]
  exact List.mem_filterMap.mp (List.getLast_mem hne)

/-- What holds of a branch that was made as `made` and has been through `calls`. -/
structure ChoiceAfter (made : Branch A C N) (calls : List (BranchCall C)) (b : Branch A C N) :
    Prop where
  selector : b.selector = made.selector
  size : b.size = made.size
  /-- There is a child for each guard, and the fallback is the one after these. -/
  numbered : ∀ guards fallback, b.selector = .guarded guards fallback →
    guards.length + fallback.toNat = b.size
  /-- Which selections succeed is not a matter of the history. -/
  accepts : ∀ call, b.Accepts call ↔ made.Accepts call
  unchosen : (∀ call ∈ calls, ¬ made.Accepts call) → b.chosen = none
  /-- After a selection that succeeded, and up to the next one: no child is chosen if and only if
  there was nothing to pick, and the last child is chosen if no guard held and there is a
  fallback. -/
  decided : ∀ earlier ctx generator later, calls = earlier ++ .select ctx generator :: later →
    made.Accepts (.select ctx generator) → (∀ call ∈ later, ¬ made.Accepts call) →
      (b.chosen = none ↔ b.selector.PicksNothing ctx generator) ∧
        ∀ guards, b.selector = .guarded guards true →
          (∀ guard ∈ guards, (guard.evaluate ctx).answer = .ok false) →
            b.chosen = some guards.length ∧ b.chosenStep? = b.children.getLast?
  /-- An index that is chosen is that of a child, and a tick of the branch is a tick of this
  child. -/
  runs : ∀ index, b.chosen = some index → index < b.size ∧
    ∃ child, b.children[index]? = some child ∧ b.chosenStep? = some child ∧
      ∀ dt ctx generator,
        let t := Step.tick false dt child ctx generator
        StepKind.tick false dt (.branch b) ctx generator =
          .ofDriven .branch (t.trace.under (.child index)) t.context t.generator
            (.branch { b with children := b.children.set index t.step }) t.result
  /-- With equal chances or with weights, every selection succeeds and leaves a child to run. -/
  certain : b.selector.IsCertain → (∀ ctx generator, b.Accepts (.select ctx generator)) ∧
    ((∃ ctx generator, .select ctx generator ∈ calls) → b.chosenStep?.isSome)

/-- A chosen child always exists. A branch as one of the functions for it makes it shows, after any
selections and ticks in any contexts and with any random sources, the choice of its latest selection
that succeeded: an index below the number of children, whose child is ticked, or none if there was
nothing to pick. -/
theorem chosen_isChild {made : Branch A C N} (hmade : made.IsMade) (calls : List (BranchCall C)) :
    ∃ b, (StepKind.branch made).afterCalls calls = .branch b ∧ made.ChoiceAfter calls b := by
  obtain ⟨b, hb, hfits, hselector, hsize, hchosen⟩ :=
    StepKind.exists_afterCalls_branch hmade.fits calls
  have hpick := pick?_congr hselector hsize
  have haccepts := accepts_congr hselector hsize
  refine ⟨b, hb, hselector, hsize, ?numbered, haccepts, ?unchosen, ?decided, ?runs, ?certain⟩
  case numbered =>
    intro guards fallback h
    have hcount := hfits.selector
    rwa [h] at hcount
  case unchosen =>
    intro hnone
    rw [hchosen, List.filterMap_eq_nil_iff.mpr fun call hc => pick?_eq_none (hnone call hc)]
    exact hmade.chosen
  case decided =>
    rintro earlier ctx generator later rfl hmadeAccepts hlater
    obtain ⟨picked, hpicked⟩ := accepts_iff.mp hmadeAccepts
    rw [getLast?_picks hpicked hlater, Option.getD_some] at hchosen
    rw [← hpick] at hpicked
    obtain ⟨_, _, events, hcall, hdecides⟩ := exists_decides_of_pick? hpicked
    obtain ⟨rfl, rfl⟩ := BranchCall.select.inj hcall
    rw [← hchosen] at hdecides
    refine ⟨hdecides.eq_none_iff, ?_⟩
    intro guards hguards hfalse
    rw [hguards] at hdecides
    have hfallback := hdecides.eq_fallback hfalse
    refine ⟨hfallback, ?_⟩
    rw [chosenStep?, hfallback, hfits.getLast?_children hguards]
    rfl
  case runs =>
    intro index h
    obtain ⟨child, hchild, hstep⟩ := hfits.exists_chosenStep? h
    exact ⟨hfits.chosen index h, child, hchild, hstep, StepKind.tick_branch_of_some h hchild⟩
  case certain =>
    intro hcertain
    have hsucceeds : ∀ ctx generator, b.Accepts (.select ctx generator) := by
      intro ctx generator
      obtain ⟨index, hpicked⟩ := exists_pick?_of_isCertain hcertain ctx generator
      exact accepts_iff.mpr ⟨_, hpicked⟩
    refine ⟨hsucceeds, ?_⟩
    rintro ⟨ctx, generator, hmem⟩
    -- the choice is that of some selection of the history, and each of these picks a child
    obtain ⟨call, -, hpicked⟩ :=
      exists_pick?_getLast? hmem ((haccepts _).mp (hsucceeds ctx generator)) made.chosen
    rw [← hchosen, ← hpick] at hpicked
    obtain ⟨ctx', generator', -, rfl, -⟩ := exists_decides_of_pick? hpicked
    obtain ⟨index, hindex⟩ := exists_pick?_of_isCertain hcertain ctx' generator'
    obtain ⟨child, -, hstep⟩ :=
      hfits.exists_chosenStep? (Option.some.inj (hpicked.symm.trans hindex))
    rw [hstep]
    rfl

/-- A branch with a fallback whose guard holds at first and then no longer. -/
theorem chosen_isChild_of_fallback :
    let sip : Step Rehearsal.Act Rehearsal.Stage String :=
      .leaf (.callback (Rehearsal.cues [.push "sip"]))
    let rest : Step Rehearsal.Act Rehearsal.Stage String :=
      .leaf (.callback (Rehearsal.cues [.push "rest"]))
    let made := Branch.guarded [(Rehearsal.flagIsSet, sip)] (some rest)
    let generator := Generator.ofSeed 1
    let calls : List (BranchCall Rehearsal.Stage) :=
      [.select ⟨true, 0, false⟩ generator, .tick 0.5 .empty generator, .select .empty generator,
        .tick 0.5 .empty generator]
    made.IsMade ∧ ∃ b, (StepKind.branch made).afterCalls calls = .branch b ∧
      made.ChoiceAfter calls b ∧ b.chosen = some 1 ∧ b.chosenStep? = b.children.getLast? := by
  intro sip rest made generator calls
  have hmade : made.IsMade := .guarded _ _
  obtain ⟨b, hb, hchoice⟩ := chosen_isChild hmade calls
  have hticks : ∀ call ∈ [BranchCall.tick 0.5 Rehearsal.Stage.empty generator],
      ¬ made.Accepts call := by
    intro call hcall
    rw [List.mem_singleton.mp hcall]
    exact id
  have hdecided := (hchoice.decided [.select ⟨true, 0, false⟩ generator, .tick 0.5 .empty generator]
    .empty generator [.tick 0.5 .empty generator] rfl rfl hticks).2
  refine ⟨hmade, b, hb, hchoice, hdecided [Rehearsal.flagIsSet] hchoice.selector ?_⟩
  intro guard hguard
  rw [List.mem_singleton.mp hguard]
  rfl

end Branch

theorem Step.exists_activate_branch (state : StepState) (b : Branch A C N) (ctx : C)
    (generator : Generator) :
    ∃ state', ((⟨state, .branch b⟩ : Step A C N).activate ctx generator).step =
        ⟨state', (StepKind.branch b).afterCall (.select ctx generator)⟩ ∧
      (state' ≠ .notStarted → state ≠ .notStarted ∨ b.Accepts (.select ctx generator)) := by
  rw [StepKind.afterCall, Step.ofKind]
  cases hr : (b.selector.select b.size ctx generator).result with
  | error e =>
    rw [(Step.activate_branch_of_error state hr).2,
      (Step.activate_branch_of_error .notStarted hr).2]
    exact ⟨state, rfl, .inl⟩
  | ok picked =>
    obtain ⟨haccepts, hstep⟩ := Step.activate_branch_of_ok .notStarted hr
    rw [(Step.activate_branch_of_ok state hr).2, hstep]
    exact ⟨.active, rfl, fun _ => .inr haccepts⟩

/-- Whatever is done to a step with a branch, it is calls of the branch, and the step is entered by
a selection that succeeds. -/
theorem Step.isLasting_afterCalls {made : Branch A C N} (hfits : made.Fits) :
    Step.IsLasting fun s : Step A C N => ∃ calls,
      s.kind = (StepKind.branch made).afterCalls calls ∧
        (s.state ≠ .notStarted → ∃ call ∈ calls, made.Accepts call) where
  reset := by
    rintro s ⟨calls, hkind, -⟩
    exact ⟨calls, hkind, fun hne => absurd rfl hne⟩
  enter := by
    rintro ⟨state, kind⟩ ctx generator ⟨calls, hkind, hentered⟩
    obtain ⟨b, hb, -, hselector, hsize, -⟩ := StepKind.exists_afterCalls_branch hfits calls
    obtain rfl : kind = .branch b := hkind.trans hb
    obtain ⟨state', hstep, hcame⟩ := Step.exists_activate_branch state b ctx generator
    rw [hstep]
    refine ⟨calls ++ [.select ctx generator], ?_, fun hne => ?_⟩
    · rw [StepKind.afterCalls_append, hb]
      rfl
    · rcases hcame hne with hbefore | haccepts
      · obtain ⟨call, hcall, haccepts⟩ := hentered hbefore
        exact ⟨call, List.mem_append_left _ hcall, haccepts⟩
      · exact ⟨_, List.mem_append_right _ (List.mem_singleton_self _),
          (Branch.accepts_congr hselector hsize _).mp haccepts⟩
  drive := by
    rintro kind dt ctx generator ⟨calls, hkind, hentered⟩
    refine ⟨calls ++ [.tick dt ctx generator], ?_, fun _ => ?_⟩
    · rw [StepKind.afterCalls_append, ← hkind]
      rfl
    · obtain ⟨call, hcall, haccepts⟩ := hentered StepState.noConfusion
      exact ⟨call, List.mem_append_left _ hcall, haccepts⟩

/-- A branch that has been entered, anywhere in a sequence and after any history of the root, has a
child to run, unless its selector had nothing to pick. -/
theorem Sequence.exists_chosenStep?_of_entered (s : Sequence A C N) (commands : List (Command C))
    {path : List Hop} {made : Branch A C N} (hmade : made.IsMade)
    (h : (Part.sequence s).find? path = some (.step (.branch made))) :
    ∃ state b, (Part.sequence (s.after commands)).find? path = some (.step ⟨state, .branch b⟩) ∧
      b.selector = made.selector ∧
      (state ≠ .notStarted →
        (∃ child, b.chosenStep? = some child) ∨
          ∃ ctx generator, b.selector.PicksNothing ctx generator) := by
  obtain ⟨vs, hafter, -⟩ := s.exists_visits commands path h
  obtain ⟨⟨state, kind⟩, hpart, calls, hkind, hentered⟩ :=
    (Step.isLasting_afterCalls hmade.fits).visits (s := .branch made)
      ⟨[], rfl, fun hne => absurd rfl hne⟩ vs
  obtain ⟨b, hb, hfits, hselector, hsize, hchosen⟩ :=
    StepKind.exists_afterCalls_branch hmade.fits calls
  obtain rfl : kind = .branch b := hkind.trans hb
  rw [hpart] at hafter
  refine ⟨state, b, hafter, hselector, ?_⟩
  intro hne
  obtain ⟨call, hcall, haccepts⟩ := hentered hne
  obtain ⟨latest, -, hpicked⟩ := Branch.exists_pick?_getLast? hcall haccepts made.chosen
  rw [← hchosen, ← Branch.pick?_congr hselector hsize] at hpicked
  obtain ⟨ctx, generator, events, -, hdecides⟩ := Branch.exists_decides_of_pick? hpicked
  cases hindex : b.chosen with
  | none => exact .inr ⟨ctx, generator, hdecides.eq_none_iff.mp hindex⟩
  | some index =>
    obtain ⟨child, -, hchild⟩ := hfits.exists_chosenStep? hindex
    exact .inl ⟨child, hchild⟩

end Sequencer

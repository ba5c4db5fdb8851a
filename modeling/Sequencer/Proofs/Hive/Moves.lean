import Sequencer.Proofs.Hive.Contracts
import Sequencer.Proofs.Replays

/-!
# How a bee changes in a tick

What a bee goes through in a tick can be told along the trace. It gets somewhere else in the updates
of its two flights, and it is only at the field that its load grows. In the branch at the end of its
loop it is home and full until it has handed over its load, and nothing but the first arm runs.
-/

namespace Sequencer.Hive

open Contract Foraging

namespace Foraging

def Gathers (f f' : Foraging) : Prop :=
  ∃ rate dt : Float32, f' =
    { f with bee := { f.bee with load := BeeAction.limitLoad (f.bee.load + rate * dt) } }

/-- Whether a bee is back with nothing to carry any more. -/
def IsUnloaded (f : Foraging) : Prop := f.IsHome ∧ f.bee.load = 0

theorem HasReturned.deposit {f : Foraging} (h : f.HasReturned) : f.deposit.2.IsUnloaded :=
  ⟨h.1, rfl⟩

end Foraging

/-- Whether an event may come before a load has been handed over: a guard holds and its arm, the
first one, is picked. -/
def isBeforeDeposit : Event Report → Prop
  | .guarded i answer => i = 0 ∧ answer = .ok true
  | .log (.branchSelected chosen) => chosen = some 0
  | .ran _ => False
  | _ => True

/-- Whether an event may come after a load has been handed over. -/
def isAfterDeposit : Event Report → Prop
  | .updated _ | .checked _ | .ended _ | .log (.stepComplete _) => True
  | _ => False

/-- How a bee may change at an entry of its trace. The steps of its loop are the flight to the
field, the branch with the flowers, the rest, the flight home and the branch in which the bee gets
rid of its load. -/
inductive BeeMoves : Entry Report → Foraging → Foraging → Prop
  /-- The wings beat alongside. -/
  | beats {f f' : Foraging} (j : Nat) (place : List Hop) (event : Event Report) (h : f.Beats f') :
      BeeMoves ⟨.companion j :: place, event⟩ f f'
  /-- The bee moves in an update of one of its flights. -/
  | flies {f f' : Foraging} {i : Nat} (hi : i = 0 ∨ i = 3) (h : f.Flies f') :
      BeeMoves ⟨[.step i], .updated (.ok ())⟩ f f'
  /-- The bee gathers at the field in an update of the flower that was chosen. -/
  | gathers {f f' : Foraging} (flower : Nat) (hfield : f.IsAtField) (h : f.Gathers f') :
      BeeMoves ⟨[.step 1, .child flower], .updated (.ok ())⟩ f f'
  /-- The first arm of the last branch hands over a full load at home. -/
  | deposits {f : Foraging} (h : f.HasReturned) :
      BeeMoves ⟨[.step 4, .child 0], .ran (.ok ())⟩ f f.deposit.2
  /-- Before that, in the last branch, the bee is home and full. -/
  | returned {f : Foraging} {place : List Hop} {event : Event Report} (h : f.HasReturned)
      (hevent : isBeforeDeposit event) (harm : place = [] ∨ place = [.child 0]) :
      BeeMoves ⟨.step 4 :: place, event⟩ f f
  /-- After that it has nothing to carry any more. -/
  | unloaded {f : Foraging} {place : List Hop} {event : Event Report} (h : f.IsUnloaded)
      (hevent : isAfterDeposit event) (harm : place = [] ∨ place = [.child 0]) :
      BeeMoves ⟨.step 4 :: place, event⟩ f f
  /-- Nothing changes at any other entry. -/
  | rests {f : Foraging} {e : Entry Report} (h : ∀ place, e.path ≠ .step 4 :: place) :
      BeeMoves e f f

namespace BeeMoves

theorem rests_of_lt {i : Nat} (hi : i < 4) (e : Entry Report) (f : Foraging) :
    behind (.step i) BeeMoves e f f := by
  refine .rests fun place hplace => ?_
  obtain rfl := Hop.step.inj (List.cons.inj hplace).1
  exact Nat.lt_irrefl _ hi

/-- The second arm of the last branch never runs. -/
theorem path_ne {e : Entry Report} {f f' : Foraging} (h : BeeMoves e f f') (place : List Hop) :
    e.path ≠ .step 4 :: .child 1 :: place := by
  cases h with
  | beats | flies | gathers | deposits => simp
  | returned _ _ harm | unloaded _ _ harm => rcases harm with rfl | rfl <;> simp
  | rests h => exact h _

end BeeMoves

theorem tells_flying {i : Nat} (hi : i = 0 ∨ i = 3) (target : Float32) :
    (flying target).Tells (behind (.step i) BeeMoves) := by
  have hM := BeeMoves.rests_of_lt (i := i) (by omega)
  refine tells_leaf hM ?enter ?drive
  case enter =>
    rintro action f ⟨arrived, rfl⟩ -
    exact .still fun e _ => hM e f
  case drive =>
    rintro action f rfl dt
    cases hway : BeeAction.approach f.bee.position target (beeSpeed * dt) with
    | none =>
      have hflies : Flies f { f with bee := { f.bee with position := target } } := ⟨target, rfl⟩
      simp only [Action.drive, Action.update, Action.check, Action.finish, Behavior.update,
        Behavior.check, Behavior.finish, Except.map, hway]
      exact .cons (.flies hi hflies) (.still fun e _ => hM e _)
    | some position =>
      have hflies : Flies f { f with bee := { f.bee with position } } := ⟨position, rfl⟩
      simp only [Action.drive, Action.update, Action.check, Behavior.update, Behavior.check, hway]
      exact .cons (.flies hi hflies) (.still fun e _ => hM e _)

theorem tells_gathering (flower : String) (rate : Float32) (index : Nat) :
    (gathering flower rate).Tells (behind (.child index) (behind (.step 1) BeeMoves)) := by
  have hM (e : Entry Report) (f : Foraging) :
      behind (.child index) (behind (.step 1) BeeMoves) e f f :=
    BeeMoves.rests_of_lt (by omega) ⟨.child index :: e.path, e.event⟩ f
  refine tells_leaf hM ?enter ?drive
  case enter =>
    rintro action f ⟨gathered, rfl⟩ hfield
    have hsame : (Action.enter (A := BeeAction) (N := Report)
        (.custom (.gather flower rate gathered)) f).context = f := by
      simp only [Action.enter, Action.reload, Action.start, Behavior.start, Behavior.reload,
        BeeAction.gatherFrom]
      split <;> rfl
    rw [hsame]
    exact .still fun e _ => hM e f
  case drive =>
    rintro action f ⟨⟨gathered, rfl⟩, hfield⟩ dt
    let load := BeeAction.limitLoad (f.bee.load + rate * dt)
    have hgathers : Gathers f { f with bee := { f.bee with load } } := ⟨rate, dt, rfl⟩
    cases hfull : ({ f.bee with load } : Bee).isFull <;>
      simp only [Action.drive, Action.update, Action.check, Action.finish, Behavior.update,
        Behavior.check, Behavior.finish, Except.map, load, hfull]
    all_goals exact .cons (.gathers index hfield hgathers) (.still fun e _ => hM e _)

theorem tells_choosingFlower : choosingFlower.Tells (behind (.step 1) BeeMoves) := by
  refine tells_choosing (BeeMoves.rests_of_lt (by omega)) (R := KeepsStores) ?_ ?_
  · simp [kept_gathering]
  · rintro (_ | _ | i) c hc
    · cases hc
      exact tells_gathering "clover" 1 0
    · cases hc
      exact tells_gathering "lavender" 2.5 1
    · cases hc

theorem tells_resting (probability : Float) :
    (resting probability).Tells (behind (.step 2) BeeMoves) := by
  have hM := BeeMoves.rests_of_lt (i := 2) (by omega)
  refine tells_choosing hM (R := KeepsStores) ?_ ?_
  · simp [kept_waiting isEffect_keepsStores]
  · rintro (_ | i) c hc
    · cases hc
      exact tells_waiting (fun e f => hM ⟨.child 0 :: e.path, e.event⟩ f) IsLoaded
    · cases hc

/-- What a bee does on its way to the field and home again can be told along the trace. -/
theorem tells_homewardContracts (probability : Float) {i : Nat} {c : BeeContract}
    (hc : (homewardContracts probability)[i]? = some c) :
    c.Tells (behind (.step i) BeeMoves) := by
  match i with
  | 0 =>
    cases hc
    exact tells_flying (.inl rfl) fieldDistance
  | 1 =>
    cases hc
    exact tells_choosingFlower
  | 2 =>
    cases hc
    exact tells_resting probability
  | 3 =>
    cases hc
    exact (tells_flying (.inr rfl) 0).carrying IsLoaded
  | _ + 4 => cases hc

/-- Whether a step hands over the load of a full bee, and is still to be entered. Whatever its other
arm holds is meant for bees that are not full. -/
def IsUnloadingStep (s : BeeStep) : Prop :=
  s.state = .notStarted ∧ ∃ state runs fired otherwise chosen, s.kind = .branch
    ⟨.guarded [beeIsFull] true,
      [⟨state, .leaf (.callback ⟨(Callback.noting Foraging.deposit).run, runs, fired⟩)⟩, otherwise],
      chosen⟩

theorem IsUnloadingStep.tick {s : BeeStep} (h : IsUnloadingStep s) {f : Foraging}
    (hf : f.HasReturned) (dt : Float32) (generator : Generator) :
    let t := Step.tick false dt s f generator
    t.result = .ok true ∧ t.context = f.deposit.2 ∧ IsUnloadingStep t.step.reset ∧
      Replays (behind (.step 4) BeeMoves) f t.trace t.context := by
  obtain ⟨state, kind⟩ := s
  obtain ⟨rfl, state, runs, fired, otherwise, chosen, rfl⟩ := h
  have hload : f.bee.isFull = true := hf.2
  have hrun : (Callback.noting Foraging.deposit).run runs f = ⟨f.deposit.1, f.deposit.2, .ok ()⟩ :=
    rfl
  have hnotes : f.deposit.1 =
      [.nectarDeposited f.bee.name f.bee.load (f.ledger.nectar + f.bee.load)] := rfl
  simp only [Step.tick, StepKind.tick, StepTick.ofBranch, Selector.select, firstHolding, beeIsFull,
    Condition.reads, Condition.evaluate, hload, StepTick.ofChosen, tickChild, StepTick.inFrontOf,
    StepTick.ofAction, Action.enter, Action.reload, Action.start, Action.drive, Action.update,
    Action.check, Action.finish, Except.map, hrun, StepTick.ofDriven, StepTick.marked,
    Bool.false_eq_true, if_false, if_true]
  refine ⟨trivial, trivial, ⟨rfl, _, _, _, _, _, rfl⟩, ?_⟩
  rw [hnotes]
  -- ten entries come before the one in which the load is handed over
  refine Replays.append (t := [_, _, _, _, _, _, _, _, _, _]) (.still ?before)
    (.cons (.deposits hf) (.still ?after))
  case before =>
    refine fun e he => .returned hf ?_ ?_ <;> revert e
    · simp [isBeforeDeposit]
    · simp
  case after =>
    refine fun e he => .unloaded hf.deposit ?_ ?_ <;> revert e
    · simp [isAfterDeposit, Trace.line]
    · simp [Trace.line]

end Sequencer.Hive

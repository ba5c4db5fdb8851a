import Sequencer.Branch
import Sequencer.Proofs.Events

/-!
# What a selection decides

Guards are asked in order, up to the first that holds or fails; a random selector is asked once.
`Selector.Decides` states this without the recursion that carries it out. A branch fits its selector
if it has a child for every index that can be picked; every branch that can be made does.
-/

namespace Sequencer

variable {A C N : Type}

/-- The evaluation of guards one after the other, the first of them as arm `index`. -/
def asked (ctx : C) (index : Nat) : List (Condition C N) → List (Event N)
  | [] => []
  | guard :: rest =>
    (guard.evaluate ctx).events ++ [.guarded index (guard.evaluate ctx).answer] ++
      asked ctx (index + 1) rest

/-- Where a search through guards ends, with its events and its result. The first guard stands for
`index`, and `otherwise` is for when none holds. -/
inductive Search (ctx : C) (otherwise : Option Nat) (index : Nat) :
    List (Condition C N) → List (Event N) → Except TickError (Option Nat) → Prop
  /-- All guards before the first that holds are false, and none after it is asked. -/
  | held {before : List (Condition C N)} {guard : Condition C N} (after : List (Condition C N))
      (hbefore : ∀ g ∈ before, (g.evaluate ctx).answer = .ok false)
      (h : (guard.evaluate ctx).answer = .ok true) :
      Search ctx otherwise index (before ++ guard :: after)
        (asked ctx index (before ++ [guard])) (.ok (some (index + before.length)))
  /-- All guards before the one that fails are false, and none after it is asked. -/
  | failed {before : List (Condition C N)} {guard : Condition C N} {e : TickError}
      (after : List (Condition C N))
      (hbefore : ∀ g ∈ before, (g.evaluate ctx).answer = .ok false)
      (h : (guard.evaluate ctx).answer = .error e) :
      Search ctx otherwise index (before ++ guard :: after)
        (asked ctx index (before ++ [guard])) (.error e)
  | noneHolds {guards : List (Condition C N)}
      (h : ∀ g ∈ guards, (g.evaluate ctx).answer = .ok false) :
      Search ctx otherwise index guards (asked ctx index guards) (.ok otherwise)

theorem Search.cons {ctx : C} {otherwise : Option Nat} {index : Nat} {guard : Condition C N}
    {guards : List (Condition C N)} {events : List (Event N)}
    {result : Except TickError (Option Nat)} (hg : (guard.evaluate ctx).answer = .ok false)
    (h : Search ctx otherwise (index + 1) guards events result) :
    Search ctx otherwise index (guard :: guards)
      ((guard.evaluate ctx).events ++ [.guarded index (guard.evaluate ctx).answer] ++ events)
      result := by
  have hfront : ∀ {gs : List (Condition C N)},
      (∀ g ∈ gs, (g.evaluate ctx).answer = .ok false) →
        ∀ g ∈ guard :: gs, (g.evaluate ctx).answer = .ok false :=
    fun h => List.forall_mem_cons.mpr ⟨hg, h⟩
  cases h with
  | @held before first after hbefore h =>
    have hs : Search ctx otherwise index _ _ _ := .held after (hfront hbefore) h
    rwa [List.length_cons, Nat.add_comm before.length, ← Nat.add_assoc] at hs
  | failed after hbefore h => exact .failed after (hfront hbefore) h
  | noneHolds h => exact .noneHolds (hfront h)

theorem search_firstHolding (ctx : C) (generator : Generator) (otherwise : Option Nat)
    (index : Nat) (guards : List (Condition C N)) :
    Search ctx otherwise index guards
      (firstHolding ctx generator otherwise index guards).events
      (firstHolding ctx generator otherwise index guards).result := by
  have hnone : ∀ g ∈ ([] : List (Condition C N)), (g.evaluate ctx).answer = .ok false := by simp
  induction guards generalizing index with
  | nil => exact .noneHolds hnone
  | cons guard rest ih =>
    match ha : (guard.evaluate ctx).answer with
    | .error e => simpa [firstHolding, ha, asked] using Search.failed rest hnone ha
    | .ok true =>
      have h : Search ctx otherwise index _ _ _ := .held rest hnone ha
      simpa [firstHolding, ha, asked] using h
    | .ok false => simpa [firstHolding, ha] using (ih (index + 1)).cons ha

theorem isDecision_asked (ctx : C) (index : Nat) (guards : List (Condition C N)) :
    ∀ e ∈ asked ctx index guards, e.isDecision = true := by
  induction guards generalizing index with
  | nil => simp [asked]
  | cons guard rest ih =>
    intro e he
    simp only [asked, List.mem_append, List.mem_singleton] at he
    rcases he with (he | rfl) | he
    · exact guard.isDecision_evaluate ctx e he
    · rfl
    · exact ih (index + 1) e he

namespace Selector

/-- What selectors decide for `size` children: the events of a decision and its result. -/
inductive Decides (size : Nat) (ctx : C) (generator : Generator) :
    Selector C N → List (Event N) → Except TickError (Option Nat) → Prop
  | guarded {guards : List (Condition C N)} (fallback : Bool) {events : List (Event N)}
      {result : Except TickError (Option Nat)}
      (h : Search ctx (if fallback then some guards.length else none) 0 guards events result) :
      Decides size ctx generator (.guarded guards fallback) events result
  | uniform :
      Decides size ctx generator .uniform [.drew] (.ok (some (generator.uniform size).1))
  | weighted (weights : List Float) :
      Decides size ctx generator (.weighted weights) [.drew]
        (.ok (some (generator.weighted weights).1))
  | hit {probability : Float} (h : (generator.chance probability).1 = true) :
      Decides size ctx generator (.chance probability) [.drew] (.ok (some 0))
  | missed {probability : Float} (h : (generator.chance probability).1 = false) :
      Decides size ctx generator (.chance probability) [.drew] (.ok none)

theorem decides_select (selector : Selector C N) (size : Nat) (ctx : C) (generator : Generator) :
    selector.Decides size ctx generator (selector.select size ctx generator).events
      (selector.select size ctx generator).result := by
  cases selector with
  | guarded guards fallback =>
    exact .guarded fallback (search_firstHolding ctx generator _ 0 guards)
  | uniform => exact .uniform
  | weighted weights => exact .weighted weights
  | chance probability =>
    cases h : (generator.chance probability).1 with
    | true => simpa [select, h] using Decides.hit h
    | false => simpa [select, h] using Decides.missed h

theorem Decides.isDecision {selector : Selector C N} {size : Nat} {ctx : C} {generator : Generator}
    {events : List (Event N)} {result : Except TickError (Option Nat)}
    (h : selector.Decides size ctx generator events result) :
    ∀ e ∈ events, e.isDecision = true := by
  have hdrew : ∀ e ∈ [(Event.drew : Event N)], e.isDecision = true := by simp [Event.isDecision]
  cases h with
  | guarded fallback h => cases h <;> exact isDecision_asked ctx 0 _
  | uniform => exact hdrew
  | weighted weights => exact hdrew
  | hit h => exact hdrew
  | missed h => exact hdrew

/-- Whether a selector is one for `size` children: it has one of them for every index that it can
pick. -/
def Fits (size : Nat) : Selector C N → Prop
  | guarded guards fallback => guards.length + fallback.toNat = size
  | uniform => 0 < size
  | weighted weights => 0 < size ∧ weights.length = size
  | chance _ => size = 1

end Selector

/-- A search that picks an index picks a guard, or what is left for when none holds. -/
theorem Search.lt_or_eq {ctx : C} {otherwise : Option Nat} {index picked : Nat}
    {guards : List (Condition C N)} {events : List (Event N)}
    (h : Search ctx otherwise index guards events (.ok (some picked))) :
    picked < index + guards.length ∨ otherwise = some picked := by
  cases h with
  | held after hbefore h =>
    left
    simp
  | noneHolds h => exact .inr rfl

namespace Generator

theorem uniformWithin_lt {n : Nat} (hn : 0 < n) (tries : Nat) (g : Generator) :
    (uniformWithin n tries g).1 < n := by
  have hword : ∀ word : UInt64, word.toNat * n / Nat.pow 2 64 < n := by
    intro word
    rw [Nat.div_lt_iff_lt_mul (by decide), Nat.mul_comm n]
    exact Nat.mul_lt_mul_of_pos_right word.toNat_lt hn
  induction tries generalizing g with
  | zero => exact hword _
  | succ tries ih =>
    simp only [uniformWithin]
    split
    · exact hword _
    · exact ih _

theorem length_cumulative (weights : List Float) :
    (cumulative weights).length = weights.length - 1 := by
  have hgo : ∀ (ws : List Float) (sum : Float), (cumulative.go sum ws).length = ws.length - 1 := by
    intro ws
    induction ws with
    | nil => intro sum; rfl
    | cons w rest ih =>
      intro sum
      cases rest with
      | nil => rfl
      | cons w' rest => simp [cumulative.go, ih]
  exact hgo weights 0

theorem weighted_lt {weights : List Float} (h : 0 < weights.length) (g : Generator) :
    (g.weighted weights).1 < weights.length := by
  have hc := List.countP_le_length (p := fun x => decide
    (x ≤ g.fraction.1 * scale (total weights) + 0)) (l := cumulative weights)
  rw [length_cumulative] at hc
  exact Nat.lt_of_le_of_lt hc (Nat.sub_lt h Nat.one_pos)

end Generator

/-- What is picked is the index of a child. -/
theorem Selector.Fits.lt_of_decides {selector : Selector C N} {size : Nat}
    (hfits : selector.Fits size) {ctx : C} {generator : Generator} {events : List (Event N)}
    {picked : Nat} (h : selector.Decides size ctx generator events (.ok (some picked))) :
    picked < size := by
  cases h with
  | @guarded guards fallback events result h =>
    have hsize : guards.length + fallback.toNat = size := hfits
    rcases h.lt_or_eq with hl | he
    · omega
    · cases fallback with
      | false => cases he
      | true =>
        obtain rfl : guards.length = picked := Option.some.inj he
        exact hsize ▸ Nat.lt_succ_self _
  | uniform => exact Generator.uniformWithin_lt hfits _ _
  | weighted weights =>
    obtain ⟨hpos, hlen⟩ := hfits
    rw [← hlen] at hpos ⊢
    exact Generator.weighted_lt hpos generator
  | hit h =>
    obtain rfl : size = 1 := hfits
    exact Nat.one_pos

namespace Branch

/-- Whether the children of a branch are those that its selector picks from. -/
structure Fits (b : Branch A C N) : Prop where
  selector : b.selector.Fits b.children.length
  chosen : ∀ index, b.chosen = some index → index < b.children.length

theorem fits_guarded (arms : List (Condition C N × Step A C N)) (otherwise : Option (Step A C N)) :
    (guarded arms otherwise).Fits where
  selector := by cases otherwise <;> simp [guarded, Selector.Fits]
  chosen := by simp [guarded]

theorem fits_of_uniform {options : List (Step A C N)} {b : Branch A C N}
    (h : uniform options = .ok b) : b.Fits := by
  cases options with
  | nil => cases h
  | cons option options =>
    obtain rfl : _ = b := Except.ok.inj h
    exact ⟨Nat.succ_pos _, by simp⟩

theorem fits_of_weighted {options : List (Float × Step A C N)} {b : Branch A C N}
    (h : weighted options = .ok b) : b.Fits := by
  cases options with
  | nil => cases h
  | cons option options =>
    simp only [weighted, List.isEmpty_cons, Bool.false_eq_true, ↓reduceIte] at h
    split at h
    · cases h
    · obtain rfl : _ = b := Except.ok.inj h
      exact ⟨⟨Nat.succ_pos _, by simp⟩, by simp⟩

theorem fits_of_chance {probability : Float} {step : Step A C N} {b : Branch A C N}
    (h : chance probability step = .ok b) : b.Fits := by
  unfold chance at h
  split at h
  · obtain rfl : _ = b := Except.ok.inj h
    exact ⟨rfl, by simp⟩
  · cases h

@[simp] theorem length_children_choose (b : Branch A C N) (chosen : Option Nat) :
    (b.choose chosen).children.length = b.children.length := by
  cases chosen <;> simp [choose]

theorem choose_some {b : Branch A C N} {index : Nat} {child : Step A C N}
    (h : b.children[index]? = some child) :
    b.choose (some index) =
      { b with children := b.children.set index child.reset, chosen := some index } := by
  have : Inhabited (Step A C N) := ⟨child⟩
  simp [choose, List.modify_eq_set, h]

theorem Fits.choose {b : Branch A C N} (h : b.Fits) {chosen : Option Nat}
    (hc : ∀ index, chosen = some index → index < b.children.length) : (b.choose chosen).Fits where
  selector := by
    rw [length_children_choose]
    exact h.selector
  chosen := by
    rw [length_children_choose]
    exact hc

theorem Fits.set {b : Branch A C N} (h : b.Fits) (index : Nat) (step : Step A C N) :
    ({ b with children := b.children.set index step }).Fits where
  selector := by simpa using h.selector
  chosen := by simpa using h.chosen

end Branch

end Sequencer

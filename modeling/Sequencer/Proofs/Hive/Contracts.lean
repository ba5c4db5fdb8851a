import Sequencer.Proofs.FloatOrder
import Sequencer.Proofs.Hive.Behaviors
import Sequencer.Proofs.StandardContracts

/-!
# Contracts of bees and their keeper

A bee is at the field when it begins to gather, and what it hands over is a full load. So a store
that has nectar for a unit of honey still has it after whatever the bees do. The keeper relies on
that between its wait for nectar and the making of honey.
-/

namespace Sequencer.Hive

open Contract

/-- Whether a store becomes another one as full loads are handed over. -/
inductive Ledger.Supplied : Ledger → Ledger → Prop
  | untouched (ledger : Ledger) : Supplied ledger ledger
  | loaded {ledger ledger' : Ledger} (h : Supplied ledger ledger') {load : Float32}
      (hload : beeCapacity ≤ load) :
      Supplied ledger
        { ledger' with nectar := ledger'.nectar + load, deposits := ledger'.deposits + 1 }

def Ledger.IsStocked (ledger : Ledger) : Prop := nectarPerHoney ≤ ledger.nectar

theorem isNormal_nectarPerHoney : Single.IsNormal nectarPerHoney :=
  ⟨0xA00000, -20, by decide, rfl, by decide, by decide⟩

theorem isNormal_beeCapacity : Single.IsNormal beeCapacity :=
  ⟨0xA00000, -21, by decide, rfl, by decide, by decide⟩

namespace Ledger.Supplied

variable {ledger ledger' ledger'' : Ledger}

theorem trans (h : Supplied ledger ledger') (h' : Supplied ledger' ledger'') :
    Supplied ledger ledger'' := by
  induction h' with
  | untouched => exact h
  | loaded _ hload ih => exact .loaded ih hload

theorem isStocked (h : Supplied ledger ledger') (hs : ledger.IsStocked) : ledger'.IsStocked := by
  induction h with
  | untouched => exact hs
  | loaded _ hload ih => exact Single.le_add isNormal_nectarPerHoney isNormal_beeCapacity ih hload

end Ledger.Supplied

namespace Foraging

/-- Where a bee has to be to gather. -/
def IsAtField (f : Foraging) : Prop := f.bee.position = fieldDistance

/-- Where a bee has to be to hand over its load. -/
def IsHome (f : Foraging) : Prop := f.bee.position = 0

def IsLoaded (f : Foraging) : Prop := f.bee.isFull = true

/-- Whether a bee is back with all that it can carry. -/
def HasReturned (f : Foraging) : Prop := f.IsHome ∧ f.IsLoaded

def KeepsStores (f f' : Foraging) : Prop := f.ledger = f'.ledger

/-- Whether the stores only get full loads. -/
def Supplies (f f' : Foraging) : Prop := f.ledger.Supplied f'.ledger

def Beats (f f' : Foraging) : Prop :=
  ∃ wingbeats, f' = { f with bee := { f.bee with wingbeats } }

def Flies (f f' : Foraging) : Prop :=
  ∃ position, f' = { f with bee := { f.bee with position } }

/-- Whether the bee stays where it is and keeps what it carries. -/
def Stays (f f' : Foraging) : Prop :=
  f.bee.position = f'.bee.position ∧ f.bee.load = f'.bee.load

theorem isEffect_supplies : IsEffect Supplies :=
  ⟨fun f => .untouched f.ledger, fun h h' => h.trans h'⟩

theorem isEffect_beats : IsEffect Beats where
  refl f := ⟨f.bee.wingbeats, rfl⟩
  trans := by
    rintro f _ _ ⟨_, rfl⟩ ⟨wingbeats, rfl⟩
    exact ⟨wingbeats, rfl⟩

theorem isEffect_flies : IsEffect Flies where
  refl f := ⟨f.bee.position, rfl⟩
  trans := by
    rintro f _ _ ⟨_, rfl⟩ ⟨position, rfl⟩
    exact ⟨position, rfl⟩

theorem isEffect_keepsStores : IsEffect KeepsStores := ⟨fun _ => rfl, fun h h' => h.trans h'⟩

theorem KeepsStores.supplies {f f' : Foraging} (h : KeepsStores f f') : Supplies f f' := by
  unfold Supplies
  rw [← h]
  exact .untouched f.ledger

theorem Beats.keepsStores {f f' : Foraging} (h : Beats f f') : KeepsStores f f' := by
  obtain ⟨_, rfl⟩ := h
  rfl

theorem Beats.supplies {f f' : Foraging} (h : Beats f f') : Supplies f f' := h.keepsStores.supplies

theorem Beats.stays {f f' : Foraging} (h : Beats f f') : Stays f f' := by
  obtain ⟨_, rfl⟩ := h
  exact ⟨rfl, rfl⟩

theorem Flies.keepsStores {f f' : Foraging} (h : Flies f f') : KeepsStores f f' := by
  obtain ⟨_, rfl⟩ := h
  rfl

theorem IsAtField.of_stays {f f' : Foraging} (h : Stays f f') (hf : f.IsAtField) : f'.IsAtField :=
  h.1.symm.trans hf

theorem IsLoaded.of_stays {f f' : Foraging} (h : Stays f f') (hf : f.IsLoaded) : f'.IsLoaded := by
  rwa [IsLoaded, Bee.isFull, ← h.2]

theorem HasReturned.of_stays {f f' : Foraging} (h : Stays f f') (hf : f.HasReturned) :
    f'.HasReturned :=
  ⟨h.1.symm.trans hf.1, hf.2.of_stays h⟩

theorem IsLoaded.of_flies {f f' : Foraging} (h : Flies f f') (hf : f.IsLoaded) : f'.IsLoaded := by
  obtain ⟨position, rfl⟩ := h
  exact hf

end Foraging

open Foraging

section Bees

abbrev BeeContract := Contract BeeAction Foraging Report

/-- A flight ends at its target. -/
def flying (target : Float32) : BeeContract :=
  leaf anything (fun f => f.bee.position = target)
    (fun action => ∃ arrived, action = .custom (.fly target arrived))
    fun action _ => action = .custom (.fly target false)

theorem kept_flying (target : Float32) : (flying target).Kept Flies := by
  apply kept_leaf
  · rintro action f rfl
    exact ⟨false, rfl⟩
  · rintro action f ⟨arrived, rfl⟩ -
    exact ⟨rfl, isEffect_flies.refl f, rfl⟩
  · rintro action f rfl dt
    cases hway : BeeAction.approach f.bee.position target (beeSpeed * dt) with
    | none =>
      have hflies : Flies f { f with bee := { f.bee with position := target } } := ⟨target, rfl⟩
      simp [Action.drive, Action.update, Action.check, Action.finish, Behavior.update,
        Behavior.check, Behavior.finish, Except.map, hway, hflies]
    | some position =>
      have hflies : Flies f { f with bee := { f.bee with position } } := ⟨position, rfl⟩
      simp [Action.drive, Action.update, Action.check, Behavior.update, Behavior.check, hway,
        hflies]

/-- A bee gathers at the field until it is full. -/
def gathering (flower : String) (rate : Float32) : BeeContract :=
  leaf IsAtField IsLoaded
    (fun action => ∃ gathered, action = .custom (.gather flower rate gathered))
    fun action f => (∃ gathered, action = .custom (.gather flower rate gathered)) ∧ f.IsAtField

theorem kept_gathering (flower : String) (rate : Float32) :
    (gathering flower rate).Kept KeepsStores := by
  apply kept_leaf
  · exact fun action f hb => hb.1
  · rintro action f ⟨gathered, rfl⟩ hfield
    -- a flight ends exactly at its target, so that this compares the distance with itself
    have hnear : ¬f.bee.position < fieldDistance := by
      rw [hfield]
      decide +kernel
    simp [Action.enter, Action.reload, Action.start, Behavior.reload, Behavior.start, hnear,
      BeeAction.gatherFrom, isEffect_keepsStores.refl f, hfield]
  · rintro action f ⟨⟨gathered, rfl⟩, hfield⟩ dt
    let load := BeeAction.limitLoad (f.bee.load + rate * dt)
    have hbee : KeepsStores f { f with bee := { f.bee with load } } := rfl
    have hstill : IsAtField { f with bee := { f.bee with load } } := hfield
    cases hfull : ({ f.bee with load } : Bee).isFull <;>
      simp [Action.drive, Action.update, Action.check, Action.finish, Behavior.update,
        Behavior.check, Behavior.finish, Except.map, IsLoaded, load, hfull, hbee, hstill]

/-- One of the flowers is chosen at the field. -/
def choosingFlower : BeeContract :=
  choosing (.weighted [3, 1]) [gathering "clover" 1, gathering "lavender" 2.5] IsAtField IsLoaded

theorem kept_choosingFlower : choosingFlower.Kept KeepsStores := by
  refine kept_choosing isEffect_keepsStores ?_ ?_ (selects_weighted ?_ rfl ?_)
  · simp [kept_gathering]
  · simp [gathering, leaf]
  · simp
  · simp [gathering, leaf]

def resting (probability : Float) : BeeContract :=
  choosing (.chance probability) [waiting IsLoaded] IsLoaded IsLoaded

theorem kept_resting (probability : Float) : (resting probability).Kept KeepsStores := by
  refine kept_choosing isEffect_keepsStores ?_ ?_ (selects_chance ?_ ?_ probability)
  · simp [kept_waiting isEffect_keepsStores]
  · simp [waiting, leaf]
  · exact fun _ h => h
  · exact fun _ h => h

def flyingHome : BeeContract := (flying 0).carrying IsLoaded

theorem kept_flyingHome : flyingHome.Kept KeepsStores := by
  have hhome : flyingHome.Kept Flies :=
    Kept.carrying (fun hflies hload => IsLoaded.of_flies hflies hload) (kept_flying 0)
  exact hhome.mono Flies.keepsStores

/-- The contracts of the steps that take a bee to the field and home again. -/
def homewardContracts (probability : Float) : List BeeContract :=
  [flying fieldDistance, choosingFlower, resting probability, flyingHome]

theorem kept_homewardContracts (probability : Float) :
    ∀ c ∈ homewardContracts probability, c.Kept KeepsStores := by
  simp [homewardContracts, (kept_flying fieldDistance).mono Flies.keepsStores, kept_choosingFlower,
    kept_resting, kept_flyingHome]

theorem fit_homewardContracts (probability : Float) :
    Fit HasReturned (homewardContracts probability) :=
  ⟨fun _ h => h, fun _ h => h, fun _ h => ⟨trivial, h⟩, fun _ h => h, trivial⟩

/-- What a bee goes by is where it is and what it carries. -/
theorem survives_homewardContracts (probability : Float) :
    ∀ c ∈ homewardContracts probability, c.Survives Stays := by
  have hflying (target : Float32) : (flying target).Survives Stays :=
    survives_leaf (fun _ _ _ h => h) fun _ _ _ _ h => h
  have hfield (f f' : Foraging) : Stays f f' → f.IsAtField → f'.IsAtField := IsAtField.of_stays
  have hload (f f' : Foraging) : Stays f f' → f.IsLoaded → f'.IsLoaded := IsLoaded.of_stays
  have hflower (flower : String) (rate : Float32) : (gathering flower rate).Survives Stays :=
    survives_leaf hfield fun _ f f' hstays h => ⟨h.1, hfield f f' hstays h.2⟩
  have hchoosing : choosingFlower.Survives Stays :=
    survives_choosing (by simp [hflower]) hfield hload
  have hresting : (resting probability).Survives Stays :=
    survives_choosing (by simp [survives_waiting hload]) hload hload
  have hhome : flyingHome.Survives Stays := Survives.carrying IsLoaded.of_stays (hflying 0)
  simp [homewardContracts, hflying, hchoosing, hresting, hhome]

/-- Only a full load is handed over. -/
def depositing : BeeContract :=
  calling (Callback.noting Foraging.deposit).run IsLoaded anything

theorem kept_depositing : depositing.Kept Supplies :=
  kept_calling isEffect_supplies fun _ f hload =>
    ⟨rfl, .loaded (.untouched f.ledger) (of_decide_eq_true hload), trivial⟩

def dropping : BeeContract :=
  calling (Callback.noting Foraging.dropLoad).run anything anything

theorem kept_dropping : dropping.Kept Supplies :=
  kept_calling isEffect_supplies fun _ f _ => ⟨rfl, .untouched f.ledger, trivial⟩

def unloading : BeeContract :=
  choosing (.guarded [beeIsFull] true) [depositing, dropping] anything anything

theorem kept_unloading : unloading.Kept Supplies := by
  refine kept_choosing isEffect_supplies ?_ ?_ (selects_reads ?_ ?_)
  · simp [kept_depositing, kept_dropping]
  · simp [depositing, dropping, calling, leaf]
  · exact fun _ _ hfull => hfull
  · exact fun _ h _ => h

theorem survives_unloading : unloading.Survives Stays := by
  have hload (f f' : Foraging) : Stays f f' → f.IsLoaded → f'.IsLoaded := IsLoaded.of_stays
  have hfree (f f' : Foraging) (_ : Stays f f') (h : anything f) : anything f' := h
  refine survives_choosing ?_ hfree hfree
  simp [depositing, dropping, survives_calling hload, survives_calling hfree]

def foragingContracts (probability : Float) : List BeeContract :=
  [flying fieldDistance, choosingFlower, resting probability, flyingHome, unloading]

theorem agreed_foragingContracts (probability : Float) :
    Agreed Supplies anything (foragingContracts probability) where
  effect := isEffect_supplies
  kept := by
    have hsupplies {f f' : Foraging} (h : KeepsStores f f') : Supplies f f' := h.supplies
    have hflying : (flying fieldDistance).Kept Supplies :=
      (kept_flying fieldDistance).mono fun h => h.keepsStores.supplies
    simp [foragingContracts, hflying, kept_choosingFlower.mono hsupplies,
      (kept_resting probability).mono hsupplies, kept_flyingHome.mono hsupplies, kept_unloading]
  fit := ⟨fun _ h => h, fun _ h => h, fun _ h => ⟨trivial, h⟩, fun _ _ => trivial, fun _ h => h,
    trivial⟩
  again _ h := h

theorem survives_foragingContracts (probability : Float) :
    ∀ c ∈ foragingContracts probability, c.Survives Stays := by
  have hhomeward := survives_homewardContracts probability
  simp only [homewardContracts, List.forall_mem_cons] at hhomeward
  simp only [foragingContracts, List.forall_mem_cons]
  obtain ⟨hout, hflower, hrest, hhome, hnone⟩ := hhomeward
  exact ⟨hout, hflower, hrest, hhome, survives_unloading, hnone⟩

variable {settings : Settings}

theorem harmless_wingbeat (h : settings.validate = .ok ()) (entropy : Entropy) (serial : Nat) :
    ((wingbeat settings).toSequence entropy serial).Harmless Beats := by
  have hbeat (f : Foraging) : Beats f f.beatWings := ⟨f.bee.wingbeats + 1, rfl⟩
  rw [wingbeat_eq h]
  refine Sequence.harmless_of_notStarted isEffect_beats (kept_delaying isEffect_beats hbeat)
    (isFree_delaying _) rfl ?_ (.inr rfl) fun _ h => nomatch h
  exact .cons ⟨_, rfl, _, rfl⟩ (.cons ⟨_, rfl, _, _, rfl⟩ .nil)

theorem allHold_forageSteps (probability : Float) :
    AllHold (foragingContracts probability) (forageSteps probability) := by
  refine .cons ⟨_, rfl, _, rfl⟩ (.cons ⟨_, _, rfl, ?_⟩ (.cons ⟨_, _, rfl, ?_⟩
    (.cons ⟨_, rfl, _, rfl⟩ (.cons ⟨_, _, rfl, ?_⟩ .nil))))
  · exact .cons ⟨_, rfl, _, rfl⟩ (.cons ⟨_, rfl, _, rfl⟩ .nil)
  · exact .cons ⟨_, rfl, _, rfl⟩ .nil
  · exact .cons ⟨_, rfl, _, _, rfl⟩ (.cons ⟨_, rfl, _, _, rfl⟩ .nil)

/-- Whether a flower was chosen from which the bee is still gathering. -/
def BeeSequence.IsGathering (s : BeeSequence) : Prop :=
  s.status = .running ∧ ∃ branch index flower rate gathered,
    s.steps[1]? = some ⟨.active, .branch branch⟩ ∧ branch.chosen = some index ∧
      branch.children[index]? = some ⟨.active, .leaf (.custom (.gather flower rate gathered))⟩

def BeeSequence.IsOnCourse (s : BeeSequence) (f : Foraging) : Prop :=
  ∃ probability, s.Follows Beats anything (foragingContracts probability) f

namespace BeeSequence.IsOnCourse

variable {s : BeeSequence} {f : Foraging}

theorem of_forage (h : settings.validate = .ok ()) {entropy : Entropy} {serial : Nat}
    (hs : (forage settings entropy serial).result = .ok s) (f : Foraging) : IsOnCourse s f := by
  rw [forage_result h, forageLoop_eq h] at hs
  obtain rfl := Except.ok.inj hs
  refine ⟨settings.maybeProbability,
    .of_notStarted rfl (allHold_forageSteps settings.maybeProbability) trivial (.inr rfl) ?_⟩
  intro c hc
  obtain rfl := List.mem_singleton.mp (Group.mem_ofList hc)
  exact harmless_wingbeat h entropy serial

theorem isAtField (h : IsOnCourse s f) (hs : s.IsGathering) : f.IsAtField := by
  obtain ⟨probability, h⟩ := h
  obtain ⟨hstatus, branch, index, flower, rate, gathered, hstep, hchosen, hchild⟩ := hs
  have hcourse := h.course_of_ne (hstatus ▸ Status.noConfusion)
  have hflower : (foragingContracts probability)[1]? = some choosingFlower := rfl
  obtain ⟨children, chosen, hbranch, -, hready⟩ := hcourse.busy_of_active hflower hstep rfl
  obtain rfl := StepKind.branch.inj hbranch
  obtain rfl : chosen = some index := hchosen
  obtain ⟨c, child, hc, hchild', hready⟩ := hready
  obtain rfl := Option.some.inj (hchild'.symm.trans hchild)
  rcases hready with ⟨hn, -⟩ | ⟨-, hbusy⟩
  · cases hn
  · rcases List.mem_pair.mp (List.mem_of_getElem? hc) with rfl | rfl
    all_goals
      obtain ⟨_, -, -, hfield⟩ := hbusy
      exact hfield

theorem withLedger (h : IsOnCourse s f) (ledger : Ledger) : IsOnCourse s { f with ledger } := by
  obtain ⟨probability, h⟩ := h
  have hstays : Stays f { f with ledger } := ⟨rfl, rfl⟩
  exact ⟨probability, h.of_survives (survives_foragingContracts probability) id hstays⟩

/-- A bee on its course does not fail, and it stays on its course. -/
theorem advance (h : IsOnCourse s f) (dt : Float32) :
    (∃ outcome, (s.advance dt f).result = .ok outcome) ∧ Supplies f (s.advance dt f).context ∧
      IsOnCourse (s.advance dt f).sequence (s.advance dt f).context := by
  obtain ⟨probability, h⟩ := h
  have hsurvives : ∀ c ∈ foragingContracts probability, c.Survives Beats :=
    fun c hc => (survives_foragingContracts probability c hc).mono Beats.stays
  obtain ⟨ho, heffect, hnext⟩ := h.advance (agreed_foragingContracts probability) isEffect_beats
    Beats.supplies hsurvives (fun _ h => h) dt
  exact ⟨ho, heffect, probability, hnext⟩

end BeeSequence.IsOnCourse

end Bees

namespace Keeping

def Caps (k k' : Keeping) : Prop := k.ledger = k'.ledger

def IsSupplied (k k' : Keeping) : Prop := k.ledger.Supplied k'.ledger

theorem isEffect_caps : IsEffect Caps := ⟨fun _ => rfl, fun h h' => h.trans h'⟩

theorem Caps.isSupplied {k k' : Keeping} (h : Caps k k') : IsSupplied k k' := by
  unfold IsSupplied
  rw [h]
  exact .untouched k'.ledger

end Keeping

open Keeping

section Keeper

abbrev KeeperContract := Contract Empty Keeping Report

def Keeping.IsReady (k : Keeping) : Prop := k.ledger.IsStocked

theorem Keeping.isReady_of_hasNectar {k : Keeping} (h : k.hasNectar = true) : k.IsReady :=
  of_decide_eq_true (p := nectarPerHoney ≤ k.ledger.nectar) h

theorem Keeping.IsReady.of_isSupplied {k k' : Keeping} (hk : k.IsReady) (h : IsSupplied k k') :
    k'.IsReady :=
  h.isStocked hk

def brewing : KeeperContract :=
  calling (Callback.fallible fun _ => Keeping.makeHoney).run IsReady anything

/-- There is nectar whenever honey is made. -/
theorem kept_brewing : brewing.Kept fun _ _ => True := by
  refine kept_calling isEffect_true fun _ k hk => ⟨?_, trivial, trivial⟩
  have hnot : ¬k.ledger.nectar < nectarPerHoney := Single.not_lt_of_le isNormal_nectarPerHoney hk
  simp [Callback.fallible, Keeping.makeHoney, hnot]

def brewingContracts : List KeeperContract :=
  [awaiting hasNectar, together .all Caps IsReady, brewing]

theorem agreed_brewingContracts : Agreed (fun _ _ => True) anything brewingContracts where
  effect := isEffect_true
  kept := by
    have htogether : (together .all Caps IsReady : KeeperContract).Kept fun _ _ => True :=
      kept_together isEffect_true isEffect_caps (fun _ _ _ => trivial)
        (fun _ _ h hk => hk.of_isSupplied (Caps.isSupplied h)) .all
    simp [brewingContracts, kept_awaiting isEffect_true, htogether, kept_brewing]
  fit := ⟨fun _ h => isReady_of_hasNectar h, fun _ h => h, fun _ h => h, trivial⟩
  again _ h := h

theorem survives_brewingContracts : ∀ c ∈ brewingContracts, c.Survives IsSupplied := by
  have hready (k k' : Keeping) (h : IsSupplied k k') (hk : k.IsReady) : k'.IsReady :=
    hk.of_isSupplied h
  have hbrewing : brewing.Survives IsSupplied := survives_calling hready
  simp [brewingContracts, survives_awaiting, survives_together hready, hbrewing]

variable {settings : Settings}

theorem caps_capCell (k : Keeping) : Caps k k.capCell := rfl

theorem harmless_capCells (h : settings.validate = .ok ()) (entropy : Entropy) (serial : Nat) :
    ((capCells settings).toSequence entropy serial).Harmless Caps := by
  rw [capCells_eq h]
  refine Sequence.harmless_of_notStarted isEffect_caps (kept_delaying isEffect_caps caps_capCell)
    (isFree_delaying _) rfl ?_ (.inl rfl) fun _ h => nomatch h
  exact .cons ⟨_, rfl, _, rfl⟩ (.cons ⟨_, rfl, _, _, rfl⟩ .nil)

theorem harmless_fan {R : Keeping → Keeping → Prop} (hR : IsEffect R)
    (h : settings.validate = .ok ()) (entropy : Entropy) (serial : Nat) :
    ((fan settings).toSequence entropy serial).Harmless R := by
  have hkept : ∀ c ∈ ([waiting anything] : List KeeperContract), c.Kept R := by
    simp [kept_waiting hR]
  have hfree : ∀ c ∈ ([waiting anything] : List KeeperContract), c.IsFree := by
    simp [isFree_waiting]
  rw [fan_eq h]
  refine Sequence.harmless_of_notStarted hR hkept hfree rfl ?_ (.inl rfl) fun _ h => nomatch h
  exact .cons ⟨_, rfl, _, rfl⟩ .nil

def KeeperSequence.IsOnCourse (s : KeeperSequence) (k : Keeping) : Prop :=
  s.Follows Caps anything brewingContracts k

namespace KeeperSequence.IsOnCourse

variable {s : KeeperSequence} {k k' : Keeping}

theorem of_brew (h : settings.validate = .ok ()) {entropy : Entropy} {serial : Nat}
    (hs : (brew settings entropy serial).result = .ok s) (k : Keeping) : IsOnCourse s k := by
  rw [brew_result h, brewLoop_eq h] at hs
  obtain rfl := Except.ok.inj hs
  refine .of_notStarted rfl ?_ trivial (.inr rfl) fun _ h => nomatch h
  refine .cons ⟨_, rfl, rfl⟩ (.cons (holds_together ?_ .all) (.cons ⟨_, rfl, _, _, rfl⟩ .nil))
  intro m hm
  rcases List.mem_pair.mp hm with rfl | rfl
  · exact harmless_fan isEffect_caps h entropy serial
  · exact harmless_capCells h entropy (serial + 1)

/-- The keeper is not thrown off its course by full loads. -/
theorem of_isSupplied (h : IsOnCourse s k) (hk : IsSupplied k k') : IsOnCourse s k' :=
  h.of_survives survives_brewingContracts id hk

theorem advance (h : IsOnCourse s k) (dt : Float32) :
    (∃ outcome, (s.advance dt k).result = .ok outcome) ∧
      IsOnCourse (s.advance dt k).sequence (s.advance dt k).context := by
  have hsurvives : ∀ c ∈ brewingContracts, c.Survives Caps :=
    fun c hc => (survives_brewingContracts c hc).mono Caps.isSupplied
  obtain ⟨ho, -, hnext⟩ := Sequence.Follows.advance h agreed_brewingContracts isEffect_caps
    (fun _ => trivial) hsurvives (fun _ h => h) dt
  exact ⟨ho, hnext⟩

end KeeperSequence.IsOnCourse

end Keeper

end Sequencer.Hive

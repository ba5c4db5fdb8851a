import Sequencer.Proofs.FloatWhole
import Sequencer.Proofs.Hive.Homecoming

/-!
# Nectar is conserved

A full bee carries exactly what a bee can carry, so the stores grow by the same number of units with
every load that is handed over, and shrink by the same number with every unit of honey. All of these
numbers are whole, and the sums of such numbers are exact in single precision below `2 ^ 24`. So the
nectar in the stores is what the counts of loads and of honey say, as long as it stays below that
limit; beyond it, all that is known is that the stores are at least as large as the limit.
-/

namespace Sequencer.Hive

open Contract Foraging Float.Model

/-- The nectar below which all sums are exact. -/
def storeLimit : Float32 := 16777216

theorem isNormal_storeLimit : Single.IsNormal storeLimit :=
  ⟨0x800000, 1, by decide, rfl, by decide, by decide⟩

theorem whole_lt_storeLimit {n : Nat} (hn : n < 2 ^ 24) : Single.whole n < storeLimit := by
  have hlimit : storeLimit.toModel.unpack = .finite .positive 0x800000 1 (by decide) := rfl
  rw [Single.lt_iff, Single.unpack_whole hn, hlimit, Single.unpackedWhole]
  split
  case isTrue hpos =>
    have hlog : n.log2 < 24 := (Nat.log2_lt (Nat.ne_of_gt hpos)).mpr hn
    have hlower : compare ((n.log2 : Int) - 23) 1 = .lt := Int.compare_eq_lt.mpr (by omega)
    simp [UnpackedFloat.lt, UnpackedFloat.compare, hlower]
  case isFalse => rfl

theorem beeCapacity_eq_whole : beeCapacity = Single.whole 5 := by decide +kernel

theorem nectarPerHoney_eq_whole : nectarPerHoney = Single.whole 10 := by decide +kernel

namespace Ledger

variable {l : Ledger}

/-- The nectar that there has to be in the stores. -/
def balance (l : Ledger) : Nat := 5 * l.deposits - 10 * l.honey

/-- Whether there is just as much nectar as has been handed over and not been made into honey. -/
structure IsBalanced (l : Ledger) : Prop where
  nectar : l.nectar = Single.whole l.balance
  fits : l.balance < 2 ^ 24
  honey : 2 * l.honey ≤ l.deposits

inductive IsKept (l : Ledger) : Prop
  | balanced (h : l.IsBalanced)
  /-- The sums are not exact any more. -/
  | overflown (nectar : storeLimit ≤ l.nectar) (balance : 2 ^ 24 ≤ l.balance)

theorem isBalanced_empty : Ledger.empty.IsBalanced := ⟨by decide +kernel, by decide, by decide⟩

theorem IsKept.isBalanced_of_lt (h : l.IsKept) (hlt : l.nectar < storeLimit) : l.IsBalanced := by
  cases h with
  | balanced h => exact h
  | overflown nectar => exact absurd hlt (Single.not_lt_of_le isNormal_storeLimit nectar)

theorem IsKept.isBalanced_of_balance_lt (h : l.IsKept) (hlt : l.balance < 2 ^ 24) :
    l.IsBalanced := by
  cases h with
  | balanced h => exact h
  | overflown _ balance => omega

def loaded (l : Ledger) : Ledger :=
  { l with nectar := l.nectar + beeCapacity, deposits := l.deposits + 1 }

theorem IsBalanced.balance_loaded (h : l.IsBalanced) : l.loaded.balance = l.balance + 5 := by
  have hhoney := h.honey
  simp only [balance, loaded]
  omega

/-- The nectar is a multiple of a load, so the limit is reached from one number only. -/
theorem IsBalanced.balance_of_le (h : l.IsBalanced) (hle : 2 ^ 24 ≤ l.balance + 5) :
    l.balance = 2 ^ 24 - 1 := by
  have hfits := h.fits
  have hhoney := h.honey
  simp only [balance] at *
  omega

theorem IsKept.loaded (h : l.IsKept) : l.loaded.IsKept := by
  cases h with
  | balanced h =>
    have hbalance := h.balance_loaded
    by_cases hfits : l.balance + 5 < 2 ^ 24
    · refine .balanced ⟨?_, by omega, Nat.le_succ_of_le h.honey⟩
      rw [hbalance, ← Single.whole_add hfits, ← h.nectar, ← beeCapacity_eq_whole]
      rfl
    · refine .overflown ?_ (by omega)
      have hlast : storeLimit ≤ Single.whole (2 ^ 24 - 1) + beeCapacity := by decide +kernel
      rw [← h.balance_of_le (by omega), ← h.nectar] at hlast
      exact hlast
  | overflown nectar balance =>
    have hload : beeCapacity ≤ beeCapacity := by decide +kernel
    refine .overflown (Single.le_add isNormal_storeLimit isNormal_beeCapacity nectar hload) ?_
    simp only [Ledger.balance, Ledger.loaded] at *
    omega

theorem IsBalanced.brewed (h : l.IsBalanced) (hstocked : ¬l.nectar < nectarPerHoney) :
    l.brewed.IsBalanced := by
  have hshort : ∀ n < 10, Single.whole n < nectarPerHoney := by decide +kernel
  have henough : 10 ≤ l.balance := by
    by_contra hlt
    exact hstocked (h.nectar ▸ hshort _ (by omega))
  have hhoney := h.honey
  have hbalance : l.brewed.balance = l.balance - 10 := by
    simp only [balance, Ledger.brewed]
    omega
  refine ⟨?nectar, Nat.lt_of_le_of_lt (hbalance ▸ Nat.sub_le ..) h.fits, ?honey⟩
  case nectar =>
    rw [hbalance, ← Single.whole_sub henough h.fits, ← h.nectar, ← nectarPerHoney_eq_whole]
    rfl
  case honey =>
    simp only [balance, Ledger.brewed] at *
    omega

/-- Whether the nectar in the stores is exactly what the loads that were handed over and the honey
that was made come to. -/
structure IsConserved (l : Ledger) : Prop where
  finite : l.nectar.isFinite = true
  nectar : Single.value l.nectar =
    Single.value beeCapacity * l.deposits - Single.value nectarPerHoney * l.honey
  /-- No honey is made from nectar that was not handed over. -/
  honey : 2 * l.honey ≤ l.deposits
  nonneg : 0 ≤ l.nectar

theorem IsBalanced.isConserved (h : l.IsBalanced) : l.IsConserved where
  finite := h.nectar ▸ Single.isFinite_whole h.fits
  nectar := by
    have hhoney := h.honey
    have hle : 10 * l.honey ≤ 5 * l.deposits := by omega
    rw [h.nectar, Single.value_whole h.fits, beeCapacity_eq_whole, nectarPerHoney_eq_whole,
      Single.value_whole (by decide), Single.value_whole (by decide), balance]
    push_cast [Nat.cast_sub hle]
    rfl
  honey := h.honey
  nonneg := h.nectar ▸ Single.whole_nonneg h.fits

end Ledger

/-- Whether a bee, if it is full, carries exactly what a bee can carry. -/
def Bee.IsMeasured (b : Bee) : Prop := b.isFull = true → b.load = beeCapacity

theorem Bee.isMeasured_new (name : String) : (Bee.new name).IsMeasured := fun h => by
  have hempty : ¬beeCapacity ≤ 0 := by decide +kernel
  exact absurd (of_decide_eq_true h) hempty

theorem limitLoad_eq_of_le {load : Float32} (h : beeCapacity ≤ BeeAction.limitLoad load) :
    BeeAction.limitLoad load = beeCapacity := by
  unfold BeeAction.limitLoad at h ⊢
  split at h
  case isTrue hlt => exact absurd hlt (Single.not_lt_of_le isNormal_beeCapacity h)
  case isFalse hlt => rw [if_neg hlt]

/-- Whether the stores are as they have to be and a bee is as well. -/
def Foraging.IsKept (f : Foraging) : Prop := f.ledger.IsKept ∧ f.bee.IsMeasured

theorem BeeMoves.isKept {e : Entry Report} {f f' : Foraging} (h : BeeMoves e f f')
    (hf : f.IsKept) : f'.IsKept := by
  obtain ⟨hledger, hbee⟩ := hf
  cases h with
  | beats _ _ _ hbeats =>
    obtain ⟨wingbeats, rfl⟩ := hbeats
    exact ⟨hledger, hbee⟩
  | flies _ hflies =>
    obtain ⟨position, rfl⟩ := hflies
    exact ⟨hledger, hbee⟩
  | gathers _ _ hgathers =>
    obtain ⟨rate, dt, rfl⟩ := hgathers
    exact ⟨hledger, fun hfull => limitLoad_eq_of_le (of_decide_eq_true hfull)⟩
  | deposits hreturned =>
    have hloaded := hledger.loaded
    rw [Ledger.loaded, ← hbee hreturned.2] at hloaded
    exact ⟨hloaded, Bee.isMeasured_new f.bee.name⟩
  | returned | unloaded | rests => exact ⟨hledger, hbee⟩

theorem isKept_of_replays {t : Trace Report} {f f' : Foraging} (h : Replays BeeMoves f t f')
    (hf : f.IsKept) : f'.IsKept := by
  induction h with
  | nil => exact hf
  | cons change _ ih => exact ih (change.isKept hf)

theorem isMeasured_of_recruit {config : Config} (h : config.validate = .ok ()) {entropy : Entropy}
    {index count : Nat} {foragers : List Forager}
    (hforagers : (recruit config entropy index count).result = .ok foragers) :
    ∀ forager ∈ foragers, forager.bee.IsMeasured := by
  induction count generalizing index foragers with
  | zero =>
    obtain rfl := Except.ok.inj hforagers
    exact List.forall_mem_nil _
  | succ count ih =>
    have hfirst := forage_result (Config.validate_settingsFor h index) entropy (2 * index)
    obtain ⟨rest, hrest, -⟩ := recruit_result h entropy (index + 1) count
    rw [recruit, Construction.result_bind hfirst, Construction.result_bind hrest] at hforagers
    obtain rfl := Except.ok.inj hforagers
    exact List.forall_mem_cons.mpr ⟨Bee.isMeasured_new _, ih hrest⟩

/-- A round of bees keeps the stores, and every bee hands over one load at most. -/
theorem tickForagers_isKept (dt : Float32) {ledger : Ledger} (hledger : ledger.IsKept)
    {finished : List Nat} {foragers : List Forager}
    (h : List.Forall₂ Forager.IsForaging finished foragers)
    (hbees : ∀ forager ∈ foragers, forager.bee.IsMeasured) :
    let bees := tickForagers dt ledger foragers
    bees.ledger.IsKept ∧ bees.foragers.length = foragers.length ∧
      (∀ forager ∈ bees.foragers, forager.bee.IsMeasured) ∧
      bees.ledger.deposits ≤ ledger.deposits + foragers.length := by
  induction h generalizing ledger with
  | nil => exact ⟨hledger, rfl, hbees, Nat.le_refl _⟩
  | @cons n forager finished foragers hfirst hrest ih =>
    obtain ⟨bee, behavior⟩ := forager
    obtain ⟨hbee, hothers⟩ := List.forall_mem_cons.mp hbees
    have hticked : ForageTick n ⟨bee, ledger⟩ (behavior.advance dt ⟨bee, ledger⟩) :=
      (hfirst ledger).advance dt
    obtain ⟨hthere, hbee'⟩ := isKept_of_replays hticked.full.moves ⟨hledger, hbee⟩
    obtain ⟨hlater, hlength, hothers', hdeposits⟩ := ih hthere hothers
    have hone := hticked.full.deposits
    have hle := behavior.passesEnded_advance_le dt ⟨bee, ledger⟩
    simp only [tickForagers, hticked.result]
    refine ⟨hlater, by simp [hlength], List.forall_mem_cons.mpr ⟨hbee', hothers'⟩, ?_⟩
    simp only [List.length_cons] at *
    omega

theorem BrewTick.isBalanced {made : Nat} {k : Keeping} {t : Advance Empty Keeping Report}
    (h : BrewTick made k t) (hk : k.ledger.IsBalanced) : t.context.ledger.IsBalanced := by
  cases h with
  | waited result effect next => exact effect.1 ▸ hk
  | attempted h =>
    cases h with
    | failed lacking result context next due => exact context ▸ hk
    | brewed stocked result context next => exact context ▸ hk.brewed stocked

namespace Colony

variable {c : Colony}

/-- The stores as the keeper will find them in the next tick. -/
def supply (c : Colony) (dt : Float32) : Ledger := (tickForagers dt c.ledger c.foragers).ledger

/-- Whether everyone in a colony is on their course, and the stores and all loads are as they have
to be. -/
structure IsConserving (c : Colony) : Prop where
  foraging : c.IsForaging
  brewing : c.IsBrewing
  course : c.IsOnCourse
  ledger : c.ledger.IsBalanced
  bees : ∀ forager ∈ c.foragers, forager.bee.IsMeasured

namespace IsConserving

theorem isKept_supply (h : c.IsConserving) (dt : Float32) :
    (c.supply dt).IsKept ∧ (c.supply dt).deposits ≤ c.ledger.deposits + c.foragers.length := by
  obtain ⟨finished, hforagers, -⟩ := h.foraging
  obtain ⟨hkept, -, -, hdeposits⟩ := tickForagers_isKept dt (.balanced h.ledger) hforagers h.bees
  exact ⟨hkept, hdeposits⟩

/-- A tick leaves the stores in balance if the bees do not fill them to the limit. -/
theorem tick (h : c.IsConserving) {dt : Float32} (hbelow : (c.supply dt).nectar < storeLimit) :
    (c.tick dt).colony.IsConserving ∧
      (c.tick dt).colony.foragers.length = c.foragers.length ∧
      (c.tick dt).colony.ledger.deposits = (c.supply dt).deposits := by
  obtain ⟨finished, hforagers, -⟩ := h.foraging
  obtain ⟨hkept, hlength, hbees, -⟩ :=
    tickForagers_isKept dt (.balanced h.ledger) hforagers h.bees
  obtain ⟨hr, -⟩ := tickForagers_of_isForaging dt c.ledger hforagers
  have hforaging := h.foraging.tick h.brewing dt
  obtain ⟨hbrewing, -⟩ := h.brewing.tick h.course dt
  obtain ⟨-, hcourse⟩ := h.course.tick dt
  have hhere : c.brewing.IsBrewing c.ledger.honey ⟨c.capped, c.supply dt⟩ :=
    KeeperSequence.IsBrewing.of_keepsCount h.brewing rfl
  have hkeeper := hhere.advance dt
  have hledger := hkeeper.isBalanced (hkept.isBalanced_of_lt hbelow)
  have hcolony : (c.tick dt).colony.ledger =
        (c.brewing.advance dt ⟨c.capped, c.supply dt⟩).context.ledger ∧
      (c.tick dt).colony.foragers = (tickForagers dt c.ledger c.foragers).foragers := by
    simp only [Colony.tick, hr, supply, and_self]
  obtain ⟨hstores, hround⟩ := hcolony
  refine ⟨⟨hforaging, hbrewing, hcourse, hstores ▸ hledger, hround ▸ hbees⟩, ?_, ?_⟩
  · rw [hround, hlength]
  · rw [hstores, hkeeper.deposits]

end IsConserving

/-- Whether the bees do not fill the stores to the limit in any of the next ticks. -/
def StaysBelow (c : Colony) (dt : Float32) (count : Nat) : Prop :=
  ∀ n < count, ((c.ticks dt n).colony.supply dt).nectar < storeLimit

namespace IsConserving

theorem ticks (h : c.IsConserving) {dt : Float32} {count : Nat} (hbelow : c.StaysBelow dt count) :
    let there := (c.ticks dt count).colony
    there.IsConserving ∧ there.foragers.length = c.foragers.length ∧
      there.ledger.deposits ≤ c.ledger.deposits + c.foragers.length * count := by
  induction count generalizing c with
  | zero => exact ⟨h, rfl, Nat.le_refl _⟩
  | succ count ih =>
    obtain ⟨hnext, hlength, hdeposits⟩ := h.tick (hbelow 0 (Nat.succ_pos count))
    obtain ⟨-, hle⟩ := h.isKept_supply dt
    obtain ⟨hr, -⟩ := h.course.tick dt
    have hlater : (c.tick dt).colony.StaysBelow dt count := by
      intro n hn
      have hbelow' := hbelow (n + 1) (Nat.succ_lt_succ hn)
      simpa only [Colony.ticks, hr] using hbelow'
    obtain ⟨hthere, hlength', hdeposits'⟩ := ih hnext hlater
    simp only [Colony.ticks, hr]
    refine ⟨hthere, hlength'.trans hlength, ?_⟩
    rw [hlength] at hdeposits'
    rw [Nat.mul_succ]
    omega

/-- The stores stay below the limit until the bees have had the time to fill them. -/
theorem staysBelow (h : c.IsConserving) {dt : Float32} {count : Nat}
    (hcount : 5 * (c.ledger.deposits + c.foragers.length * count) < 2 ^ 24) :
    c.StaysBelow dt count := by
  induction count with
  | zero => exact fun n hn => absurd hn (Nat.not_lt_zero n)
  | succ count ih =>
    rw [Nat.mul_succ] at hcount
    have hearlier := ih (by omega)
    obtain ⟨hthere, hlength, hdeposits⟩ := h.ticks hearlier
    obtain ⟨hkept, hsupply⟩ := hthere.isKept_supply dt
    intro n hn
    rcases Nat.lt_succ_iff_lt_or_eq.mp hn with hlt | rfl
    · exact hearlier n hlt
    · have hfits : ((c.ticks dt n).colony.supply dt).balance < 2 ^ 24 := by
        simp only [Ledger.balance]
        omega
      have hbalanced := hkept.isBalanced_of_balance_lt hfits
      rw [hbalanced.nectar]
      exact whole_lt_storeLimit hfits

theorem of_found {config : Config} (h : config.validate = .ok ()) {entropy : Entropy}
    (hc : (Colony.found config entropy).result = .ok c) :
    c.IsConserving ∧ c.ledger.deposits = 0 ∧ c.foragers.length = config.bees := by
  obtain ⟨colony, hfound, hcourse⟩ := Colony.found_result h entropy
  obtain rfl := Except.ok.inj (hc.symm.trans hfound)
  have hforaging := Colony.IsForaging.of_found h hc
  obtain ⟨hbrewing, -⟩ := Colony.IsBrewing.of_found h hc
  obtain ⟨foragers, hrecruit, -⟩ := recruit_result h entropy 0 config.bees
  have hbrew := brew_result (Config.validate_sequencer h) entropy (2 * config.bees)
  have hlength := (isForaging_of_recruit h hrecruit).length_eq
  rw [Colony.found, Construction.result_bind hrecruit, Construction.result_bind hbrew] at hc
  obtain rfl := Except.ok.inj hc
  refine ⟨⟨hforaging, hbrewing, hcourse, Ledger.isBalanced_empty, ?_⟩, rfl, ?_⟩
  · exact isMeasured_of_recruit h hrecruit
  · rw [← hlength, List.length_replicate]

end IsConserving

end Colony

/-- Nectar is conserved. After any number of ticks of any length, the nectar in the stores is
exactly the loads that were handed over less the honey that was made, in units of what a bee can
carry and of what honey takes; so no load is lost or counted twice, no honey is made from nectar
that was not handed over, and there is never less than no nectar. All that this takes is that the
bees have not filled the stores to the limit beyond which the sums of single precision are not
exact. They do not get there before the loads that they have had the time for come to as much. -/
theorem nectar_isConserved (config : Config) (entropy : Entropy) (h : config.validate = .ok ()) :
    ∃ colony, (Colony.found config entropy).result = .ok colony ∧
      (∀ dt count, colony.StaysBelow dt count →
        (colony.ticks dt count).result = .ok () ∧
          (colony.ticks dt count).colony.ledger.IsConserved) ∧
      (colony.StaysBelow config.deltaTime config.ticks →
        ∃ totals, (run config entropy).result = .ok totals ∧ totals.ledger.IsConserved) ∧
      ∀ dt count, 5 * (config.bees * count) < 2 ^ 24 → colony.StaysBelow dt count := by
  obtain ⟨colony, hfound, hcourse⟩ := Colony.found_result h entropy
  obtain ⟨hconserving, hdeposits, hbees⟩ := Colony.IsConserving.of_found h hfound
  have hticks (dt : Float32) (count : Nat) (hbelow : colony.StaysBelow dt count) :
      (colony.ticks dt count).result = .ok () ∧
        (colony.ticks dt count).colony.ledger.IsConserved :=
    ⟨(hcourse.ticks dt count).1, (hconserving.ticks hbelow).1.ledger.isConserved⟩
  refine ⟨colony, hfound, hticks, ?run, ?below⟩
  case run =>
    intro hbelow
    obtain ⟨hresult, hconserved⟩ := hticks config.deltaTime config.ticks hbelow
    have hrun : (run config entropy).result =
        .ok ((colony.ticks config.deltaTime config.ticks).colony.totals config.ticks) := by
      simp [run, h, hfound, hresult]
    exact ⟨_, hrun, hconserved⟩
  case below =>
    intro dt count hcount
    refine hconserving.staysBelow ?_
    rwa [hdeposits, hbees, Nat.zero_add]

theorem nectar_isConserved_standard :
    let keys : Entropy := fun serial => .replicate 8 (.ofNat serial)
    Config.standard.validate = .ok () ∧
      ∃ colony totals, (Colony.found .standard keys).result = .ok colony ∧
        colony.StaysBelow 0.1 600 ∧ (run .standard keys).result = .ok totals ∧
        totals.ledger.IsConserved := by
  intro keys
  have hvalid : Config.standard.validate = .ok () := by decide +kernel
  obtain ⟨colony, hfound, -, hrun, hbelow⟩ := nectar_isConserved .standard keys hvalid
  have hsmall : colony.StaysBelow 0.1 600 := hbelow 0.1 600 (by decide)
  obtain ⟨totals, htotals, hconserved⟩ := hrun hsmall
  exact ⟨hvalid, colony, totals, hfound, hsmall, htotals, hconserved⟩

end Sequencer.Hive

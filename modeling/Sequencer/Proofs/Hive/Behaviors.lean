import Sequencer.Hive.Keeper
import Sequencer.Proofs.Grammar

/-!
# The behaviors of a hive as sequences

With valid settings, the chains of calls that define what bees and their keeper do are free of
misuse. What each of them describes is written out here.
-/

namespace Sequencer

variable {A C N : Type} {settings : Settings}

theorem Settings.isProbability_of_valid (h : settings.validate = .ok ()) :
    isProbability settings.maybeProbability = true := by
  unfold Settings.validate at h
  split at h
  · assumption
  · cases h

namespace Builder

theorem withSettings_new (h : settings.validate = .ok ()) (name : String) :
    (new name : Builder A C N).withSettings settings =
      ⟨name, settings, [], none, [], none, []⟩ := by
  simp only [withSettings, h, new]

theorem wait_of_valid {seconds : Float32} (h : (seconds.isFinite && seconds ≥ 0) = true)
    (b : Builder A C N) : b.wait seconds = b.push (.leaf (.wait (.ofSeconds seconds))) :=
  if_pos h

theorem result_of_clean {b : Builder A C N} (hblock : b.block = none) (hmisuses : b.misuses = [])
    (entropy : Entropy) (serial : Nat) :
    b.result entropy serial = .ok (b.toSequence entropy serial) := by
  have hclosed : b.closeBlock = b := by
    rw [closeBlock, hblock]
  exact result_ok_iff.mpr ⟨by rw [hclosed, hmisuses], by rw [hclosed]⟩

end Builder

theorem Construction.result_bind {α β : Type} {c : Construction α} {a : α} (h : c.result = .ok a)
    (next : α → Construction β) : (c >>= next).result = (next a).result := by
  change (c.andThen next).result = (next a).result
  rw [Construction.andThen, h]

namespace Hive

section Bees

open BeeStep

theorem wingbeat_eq (h : settings.validate = .ok ()) :
    wingbeat settings =
      ⟨"wingbeat", settings, [.leaf (.wait (.ofSeconds wingbeatPeriod)), beatWings],
        some .forever, [], none, []⟩ := by
  have hperiod : (wingbeatPeriod.isFinite && wingbeatPeriod ≥ 0) = true := by decide +kernel
  rw [wingbeat, Builder.withSettings_new h, Builder.wait_of_valid hperiod]
  rfl

/-- The steps of a foraging bee that rests with the given probability. -/
def forageSteps (probability : Float) : List BeeStep :=
  [flyTo fieldDistance,
    .branch ⟨.weighted [3, 1], [gatherFrom "clover" 1, gatherFrom "lavender" 2.5], none⟩,
    .branch ⟨.chance probability, [rest], none⟩,
    flyTo 0,
    .branch (.guarded [(beeIsFull, deposit)] (some dropLoad))]

theorem checkWeights_flowers : checkWeights [3, 1] = .ok () := by
  unfold checkWeights
  rw [if_neg (by decide +kernel), if_neg (by decide +kernel), if_pos (by decide +kernel)]

theorem forageLoop_eq (h : settings.validate = .ok ()) (wings : BeeSequence) :
    forageLoop settings wings =
      ⟨"forage", settings, forageSteps settings.maybeProbability, some .forever, [wings], none,
        []⟩ := by
  have hflowers :
      Branch.weighted [(3, gatherFrom "clover" 1), (1, gatherFrom "lavender" 2.5)] =
        .ok ⟨.weighted [3, 1], [gatherFrom "clover" 1, gatherFrom "lavender" 2.5], none⟩ := by
    simp [Branch.weighted, checkWeights_flowers]
  have hrest : Branch.chance settings.maybeProbability rest =
      .ok ⟨.chance settings.maybeProbability, [rest], none⟩ :=
    if_pos (Settings.isProbability_of_valid h)
  rw [forageLoop, Builder.withSettings_new h, Builder.randomOneOfWeighted, hflowers,
    Builder.maybe, Builder.maybeWith]
  simp only [Builder.andThen, Builder.push, Builder.closeBlock, Builder.pushChoice]
  rw [hrest]
  rfl

theorem forage_result (h : settings.validate = .ok ()) (entropy : Entropy) (serial : Nat) :
    (forage settings entropy serial).result =
      .ok ((forageLoop settings ((wingbeat settings).toSequence entropy serial)).toSequence entropy
        (serial + 1)) := by
  have hwings : ((wingbeat settings).done entropy serial).result =
      .ok ((wingbeat settings).toSequence entropy serial) := by
    apply Builder.result_of_clean <;> rw [wingbeat_eq h]
  rw [forage, Construction.result_bind hwings]
  apply Builder.result_of_clean <;> rw [forageLoop_eq h]

end Bees

theorem fan_eq (h : settings.validate = .ok ()) :
    fan settings = ⟨"fan", settings, [.leaf (.wait (.ofSeconds 2))], none, [], none, []⟩ := by
  have htwo : ((2 : Float32).isFinite && (2 : Float32) ≥ 0) = true := by decide +kernel
  rw [fan, Builder.withSettings_new h, Builder.wait_of_valid htwo]
  rfl

theorem capCells_eq (h : settings.validate = .ok ()) :
    capCells settings =
      ⟨"cap cells", settings,
        [.leaf (.wait (.ofSeconds 1)), .leaf (.callback (.modifying Keeping.capCell))],
        none, [], none, []⟩ := by
  have hone : ((1 : Float32).isFinite && (1 : Float32) ≥ 0) = true := by decide +kernel
  rw [capCells, Builder.withSettings_new h, Builder.wait_of_valid hone]
  rfl

theorem brewLoop_eq (h : settings.validate = .ok ()) (sideBySide : List KeeperSequence) :
    brewLoop settings sideBySide =
      ⟨"brew", settings,
        [.leaf (.waitUntil (.reads Keeping.hasNectar)), .parallel (.ofList .all sideBySide),
          .leaf (.callback (.fallible fun _ => Keeping.makeHoney))],
        some .forever, [], none, []⟩ := by
  rw [brewLoop, Builder.withSettings_new h]
  rfl

theorem brew_result (h : settings.validate = .ok ()) (entropy : Entropy) (serial : Nat) :
    (brew settings entropy serial).result =
      .ok ((brewLoop settings [(fan settings).toSequence entropy serial,
        (capCells settings).toSequence entropy (serial + 1)]).toSequence entropy (serial + 2)) := by
  have hfan : ((fan settings).done entropy serial).result =
      .ok ((fan settings).toSequence entropy serial) := by
    apply Builder.result_of_clean <;> rw [fan_eq h]
  have hcap : ((capCells settings).done entropy (serial + 1)).result =
      .ok ((capCells settings).toSequence entropy (serial + 1)) := by
    apply Builder.result_of_clean <;> rw [capCells_eq h]
  rw [brew, Construction.result_bind hfan, Construction.result_bind hcap]
  apply Builder.result_of_clean <;> rw [brewLoop_eq h]

end Hive

end Sequencer

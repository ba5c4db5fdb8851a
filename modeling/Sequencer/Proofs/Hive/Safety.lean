import Sequencer.Hive.Run
import Sequencer.Proofs.Failures
import Sequencer.Proofs.Hive.Contracts

/-!
# Hives do not fail

Every bee of a colony is on its course whatever the others do to the stores, and the keeper is on
its own as long as the others only bring full loads, which is all they do. So a tick of a colony
fails for none of its inhabitants, and a hive that is configured well runs to the end.
-/

namespace Sequencer.Hive

def Forager.IsOnCourse (forager : Forager) : Prop :=
  ∀ ledger, forager.behavior.IsOnCourse ⟨forager.bee, ledger⟩

structure Colony.IsOnCourse (c : Colony) : Prop where
  foragers : ∀ forager ∈ c.foragers, forager.IsOnCourse
  brewing : c.brewing.IsOnCourse ⟨c.capped, c.ledger⟩

theorem tickForagers_of_isOnCourse (dt : Float32) (ledger : Ledger) {foragers : List Forager}
    (h : ∀ forager ∈ foragers, forager.IsOnCourse) :
    let bees := tickForagers dt ledger foragers
    bees.result = .ok () ∧ ledger.Supplied bees.ledger ∧
      ∀ forager ∈ bees.foragers, forager.IsOnCourse := by
  induction foragers generalizing ledger with
  | nil => exact ⟨rfl, .untouched ledger, h⟩
  | cons first rest ih =>
    obtain ⟨bee, behavior⟩ := first
    obtain ⟨hfirst, hrest⟩ := List.forall_mem_cons.mp h
    obtain ⟨⟨outcome, ho⟩, hsupplied, hnext⟩ := (hfirst ledger).advance dt
    obtain ⟨hr, hsupplied', hlater⟩ := ih (behavior.advance dt ⟨bee, ledger⟩).context.ledger hrest
    simp only [tickForagers, ho]
    refine ⟨hr, hsupplied.trans hsupplied', List.forall_mem_cons.mpr ⟨?_, hlater⟩⟩
    exact fun ledger' => hnext.withLedger ledger'

namespace Colony

variable {c : Colony}

/-- A colony on its course gets through a tick, and it stays on its course. -/
theorem IsOnCourse.tick (h : c.IsOnCourse) (dt : Float32) :
    (c.tick dt).result = .ok () ∧ (c.tick dt).colony.IsOnCourse := by
  obtain ⟨hbees, hsupplied, hforagers⟩ := tickForagers_of_isOnCourse dt c.ledger h.foragers
  -- the keeper comes last, and finds the stores as the bees have left them
  have hgifts : Keeping.IsSupplied ⟨c.capped, c.ledger⟩
      ⟨c.capped, (tickForagers dt c.ledger c.foragers).ledger⟩ := hsupplied
  obtain ⟨⟨outcome, ho⟩, hnext⟩ := (h.brewing.of_isSupplied hgifts).advance dt
  simp only [Colony.tick, hbees, ho]
  exact ⟨rfl, hforagers, hnext⟩

theorem IsOnCourse.ticks (h : c.IsOnCourse) (dt : Float32) (count : Nat) :
    (c.ticks dt count).result = .ok () ∧ (c.ticks dt count).colony.IsOnCourse := by
  induction count generalizing c with
  | zero => exact ⟨rfl, h⟩
  | succ count ih =>
    obtain ⟨hr, hnext⟩ := h.tick dt
    simp only [Colony.ticks, hr]
    exact ih hnext

/-- What holds of a colony on its course and is kept by every tick holds after any number of ticks.
It may speak of that number. -/
theorem IsOnCourse.ticks_induct {P : Nat → Colony → Prop} (h : c.IsOnCourse) (hP : P 0 c)
    {dt : Float32}
    (htick : ∀ n (c : Colony), c.IsOnCourse → P n c → P (n + 1) (c.tick dt).colony) (count : Nat) :
    P count (c.ticks dt count).colony := by
  induction count generalizing c P with
  | zero => exact hP
  | succ count ih =>
    obtain ⟨hr, hnext⟩ := h.tick dt
    simp only [Colony.ticks, hr]
    exact ih (P := fun n => P (n + 1)) hnext (htick 0 c h hP) fun n => htick (n + 1)

/-- Whether no one in a colony fails in the next turn. A bee has to cope with any stores, and gives
them nothing but full loads; the keeper has to cope with such gifts. A bee that is gathering is at
the field. -/
structure Thrives (c : Colony) : Prop where
  gathering : ∀ forager ∈ c.foragers, forager.behavior.IsGathering →
    forager.bee.position = fieldDistance
  bees : ∀ forager ∈ c.foragers, ∀ dt ledger,
    let ticked := forager.behavior.advance dt ⟨forager.bee, ledger⟩
    ticked.trace.Succeeds ∧ ledger.Supplied ticked.context.ledger
  keeper : ∀ dt ledger, c.ledger.Supplied ledger →
    (c.brewing.advance dt ⟨c.capped, ledger⟩).trace.Succeeds

theorem IsOnCourse.thrives (h : c.IsOnCourse) : c.Thrives where
  gathering forager hf hgathers := (h.foragers forager hf c.ledger).isAtField hgathers
  bees forager hf dt ledger := by
    obtain ⟨⟨outcome, ho⟩, hsupplied, -⟩ := (h.foragers forager hf ledger).advance dt
    exact ⟨Sequence.succeeds_of_ok ho, hsupplied⟩
  keeper dt ledger hledger := by
    have hgifts : Keeping.IsSupplied ⟨c.capped, c.ledger⟩ ⟨c.capped, ledger⟩ := hledger
    obtain ⟨⟨outcome, ho⟩, -⟩ := (h.brewing.of_isSupplied hgifts).advance dt
    exact Sequence.succeeds_of_ok ho

end Colony

theorem Config.validate_sequencer {config : Config} (h : config.validate = .ok ()) :
    config.sequencer.validate = .ok () := by
  unfold Config.validate at h
  split at h
  · cases h
  · split at h
    · cases h
    · split at h
      · cases h
      · assumption

theorem Config.validate_settingsFor {config : Config} (h : config.validate = .ok ()) (index : Nat) :
    (config.settingsFor index).validate = .ok () :=
  Config.validate_sequencer h

theorem recruit_result {config : Config} (h : config.validate = .ok ()) (entropy : Entropy)
    (index count : Nat) :
    ∃ foragers, (recruit config entropy index count).result = .ok foragers ∧
      ∀ forager ∈ foragers, forager.IsOnCourse := by
  induction count generalizing index with
  | zero => exact ⟨[], rfl, fun _ h => nomatch h⟩
  | succ count ih =>
    have hsettings := Config.validate_settingsFor h index
    have hfirst := forage_result hsettings entropy (2 * index)
    obtain ⟨foragers, hrest, hforagers⟩ := ih (index + 1)
    rw [recruit, Construction.result_bind hfirst, Construction.result_bind hrest]
    refine ⟨_, rfl, List.forall_mem_cons.mpr ⟨?_, hforagers⟩⟩
    exact fun ledger => .of_forage hsettings hfirst _

theorem Colony.found_result {config : Config} (h : config.validate = .ok ()) (entropy : Entropy) :
    ∃ colony, (Colony.found config entropy).result = .ok colony ∧ colony.IsOnCourse := by
  have hsettings := Config.validate_sequencer h
  obtain ⟨foragers, hrecruit, hforagers⟩ := recruit_result h entropy 0 config.bees
  have hbrew := brew_result hsettings entropy (2 * config.bees)
  rw [Colony.found, Construction.result_bind hrecruit, Construction.result_bind hbrew]
  exact ⟨_, rfl, hforagers, .of_brew hsettings hbrew _⟩

/-- A run fails if and only if its configuration is not valid, and then for that reason. With a
valid one, the behavior of every bee and of the keeper can be built, and after any number of ticks
of any length, nothing that is called in the next turn of anyone fails: no gathering that is started
and no making of honey. Bees gather at the field, and give the stores nothing but full loads. -/
theorem run_error_iff (config : Config) (entropy : Entropy) :
    (∀ error, (run config entropy).result = .error error ↔ config.validate = .error error) ∧
      (config.validate = .ok () →
        (∀ index serial, ∃ behavior,
          (forage (config.settingsFor index) entropy serial).result = .ok behavior) ∧
        (∀ serial, ∃ behavior, (brew config.sequencer entropy serial).result = .ok behavior) ∧
        ∃ colony, (Colony.found config entropy).result = .ok colony ∧
          ∀ dt count, (colony.ticks dt count).result = .ok () ∧
            (colony.ticks dt count).colony.Thrives) := by
  refine ⟨?_, ?_⟩
  · intro error
    cases h : config.validate with
    | error invalid => simp [run, h]
    | ok =>
      obtain ⟨colony, hfound, hcourse⟩ := Colony.found_result h entropy
      obtain ⟨hticks, -⟩ := hcourse.ticks config.deltaTime config.ticks
      simp [run, h, hfound, hticks]
  · intro h
    obtain ⟨colony, hfound, hcourse⟩ := Colony.found_result h entropy
    refine ⟨?_, ?_, colony, hfound, ?_⟩
    · exact fun index serial => ⟨_, forage_result (Config.validate_settingsFor h index) entropy _⟩
    · exact fun serial => ⟨_, brew_result (Config.validate_sequencer h) entropy serial⟩
    · intro dt count
      obtain ⟨hticks, hthere⟩ := hcourse.ticks dt count
      exact ⟨hticks, hthere.thrives⟩

theorem run_error_iff_standard :
    let keys : Entropy := fun serial => .replicate 8 (.ofNat serial)
    Config.standard.validate = .ok () ∧
      ∃ colony, (Colony.found .standard keys).result = .ok colony ∧
        (colony.ticks 0.1 600).result = .ok () := by
  intro keys
  have hvalid : Config.standard.validate = .ok () := by decide +kernel
  obtain ⟨-, -, colony, hfound, hticks⟩ := (run_error_iff .standard keys).2 hvalid
  exact ⟨hvalid, colony, hfound, (hticks 0.1 600).1⟩

end Sequencer.Hive

import Sequencer.Proofs.Identities
import Sequencer.Proofs.Views
import Sequencer.Proofs.Hive.Safety

/-!
# Bees do not interfere

Bees share the stores of their hive, but a bee only ever adds to them: whatever it does next depends
on the bee alone. So each bee of a colony goes through the same run as it would on its own, in front
of any stores.
-/

namespace Sequencer.Hive

/-- Whether the bee is the same. The stores may differ. -/
def Foraging.SameBee (f f' : Foraging) : Prop := f.bee = f'.bee

open Foraging

theorem BeeAction.ignores_sameBee : Behavior.Ignores (A := BeeAction) (N := Report) SameBee where
  start action f f' h := by
    obtain ⟨bee, ledger⟩ := f
    obtain ⟨_, ledger'⟩ := f'
    obtain rfl : bee = _ := h
    cases action with
    | fly target arrived => exact ⟨rfl, rfl, rfl⟩
    | gather flower rate gathered =>
      simp only [Behavior.start]
      split <;> exact ⟨rfl, rfl, rfl⟩
  update action dt f f' h := by
    obtain ⟨bee, ledger⟩ := f
    obtain ⟨_, ledger'⟩ := f'
    obtain rfl : bee = _ := h
    cases action with
    | fly target arrived =>
      simp only [Behavior.update]
      split <;> exact ⟨rfl, rfl, rfl⟩
    | gather flower rate gathered => exact ⟨rfl, rfl, rfl⟩
  check action f f' h := by
    obtain ⟨bee, ledger⟩ := f
    obtain ⟨_, ledger'⟩ := f'
    obtain rfl : bee = _ := h
    cases action <;> exact ⟨rfl, rfl⟩
  finish action f f' h := by cases action <;> exact ⟨rfl, h, rfl⟩

theorem ignores_noting {change : Foraging → List Report × Foraging} (alter : Bee → Bee)
    (h : ∀ f, (change f).2.bee = alter f.bee) : (Callback.noting change).Ignores SameBee :=
  fun _ f f' hf => ⟨(h f).trans ((congrArg alter hf).trans (h f').symm), rfl⟩

theorem ignores_deposit : (Callback.noting deposit).Ignores SameBee :=
  ignores_noting (fun bee => { bee with load := 0 }) fun _ => rfl

theorem ignores_dropLoad : (Callback.noting dropLoad).Ignores SameBee :=
  ignores_noting (fun bee => { bee with load := 0 }) fun _ => rfl

theorem ignores_beatWings :
    (Callback.modifying beatWings : Callback Foraging Report).Ignores SameBee :=
  ignores_noting (fun bee => { bee with wingbeats := bee.wingbeats + 1 }) fun _ => rfl

theorem ignores_beeIsFull : beeIsFull.Ignores SameBee :=
  fun _ _ h => congrArg (fun bee : Bee => (.ok bee.isFull : Except TickError Bool)) h

theorem ignores_forageSteps (probability : Float) :
    Step.AllIgnore SameBee (forageSteps probability) := by
  have hguards : ∀ guard ∈ [beeIsFull], guard.Ignores SameBee := by
    simp [ignores_beeIsFull]
  exact ⟨trivial, ⟨trivial, trivial, trivial, trivial⟩, ⟨trivial, trivial, trivial⟩, trivial,
    ⟨hguards, ignores_deposit, ignores_dropLoad, trivial⟩, trivial⟩

section Construction

variable {settings : Settings} (h : settings.validate = .ok ())

include h

theorem ignores_wingbeat (entropy : Entropy) (serial : Nat) :
    ((wingbeat settings).toSequence entropy serial).Ignores SameBee := by
  rw [wingbeat_eq h]
  exact ⟨trivial, ⟨trivial, ignores_beatWings, trivial⟩, trivial⟩

/-- What a bee does next does not depend on the stores. -/
theorem ignores_forage {entropy : Entropy} {serial : Nat} {behavior : BeeSequence}
    (hb : (forage settings entropy serial).result = .ok behavior) : behavior.Ignores SameBee := by
  rw [forage_result h, forageLoop_eq h] at hb
  obtain rfl := Except.ok.inj hb
  exact ⟨trivial, ignores_forageSteps _, ignores_wingbeat h entropy serial, trivial⟩

theorem anonymous_forage {seed : UInt64} (hseed : settings.seed = some seed)
    {entropy entropy' : Entropy} {serial serial' : Nat} {behavior behavior' : BeeSequence}
    (hb : (forage settings entropy serial).result = .ok behavior)
    (hb' : (forage settings entropy' serial').result = .ok behavior') :
    behavior.anonymous = behavior'.anonymous := by
  rw [forage_result h, forageLoop_eq h, wingbeat_eq h] at hb hb'
  obtain rfl := Except.ok.inj hb
  obtain rfl := Except.ok.inj hb'
  simp only [Builder.toSequence, hseed, Option.getD_some]
  rfl

end Construction

namespace Forager

def tick (dt : Float32) (f : Forager) (stores : Ledger) : Except TickError Forager :=
  let ticked := f.behavior.advance dt ⟨f.bee, stores⟩
  ticked.result.map fun _ => ⟨ticked.context.bee, ticked.sequence⟩

/-- A bee and its behavior after one tick in front of each of the given stores, up to the first that
fails. -/
def ticks (dt : Float32) (f : Forager) : List Ledger → Except TickError Forager
  | [] => .ok f
  | stores :: rest => do
    let ticked ← f.tick dt stores
    ticked.ticks dt rest

/-- Whether a bee is the same and its behavior is in the same state, under whatever identity. -/
structure Matches (f f' : Forager) : Prop where
  bee : f.bee = f'.bee
  behavior : f.behavior.anonymous = f'.behavior.anonymous

variable {f f' g : Forager} {dt : Float32}

theorem tick_of_ok {stores : Ledger} {outcome : Outcome}
    (h : (f.behavior.advance dt ⟨f.bee, stores⟩).result = .ok outcome) :
    f.tick dt stores = .ok ⟨(f.behavior.advance dt ⟨f.bee, stores⟩).context.bee,
      (f.behavior.advance dt ⟨f.bee, stores⟩).sequence⟩ := by
  rw [tick, h]
  rfl

theorem exists_of_tick {stores : Ledger} (h : f.tick dt stores = .ok g) :
    ∃ outcome, (f.behavior.advance dt ⟨f.bee, stores⟩).result = .ok outcome ∧
      ⟨(f.behavior.advance dt ⟨f.bee, stores⟩).context.bee,
        (f.behavior.advance dt ⟨f.bee, stores⟩).sequence⟩ = g := by
  cases hr : (f.behavior.advance dt ⟨f.bee, stores⟩).result with
  | error e => simp [tick, hr, Except.map] at h
  | ok outcome => exact ⟨outcome, rfl, Except.ok.inj ((tick_of_ok hr).symm.trans h)⟩

theorem ticks_cons_of_ok {stores : Ledger} (h : f.tick dt stores = .ok g) (rest : List Ledger) :
    f.ticks dt (stores :: rest) = g.ticks dt rest := by
  rw [ticks, h]
  rfl

/-- A tick of equal bees leaves equal bees, whatever is in the stores. -/
theorem Matches.tick (h : f.Matches f') (hf : f.behavior.Ignores SameBee) {stores : Ledger}
    (hg : f.tick dt stores = .ok g) (stores' : Ledger) :
    ∃ g', f'.tick dt stores' = .ok g' ∧ g.Matches g' ∧ g.behavior.Ignores SameBee := by
  -- first the stores are exchanged, then the identity of the behavior
  obtain ⟨hbee, hsequence, hresult, hignores⟩ :
      (f.behavior.advance dt ⟨f.bee, stores⟩).Agrees SameBee
        (f.behavior.advance dt ⟨f.bee, stores'⟩) :=
    Sequence.agrees_advance BeeAction.ignores_sameBee hf dt rfl
  have hnames : (f.behavior.advance dt ⟨f.bee, stores'⟩).anonymous =
      (f'.behavior.advance dt ⟨f'.bee, stores'⟩).anonymous := by
    rw [← Sequence.anonymous_advance, ← Sequence.anonymous_advance, h.behavior, h.bee]
  obtain ⟨outcome, ho, rfl⟩ := exists_of_tick hg
  have ho' : (f'.behavior.advance dt ⟨f'.bee, stores'⟩).result = .ok outcome :=
    (congrArg Advance.result hnames).symm.trans (hresult.symm.trans ho)
  refine ⟨_, tick_of_ok ho', ⟨?_, ?_⟩, hignores⟩
  · exact Eq.trans hbee (congrArg (·.context.bee) hnames)
  · exact (congrArg Sequence.anonymous hsequence).trans (congrArg Advance.sequence hnames)

theorem Matches.ticks (h : f.Matches f') (hf : f.behavior.Ignores SameBee)
    {stores stores' : List Ledger} (hlength : stores'.length = stores.length)
    (hg : f.ticks dt stores = .ok g) : ∃ g', f'.ticks dt stores' = .ok g' ∧ g.Matches g' := by
  induction stores generalizing f f' stores' with
  | nil =>
    obtain rfl := List.length_eq_zero_iff.mp hlength
    obtain rfl := Except.ok.inj hg
    exact ⟨f', rfl, h⟩
  | cons first rest ih =>
    obtain ⟨first', rest', rfl⟩ := List.exists_cons_of_length_eq_add_one hlength
    cases ht : f.tick dt first with
    | error e => simp [Forager.ticks, ht, bind, Except.bind] at hg
    | ok next =>
      obtain ⟨next', ht', hmatches, hnext⟩ := h.tick hf ht first'
      rw [ticks_cons_of_ok ht] at hg
      rw [ticks_cons_of_ok ht']
      exact ih hmatches hnext (Nat.succ.inj hlength) hg

end Forager

/-- In a tick of some bees each of them is ticked in front of the stores as it finds them. -/
theorem exists_tick_of_tickForagers (dt : Float32) (ledger : Ledger) {foragers : List Forager}
    (h : ∀ forager ∈ foragers, forager.IsOnCourse) {index : Nat} {f : Forager}
    (hf : foragers[index]? = some f) :
    ∃ stores g, f.tick dt stores = .ok g ∧
      (tickForagers dt ledger foragers).foragers[index]? = some g := by
  induction foragers generalizing ledger index with
  | nil => cases hf
  | cons first rest ih =>
    obtain ⟨bee, behavior⟩ := first
    obtain ⟨hfirst, hrest⟩ := List.forall_mem_cons.mp h
    obtain ⟨⟨outcome, ho⟩, -⟩ := (hfirst ledger).advance dt
    simp only [tickForagers, ho]
    cases index with
    | zero =>
      obtain rfl := Option.some.inj hf
      exact ⟨ledger, _, Forager.tick_of_ok ho, rfl⟩
    | succ index => exact ih _ hrest hf

namespace Colony

variable {c : Colony}

theorem foragers_tick (c : Colony) (dt : Float32) :
    (c.tick dt).colony.foragers = (tickForagers dt c.ledger c.foragers).foragers := by
  simp only [tick]
  split <;> rfl

/-- A bee of a colony goes through the ticks of the colony as on its own, in front of the stores as
it finds them. -/
theorem IsOnCourse.exists_ticks (h : c.IsOnCourse) (dt : Float32) {index : Nat} {f : Forager}
    (hf : c.foragers[index]? = some f) (count : Nat) :
    ∃ stores g, stores.length = count ∧ f.ticks dt stores = .ok g ∧
      (c.ticks dt count).colony.foragers[index]? = some g := by
  induction count generalizing c f with
  | zero => exact ⟨[], f, rfl, rfl, hf⟩
  | succ count ih =>
    obtain ⟨hr, hnext⟩ := h.tick dt
    obtain ⟨first, next, htick, hf'⟩ := exists_tick_of_tickForagers dt c.ledger h.foragers hf
    rw [← foragers_tick] at hf'
    obtain ⟨rest, g, hlength, hticks, hg⟩ := ih hnext hf'
    refine ⟨first :: rest, g, congrArg (· + 1) hlength, ?_, ?_⟩
    · rw [Forager.ticks_cons_of_ok htick]
      exact hticks
    · simp only [Colony.ticks, hr]
      exact hg

end Colony

theorem getElem?_recruit {config : Config} (h : config.validate = .ok ()) (entropy : Entropy)
    {first count : Nat} {foragers : List Forager}
    (hr : (recruit config entropy first count).result = .ok foragers) {index : Nat}
    (hindex : index < count) :
    ∃ behavior,
      (forage (config.settingsFor (first + index)) entropy (2 * (first + index))).result =
          .ok behavior ∧
        foragers[index]? = some ⟨.new (beeName (first + index)), behavior⟩ := by
  induction count generalizing first foragers index with
  | zero => cases hindex
  | succ count ih =>
    have hfirst := forage_result (Config.validate_settingsFor h first) entropy (2 * first)
    obtain ⟨rest, hrest, -⟩ := recruit_result h entropy (first + 1) count
    rw [recruit, Construction.result_bind hfirst, Construction.result_bind hrest] at hr
    obtain rfl := Except.ok.inj hr
    cases index with
    | zero => exact ⟨_, hfirst, rfl⟩
    | succ index =>
      have hshift : first + 1 + index = first + (index + 1) := by omega
      rw [← hshift]
      exact ih hrest (Nat.lt_of_succ_lt_succ hindex)

theorem Colony.found_foragers {config : Config} (h : config.validate = .ok ()) (entropy : Entropy)
    {colony : Colony} (hc : (Colony.found config entropy).result = .ok colony) {index : Nat}
    (hindex : index < config.bees) :
    ∃ behavior, (forage (config.settingsFor index) entropy (2 * index)).result = .ok behavior ∧
      colony.foragers[index]? = some ⟨.new (beeName index), behavior⟩ := by
  obtain ⟨foragers, hrecruit, -⟩ := recruit_result h entropy 0 config.bees
  have hbrew := brew_result (Config.validate_sequencer h) entropy (2 * config.bees)
  rw [Colony.found, Construction.result_bind hrecruit, Construction.result_bind hbrew] at hc
  obtain rfl := Except.ok.inj hc
  simpa only [Nat.zero_add] using getElem?_recruit h entropy hrecruit hindex

/-- After any number of ticks of a seeded hive, each bee and its behavior are as if the bee had been
ticked as often on its own: with a behavior that is built from the settings of this bee, under any
serial number, and in front of any stores. No tick fails on either side. -/
theorem foragers_independent {config : Config} (h : config.validate = .ok ()) {seed : UInt64}
    (hseed : config.sequencer.seed = some seed) (entropy : Entropy) :
    ∃ colony, (Colony.found config entropy).result = .ok colony ∧
      (run config entropy).result =
        .ok ((colony.ticks config.deltaTime config.ticks).colony.totals config.ticks) ∧
      ∀ count, (colony.ticks config.deltaTime count).result = .ok () ∧
        ∀ index < config.bees, ∃ forager,
          (colony.ticks config.deltaTime count).colony.foragers[index]? = some forager ∧
          ∀ entropy' serial, ∃ behavior,
            (forage (config.settingsFor index) entropy' serial).result = .ok behavior ∧
              ∀ stores : List Ledger, stores.length = count → ∃ alone,
                Forager.ticks config.deltaTime ⟨.new (beeName index), behavior⟩ stores =
                    .ok alone ∧ forager.Matches alone := by
  obtain ⟨colony, hfound, hcourse⟩ := Colony.found_result h entropy
  refine ⟨colony, hfound, ?_, fun count => ⟨(hcourse.ticks _ count).1, fun index hindex => ?_⟩⟩
  · simp [run, h, hfound, (hcourse.ticks config.deltaTime config.ticks).1]
  · have hsettings := Config.validate_settingsFor h index
    obtain ⟨behavior, hbuilt, hbee⟩ := Colony.found_foragers h entropy hfound hindex
    obtain ⟨seen, forager, hlength, hticks, hforager⟩ :=
      hcourse.exists_ticks config.deltaTime hbee count
    refine ⟨forager, hforager, fun entropy' serial => ?_⟩
    obtain ⟨behavior', hbuilt'⟩ : ∃ behavior',
        (forage (config.settingsFor index) entropy' serial).result = .ok behavior' :=
      ⟨_, forage_result hsettings entropy' serial⟩
    have hsame : (config.settingsFor index).seed = some (seed + UInt64.ofNat index) := by
      simp [Config.settingsFor, hseed]
    refine ⟨behavior', hbuilt', fun stores hstores => ?_⟩
    -- only the seed of this bee has gone into the two behaviors, so that they start out alike
    have hmatches :
        Forager.Matches ⟨.new (beeName index), behavior⟩ ⟨.new (beeName index), behavior'⟩ :=
      ⟨rfl, anonymous_forage hsettings hsame hbuilt hbuilt'⟩
    exact hmatches.ticks (ignores_forage hsettings hbuilt) (hstores.trans hlength.symm) hticks

theorem foragers_independent_seeded :
    let config : Config := { Config.standard with sequencer := .seeded 7 }
    config.validate = .ok () ∧ config.sequencer.seed = some 7 ∧
      ∃ colony forager behavior alone,
        (Colony.found config fun _ => .ofSeed 0).result = .ok colony ∧
        (colony.ticks config.deltaTime 600).colony.foragers[2]? = some forager ∧
        (forage (config.settingsFor 2) (fun _ => .ofSeed 1) 0).result = .ok behavior ∧
        Forager.ticks config.deltaTime ⟨.new "bee-2", behavior⟩ (List.replicate 600 .empty) =
            .ok alone ∧
          forager.Matches alone := by
  intro config
  have hvalid : config.validate = .ok () := by decide +kernel
  obtain ⟨colony, hfound, -, hticks⟩ := foragers_independent hvalid rfl fun _ => .ofSeed 0
  obtain ⟨forager, hforager, halone⟩ := (hticks 600).2 2 (by decide)
  obtain ⟨behavior, hbuilt, hstores⟩ := halone (fun _ => .ofSeed 1) 0
  obtain ⟨alone, hrun, hmatches⟩ := hstores (List.replicate 600 .empty) List.length_replicate
  exact ⟨hvalid, rfl, colony, forager, behavior, alone, hfound, hforager, hbuilt, hrun, hmatches⟩

end Sequencer.Hive

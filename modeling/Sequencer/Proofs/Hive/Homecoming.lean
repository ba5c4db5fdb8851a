import Sequencer.Proofs.Hive.Brewing
import Sequencer.Proofs.Hive.Moves

/-!
# No bee comes home short

A bee that is done with gathering is full, and neither its rest nor its flight home changes that. So
the branch in which it gets rid of its load always picks the arm that hands the load over, within
the tick in which the bee arrives; the arm that throws the load away never runs. A pass of the loop
ends in that same tick, so the loads in the stores are as many as the passes that the bees have
finished.
-/

namespace Sequencer.Hive

open Contract Foraging

/-- Whether a bee does not come home short in a tick. -/
structure ComesHomeFull (f : Foraging) (t : Advance BeeAction Foraging Report) : Prop where
  /-- The bee changes only as it may along its trace. -/
  moves : Replays BeeMoves f t.trace t.context
  /-- It does not throw its load away. -/
  keeps : ∀ e ∈ t.trace, ∀ place, e.path ≠ .step 4 :: .child 1 :: place
  /-- It hands over one load for every pass that it finishes. -/
  deposits : t.context.ledger.deposits = f.ledger.deposits + t.trace.passesEnded

theorem ComesHomeFull.of_moves {f : Foraging} {t : Advance BeeAction Foraging Report}
    (moves : Replays BeeMoves f t.trace t.context)
    (deposits : t.context.ledger.deposits = f.ledger.deposits + t.trace.passesEnded) :
    ComesHomeFull f t := by
  refine ⟨moves, fun e he place => ?_, deposits⟩
  obtain ⟨_, _, hmoves⟩ := moves.exists_of_mem he
  exact hmoves.path_ne place

theorem ComesHomeFull.advance {s : BeeSequence} {dt : Float32} {f : Foraging} {outcome : Outcome}
    (h : ComesHomeFull f (s.begun.resume dt f))
    (hr : (s.begun.resume dt f).result = .ok outcome)
    (hcompanions : ∀ c ∈ s.begun.companions, c.Harmless Beats) :
    ComesHomeFull f (s.advance dt f) := by
  have hended := s.passesEnded_advance dt f
  obtain ⟨-, hbeats, -⟩ := harmless_advanceAll isEffect_beats dt .companion 0 hcompanions
    (s.begun.resume dt f).context
  rw [Sequence.advance_of_ok hr] at hended ⊢
  refine .of_moves ?moves ?deposits
  case moves =>
    have hopening : Replays BeeMoves f s.opening f := by
      refine .still fun e he => .rests fun place hplace => ?_
      cases (Sequence.path_of_mem_opening he).symm.trans hplace
    have hround := replays_advanceAll isEffect_beats dt .companion
      (fun j place event _ _ hbeats => BeeMoves.beats j place event hbeats) 0 hcompanions
      (s.begun.resume dt f).context
    exact .cons (.rests fun place => by simp) ((hopening.append h.moves).append hround)
  case deposits =>
    rw [hended, ← h.deposits]
    exact congrArg Ledger.deposits hbeats.keepsStores.symm

/-- Whether the behavior of a bee is on its course, when the bee has finished so many passes. -/
structure BeeSequence.IsForaging (finished : Nat) (s : BeeSequence) (f : Foraging) : Prop where
  loops : ∃ probability,
    s.Loops Beats HasReturned (homewardContracts probability) IsUnloadingStep f
  passes : s.passes = min finished maxPasses
  fresh : s.status = .notStarted → finished = 0

/-- What a tick of a bee comes to that has finished so many passes. -/
structure ForageTick (finished : Nat) (f : Foraging) (t : Advance BeeAction Foraging Report) :
    Prop where
  result : t.result = .ok .running
  full : ComesHomeFull f t
  next : BeeSequence.IsForaging (finished + t.trace.passesEnded) t.sequence t.context

namespace BeeSequence.IsForaging

variable {finished : Nat} {s : BeeSequence} {f f' : Foraging}

theorem of_running (hs : s.status = .running) {probability : Float}
    (hloops : s.Loops Beats HasReturned (homewardContracts probability) IsUnloadingStep f)
    (hpasses : s.passes = min finished maxPasses) : s.IsForaging finished f :=
  ⟨⟨probability, hloops⟩, hpasses, fun h => nomatch hs.symm.trans h⟩

theorem of_stays (h : s.IsForaging finished f) (hf : Stays f f') : s.IsForaging finished f' := by
  obtain ⟨probability, hloops⟩ := h.loops
  have hsurvives := survives_homewardContracts probability
  exact ⟨⟨probability, hloops.of_survives hsurvives (.of_stays hf) hf⟩, h.passes, h.fresh⟩

theorem passes_begun (h : s.IsForaging finished f) : s.begun.passes = min finished maxPasses := by
  unfold Sequence.begun
  split
  case isTrue hs => simp [h.fresh hs, Sequence.passes, Progress.initial]
  case isFalse => exact h.passes

/-- A bee that gets home in the state `there` hands over its load, and sets out again. -/
theorem unload (hs : s.status = .running) {probability : Float}
    (hloops : s.Loops Beats HasReturned (homewardContracts probability) IsUnloadingStep f)
    (hpasses : s.passes = min finished maxPasses) {dt : Float32} {last : BeeStep}
    (hlast : IsUnloadingStep last) {there : Foraging} (heffect : f.KeepsStores there)
    {front : List BeeStep}
    (hcourse : Course HasReturned there (homewardContracts probability) front 4)
    {earlier : Trace Report} (hmoves : Replays BeeMoves f earlier there) {generator : Generator}
    (hwalk : let t := Step.tick false dt last there generator
      s.walk dt f = ⟨earlier ++ t.trace.under (.step 4), t.context, t.generator, front ++ [t.step],
        4 + if t.result = .ok true then 1 else 0, t.result⟩) :
    ForageTick finished f (s.resume dt f) := by
  have hkept := kept_homewardContracts probability
  have hnone := s.passesEnded_walk dt f
  obtain ⟨hr, hcontext, hstep, htells⟩ := hlast.tick (hcourse.gives_of_length rfl) dt generator
  dsimp only at hwalk
  generalize Step.tick false dt last there generator = t at hr hcontext hstep htells hwalk
  rw [hwalk] at hnone
  obtain ⟨hresult, hstores, ⟨entering, happend, hended, hentering⟩, front', generator', hcourse',
    hnext⟩ := Sequence.exists_resume_of_last HasReturned hs hloops.policy hwalk hr
      rfl (hcourse.allHold hkept) (hkept _ List.mem_cons_self) trivial
  have hone : (s.resume dt f).trace.passesEnded = 1 := by
    rw [happend, Trace.passesEnded_append, hnone, hended]
  refine ⟨hresult, .of_moves ?moves ?deposits, ?next⟩
  case moves =>
    have hsetsOut := hentering BeeMoves (fun event f => .rests fun place => nofun)
      (tells_homewardContracts (i := 0) probability rfl)
    rw [happend]
    exact (hmoves.append htells.under).append hsetsOut
  case deposits =>
    rw [hone, ← hstores, hcontext, heffect]
    rfl
  case next =>
    rw [hone, hnext]
    refine of_running hs (.of_running hs hloops.policy hloops.companions rfl hcourse' hstep) ?_
    change min (s.passes + 1) maxPasses = _
    omega

theorem resume (hs : s.status = .running) {probability : Float}
    (hloops : s.Loops Beats HasReturned (homewardContracts probability) IsUnloadingStep f)
    (hpasses : s.passes = min finished maxPasses) (dt : Float32) :
    ForageTick finished f (s.resume dt f) := by
  obtain ⟨front, last, hsteps, hcourse, hlast⟩ := hloops.stage_of_running hs
  have hc : s.status ≠ .complete := hs ▸ Status.noConfusion
  have hnone := s.passesEnded_walk dt f
  have hkept := kept_homewardContracts probability
  have hfit := fit_homewardContracts probability
  have hmoves := hcourse.replays isEffect_keepsStores hkept hfit 0
    (fun i (hi : i < 4) => BeeMoves.rests_of_lt (by omega))
    (fun i c hc => by simpa using tells_homewardContracts probability hc) dt s.generator
  have hwalks := Sequence.walksTo_walk hsteps hcourse isEffect_keepsStores hkept hfit dt
  generalize hwalk : s.walk dt f = walked at hnone hwalks
  cases hwalks with
  | stopped result effect course =>
    rw [Sequence.resume_of_held hc (by rw [hwalk, result]), hwalk]
    refine ⟨rfl, .of_moves hmoves ?_, ?_⟩
    · rw [← effect, hnone, Nat.add_zero]
    · rw [hnone, Nat.add_zero]
      exact of_running hs (.of_running hs hloops.policy hloops.companions rfl course hlast) hpasses
  | passed effect course tick =>
    subst tick
    exact unload hs hloops hpasses hlast effect course hmoves hwalk

/-- A tick of a bee takes it through its loop, while its wings beat. -/
theorem advance (h : s.IsForaging finished f) (dt : Float32) :
    ForageTick finished f (s.advance dt f) := by
  obtain ⟨probability, hloops⟩ := h.loops
  obtain ⟨hbegun, hs⟩ := hloops.begun
  have hbody := resume hs hbegun h.passes_begun dt
  obtain ⟨⟨n, hround⟩, hbeats, hcompanions⟩ := harmless_advanceAll isEffect_beats dt .companion 0
    hbegun.companions (s.begun.resume dt f).context
  have hended := s.passesEnded_advance dt f
  have hadvance := Sequence.advance_of_ok hbody.result
  refine ⟨?result, hbody.full.advance hbody.result hbegun.companions, ?next⟩
  case result =>
    rw [hadvance]
    exact congrArg (Except.map fun _ => Outcome.running) hround
  case next =>
    rw [hended, hadvance]
    have hne := Sequence.status_resume_ne s.begun_status_ne dt f
    obtain ⟨⟨probability', hnext⟩, hpasses, -⟩ := hbody.next
    have hthere : IsForaging _ _ _ :=
      ⟨⟨probability', hnext.withCompanions hne hcompanions⟩, hpasses, fun h => absurd h hne⟩
    exact hthere.of_stays hbeats.stays

theorem of_forage {settings : Settings} (h : settings.validate = .ok ()) {entropy : Entropy}
    {serial : Nat} (hs : (forage settings entropy serial).result = .ok s) (f : Foraging) :
    s.IsForaging 0 f := by
  rw [forage_result h, forageLoop_eq h] at hs
  obtain rfl := Except.ok.inj hs
  have hfront : AllHold (homewardContracts settings.maybeProbability)
      ((forageSteps settings.maybeProbability).take 4) := by
    refine .cons ⟨_, rfl, _, rfl⟩ (.cons ⟨_, _, rfl, ?_⟩ (.cons ⟨_, _, rfl, ?_⟩
      (.cons ⟨_, rfl, _, rfl⟩ .nil)))
    · exact .cons ⟨_, rfl, _, rfl⟩ (.cons ⟨_, rfl, _, rfl⟩ .nil)
    · exact .cons ⟨_, rfl, _, rfl⟩ .nil
  refine ⟨⟨_, .of_notStarted rfl rfl ?companions rfl hfront trivial ?last⟩, rfl, fun _ => rfl⟩
  case companions =>
    intro c hc
    obtain rfl := List.mem_singleton.mp (Group.mem_ofList hc)
    exact harmless_wingbeat h entropy serial
  case last => exact ⟨rfl, _, _, _, _, _, rfl⟩

end BeeSequence.IsForaging

/-- Whether a bee that has finished so many passes is on its course, whatever is in the stores. -/
def Forager.IsForaging (finished : Nat) (forager : Forager) : Prop :=
  ∀ ledger, forager.behavior.IsForaging finished ⟨forager.bee, ledger⟩

theorem BeeSequence.IsForaging.forager {finished : Nat} {s : BeeSequence} {f : Foraging}
    (h : s.IsForaging finished f) : Forager.IsForaging finished ⟨f.bee, s⟩ :=
  fun _ => h.of_stays ⟨rfl, rfl⟩

/-- A round of bees adds to the stores as many loads as passes end. -/
theorem tickForagers_of_isForaging (dt : Float32) (ledger : Ledger) {finished : List Nat}
    {foragers : List Forager} (h : List.Forall₂ Forager.IsForaging finished foragers) :
    let bees := tickForagers dt ledger foragers
    bees.result = .ok () ∧ ∃ finished', List.Forall₂ Forager.IsForaging finished' bees.foragers ∧
      bees.ledger.deposits + finished.sum = ledger.deposits + finished'.sum := by
  induction h generalizing ledger with
  | nil => exact ⟨rfl, [], .nil, rfl⟩
  | @cons n forager finished foragers hfirst hrest ih =>
    obtain ⟨bee, behavior⟩ := forager
    have hticked : ForageTick n ⟨bee, ledger⟩ (behavior.advance dt ⟨bee, ledger⟩) :=
      (hfirst ledger).advance dt
    obtain ⟨hr, finished', hlater, hdeposits⟩ :=
      ih (behavior.advance dt ⟨bee, ledger⟩).context.ledger
    have hone : (behavior.advance dt ⟨bee, ledger⟩).context.ledger.deposits =
        ledger.deposits + (behavior.advance dt ⟨bee, ledger⟩).trace.passesEnded :=
      hticked.full.deposits
    simp only [tickForagers, hticked.result]
    refine ⟨hr, _, .cons hticked.next.forager hlater, ?_⟩
    simp only [List.sum_cons]
    omega

/-- Whether the bees of a colony are on their courses, and have handed over a load for every pass
that they have finished. -/
def Colony.IsForaging (c : Colony) : Prop :=
  ∃ finished, List.Forall₂ Forager.IsForaging finished c.foragers ∧
    c.ledger.deposits = finished.sum

theorem BrewTick.deposits {made : Nat} {k : Keeping} {t : Advance Empty Keeping Report}
    (h : BrewTick made k t) : t.context.ledger.deposits = k.ledger.deposits := by
  rcases h.ledger with hledger | hledger <;> rw [hledger]
  rfl

theorem isForaging_of_recruit {config : Config} (h : config.validate = .ok ()) {entropy : Entropy}
    {index count : Nat} {foragers : List Forager}
    (hforagers : (recruit config entropy index count).result = .ok foragers) :
    List.Forall₂ Forager.IsForaging (List.replicate count 0) foragers := by
  induction count generalizing index foragers with
  | zero =>
    obtain rfl := Except.ok.inj hforagers
    exact .nil
  | succ count ih =>
    have hsettings := Config.validate_settingsFor h index
    have hfirst := forage_result hsettings entropy (2 * index)
    obtain ⟨rest, hrest, -⟩ := recruit_result h entropy (index + 1) count
    rw [recruit, Construction.result_bind hfirst, Construction.result_bind hrest] at hforagers
    obtain rfl := Except.ok.inj hforagers
    exact .cons (fun ledger => .of_forage hsettings hfirst _) (ih hrest)

namespace Colony.IsForaging

variable {c : Colony}

theorem tick (h : c.IsForaging) (hbrewing : c.IsBrewing) (dt : Float32) :
    (c.tick dt).colony.IsForaging := by
  obtain ⟨finished, hforagers, hsum⟩ := h
  obtain ⟨hr, finished', hforagers', hdeposits⟩ := tickForagers_of_isForaging dt c.ledger hforagers
  have hhere : c.brewing.IsBrewing c.ledger.honey
      ⟨c.capped, (tickForagers dt c.ledger c.foragers).ledger⟩ := hbrewing.of_keepsCount rfl
  have hkeeper := (hhere.advance dt).deposits
  simp only [Colony.tick, hr]
  refine ⟨finished', hforagers', ?_⟩
  simp only [hkeeper]
  omega

theorem ticks (h : c.IsForaging) (hbrewing : c.IsBrewing) (hcourse : c.IsOnCourse) (dt : Float32)
    (count : Nat) : (c.ticks dt count).colony.IsForaging := by
  suffices hboth : (c.ticks dt count).colony.IsForaging ∧ (c.ticks dt count).colony.IsBrewing from
    hboth.1
  refine hcourse.ticks_induct (P := fun _ c => c.IsForaging ∧ c.IsBrewing) ⟨h, hbrewing⟩ ?_ count
  rintro n c' hcourse' ⟨hforaging, hbrewing'⟩
  exact ⟨hforaging.tick hbrewing' dt, (hbrewing'.tick hcourse' dt).1⟩

/-- The bees tell their passes truly up to the largest number that they can tell. -/
theorem sum_passes (h : c.IsForaging) (hmax : c.ledger.deposits ≤ maxPasses) :
    c.ledger.deposits = (c.foragers.map fun forager => forager.behavior.passes).sum := by
  obtain ⟨finished, hforagers, hsum⟩ := h
  rw [hsum] at hmax ⊢
  generalize c.foragers = foragers at hforagers
  clear hsum
  induction hforagers with
  | nil => rfl
  | @cons n forager finished foragers hfirst _ ih =>
    have hpasses := (hfirst .empty).passes
    simp only [List.sum_cons, List.map_cons] at hmax ⊢
    rw [← ih (by omega), hpasses]
    omega

theorem comesHomeFull (h : c.IsForaging) {forager : Forager} (hf : forager ∈ c.foragers)
    (dt : Float32) (found : Ledger) :
    ComesHomeFull ⟨forager.bee, found⟩ (forager.behavior.advance dt ⟨forager.bee, found⟩) := by
  obtain ⟨finished, hforagers, -⟩ := h
  obtain ⟨index, hindex⟩ := List.mem_iff_getElem?.mp hf
  obtain ⟨n, -, hforager⟩ := exists_getElem?_of_forall₂ hforagers.flip hindex
  exact ((hforager found).advance dt).full

theorem of_found {config : Config} (h : config.validate = .ok ()) {entropy : Entropy}
    (hc : (Colony.found config entropy).result = .ok c) : c.IsForaging := by
  obtain ⟨foragers, hrecruit, -⟩ := recruit_result h entropy 0 config.bees
  have hbrew := brew_result (Config.validate_sequencer h) entropy (2 * config.bees)
  rw [Colony.found, Construction.result_bind hrecruit, Construction.result_bind hbrew] at hc
  obtain rfl := Except.ok.inj hc
  exact ⟨_, isForaging_of_recruit h hrecruit, by simp [Ledger.empty]⟩

end Colony.IsForaging

/-- No bee comes home short. Whatever the draws come to, in every tick after any number of ticks of
any length, and whatever the stores are like by then, a bee is home and full when it picks an arm of
the last branch of its loop, which is the first arm. Its load changes only where it gathers at the
field and where it hands everything over at home, and that happens once for every pass that the bee
finishes. So the loads in the stores are as many as the passes that the bees have finished, as far
as these are counted. -/
theorem bees_comeHomeFull (config : Config) (entropy : Entropy) (h : config.validate = .ok ()) :
    ∃ colony, (Colony.found config entropy).result = .ok colony ∧ ∀ dt count,
      let c := (colony.ticks dt count).colony
      (colony.ticks dt count).result = .ok () ∧
        (∀ forager ∈ c.foragers, ∀ dt' found, ComesHomeFull ⟨forager.bee, found⟩
          (forager.behavior.advance dt' ⟨forager.bee, found⟩)) ∧
        (c.ledger.deposits ≤ maxPasses → c.ledger.deposits =
          (c.foragers.map fun forager => forager.behavior.passes).sum) := by
  obtain ⟨colony, hfound, hcourse⟩ := Colony.found_result h entropy
  obtain ⟨hbrewing, -⟩ := Colony.IsBrewing.of_found h hfound
  have hforaging := Colony.IsForaging.of_found h hfound
  refine ⟨colony, hfound, fun dt count => ?_⟩
  obtain ⟨hticks, -⟩ := hcourse.ticks dt count
  have hthere := hforaging.ticks hbrewing hcourse dt count
  exact ⟨hticks, fun forager hf => hthere.comesHomeFull hf, hthere.sum_passes⟩

theorem bees_comeHomeFull_standard :
    let keys : Entropy := fun serial => .replicate 8 (.ofNat serial)
    Config.standard.validate = .ok () ∧
      ∃ colony, (Colony.found .standard keys).result = .ok colony ∧
        ∀ forager ∈ (colony.ticks 0.1 600).colony.foragers, ∀ found,
          ComesHomeFull ⟨forager.bee, found⟩
            (forager.behavior.advance 0.1 ⟨forager.bee, found⟩) := by
  intro keys
  have hvalid : Config.standard.validate = .ok () := by decide +kernel
  obtain ⟨colony, hfound, hticks⟩ := bees_comeHomeFull .standard keys hvalid
  obtain ⟨-, hfull, -⟩ := hticks 0.1 600
  exact ⟨hvalid, colony, hfound, fun forager hf => hfull forager hf 0.1⟩

end Sequencer.Hive

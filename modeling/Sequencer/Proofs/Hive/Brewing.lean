import Sequencer.Proofs.Companions
import Sequencer.Proofs.Hive.Safety
import Sequencer.Proofs.Loops

/-!
# Honey and capped cells

In every pass of its loop a keeper caps one cell and then makes one unit of honey. The cell is
capped by a member of a group, in whatever tick its wait is over, and the honey is made by the loop,
when there is enough nectar. So the two counts differ by one from the capping on until the honey is
made, however often that fails, and are equal for the rest of the pass.

The contracts of the steps before the last say how many cells are capped, counted from the honey
that was made in earlier passes. The last step may fail, and has no contract.
-/

namespace Sequencer.Hive

open Contract Keeping

def Ledger.brewed (l : Ledger) : Ledger :=
  { l with nectar := l.nectar - nectarPerHoney, honey := l.honey + 1 }

def notEnoughNectar : TickError := .invalidContext "not enough nectar to brew"

theorem Keeping.context_makeHoney_of_error {k : Keeping} {error : TickError}
    (h : k.makeHoney.result = .error error) : k.makeHoney.context = k := by
  unfold makeHoney at h ⊢
  split at h
  case isTrue hlt => rw [if_pos hlt]
  case isFalse hlt => cases h

theorem Keeping.makeHoney_of_lt {k : Keeping} (h : k.ledger.nectar < nectarPerHoney) :
    k.makeHoney = ⟨[], k, .error notEnoughNectar⟩ :=
  if_pos h

theorem Keeping.makeHoney_of_not_lt {k : Keeping} (h : ¬k.ledger.nectar < nectarPerHoney) :
    k.makeHoney =
      ⟨[.honeyMade (k.ledger.honey + 1)], { k with ledger := k.ledger.brewed }, .ok ()⟩ :=
  if_neg h

/-- Whether a step makes honey and has not done so in its activation. -/
def IsHoneyStep (s : Step Empty Keeping Report) : Prop :=
  ∃ runs fired,
    s.kind = .leaf (.callback ⟨(Callback.fallible fun _ => Keeping.makeHoney).run, runs, fired⟩) ∧
      (s.state = .notStarted ∨ s.state = .active ∧ fired = false)

theorem IsHoneyStep.tick {s : Step Empty Keeping Report} (h : IsHoneyStep s) (dt : Float32)
    (k : Keeping) (generator : Generator) :
    let t := Step.tick false dt s k generator
    (k.ledger.nectar < nectarPerHoney →
        t.result = .error notEnoughNectar ∧ t.context = k ∧ IsHoneyStep t.step) ∧
      (¬k.ledger.nectar < nectarPerHoney →
        t.result = .ok true ∧ t.context = { k with ledger := k.ledger.brewed } ∧
          IsHoneyStep t.step.reset) := by
  obtain ⟨state, kind⟩ := s
  obtain ⟨runs, fired, rfl, hstate⟩ := h
  have hrun : (Callback.fallible fun _ => Keeping.makeHoney).run runs k = k.makeHoney := rfl
  refine ⟨fun hlt => ?_, fun hlt => ?_⟩
  · rw [makeHoney_of_lt hlt] at hrun
    rcases hstate with rfl | ⟨rfl, rfl⟩ <;>
      simp [Step.tick, StepKind.tick, StepTick.ofAction, Action.enter, Action.reload, Action.start,
        Action.drive, Action.update, StepTick.ofDriven, StepTick.marked, hrun, IsHoneyStep]
  · rw [makeHoney_of_not_lt hlt] at hrun
    rcases hstate with rfl | ⟨rfl, rfl⟩ <;>
      simp [Step.tick, StepKind.tick, StepTick.ofAction, Action.enter, Action.reload, Action.start,
        Action.drive, Action.update, Action.check, Action.finish, Except.map, StepTick.ofDriven,
        StepTick.marked, hrun, IsHoneyStep, Step.reset]

def Keeping.HasCapped (n : Nat) (k : Keeping) : Prop := k.capped = n

theorem Keeping.HasCapped.eq_of_ledger {n : Nat} {k k' : Keeping} (h : k.HasCapped n)
    (h' : k'.HasCapped n) (hledger : k.ledger = k'.ledger) : k = k' := by
  obtain ⟨capped, ledger⟩ := k
  obtain ⟨capped', ledger'⟩ := k'
  cases h
  cases h'
  cases hledger
  rfl

/-- Whether the stores stay as they are, and no capped cell is lost. -/
def Keeping.Tends (k k' : Keeping) : Prop := k.ledger = k'.ledger ∧ k.capped ≤ k'.capped

theorem Keeping.isEffect_tends : IsEffect Tends where
  refl _ := ⟨rfl, Nat.le_refl _⟩
  trans h h' := ⟨h.1.trans h'.1, Nat.le_trans h.2 h'.2⟩

theorem Keeping.isEffect_eq : IsEffect (Eq : Keeping → Keeping → Prop) := ⟨fun _ => rfl, Eq.trans⟩

def cappingContracts (capped : Nat) : List KeeperContract :=
  [waiting (HasCapped capped),
    calling (Callback.modifying capCell).run (HasCapped capped) (HasCapped (capped + 1))]

theorem kept_cappingContracts (capped : Nat) : ∀ c ∈ cappingContracts capped, c.Kept Tends := by
  have hcalling : (calling (Callback.modifying capCell).run (HasCapped capped)
      (HasCapped (capped + 1)) : KeeperContract).Kept Tends :=
    kept_calling isEffect_tends fun _ k hk =>
      ⟨rfl, ⟨rfl, Nat.le_succ k.capped⟩, congrArg (· + 1) hk⟩
  simp [cappingContracts, kept_waiting isEffect_tends, hcalling]

theorem fit_cappingContracts (capped : Nat) :
    Fit (HasCapped (capped + 1)) (cappingContracts capped) :=
  ⟨fun _ h => h, fun _ h => h, trivial⟩

/-- What the steps hold has nothing to do with the count. -/
theorem allHold_cappingContracts {capped : Nat} {steps : List (Step Empty Keeping Report)}
    (h : AllHold (cappingContracts capped) steps) (capped' : Nat) :
    AllHold (cappingContracts capped') steps :=
  match h with
  | .cons hwaiting (.cons hcalling .nil) => .cons hwaiting (.cons hcalling .nil)

structure KeeperSequence.IsCapping (s : KeeperSequence) : Prop where
  policy : s.policy = .once
  companions : s.companions = []
  steps : ∀ capped, AllHold (cappingContracts capped) s.steps

/-- Whether a sequence is capping the cell that comes after so many others. -/
abbrev KeeperSequence.CapsNext (s : KeeperSequence) (capped : Nat) (k : Keeping) : Prop :=
  s.Passes (HasCapped (capped + 1)) (cappingContracts capped) k

theorem KeeperSequence.CapsNext.isCapping {s : KeeperSequence} {capped : Nat} {k : Keeping}
    (h : s.CapsNext capped k) : s.IsCapping :=
  ⟨h.policy, h.companions, allHold_cappingContracts (h.allHold (kept_cappingContracts capped))⟩

def tending (capped : Nat) : KeeperContract where
  needs := HasCapped capped
  gives := HasCapped (capped + 1)
  holds kind := ∃ fanning capping : KeeperSequence, kind = .parallel ⟨.all, [fanning, capping]⟩ ∧
    fanning.Harmless Eq ∧ capping.IsCapping
  busy kind k := ∃ fanning capping : KeeperSequence, kind = .parallel ⟨.all, [fanning, capping]⟩ ∧
    fanning.Harmless Eq ∧ capping.CapsNext capped k

theorem advanceAll_pair {first second : KeeperSequence} {dt : Float32} {k : Keeping}
    {o o' : Outcome} (h : (first.advance dt k).result = .ok o)
    (h' : (second.advance dt (first.advance dt k).context).result = .ok o') :
    let round := advanceAll false dt .member 0 [first, second] k
    let last := second.advance dt (first.advance dt k).context
    round.context = last.context ∧
      round.members = [(first.advance dt k).sequence, last.sequence] ∧
      ∃ complete, round.result = .ok complete ∧
        (Completion.all.isMet complete 2 = true → o' = .complete) := by
  simp only [advanceAll_cons, Advance.andThen, h, h']
  cases o <;> cases o' <;> simp [advanceAll, Except.map, Completion.isMet]

theorem kept_tending (capped : Nat) : (tending capped).Kept Tends where
  holds := by
    rintro kind k ⟨fanning, capping, rfl, hfanning, hcapping⟩
    exact ⟨fanning, capping, rfl, hfanning, hcapping.isCapping⟩
  enter := by
    rintro kind k ⟨fanning, capping, rfl, hfanning, hcapping⟩ hn generator
    have hbegins : KeeperSequence.CapsNext capping.reset capped k :=
      .of_reset (hcapping.steps capped) hn hcapping.policy hcapping.companions
    exact ⟨rfl, isEffect_tends.refl k, _, _, rfl, hfanning.obey .reset, hbegins⟩
  drive := by
    rintro kind k ⟨fanning, capping, rfl, hfanning, hcapping⟩ dt generator
    obtain ⟨⟨o, ho⟩, hsame⟩ := hfanning [] dt k
    change (fanning.advance dt k).result = .ok o at ho
    change k = (fanning.advance dt k).context at hsame
    have hfirst : Tends k (fanning.advance dt k).context := by
      rw [← hsame]
      exact isEffect_tends.refl k
    have hlater : (fanning.advance dt k).sequence.Harmless Eq := hfanning.obey (.advance dt k)
    rw [hsame] at hcapping
    obtain ⟨heffect, hpass, o', ho', hgives⟩ := hcapping.advance isEffect_tends
      (kept_cappingContracts capped) (fit_cappingContracts capped) dt
    obtain ⟨hcontext, hmembers, complete, hresult, hlast⟩ := advanceAll_pair ho ho'
    refine meets_ofDriven (hcontext ▸ isEffect_tends.trans hfirst heffect) ?_ ..
    rw [hcontext, hmembers, hresult]
    cases hmet : Completion.all.isMet complete 2 with
    | true =>
      have hholds := KeeperSequence.CapsNext.isCapping hpass
      exact .inl ⟨congrArg Except.ok hmet, ⟨_, _, rfl, hlater, hholds⟩, hgives (hlast hmet)⟩
    | false => exact .inr ⟨congrArg Except.ok hmet, _, _, rfl, hlater, hpass⟩

def tendingContracts (capped : Nat) : List KeeperContract :=
  [(awaiting hasNectar).carrying (HasCapped capped), tending capped]

theorem kept_tendingContracts (capped : Nat) : ∀ c ∈ tendingContracts capped, c.Kept Tends := by
  have hawaiting : ((awaiting hasNectar).carrying (HasCapped capped) : KeeperContract).Kept Eq :=
    Kept.carrying (R := Eq) (fun h hk => h ▸ hk) (kept_awaiting isEffect_eq hasNectar)
  have htends {k k' : Keeping} (h : k = k') : Tends k k' := h ▸ isEffect_tends.refl k
  simp [tendingContracts, hawaiting.mono htends, kept_tending]

theorem fit_tendingContracts (capped : Nat) :
    Fit (HasCapped (capped + 1)) (tendingContracts capped) :=
  ⟨fun _ h => h.2, fun _ h => h, trivial⟩

theorem allHold_tendingContracts {capped : Nat} {steps : List (Step Empty Keeping Report)}
    (h : AllHold (tendingContracts capped) steps) (capped' : Nat) :
    AllHold (tendingContracts capped') steps :=
  match h with
  | .cons hawaiting (.cons htending .nil) => .cons hawaiting (.cons htending .nil)

def Keeping.KeepsCount (k k' : Keeping) : Prop := k.capped = k'.capped

theorem Keeping.HasCapped.of_keepsCount {n : Nat} {k k' : Keeping} (h : k.KeepsCount k')
    (hk : k.HasCapped n) : k'.HasCapped n :=
  h.symm.trans hk

theorem survives_cappingContracts (capped : Nat) :
    ∀ c ∈ cappingContracts capped, c.Survives KeepsCount := by
  have hneeds (k k' : Keeping) : k.KeepsCount k' → k.HasCapped capped → k'.HasCapped capped :=
    HasCapped.of_keepsCount
  refine List.forall_mem_cons.mpr ⟨survives_waiting hneeds, ?_⟩
  exact List.forall_mem_singleton.mpr (survives_calling hneeds)

theorem survives_tendingContracts (capped : Nat) :
    ∀ c ∈ tendingContracts capped, c.Survives KeepsCount := by
  have hawaiting := Survives.carrying HasCapped.of_keepsCount (P := HasCapped capped)
    (survives_awaiting (A := Empty) (N := Report) hasNectar KeepsCount)
  refine List.forall_mem_cons.mpr ⟨hawaiting, List.forall_mem_singleton.mpr ⟨?_, ?_⟩⟩
  · exact HasCapped.of_keepsCount
  · rintro kind k k' hk ⟨fanning, capping, rfl, hfanning, hpass⟩
    have hpass' := hpass.of_survives (survives_cappingContracts capped) (.of_keepsCount hk) hk
    exact ⟨fanning, capping, rfl, hfanning, hpass'⟩

/-- In a pass the count gets at most one ahead of what it was at the beginning. -/
def Keeping.IsWithin (capped : Nat) (k : Keeping) : Prop :=
  capped ≤ k.capped ∧ k.capped ≤ capped + 1

theorem Keeping.HasCapped.isWithin {capped : Nat} {k : Keeping} (h : k.HasCapped capped) :
    k.IsWithin capped :=
  ⟨Nat.le_of_eq h.symm, Nat.le_succ_of_le (Nat.le_of_eq h)⟩

theorem Keeping.HasCapped.isWithin_succ {capped : Nat} {k : Keeping}
    (h : k.HasCapped (capped + 1)) : k.IsWithin capped :=
  ⟨Nat.le_of_succ_le (Nat.le_of_eq h.symm), Nat.le_of_eq h⟩

theorem KeeperSequence.CapsNext.isWithin {s : KeeperSequence} {capped : Nat} {k : Keeping}
    (h : s.CapsNext capped k) : k.IsWithin capped := by
  refine h.course.always (P := IsWithin capped) ?needs ?busy HasCapped.isWithin_succ
  case needs =>
    refine List.forall_mem_cons.mpr ⟨HasCapped.isWithin, List.forall_mem_singleton.mpr ?_⟩
    exact HasCapped.isWithin
  case busy =>
    refine List.forall_mem_cons.mpr ⟨?_, List.forall_mem_singleton.mpr ?_⟩
    · rintro kind ⟨action, -, -, hk⟩
      exact HasCapped.isWithin hk
    · rintro kind ⟨action, -, -, hk⟩
      exact HasCapped.isWithin hk

theorem isWithin_of_course {capped : Nat} {k : Keeping} {steps : List (Step Empty Keeping Report)}
    {cursor : Nat} (h : Course (HasCapped (capped + 1)) k (tendingContracts capped) steps cursor) :
    k.IsWithin capped := by
  refine h.always (P := IsWithin capped) ?needs ?busy HasCapped.isWithin_succ
  case needs =>
    refine List.forall_mem_cons.mpr ⟨fun hn => hn.2.isWithin, List.forall_mem_singleton.mpr ?_⟩
    exact HasCapped.isWithin
  case busy =>
    refine List.forall_mem_cons.mpr ⟨fun kind hb => hb.2.isWithin, ?_⟩
    refine List.forall_mem_singleton.mpr ?_
    rintro kind ⟨fanning, capping, -, -, hpass⟩
    exact hpass.isWithin

theorem hasCapped_of_start {capped : Nat} {gives : Keeping → Prop} {k : Keeping}
    {steps : List (Step Empty Keeping Report)}
    (h : Course gives k (tendingContracts capped) steps 0) : k.HasCapped capped := by
  cases h with
  | here ready later =>
    rcases ready with ⟨-, -, hn⟩ | ⟨-, hb⟩
    · exact hn.2
    · exact hb.2

/-- Whether the behavior of a keeper is on its course, when its earlier passes have made so much
honey. -/
structure KeeperSequence.IsBrewing (made : Nat) (s : KeeperSequence) (k : Keeping) : Prop where
  loops : s.Loops Eq (HasCapped (made + 1)) (tendingContracts made) IsHoneyStep k
  companions : s.companions = []

/-- Whether all steps but the making of honey are done with. -/
def KeeperSequence.IsDue (s : KeeperSequence) : Prop := s.status = .running ∧ s.cursor = 2

/-- What a tick comes to in which a keeper, whose earlier passes have made so much honey, tries to
make some more. -/
inductive Attempt (made : Nat) (k : Keeping) (t : Advance Empty Keeping Report) : Prop
  /-- There is not enough nectar. All that may have changed is that a cell was capped before. -/
  | failed (lacking : k.ledger.nectar < nectarPerHoney) (result : t.result = .error notEnoughNectar)
      (context : t.context = ⟨made + 1, k.ledger⟩)
      (next : KeeperSequence.IsBrewing made t.sequence t.context)
      (due : KeeperSequence.IsDue t.sequence)
  | brewed (stocked : ¬k.ledger.nectar < nectarPerHoney) (result : t.result = .ok .running)
      (context : t.context = ⟨made + 1, k.ledger.brewed⟩)
      (next : KeeperSequence.IsBrewing (made + 1) t.sequence t.context)

/-- What a tick of a keeper comes to whose earlier passes have made so much honey. -/
inductive BrewTick (made : Nat) (k : Keeping) (t : Advance Empty Keeping Report) : Prop
  | waited (result : t.result = .ok .running) (effect : k.Tends t.context)
      (next : KeeperSequence.IsBrewing made t.sequence t.context)
  | attempted (h : Attempt made k t)

theorem Attempt.after {made : Nat} {k : Keeping} {t : Advance Empty Keeping Report}
    (h : Attempt made k t) (earlier : Trace Report) : Attempt made k (t.after earlier) :=
  match h with
  | failed lacking result context next due => failed lacking result context next due
  | brewed stocked result context next => brewed stocked result context next

theorem BrewTick.after {made : Nat} {k : Keeping} {t : Advance Empty Keeping Report}
    (h : BrewTick made k t) (earlier : Trace Report) : BrewTick made k (t.after earlier) :=
  match h with
  | waited result effect next => waited result effect next
  | attempted h => attempted (h.after earlier)

section Course

variable {made : Nat} {s : KeeperSequence} {k k' : Keeping}

theorem KeeperSequence.IsBrewing.isWithin (h : s.IsBrewing made k) : k.IsWithin made := by
  obtain ⟨front, last, -, hcourse, -⟩ := h.loops.stage
  exact isWithin_of_course hcourse

theorem KeeperSequence.IsBrewing.of_keepsCount (h : s.IsBrewing made k) (hk : k.KeepsCount k') :
    s.IsBrewing made k' :=
  ⟨h.loops.of_survives (survives_tendingContracts made) (.of_keepsCount hk) hk, h.companions⟩

end Course

namespace BrewTick

variable {made : Nat} {k : Keeping} {t : Advance Empty Keeping Report}

theorem ledger (h : BrewTick made k t) :
    t.context.ledger = k.ledger ∨ t.context.ledger = k.ledger.brewed := by
  cases h with
  | waited result effect next => exact .inl effect.1.symm
  | attempted h =>
    cases h with
    | failed lacking result context next due => exact .inl (by rw [context])
    | brewed stocked result context next => exact .inr (by rw [context])

theorem capped (h : BrewTick made k t) (hk : k.IsWithin made) :
    k.capped ≤ t.context.capped ∧ t.context.capped ≤ made + 1 := by
  cases h with
  | waited result effect next => exact ⟨effect.2, (KeeperSequence.IsBrewing.isWithin next).2⟩
  | attempted h =>
    have hcapped : t.context.capped = made + 1 := by
      cases h with
      | failed lacking result context next due => exact congrArg Keeping.capped context
      | brewed stocked result context next => exact congrArg Keeping.capped context
    exact ⟨hcapped ▸ hk.2, Nat.le_of_eq hcapped⟩

theorem of_error (h : BrewTick made k t) {error : TickError} (he : t.result = .error error) :
    error = notEnoughNectar ∧ k.ledger.nectar < nectarPerHoney ∧
      t.context = ⟨made + 1, k.ledger⟩ ∧ KeeperSequence.IsDue t.sequence ∧
      KeeperSequence.IsBrewing made t.sequence t.context := by
  cases h with
  | waited result effect next => cases he.symm.trans result
  | attempted h =>
    cases h with
    | failed lacking result context next due =>
      obtain rfl := Except.error.inj (he.symm.trans result)
      exact ⟨rfl, lacking, context, due, next⟩
    | brewed stocked result context next => cases he.symm.trans result

end BrewTick

namespace KeeperSequence

variable {made : Nat} {s : KeeperSequence} {k k' : Keeping}

namespace IsBrewing

theorem attempt (h : s.IsBrewing made k) (hs : s.status = .running) {dt : Float32}
    {last : Step Empty Keeping Report} (hlast : IsHoneyStep last) {there : Keeping}
    (hledger : k.ledger = there.ledger) {front : List (Step Empty Keeping Report)}
    (hcourse : Course (HasCapped (made + 1)) there (tendingContracts made) front 2)
    {trace : Trace Report} {generator : Generator}
    (hwalk : let t := Step.tick false dt last there generator
      s.walk dt k = ⟨trace, t.context, t.generator, front ++ [t.step],
        2 + if t.result = .ok true then 1 else 0, t.result⟩) :
    Attempt made k (s.resume dt k) := by
  have hthere : there = ⟨made + 1, k.ledger⟩ :=
    HasCapped.eq_of_ledger (hcourse.gives_of_length rfl) rfl hledger.symm
  have hc : s.status ≠ .complete := hs ▸ Status.noConfusion
  obtain ⟨hlack, hstock⟩ := hlast.tick dt there generator
  dsimp only at hwalk
  generalize Step.tick false dt last there generator = t at hlack hstock hwalk
  subst hthere
  by_cases hlt : k.ledger.nectar < nectarPerHoney
  · obtain ⟨hr, hcontext, hstep⟩ := hlack hlt
    rw [hr, if_neg fun h => nomatch h] at hwalk
    rw [Sequence.resume_of_error hc (by rw [hwalk]), hwalk]
    refine .failed hlt rfl hcontext ⟨.of_running hs h.loops.policy h.loops.companions rfl ?_ hstep,
      h.companions⟩ ⟨hs, rfl⟩
    exact hcontext ▸ hcourse
  · obtain ⟨hr, hcontext, hstep⟩ := hstock hlt
    -- the next pass counts from one unit of honey more
    have hall := allHold_tendingContracts (hcourse.allHold (kept_tendingContracts made)) (made + 1)
    have hkept := kept_tendingContracts (made + 1) _ List.mem_cons_self
    have hcapped : t.context.HasCapped (made + 1) := by
      rw [hcontext]
      rfl
    obtain ⟨hresult, heffect, -, front', generator', hcourse', hnext⟩ :=
      Sequence.exists_resume_of_last (HasCapped (made + 2)) hs h.loops.policy hwalk hr rfl hall
        hkept ⟨trivial, hcapped⟩
    refine .brewed hlt hresult ?_ ?_
    · refine HasCapped.eq_of_ledger (hasCapped_of_start hcourse') rfl ?_
      rw [← heffect.1, hcontext]
    · rw [hnext]
      exact ⟨.of_running hs h.loops.policy h.loops.companions rfl hcourse' hstep, h.companions⟩

/-- In every tick a keeper waits or tries to make honey. -/
theorem advance (h : s.IsBrewing made k) (dt : Float32) : BrewTick made k (s.advance dt k) := by
  rw [Sequence.advance_of_companions_nil h.companions]
  obtain ⟨hloops, hs⟩ := h.loops.begun
  have hbegun : IsBrewing made s.begun k :=
    ⟨hloops, Sequence.companions_begun_of_nil h.companions⟩
  obtain ⟨front, last, hsteps, hcourse, hlast⟩ := hloops.stage_of_running hs
  have hc : s.begun.status ≠ .complete := hs ▸ Status.noConfusion
  refine BrewTick.after ?_ _
  have hwalks := Sequence.walksTo_walk hsteps hcourse isEffect_tends (kept_tendingContracts made)
    (fit_tendingContracts made) dt
  generalize hwalk : s.begun.walk dt k = walked at hwalks
  cases hwalks with
  | stopped result effect course =>
    rw [Sequence.resume_of_held hc (by rw [hwalk, result]), hwalk]
    exact .waited rfl effect ⟨.of_running hs hloops.policy hloops.companions rfl course hlast,
      hbegun.companions⟩
  | passed effect course tick =>
    subst tick
    exact .attempted (hbegun.attempt hs hlast effect.1 course hwalk)

/-- While the honey is due, a keeper does nothing but try to make it. -/
theorem retry (h : s.IsBrewing made k) (hdue : s.IsDue) (dt : Float32) :
    Attempt made k (s.advance dt k) := by
  obtain ⟨hs, hcursor⟩ := hdue
  obtain ⟨front, last, hsteps, hcourse, hlast⟩ := h.loops.stage_of_running hs
  have hlength := (hcourse.allHold (kept_tendingContracts made)).length_eq
  have hwalk := Sequence.walk_of_front hsteps (hcursor.trans hlength) dt k
  rw [← hlength] at hwalk
  rw [Sequence.advance_of_companions_nil h.companions,
    Sequence.begun_of_ne (hs ▸ Status.noConfusion)]
  exact (h.attempt hs hlast rfl (hcursor ▸ hcourse) hwalk).after _

end IsBrewing

variable {settings : Settings}

theorem isCapping_capCells (h : settings.validate = .ok ()) (entropy : Entropy) (serial : Nat) :
    IsCapping ((capCells settings).toSequence entropy serial) := by
  rw [capCells_eq h]
  exact ⟨rfl, rfl, fun _ => .cons ⟨_, rfl, _, rfl⟩ (.cons ⟨_, rfl, _, _, rfl⟩ .nil)⟩

theorem IsBrewing.of_brew (h : settings.validate = .ok ()) {entropy : Entropy} {serial : Nat}
    (hs : (brew settings entropy serial).result = .ok s) (hk : k.HasCapped made) :
    s.IsBrewing made k := by
  have hids : ([(fan settings).toSequence entropy serial,
      (capCells settings).toSequence entropy (serial + 1)].map Sequence.id).Nodup := by
    simp [Builder.toSequence]
  rw [brew_result h, brewLoop_eq h, Group.ofList_of_nodup .all hids] at hs
  obtain rfl := Except.ok.inj hs
  have hfront : AllHold (tendingContracts made)
      [.leaf (.waitUntil (.reads Keeping.hasNectar)),
        .parallel ⟨.all, [(fan settings).toSequence entropy serial,
          (capCells settings).toSequence entropy (serial + 1)]⟩] :=
    .cons ⟨_, rfl, rfl⟩ (.cons ⟨_, _, rfl, harmless_fan isEffect_eq h entropy serial,
      isCapping_capCells h entropy (serial + 1)⟩ .nil)
  exact ⟨.of_notStarted rfl rfl (List.forall_mem_nil _) rfl hfront ⟨trivial, hk⟩
    ⟨0, false, rfl, .inl rfl⟩, rfl⟩

end KeeperSequence

/-! ### Keepers -/

/-- A keeper with its behavior, and the honey that it has made. -/
structure Keeper where
  capped : Nat
  made : Nat
  behavior : KeeperSequence

namespace Keeper

def new (behavior : KeeperSequence) : Keeper := ⟨0, 0, behavior⟩

def tick (keeper : Keeper) (dt : Float32) (found : Ledger) : Advance Empty Keeping Report :=
  keeper.behavior.advance dt ⟨keeper.capped, found⟩

/-- The keeper after a tick. The honey that the tick adds to the stores is of its making. -/
def next (keeper : Keeper) (dt : Float32) (found : Ledger) : Keeper :=
  let ticked := keeper.tick dt found
  { capped := ticked.context.capped
    made := keeper.made + (ticked.context.ledger.honey - found.honey)
    behavior := ticked.sequence }

/-- The keeper after some ticks. Each has a length and finds the stores as others have left
them. -/
def after (keeper : Keeper) (turns : List (Float32 × Ledger)) : Keeper :=
  turns.foldl (fun keeper turn => keeper.next turn.1 turn.2) keeper

/-- Whether a keeper makes honey at the pace of its capping, and will go on so in the next tick,
however long that is and whatever the stores are like. -/
structure IsPaced (keeper : Keeper) : Prop where
  made_le : keeper.made ≤ keeper.capped
  capped_le : keeper.capped ≤ keeper.made + 1
  /-- At most one cell is capped in a tick. -/
  caps : ∀ dt found, let after := (keeper.tick dt found).context
    after.capped = keeper.capped ∨ after.capped = keeper.capped + 1
  /-- At most one unit of honey is made in a tick. -/
  makes : ∀ dt found, let after := (keeper.tick dt found).context
    after.ledger = found ∨
      after.ledger.honey = found.honey + 1 ∧
        after.ledger.nectar = found.nectar - nectarPerHoney ∧
        after.ledger.deposits = found.deposits
  /-- A tick fails only for lack of nectar, and leaves the stores alone. The next one tries again to
  make honey, and does not cap another cell. -/
  fails : ∀ dt found error, (keeper.tick dt found).result = .error error →
    error = .invalidContext "not enough nectar to brew" ∧ found.nectar < nectarPerHoney ∧
      (keeper.tick dt found).context.ledger = found ∧
      ∀ dt' found', let retried := (keeper.next dt found).tick dt' found'
        retried.context.capped = (keeper.tick dt found).context.capped ∧
          if found'.nectar < nectarPerHoney then
            retried.result = .error error ∧ retried.context.ledger = found'
          else retried.result = .ok .running ∧ retried.context.ledger.honey = found'.honey + 1

/-- Whether the behavior of a keeper is on its course, whatever the stores are like. -/
def IsOnCourse (keeper : Keeper) : Prop :=
  ∀ found, keeper.behavior.IsBrewing keeper.made ⟨keeper.capped, found⟩

namespace IsOnCourse

variable {keeper : Keeper}

theorem of_isBrewing {made : Nat} {s : KeeperSequence} {k : Keeping} (h : s.IsBrewing made k) :
    IsOnCourse ⟨k.capped, made, s⟩ :=
  fun _ => h.of_keepsCount rfl

theorem next (h : keeper.IsOnCourse) (dt : Float32) (found : Ledger) :
    (keeper.next dt found).IsOnCourse := by
  have hnext {made : Nat} (hmade : keeper.made +
      ((keeper.tick dt found).context.ledger.honey - found.honey) = made)
      (hs : KeeperSequence.IsBrewing made (keeper.tick dt found).sequence
        (keeper.tick dt found).context) : (keeper.next dt found).IsOnCourse := by
    subst hmade
    exact of_isBrewing hs
  cases (h found).advance dt with
  | waited result effect next =>
    have hledger : found = (keeper.tick dt found).context.ledger := effect.1
    exact hnext (by simp [← hledger]) next
  | attempted h =>
    cases h with
    | failed lacking result context next due =>
      have hledger : (keeper.tick dt found).context = ⟨keeper.made + 1, found⟩ := context
      exact hnext (by simp [hledger]) next
    | brewed stocked result context next =>
      have hledger : (keeper.tick dt found).context = ⟨keeper.made + 1, found.brewed⟩ := context
      exact hnext (by simp [hledger, Ledger.brewed]) next

theorem after (h : keeper.IsOnCourse) (turns : List (Float32 × Ledger)) :
    (keeper.after turns).IsOnCourse := by
  induction turns generalizing keeper with
  | nil => exact h
  | cons turn later ih => exact ih (h.next turn.1 turn.2)

theorem isPaced (h : keeper.IsOnCourse) : keeper.IsPaced where
  made_le := (h .empty).isWithin.1
  capped_le := (h .empty).isWithin.2
  caps dt found := by
    have hbefore := (h found).isWithin
    obtain ⟨hle, hle'⟩ := ((h found).advance dt).capped hbefore
    obtain ⟨hmade, -⟩ := hbefore
    change keeper.capped ≤ (keeper.tick dt found).context.capped at hle
    change (keeper.tick dt found).context.capped ≤ keeper.made + 1 at hle'
    change keeper.made ≤ keeper.capped at hmade
    simp only
    omega
  makes dt found := by
    rcases ((h found).advance dt).ledger with hledger | hledger
    · exact .inl hledger
    · have hbrewed : (keeper.tick dt found).context.ledger = found.brewed := hledger
      simp [hbrewed, Ledger.brewed]
  fails dt found error herror := by
    obtain ⟨rfl, hlacking, hcontext, hdue, hnext⟩ := ((h found).advance dt).of_error herror
    refine ⟨rfl, hlacking, congrArg Keeping.ledger hcontext, fun dt' found' => ?_⟩
    have hcapped : (keeper.tick dt found).context.capped = keeper.made + 1 := by
      rw [Keeper.tick, hcontext]
    have hnext' : KeeperSequence.IsBrewing keeper.made (keeper.next dt found).behavior
        ⟨(keeper.next dt found).capped, found'⟩ := KeeperSequence.IsBrewing.of_keepsCount hnext rfl
    have hretry : Attempt keeper.made ⟨(keeper.next dt found).capped, found'⟩
        ((keeper.next dt found).tick dt' found') := hnext'.retry hdue dt'
    cases hretry with
    | failed lacking result context next due =>
      have hlacking' : found'.nectar < nectarPerHoney := lacking
      simp [hcapped, hlacking', context, result]
    | brewed stocked result context next =>
      have hstocked : ¬found'.nectar < nectarPerHoney := stocked
      simp [hcapped, hstocked, context, result, Ledger.brewed]

theorem capped_after_le (h : keeper.IsOnCourse) (turns : List (Float32 × Ledger)) :
    (keeper.after turns).capped ≤ keeper.capped + turns.length := by
  induction turns generalizing keeper with
  | nil => exact Nat.le_refl _
  | cons turn later ih =>
    have hfirst : (keeper.next turn.1 turn.2).capped ≤ keeper.capped + 1 := by
      rcases h.isPaced.caps turn.1 turn.2 with hsame | hone
      · exact Nat.le_succ_of_le (Nat.le_of_eq hsame)
      · exact Nat.le_of_eq hone
    calc (keeper.after (turn :: later)).capped
        ≤ (keeper.next turn.1 turn.2).capped + later.length := ih (h.next turn.1 turn.2)
      _ ≤ keeper.capped + (turn :: later).length := by
        rw [List.length_cons]
        omega

end IsOnCourse

end Keeper

/-! ### Runs -/

theorem Ledger.Supplied.honey {ledger ledger' : Ledger} (h : Ledger.Supplied ledger ledger') :
    ledger.honey = ledger'.honey := by
  induction h with
  | untouched => rfl
  | loaded _ _ ih => exact ih

/-- Whether the keeper of a colony has made all the honey in the stores, and is on its course. -/
def Colony.IsBrewing (c : Colony) : Prop := c.brewing.IsBrewing c.ledger.honey ⟨c.capped, c.ledger⟩

namespace Colony.IsBrewing

variable {c : Colony}

theorem of_found {config : Config} (h : config.validate = .ok ()) {entropy : Entropy}
    (hc : (Colony.found config entropy).result = .ok c) : c.IsBrewing ∧ c.capped = 0 := by
  have hsettings := Config.validate_sequencer h
  obtain ⟨foragers, hrecruit, -⟩ := recruit_result h entropy 0 config.bees
  have hbrew := brew_result hsettings entropy (2 * config.bees)
  rw [Colony.found, Construction.result_bind hrecruit, Construction.result_bind hbrew] at hc
  obtain rfl := Except.ok.inj hc
  exact ⟨.of_brew hsettings hbrew rfl, rfl⟩

theorem tick (h : c.IsBrewing) (hcourse : c.IsOnCourse) (dt : Float32) :
    (c.tick dt).colony.IsBrewing ∧ (c.tick dt).colony.capped ≤ c.capped + 1 := by
  obtain ⟨hbees, hsupplied, -⟩ := tickForagers_of_isOnCourse dt c.ledger hcourse.foragers
  simp only [Colony.tick, hbees]
  have hhoney := hsupplied.honey
  generalize (tickForagers dt c.ledger c.foragers).ledger = ledger at hhoney
  -- the bees have left the count of capped cells and the honey as they were
  have hhere : c.brewing.IsBrewing ledger.honey ⟨c.capped, ledger⟩ :=
    hhoney ▸ KeeperSequence.IsBrewing.of_keepsCount h rfl
  have hticked := hhere.advance dt
  refine ⟨?_, Nat.le_trans (hticked.capped hhere.isWithin).2 (Nat.succ_le_succ hhere.isWithin.1)⟩
  have hnext {made : Nat} {t : Advance Empty Keeping Report}
      (hmade : t.context.ledger.honey = made)
      (hs : KeeperSequence.IsBrewing made t.sequence t.context) :
      KeeperSequence.IsBrewing t.context.ledger.honey t.sequence t.context := hmade ▸ hs
  cases hticked with
  | waited result effect next => exact hnext (congrArg Ledger.honey effect.1).symm next
  | attempted h =>
    cases h with
    | failed lacking result context next due => exact hnext (by rw [context]) next
    | brewed stocked result context next => exact hnext (by rw [context]; rfl) next

theorem ticks (h : c.IsBrewing) (hcourse : c.IsOnCourse) (dt : Float32) (count : Nat) :
    (c.ticks dt count).colony.IsBrewing ∧
      (c.ticks dt count).colony.capped ≤ c.capped + count := by
  refine hcourse.ticks_induct (P := fun n c' => c'.IsBrewing ∧ c'.capped ≤ c.capped + n)
    ⟨h, Nat.le_refl _⟩ ?_ count
  rintro n c' hcourse' ⟨hbrewing, hle⟩
  obtain ⟨hnext, hle'⟩ := hbrewing.tick hcourse' dt
  exact ⟨hnext, by omega⟩

end Colony.IsBrewing

/-- Brewing is paced one to one with capping. Whatever the lengths of its ticks and whatever others
do to the stores between them, a keeper has capped as many cells as it has made honey, or one more;
a tick that fails to make honey leaves the stores as they were, and the next one tries again without
capping. So a hive has no more honey than capped cells, and no more of these than ticks. A keeper
caps at most one cell in a tick, so its counts agree with counts of 32 bits for 2 ^ 32 - 1 ticks,
which is as many as a run can have. -/
theorem brewing_isPaced :
    (∀ settings entropy serial, settings.validate = .ok () →
      ∃ behavior, (brew settings entropy serial).result = .ok behavior ∧
        ∀ turns, ((Keeper.new behavior).after turns).IsPaced ∧
          ((Keeper.new behavior).after turns).capped ≤ turns.length) ∧
      (∀ (k : Keeping) error, k.makeHoney.result = .error error → k.makeHoney.context = k) ∧
      ∀ config entropy, config.validate = .ok () →
        ∃ totals, (run config entropy).result = .ok totals ∧ totals.ticks = config.ticks ∧
          totals.ledger.honey ≤ totals.capped ∧ totals.capped ≤ totals.ticks := by
  refine ⟨?_, fun k error => Keeping.context_makeHoney_of_error, ?_⟩
  · intro settings entropy serial h
    have hbrew := brew_result h entropy serial
    have hnew : (Keeper.new _).IsOnCourse :=
      fun found => .of_brew h hbrew (rfl : HasCapped 0 ⟨0, found⟩)
    refine ⟨_, hbrew, fun turns => ⟨(hnew.after turns).isPaced, ?_⟩⟩
    exact (hnew.capped_after_le turns).trans_eq (Nat.zero_add _)
  · intro config entropy h
    obtain ⟨colony, hfound, hcourse⟩ := Colony.found_result h entropy
    obtain ⟨hbrewing, hnone⟩ := Colony.IsBrewing.of_found h hfound
    obtain ⟨hticks, -⟩ := hcourse.ticks config.deltaTime config.ticks
    obtain ⟨hthere, hcapped⟩ := hbrewing.ticks hcourse config.deltaTime config.ticks
    rw [hnone, Nat.zero_add] at hcapped
    have hrun : (run config entropy).result =
        .ok ((colony.ticks config.deltaTime config.ticks).colony.totals config.ticks) := by
      simp [run, h, hfound, hticks]
    exact ⟨_, hrun, rfl, KeeperSequence.IsBrewing.isWithin hthere |>.1, hcapped⟩

/-- A keeper finds enough nectar, which is gone when it gets to the making of honey. -/
theorem brewing_isPaced_standard :
    let keys : Entropy := fun serial => .replicate 8 (.ofNat serial)
    Settings.standard.validate = .ok () ∧ Config.standard.validate = .ok () ∧
      (∃ behavior, (brew .standard keys 0).result = .ok behavior ∧
        ((Keeper.new behavior).after [(1, ⟨10, 0, 2⟩), (1, ⟨4, 0, 2⟩)]).IsPaced) ∧
      ∃ totals, (run .standard keys).result = .ok totals ∧
        totals.ledger.honey ≤ totals.capped ∧ totals.capped ≤ 600 := by
  intro keys
  have hsettings : Settings.standard.validate = .ok () := by decide +kernel
  have hconfig : Config.standard.validate = .ok () := by decide +kernel
  obtain ⟨hbrew, -, hrun⟩ := brewing_isPaced
  obtain ⟨behavior, hbehavior, hpaced⟩ := hbrew .standard keys 0 hsettings
  obtain ⟨totals, htotals, hticks, hhoney, hcapped⟩ := hrun .standard keys hconfig
  exact ⟨hsettings, hconfig, ⟨behavior, hbehavior, (hpaced _).1⟩, totals, htotals, hhoney,
    Nat.le_trans hcapped (Nat.le_of_eq hticks)⟩

end Sequencer.Hive

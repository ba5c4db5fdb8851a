import Sequencer.Proofs.Contracts
import Sequencer.Proofs.Lifecycle
import Sequencer.Proofs.Provenance
import Sequencer.Proofs.Selections

/-!
# Contracts for what the library offers

Contracts for the actions of the library, for branches whose children have contracts, and for groups
of harmless sequences.
-/

namespace Sequencer.Contract

variable {A C N : Type} {R S : C → C → Prop}

def leaf (needs gives : C → Prop) (holds : Action A C N → Prop)
    (busy : Action A C N → C → Prop) : Contract A C N where
  needs
  gives
  holds kind := ∃ action, kind = .leaf action ∧ holds action
  busy kind ctx := ∃ action, kind = .leaf action ∧ busy action ctx

/-- The contract of a wait, which leaves everything as it is. -/
def waiting (P : C → Prop) : Contract A C N :=
  leaf P P (fun action => ∃ w, action = .wait w) fun action ctx => (∃ w, action = .wait w) ∧ P ctx

/-- The contract of a step that blocks until a condition holds. -/
def awaiting (P : C → Bool) : Contract A C N :=
  leaf anything (fun ctx => P ctx = true) (fun action => action = .waitUntil (.reads P))
    fun action _ => action = .waitUntil (.reads P)

def calling (run : Nat → C → Effect C N) (needs gives : C → Prop) : Contract A C N :=
  leaf needs gives (fun action => ∃ runs fired, action = .callback ⟨run, runs, fired⟩)
    fun action ctx => (∃ runs, action = .callback ⟨run, runs, false⟩) ∧ needs ctx

section Survival

variable {needs gives : C → Prop}

theorem survives_leaf {holds : Action A C N → Prop} {busy : Action A C N → C → Prop}
    (hneeds : ∀ ctx ctx', S ctx ctx' → needs ctx → needs ctx')
    (hbusy : ∀ action ctx ctx', S ctx ctx' → busy action ctx → busy action ctx') :
    (leaf needs gives holds busy).Survives S where
  needs := hneeds _ _
  busy := by
    rintro kind ctx ctx' hS ⟨action, rfl, hb⟩
    exact ⟨action, rfl, hbusy action ctx ctx' hS hb⟩

theorem survives_waiting {P : C → Prop} (hP : ∀ ctx ctx', S ctx ctx' → P ctx → P ctx') :
    (waiting P : Contract A C N).Survives S :=
  survives_leaf hP fun _ _ _ hS h => ⟨h.1, hP _ _ hS h.2⟩

theorem survives_awaiting (P : C → Bool) (S : C → C → Prop) :
    (awaiting P : Contract A C N).Survives S :=
  survives_leaf (fun _ _ _ h => h) fun _ _ _ _ h => h

theorem survives_calling {run : Nat → C → Effect C N}
    (hneeds : ∀ ctx ctx', S ctx ctx' → needs ctx → needs ctx') :
    (calling run needs gives : Contract A C N).Survives S :=
  survives_leaf hneeds fun _ _ _ hS h => ⟨h.1, hneeds _ _ hS h.2⟩

end Survival

section Keeping

variable [Behavior A C N] {needs gives : C → Prop}

theorem kept_leaf {holds : Action A C N → Prop} {busy : Action A C N → C → Prop}
    (hholds : ∀ action ctx, busy action ctx → holds action)
    (henter : ∀ action ctx, holds action → needs ctx →
      (action.enter ctx).result = .ok () ∧ R ctx (action.enter ctx).context ∧
        busy (action.enter ctx).action (action.enter ctx).context)
    (hdrive : ∀ action ctx, busy action ctx → ∀ dt,
      R ctx (action.drive dt ctx).context ∧
        ((action.drive dt ctx).result = .ok true ∧ holds (action.drive dt ctx).action ∧
            gives (action.drive dt ctx).context ∨
          (action.drive dt ctx).result = .ok false ∧
            busy (action.drive dt ctx).action (action.drive dt ctx).context)) :
    (leaf needs gives holds busy).Kept R where
  holds := by
    rintro kind ctx ⟨action, rfl, hb⟩
    exact ⟨action, rfl, hholds action ctx hb⟩
  enter := by
    rintro kind ctx ⟨action, rfl, ha⟩ hn generator
    obtain ⟨hr, heffect, hb⟩ := henter action ctx ha hn
    have hentered := Step.activate_leaf_of_ok hr generator
    simp only [Step.leaf] at hentered
    rw [hentered]
    exact ⟨rfl, heffect, _, rfl, hb⟩
  drive := by
    rintro kind ctx ⟨action, rfl, hb⟩ dt generator
    obtain ⟨heffect, hdriven⟩ := hdrive action ctx hb dt
    refine meets_ofDriven heffect ?_ ..
    rcases hdriven with ⟨hr, ha, hg⟩ | ⟨hr, hb⟩
    · exact .inl ⟨hr, ⟨_, rfl, ha⟩, hg⟩
    · exact .inr ⟨hr, _, rfl, hb⟩

theorem kept_waiting (hR : IsEffect R) (P : C → Prop) : (waiting P : Contract A C N).Kept R := by
  apply kept_leaf
  · exact fun action ctx hb => hb.1
  · rintro action ctx ⟨w, rfl⟩ hP
    exact ⟨rfl, hR.refl ctx, ⟨_, rfl⟩, hP⟩
  · rintro action ctx ⟨⟨w, rfl⟩, hP⟩ dt
    cases hover : (w.addTime dt).isOver <;>
      simp [Action.drive, Action.update, Action.check, Action.finish, Except.map, hover,
        hR.refl ctx, hP]

theorem kept_awaiting (hR : IsEffect R) (P : C → Bool) :
    (awaiting P : Contract A C N).Kept R := by
  apply kept_leaf
  · exact fun action ctx hb => hb
  · rintro action ctx rfl -
    exact ⟨rfl, hR.refl ctx, rfl⟩
  · rintro action ctx rfl dt
    cases hP : P ctx <;>
      simp [Action.drive, Action.update, Action.check, Action.finish, Except.map, Condition.reads,
        Condition.evaluate, hR.refl ctx, hP]

theorem kept_calling (hR : IsEffect R) {run : Nat → C → Effect C N}
    (hrun : ∀ runs ctx, needs ctx → (run runs ctx).result = .ok () ∧ R ctx (run runs ctx).context ∧
      gives (run runs ctx).context) :
    (calling run needs gives : Contract A C N).Kept R := by
  apply kept_leaf
  · rintro action ctx ⟨⟨runs, rfl⟩, -⟩
    exact ⟨runs, false, rfl⟩
  · rintro action ctx ⟨runs, fired, rfl⟩ hn
    exact ⟨rfl, hR.refl ctx, ⟨runs, rfl⟩, hn⟩
  · rintro action ctx ⟨⟨runs, rfl⟩, hn⟩ dt
    obtain ⟨hr, heffect, hg⟩ := hrun runs ctx hn
    simp [Action.drive, Action.update, Action.check, Action.finish, Except.map, hr, heffect, hg]

end Keeping

/-- The contracts of the steps of a sequence that waits and then changes the context. -/
def delaying (change : C → C) : List (Contract A C N) :=
  [waiting anything, calling (Callback.modifying change).run anything anything]

theorem isFree_waiting : (waiting anything : Contract A C N).IsFree :=
  ⟨fun _ => trivial, survives_waiting fun _ _ _ h => h⟩

theorem isFree_delaying (change : C → C) :
    ∀ c ∈ (delaying change : List (Contract A C N)), c.IsFree := by
  have hcalling : (calling (Callback.modifying change).run anything anything :
      Contract A C N).IsFree :=
    ⟨fun _ => trivial, survives_calling fun _ _ _ h => h⟩
  simp [delaying, isFree_waiting, hcalling]

theorem kept_delaying [Behavior A C N] (hR : IsEffect R) {change : C → C}
    (hchange : ∀ ctx, R ctx (change ctx)) :
    ∀ c ∈ (delaying change : List (Contract A C N)), c.Kept R := by
  have hcalling : (calling (Callback.modifying change).run anything anything :
      Contract A C N).Kept R :=
    kept_calling hR fun _ ctx h => ⟨rfl, hchange ctx, h⟩
  simp [delaying, kept_waiting hR, hcalling]

/-- The contract of a branch whose children have contracts. -/
def choosing (selector : Selector C N) (children : List (Contract A C N)) (needs gives : C → Prop) :
    Contract A C N where
  needs
  gives
  holds kind := ∃ ss chosen, kind = .branch ⟨selector, ss, chosen⟩ ∧ AllHold children ss
  busy kind ctx := ∃ ss chosen, kind = .branch ⟨selector, ss, chosen⟩ ∧ AllHold children ss ∧
    match chosen with
    | none => gives ctx
    | some i => ∃ c s, children[i]? = some c ∧ ss[i]? = some s ∧ c.Ready s ctx

/-- Whether a selector finds a child that can be entered, or leaves the branch when that is all
right. -/
def Selects (selector : Selector C N) (children : List (Contract A C N)) (needs gives : C → Prop) :
    Prop :=
  ∀ ctx generator, needs ctx → ∃ chosen,
    (selector.select children.length ctx generator).result = .ok chosen ∧
      match chosen with
      | none => gives ctx
      | some i => ∃ c, children[i]? = some c ∧ c.needs ctx

section Branches

variable {needs gives : C → Prop} {children : List (Contract A C N)}

theorem selects_weighted {weights : List Float} (hpos : 0 < weights.length)
    (hlength : weights.length = children.length)
    (hneeds : ∀ c ∈ children, ∀ ctx, needs ctx → c.needs ctx) :
    Selects (.weighted weights) children needs gives := by
  intro ctx generator hn
  have hlt : (generator.weighted weights).1 < children.length :=
    hlength ▸ Generator.weighted_lt hpos generator
  have hc := List.getElem?_eq_getElem hlt
  exact ⟨_, rfl, _, hc, hneeds _ (List.mem_of_getElem? hc) ctx hn⟩

theorem selects_chance {c : Contract A C N} (hneeds : ∀ ctx, needs ctx → c.needs ctx)
    (hgives : ∀ ctx, needs ctx → gives ctx) (probability : Float) :
    Selects (.chance probability) [c] needs gives := by
  intro ctx generator hn
  cases hhit : (generator.chance probability).1 with
  | true => exact ⟨some 0, by simp [Selector.select, hhit], c, rfl, hneeds ctx hn⟩
  | false => exact ⟨none, by simp [Selector.select, hhit], hgives ctx hn⟩

theorem selects_reads {P : C → Bool} {c otherwise : Contract A C N}
    (hneeds : ∀ ctx, needs ctx → P ctx = true → c.needs ctx)
    (hotherwise : ∀ ctx, needs ctx → P ctx = false → otherwise.needs ctx) :
    Selects (.guarded [.reads P] true) [c, otherwise] needs gives := by
  intro ctx generator hn
  cases hP : P ctx with
  | true =>
    refine ⟨some 0, ?_, c, rfl, hneeds ctx hn hP⟩
    simp [Selector.select, firstHolding, Condition.reads, Condition.evaluate, hP]
  | false =>
    refine ⟨some 1, ?_, otherwise, rfl, hotherwise ctx hn hP⟩
    simp [Selector.select, firstHolding, Condition.reads, Condition.evaluate, hP]

theorem survives_choosing {selector : Selector C N} (hchildren : ∀ c ∈ children, c.Survives S)
    (hneeds : ∀ ctx ctx', S ctx ctx' → needs ctx → needs ctx')
    (hgives : ∀ ctx ctx', S ctx ctx' → gives ctx → gives ctx') :
    (choosing selector children needs gives).Survives S where
  needs := hneeds _ _
  busy := by
    rintro kind ctx ctx' hS ⟨ss, chosen, rfl, hall, hchosen⟩
    refine ⟨ss, chosen, rfl, hall, ?_⟩
    cases chosen with
    | none => exact hgives ctx ctx' hS hchosen
    | some i =>
      obtain ⟨c, s, hc, hs, hready⟩ := hchosen
      exact ⟨c, s, hc, hs, hready.of_survives (hchildren c (List.mem_of_getElem? hc)) hS⟩

/-- A branch keeps its contract if its children keep theirs. -/
theorem kept_choosing [Behavior A C N] (hR : IsEffect R) {selector : Selector C N}
    (hkept : ∀ c ∈ children, c.Kept R) (hgives : ∀ c ∈ children, ∀ ctx, c.gives ctx → gives ctx)
    (hselect : Selects selector children needs gives) :
    (choosing selector children needs gives).Kept R where
  holds := by
    rintro kind ctx ⟨ss, chosen, rfl, hall, -⟩
    exact ⟨ss, chosen, rfl, hall⟩
  enter := by
    rintro kind ctx ⟨ss, before, rfl, hall⟩ hn generator
    obtain ⟨chosen, hr, hchosen⟩ := hselect ctx generator hn
    rw [hall.length_eq] at hr
    simp only [Step.activate, Step.ofKind, hr]
    refine ⟨trivial, hR.refl ctx, ?_⟩
    cases chosen with
    | none => exact ⟨ss, none, rfl, hall, hchosen⟩
    | some i =>
      obtain ⟨c, hc, hneeds⟩ := hchosen
      obtain ⟨s, hs, hk⟩ := exists_getElem?_of_forall₂ hall hc
      rw [Branch.choose_some (b := ⟨selector, ss, before⟩) hs]
      have hlt := (List.getElem?_eq_some_iff.mp hs).1
      refine ⟨ss.set i s.reset, some i, rfl, forall₂_set hall hc hk, c, s.reset, hc, ?_, ?_⟩
      · exact List.getElem?_set_self hlt
      · exact .inl ⟨rfl, hk, hneeds⟩
  drive := by
    rintro kind ctx ⟨ss, chosen, rfl, hall, hchosen⟩ dt generator
    cases chosen with
    | none =>
      refine meets_ofDriven (hR.refl ctx) (.inl ⟨rfl, ?_, hchosen⟩) ..
      exact ⟨ss, none, rfl, hall⟩
    | some i =>
      obtain ⟨c, s, hc, hs, hready⟩ := hchosen
      have hmem := List.mem_of_getElem? hc
      have hlt := (List.getElem?_eq_some_iff.mp hs).1
      obtain ⟨heffect, hdriven⟩ := (hkept c hmem).tick hR hready dt generator
      simp only [StepKind.tick, StepTick.ofBranch, StepTick.ofChosen, tickChild_of_some hs,
        Bool.false_eq_true, ↓reduceIte]
      refine meets_ofDriven heffect ?_ ..
      rcases hdriven with ⟨hr, -, hk, hg⟩ | ⟨hr, hactive, hb⟩
      · exact .inl ⟨hr, ⟨_, _, rfl, forall₂_set hall hc hk⟩, hgives c hmem _ hg⟩
      · have hplace := List.getElem?_set_self (a := (Step.tick false dt s ctx generator).step) hlt
        exact .inr ⟨hr, _, _, rfl, forall₂_set hall hc ((hkept c hmem).holds hb), c, _, hc, hplace,
          .inr ⟨hactive, hb⟩⟩

end Branches

theorem completion_ofList (completion : Completion) (sequences : List (Sequence A C N)) :
    (Group.ofList completion sequences).completion = completion := by
  have hfold (g : Group A C N) : (sequences.foldl Group.insert g).completion = g.completion := by
    induction sequences generalizing g with
    | nil => rfl
    | cons s rest ih =>
      rw [List.foldl_cons, ih]
      unfold Group.insert
      split <;> rfl
  exact hfold (.empty completion)

section Groups

variable [Behavior A C N] {Q : C → C → Prop} {P : C → Prop}

/-- The contract of a group of sequences that stay within `Q`. -/
def together (completion : Completion) (Q : C → C → Prop) (P : C → Prop) : Contract A C N where
  needs := P
  gives := P
  holds kind := ∃ members, kind = .parallel ⟨completion, members⟩ ∧ ∀ m ∈ members, m.Harmless Q
  busy kind ctx :=
    (∃ members, kind = .parallel ⟨completion, members⟩ ∧ ∀ m ∈ members, m.Harmless Q) ∧ P ctx

theorem holds_together {sequences : List (Sequence A C N)} (h : ∀ s ∈ sequences, s.Harmless Q)
    (completion : Completion) :
    (together completion Q P).holds (.parallel (.ofList completion sequences)) := by
  have hmembers : ∀ m ∈ (Group.ofList completion sequences).members, m.Harmless Q :=
    fun m hm => h m (Group.mem_ofList hm)
  have hcompletion := completion_ofList completion sequences
  generalize Group.ofList completion sequences = g at hmembers hcompletion
  cases g
  cases hcompletion
  exact ⟨_, rfl, hmembers⟩

theorem survives_together (hP : ∀ ctx ctx', S ctx ctx' → P ctx → P ctx') (completion : Completion) :
    (together completion Q P : Contract A C N).Survives S :=
  ⟨hP _ _, fun hS hb => ⟨hb.1, hP _ _ hS hb.2⟩⟩

theorem kept_together (hR : IsEffect R) (hQ : IsEffect Q)
    (hQR : ∀ ctx ctx', Q ctx ctx' → R ctx ctx') (hP : ∀ ctx ctx', Q ctx ctx' → P ctx → P ctx')
    (completion : Completion) :
    (together completion Q P : Contract A C N).Kept R where
  holds hb := hb.1
  enter := by
    rintro kind ctx ⟨members, rfl, hm⟩ hn generator
    refine ⟨rfl, hR.refl ctx, ⟨_, rfl, ?_⟩, hn⟩
    intro m hmem
    rw [resetAll_eq_map] at hmem
    obtain ⟨m', hm', rfl⟩ := List.mem_map.mp hmem
    exact (hm m' hm').obey .reset
  drive := by
    rintro kind ctx ⟨⟨members, rfl, hm⟩, hn⟩ dt generator
    obtain ⟨⟨n, hr⟩, heffect, hmembers⟩ := harmless_advanceAll hQ dt .member 0 hm ctx
    refine meets_ofDriven (hQR _ _ heffect) ?_ ..
    have hafter := hP _ _ heffect hn
    rw [hr]
    cases hmet : completion.isMet n (advanceAll false dt .member 0 members ctx).members.length with
    | true => exact .inl ⟨congrArg Except.ok hmet, ⟨_, rfl, hmembers⟩, hafter⟩
    | false => exact .inr ⟨congrArg Except.ok hmet, ⟨_, rfl, hmembers⟩, hafter⟩

end Groups

end Sequencer.Contract

import Sequencer.Proofs.Consistency
import Sequencer.Proofs.Marks

/-!
# The pace of a cascade

Within a sequence the steps that are ticked are those from the cursor on, in order, up to the first
that does not complete.
-/

namespace Sequencer

variable {A C N : Type}

def Entry.stepTicked? : Entry N → Option Nat
  | ⟨[.step index], .ticked⟩ => some index
  | _ => none

theorem Entry.stepTicked?_step (index : Nat) (event : Event N) :
    stepTicked? ⟨[.step index], event⟩ = if event.mark? = some .tick then some index else none := by
  cases event with
  | log line => cases line <;> rfl
  | _ => rfl

/-- The direct steps of a sequence that are ticked in a trace of it, in the order of time. -/
def Trace.stepsTicked (trace : Trace N) : List Nat := trace.filterMap Entry.stepTicked?

namespace Trace

@[simp] theorem stepsTicked_append (t u : Trace N) :
    stepsTicked (t ++ u) = stepsTicked t ++ stepsTicked u := by
  simp [stepsTicked]

theorem stepsTicked_eq_nil {t : Trace N} (h : ∀ e ∈ t, ∀ index, e.path ≠ [.step index]) :
    stepsTicked t = [] := by
  rw [stepsTicked, List.filterMap_eq_nil_iff]
  intro e he
  unfold Entry.stepTicked?
  split
  · exact absurd rfl (h _ he _)
  · rfl

theorem stepsTicked_under (index : Nat) (t : Trace N) :
    stepsTicked (t.under (.step index)) = List.replicate ((t.marks []).count .tick) index := by
  induction t with
  | nil => rfl
  | cons e t ih =>
    obtain ⟨path, event⟩ := e
    cases path with
    | nil =>
      have hu : stepsTicked (under (.step index) (⟨[], event⟩ :: t)) =
          (Entry.stepTicked? ⟨[.step index], event⟩).toList ++
            stepsTicked (under (.step index) t) := by
        cases h : Entry.stepTicked? ⟨[.step index], event⟩ <;> simp [stepsTicked, under, h]
      rw [hu, ih, marks_cons_here, List.count_append, Entry.stepTicked?_step]
      by_cases h : event.mark? = some .tick
      · simp [h, Nat.add_comm 1, List.replicate_succ]
      · cases hm : event.mark? with
        | none => simp
        | some mark =>
          have hne : mark ≠ .tick := fun hk => h (hm.trans (congrArg some hk))
          simp [hne]
    | cons hop path =>
      have hm : marks [] (⟨hop :: path, event⟩ :: t) = marks [] t := by
        simp [marks, eventsAt]
      have hu : stepsTicked (under (.step index) (⟨hop :: path, event⟩ :: t)) =
          stepsTicked (under (.step index) t) := rfl
      rw [hm, hu, ih]

end Trace

/-- Whether a cascade ticks `count` steps from `start` on, each of which completes but for the last,
and stops at the first that does not. -/
structure Cascade.Paces (k : Cascade A C N) (start count : Nat) : Prop where
  ticked : k.trace.stepsTicked = List.range' start count
  completed : ∀ i, start ≤ i → i + 1 < start + count → .stepEnd ∈ k.trace.marks [.step i]
  held : k.result = .ok false → 0 < count ∧ k.cursor + 1 = start + count ∧
    .stepEnd ∉ k.trace.marks [.step k.cursor]

section Cascades

variable [Behavior A C N]

theorem Step.pace_tick {s : Step A C N} (h : s.state ≠ .complete) (dt : Float32) (ctx : C)
    (generator : Generator) (index : Nat) :
    let t := Step.tick false dt s ctx generator
    (t.trace.under (.step index)).stepsTicked = [index] ∧
      (t.result = .ok true ↔ .stepEnd ∈ t.trace.marks []) := by
  obtain ⟨updates, hu, hm⟩ := Step.marks_tick h dt ctx generator
  have hzero : updates.count .tick = 0 := Nat.le_zero.mp (hu.count_le .tick)
  have hnot : .stepEnd ∉ updates := fun hk => by simpa using hu.subset hk
  generalize Step.tick false dt s ctx generator = t at hm
  have hticks : (t.trace.marks []).count .tick = 1 := by
    have hend : (endMarks t.result).count .tick = 0 := by
      unfold endMarks
      split <;> rfl
    rw [hm, List.count_append, List.count_cons_self, hzero, hend]
  constructor
  · rw [Trace.stepsTicked_under, hticks]
    rfl
  · rw [hm]
    match t.result with
    | .ok true => simp [endMarks]
    | .ok false => simp [endMarks, hnot]
    | .error e => simp [endMarks, hnot]

/-- A cascade through a row of steps ticks every step from the first that is not complete on, up to
the first that does not complete now, or to the end. -/
theorem cascade_paces (dt : Float32) (steps : List (Step A C N)) (index skip : Nat) (ctx : C)
    (generator : Generator) (h : Lined (steps.map Step.state) skip) :
    ∃ count, (cascade false dt index steps skip ctx generator).Paces (index + skip) count ∧
      skip + count ≤ steps.length ∧ (count = 0 → skip = steps.length) := by
  induction steps generalizing index skip ctx generator with
  | nil =>
    obtain rfl : skip = 0 := h
    refine ⟨0, ⟨rfl, ?_, ?_⟩, Nat.le_refl 0, fun _ => rfl⟩
    · intro i hi hlt
      omega
    · intro hr
      cases hr
  | cons first rest ih =>
    cases skip with
    | zero =>
      obtain ⟨hone, hends⟩ := Step.pace_tick h.1 dt ctx generator index
      rw [cascade_cons_zero]
      generalize Step.tick false dt first ctx generator = t at hone hends
      obtain ⟨trace, context, generator', step, result⟩ := t
      have hall : ∀ i, index ≤ i → i + 1 < index + 1 → .stepEnd ∈ Trace.marks [.step i]
          (trace.under (.step index)) := by
        intro i hi hlt
        omega
      cases result with
      | error e =>
        refine ⟨1, ⟨hone, hall, ?_⟩, by simp, ?_⟩
        · intro hr
          cases hr
        · intro hz
          cases hz
      | ok ended =>
        cases ended with
        | true =>
          obtain ⟨count, hk, hle, _⟩ := ih (index + 1) 0 context generator' (.of_all_notStarted h.2)
          refine ⟨count + 1, ⟨?_, ?_, ?_⟩, ?_, fun hz => absurd hz (Nat.succ_ne_zero count)⟩
          · simp only [StepTick.andThen, Trace.stepsTicked_append]
            rw [hone, hk.ticked, List.range'_succ]
            rfl
          · intro i hi hlt
            simp only [StepTick.andThen, Trace.marks_append]
            by_cases he : i = index
            · subst he
              apply List.mem_append_left
              rw [Trace.marks_under_cons]
              exact hends.mp rfl
            · exact List.mem_append_right _ (hk.completed i (by omega) (by omega))
          · intro hr
            obtain ⟨hpos, hc, hn⟩ := hk.held hr
            refine ⟨Nat.succ_pos count, ?_, ?_⟩
            · simp only [StepTick.andThen]
              omega
            · simp only [StepTick.andThen, Trace.marks_append]
              have hne : Hop.step index ≠
                  .step (cascade false dt (index + 1) rest 0 context generator').cursor := by
                intro he
                have := step_inj _ _ he
                omega
              rw [Trace.marks_under_of_ne hne]
              exact hn
          · simp only [List.length_cons]
            omega
        | false =>
          refine ⟨1, ⟨hone, hall, ?_⟩, by simp, ?_⟩
          · intro _
            refine ⟨Nat.one_pos, rfl, ?_⟩
            simp only [StepTick.andThen]
            rw [Trace.marks_under_cons]
            intro hm
            cases hends.mpr hm
          · intro hz
            cases hz
    | succ skip =>
      obtain ⟨count, hk, hle, hz⟩ := ih (index + 1) skip ctx generator h.2
      rw [Nat.add_right_comm, Nat.add_assoc] at hk
      refine ⟨count, ⟨hk.ticked, hk.completed, hk.held⟩, ?_, fun h0 => congrArg (· + 1) (hz h0)⟩
      simp only [List.length_cons]
      omega

end Cascades

end Sequencer

import Sequencer.Builder.Call
import Sequencer.Hive.Bee
import Sequencer.Proofs.Consistency
import Sequencer.Proofs.Definitions
import Sequencer.Proofs.FacesOfTicks
import Sequencer.Rehearsal

/-!
# A reset is a fresh start

After a reset a sequence behaves as one that was never run, whatever has happened to it: no call
tells the two apart, except that a warning is given only once. A reset leaves stale state behind in
many places of the tree. But none of it can be seen, so the two have one face, and calls keep it so.
-/

namespace Sequencer

variable {A C N : Type}

structure ReadOut where
  status : Status
  cursor : Nat
  passes : Nat
  stepState? : Nat → Option StepState

/-- What a call shows: the entries of its trace that are no warnings, the context and the result of
an advance, and what the sequence tells afterwards. -/
structure Observation (C N : Type) where
  trace : Trace N
  answer : Option (C × Except TickError Outcome)
  readOut : ReadOut

theorem Step.state_face [Behavior A C N] (s : Step A C N) : (s.face false).state = s.state := by
  obtain ⟨state, kind⟩ := s
  cases state <;> rfl

namespace Sequence

def readOut (s : Sequence A C N) : ReadOut := ⟨s.status, s.cursor, s.passes, s.stepState?⟩

variable [Behavior A C N]

def observe (s : Sequence A C N) : Command C → Observation C N
  | .advance dt ctx =>
    let a := s.advance dt ctx
    ⟨a.trace.quiet, some (a.context, a.result), a.sequence.readOut⟩
  | .reset => ⟨[], none, s.reset.readOut⟩

def observations (s : Sequence A C N) : List (Command C) → List (Observation C N)
  | [] => []
  | c :: later => s.observe c :: (s.obey c).observations later

omit [Behavior A C N] in
theorem IsNew.readOut {s : Sequence A C N} (h : s.IsNew) :
    s.readOut =
      ⟨.notStarted, 0, 0, fun i => if i < s.steps.length then some .notStarted else none⟩ := by
  have hs : s.stepState? = fun i => if i < s.steps.length then some .notStarted else none := by
    funext i
    rw [stepState?]
    split
    case isTrue hi => simp [List.getElem?_eq_getElem hi, h.2 s.steps[i] (List.getElem_mem hi)]
    case isFalse hi => simp [List.getElem?_eq_none (Nat.le_of_not_lt hi)]
  simp only [Sequence.readOut, hs, h.status, cursor, passes, h.1]
  rfl

theorem IsNew.face_eq {s : Sequence A C N} (h : s.IsNew) : s.face false = s.face true := by
  obtain ⟨id, name, steps, policy, companions, generator, warns, warned, progress⟩ := s
  obtain rfl : progress = .initial policy := h.1
  rfl

theorem readOut_of_isNew {s s' : Sequence A C N} (h : s.face false = s'.face false) (hs : s.IsNew)
    (hs' : s'.IsNew) : s.readOut = s'.readOut := by
  rw [hs.readOut, hs'.readOut, Step.length_of_faces (face_eq_iff.mp h).steps]

theorem readOut_of_ne {s s' : Sequence A C N} (h : s.face false = s'.face false)
    (hs : s.status ≠ .notStarted) : s.readOut = s'.readOut := by
  obtain ⟨hprogress, hsteps, -⟩ := (face_eq_iff.mp h).of_ne hs
  have hstates := congrArg (List.map Step.state) hsteps
  simp only [Step.faces_eq_map, List.map_map, Function.comp_def, Step.state_face] at hstates
  have hstepState : s.stepState? = s'.stepState? := by
    funext i
    rw [stepState?_eq, stepState?_eq, hstates]
  simp only [readOut, status, cursor, passes, hprogress, hstepState]

theorem face_advance {s s' : Sequence A C N} (h : s.face false = s'.face false) (dt : Float32)
    (ctx : C) : (s.advance dt ctx).face = (s'.advance dt ctx).face :=
  face_advanceFrom dt h ctx

/-- A call of sequences of one face shows the same, and leaves sequences of one face. -/
theorem observe_of_face {s s' : Sequence A C N} (h : s.face false = s'.face false) (c : Command C) :
    s.observe c = s'.observe c ∧ (s.obey c).face false = (s'.obey c).face false := by
  cases c with
  | advance dt ctx =>
    have ha := face_advance h dt ctx
    simp only [Advance.face, Advance.mk.injEq] at ha
    obtain ⟨ht, hctx, hs, hr⟩ := ha
    exact ⟨by simp only [observe, ht, hctx, hr, readOut_of_ne hs (s.status_advance_ne dt ctx)], hs⟩
  | reset =>
    have hr : s.reset.face false = s'.reset.face false := by
      rw [face_reset, face_reset]
      exact face_true_of_face h
    exact ⟨by simp only [observe, readOut_of_isNew hr s.isNew_reset s'.isNew_reset], hr⟩

theorem observations_of_face {s s' : Sequence A C N} (h : s.face false = s'.face false)
    (commands : List (Command C)) : s.observations commands = s'.observations commands := by
  induction commands generalizing s s' with
  | nil => rfl
  | cons c later ih =>
    obtain ⟨ho, hf⟩ := observe_of_face h c
    simp only [observations, ho, ih hf]

/-- After any history, a reset makes a sequence one that was never run: no further calls, on
whatever contexts, can tell it from a new sequence of the same definition whose random sources stand
where its own do. The actions have to be such that a reload comes to the same whatever hooks have
run. -/
theorem observations_reset {s new : Sequence A C N} (hs : (Part.sequence s).All Part.IsSteady)
    (history : List (Command C)) (hnew : new.IsNew)
    (hd : (Part.sequence new).SameDefinition (.sequence s))
    (hg : (Part.sequence new).SameStreams (.sequence (s.after history))) :
    (s.after history).reset.readOut = new.readOut ∧
      ∀ later, (s.after history).reset.observations later = new.observations later := by
  have hlabels : (Part.sequence new).SameDefinition (.sequence (s.after history)) := fun path =>
    (hd path).trans (Sequence.sameDefinition_after history hs path).symm
  have htrue : new.face true = (s.after history).face true :=
    Part.sequence.inj (Part.face_eq_iff.mpr ⟨hlabels, hg⟩)
  have hfalse : (s.after history).reset.face false = new.face false := by
    rw [face_reset, ← htrue, hnew.face_eq]
  exact ⟨readOut_of_isNew hfalse (s.after history).isNew_reset hnew,
    observations_of_face hfalse⟩

/-- A sequence that was interrupted inside another one, and one that was built anew in its place. -/
theorem observations_reset_interrupted :
    let build (entropy : Entropy) (serial : Nat) : Sequence Rehearsal.Act Rehearsal.Stage String :=
      let inner := (Builder.ofCalls "inner" [.run (.leaf .idle)]).toSequence entropy serial
      (Builder.ofCalls "outer"
        [.run (.leaf (.callback (Rehearsal.cues [.push "go"]))), .run (.nested inner),
          .repeatForever]).toSequence entropy (serial + 1)
    let s := build (fun _ => .ofSeed 0) 0
    let new := build (fun _ => .ofSeed 0) 2
    let interrupted := s.after [.advance 0.5 .empty]
    (Part.sequence s).All Part.IsSteady ∧ interrupted.stepState? 1 = some .active ∧
      ∀ later, interrupted.reset.observations later = new.observations later := by
  intro build s new interrupted
  have hs : (Part.sequence s).All Part.IsSteady := by
    have hcue : (Part.step (.leaf (.callback (Rehearsal.cues [.push "go"]))) :
        Part Rehearsal.Act Rehearsal.Stage String).All Part.IsSteady :=
      .leaf (Action.isSteady_callback _ fun _ => rfl)
    have hidle : (Part.step (.leaf .idle) :
        Part Rehearsal.Act Rehearsal.Stage String).All Part.IsSteady :=
      .leaf Action.isSteady_idle
    refine .sequence trivial ?_ (fun c hc => by cases hc)
    intro step hstep
    rcases List.mem_cons.mp hstep with rfl | hstep
    · exact hcue
    · obtain rfl := List.mem_singleton.mp hstep
      refine .nested trivial (.sequence trivial ?_ (fun c hc => by cases hc))
      intro step hstep
      obtain rfl := List.mem_singleton.mp hstep
      exact hidle
  have hnew : new.IsNew := by
    refine ⟨rfl, ?_⟩
    intro step hstep
    rcases List.mem_cons.mp hstep with rfl | hstep
    · rfl
    · obtain rfl := List.mem_singleton.mp hstep
      rfl
  obtain ⟨hd, -⟩ := Part.face_eq_iff.mp
    (show (Part.sequence new).face = (Part.sequence s).face from rfl)
  obtain ⟨-, hg⟩ := Part.face_eq_iff.mp
    (show (Part.sequence new).face = (Part.sequence interrupted).face from rfl)
  exact ⟨hs, rfl, (observations_reset hs [.advance 0.5 .empty] hnew hd hg).2⟩

end Sequence

theorem Hive.BeeAction.isSteady (action : Hive.BeeAction) :
    (Action.custom action : Action Hive.BeeAction Hive.Foraging Hive.Report).IsSteady := by
  refine Action.isSteady_custom ?_ ?_ ?_ ?_ ?_ action
  · intro b
    cases b <;> rfl
  · intro b ctx
    cases b with
    | fly target arrived => rfl
    | gather flower rate gathered =>
      by_cases h : ctx.bee.position < fieldDistance <;> simp [Behavior.start, Behavior.reload, h]
  · intro b ctx dt
    cases b with
    | fly target arrived =>
      cases h : approach ctx.bee.position target (beeSpeed * dt) <;>
        simp [Behavior.update, Behavior.reload, h]
    | gather flower rate gathered => rfl
  · intro b ctx
    cases b <;> rfl
  · intro b ctx
    cases b <;> rfl

end Sequencer

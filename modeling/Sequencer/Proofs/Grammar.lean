import Sequencer.Proofs.CallMoves

/-!
# The grammar of builder calls

A chain of calls makes a sequence if and only if it is a list of phrases whose arguments are valid
and sets at most one repetition policy. A phrase is a neutral call, which only concerns settings or
companions, a plain call, or a whole block; neutral calls may also stand inside a block. The
sequence has one step for each block and for each plain call that is not about repetition, in the
order of the calls.
-/

namespace Sequencer

variable {A C N : Type}

abbrev Neutral (A C N : Type) := { call : Call A C N // call.isNeutral = true }

abbrev Plain (A C N : Type) := { call : Call A C N // call.isPlain = true }

abbrev Gap (A C N : Type) := List (Neutral A C N)

def Gap.calls (gap : Gap A C N) : List (Call A C N) := gap.map Subtype.val

/-- A further arm of a block, with the neutral calls before its guard and before its step. -/
structure Arm (A C N : Type) where
  before : Gap A C N
  guard : Condition C N
  between : Gap A C N
  step : Step A C N

def Arm.calls (arm : Arm A C N) : List (Call A C N) :=
  arm.before.calls ++ .orIf arm.guard :: (arm.between.calls ++ [.andThen arm.step])

/-- What follows the first arm of a block: further arms, and a fallback if there is one. -/
structure BlockRest (A C N : Type) where
  arms : List (Arm A C N)
  fallback : Option (Gap A C N × Step A C N)

namespace BlockRest

def fallbackCalls : Option (Gap A C N × Step A C N) → List (Call A C N)
  | none => []
  | some (before, step) => before.calls ++ [.otherwise step]

def calls (rest : BlockRest A C N) : List (Call A C N) :=
  rest.arms.flatMap Arm.calls ++ fallbackCalls rest.fallback

end BlockRest

structure Block (A C N : Type) where
  opening : Call A C N
  guard : Condition C N
  opens : opening.opening? = some guard
  between : Gap A C N
  step : Step A C N
  rest : BlockRest A C N

namespace Block

def calls (b : Block A C N) : List (Call A C N) :=
  b.opening :: (b.between.calls ++ [.andThen b.step] ++ b.rest.calls)

/-- The step of a block with these first arms. -/
def branch (arms : List (Condition C N × Step A C N)) (rest : BlockRest A C N) : Step A C N :=
  .branch (.guarded (arms ++ rest.arms.map fun arm => (arm.guard, arm.step))
    (rest.fallback.map Prod.snd))

end Block

/-- A part of a chain of calls. -/
inductive Phrase (A C N : Type)
  | neutral (call : Neutral A C N)
  | plain (call : Plain A C N)
  | block (block : Block A C N)

namespace Phrase

def calls : Phrase A C N → List (Call A C N)
  | neutral call => [call.1]
  | plain call => [call.1]
  | block b => b.calls

/-- The steps that a phrase stands for, under the settings in force at its beginning. -/
def steps (settings : Settings) : Phrase A C N → List (Step A C N)
  | neutral _ => []
  | plain call => (call.1.step? settings).toList
  | block b => [Block.branch [(b.guard, b.step)] b.rest]

def stepsFrom (settings : Settings) : List (Phrase A C N) → List (Step A C N)
  | [] => []
  | phrase :: later =>
    phrase.steps settings ++ stepsFrom (phrase.calls.foldl Call.settings settings) later

def sequence (name : String) (phrases : List (Phrase A C N)) (entropy : Entropy) (serial : Nat) :
    Sequence A C N :=
  let calls := phrases.flatMap calls
  let settings := calls.foldl Call.settings .standard
  let policy := (calls.filterMap Call.policy?).head?.getD .once
  { id := .serial serial
    name
    steps := stepsFrom .standard phrases
    policy
    companions := (Group.ofList .never (calls.filterMap Call.companion?)).members
    generator := .ofSeedOr (entropy serial) settings.seed
    warnOnInstantLoops := settings.warnOnInstantLoops
    warned := false
    progress := .initial policy }

end Phrase

/-- A neutral call in front of the rest of a block belongs to its first arm, or else to its
fallback, or else follows the block. -/
theorem BlockRest.neutral_cons {call : Call A C N} (h : call.isNeutral = true)
    (rest : BlockRest A C N) (phrases : List (Phrase A C N)) :
    ∃ (rest' : BlockRest A C N) (phrases' : List (Phrase A C N)),
      call :: (rest.calls ++ phrases.flatMap Phrase.calls) =
        rest'.calls ++ phrases'.flatMap Phrase.calls := by
  obtain ⟨_ | ⟨arm, arms⟩, _ | ⟨before, step⟩⟩ := rest
  · exact ⟨⟨[], none⟩, .neutral ⟨call, h⟩ :: phrases, rfl⟩
  · exact ⟨⟨[], some (⟨call, h⟩ :: before, step)⟩, phrases, rfl⟩
  · exact ⟨⟨{ arm with before := ⟨call, h⟩ :: arm.before } :: arms, none⟩, phrases, rfl⟩
  · exact ⟨⟨{ arm with before := ⟨call, h⟩ :: arm.before } :: arms, some (before, step)⟩,
      phrases, rfl⟩

namespace Builder

/-- A builder that no guard keeps waiting, and its steps once the open block is closed. -/
structure Ends (b : Builder A C N) (steps : List (Step A C N)) : Prop where
  ready : ¬ b.IsWaiting
  steps_eq : b.closeBlock.steps = steps

theorem ends_of_closed {b : Builder A C N} (closed : b.block = none) : b.Ends b.steps where
  ready := by simp [IsWaiting, closed]
  steps_eq := by rw [closeBlock_of_closed closed]

theorem ends_of_resting {b : Builder A C N} {arms} (resting : b.block = some ⟨arms, none⟩) :
    b.Ends (b.steps ++ [.branch (.guarded arms none)]) where
  ready := by simp [IsWaiting, resting]
  steps_eq := by rw [closeBlock_of_resting resting]

theorem Ends.congr {b b' : Builder A C N} {steps} (ends : b.Ends steps)
    (block : b'.block = b.block) (same : b'.steps = b.steps) : b'.Ends steps where
  ready := by simpa [IsWaiting, block] using ends.ready
  steps_eq := by
    rw [← ends.steps_eq]
    unfold closeBlock
    rw [block, same]
    split <;> first | exact same | rfl

theorem runs_gap (b : Builder A C N) (gap : Gap A C N) :
    ∃ b', b.Runs gap.calls b' ∧ b'.block = b.block ∧ b'.steps = b.steps := by
  induction gap generalizing b with
  | nil => exact ⟨b, .nil b, rfl, rfl⟩
  | cons call later ih =>
    obtain ⟨b', run, block, steps⟩ := ih _
    exact ⟨b', .cons (.neutral call.2) run, block, steps⟩

theorem runs_consequent {b : Builder A C N} {arms guard}
    (waiting : b.block = some ⟨arms, some guard⟩) (between : Gap A C N) (step : Step A C N) :
    ∃ b', b.Runs (between.calls ++ [.andThen step]) b' ∧
      b'.block = some ⟨arms ++ [(guard, step)], none⟩ ∧ b'.steps = b.steps := by
  obtain ⟨b', run, block, steps⟩ := b.runs_gap between
  have given := Moves.consequent step (block.trans waiting)
  exact ⟨_, run.append (.cons given (.nil _)), rfl, steps⟩

theorem runs_arm {b : Builder A C N} {arms} (resting : b.block = some ⟨arms, none⟩)
    (arm : Arm A C N) :
    ∃ b', b.Runs arm.calls b' ∧ b'.block = some ⟨arms ++ [(arm.guard, arm.step)], none⟩ ∧
      b'.steps = b.steps := by
  obtain ⟨b₁, run₁, block₁, steps₁⟩ := b.runs_gap arm.before
  have guarded := Moves.orIf arm.guard (block₁.trans resting)
  obtain ⟨b₂, run₂, block₂, steps₂⟩ := runs_consequent
    (b := { b₁ with block := some ⟨arms, some arm.guard⟩ }) rfl arm.between arm.step
  exact ⟨b₂, run₁.append (.cons guarded run₂), block₂, steps₂.trans steps₁⟩

theorem runs_arms {b : Builder A C N} {arms} (resting : b.block = some ⟨arms, none⟩)
    (further : List (Arm A C N)) :
    ∃ b', b.Runs (further.flatMap Arm.calls) b' ∧
      b'.block = some ⟨arms ++ further.map fun arm => (arm.guard, arm.step), none⟩ ∧
      b'.steps = b.steps := by
  induction further generalizing b arms with
  | nil => exact ⟨b, .nil b, by simpa using resting, rfl⟩
  | cons arm later ih =>
    obtain ⟨b₁, run₁, block₁, steps₁⟩ := runs_arm resting arm
    obtain ⟨b₂, run₂, block₂, steps₂⟩ := ih block₁
    exact ⟨b₂, run₁.append run₂, by simpa using block₂, steps₂.trans steps₁⟩

theorem runs_rest {b : Builder A C N} {arms} (resting : b.block = some ⟨arms, none⟩)
    (rest : BlockRest A C N) :
    ∃ b', b.Runs rest.calls b' ∧ b'.Ends (b.steps ++ [Block.branch arms rest]) := by
  obtain ⟨further, fallback⟩ := rest
  obtain ⟨b₁, run₁, block₁, steps₁⟩ := runs_arms resting further
  cases fallback with
  | none =>
    refine ⟨b₁, by simpa [BlockRest.calls, BlockRest.fallbackCalls] using run₁, ?_⟩
    exact steps₁ ▸ ends_of_resting block₁
  | some fallback =>
    obtain ⟨before, step⟩ := fallback
    obtain ⟨b₂, run₂, block₂, steps₂⟩ := b₁.runs_gap before
    have closed := Moves.otherwise step (block₂.trans block₁)
    refine ⟨_, run₁.append (run₂.append (.cons closed (.nil _))), ?_⟩
    rw [← steps₁, ← steps₂]
    exact ends_of_closed rfl

theorem runs_block {b : Builder A C N} {steps} (ends : b.Ends steps) (block : Block A C N) :
    ∃ b', b.Runs block.calls b' ∧
      b'.Ends (steps ++ [Block.branch [(block.guard, block.step)] block.rest]) := by
  have opened := Moves.opening block.opens ends.ready
  obtain ⟨b₁, run₁, block₁, steps₁⟩ := runs_consequent
    (b := { b.closeBlock with block := some ⟨[], some block.guard⟩ }) rfl block.between block.step
  obtain ⟨b₂, run₂, ends₂⟩ := runs_rest block₁ block.rest
  refine ⟨b₂, .cons opened (run₁.append run₂), ?_⟩
  rw [← ends.steps_eq]
  exact steps₁ ▸ ends₂

theorem runs_phrase {b : Builder A C N} {steps} (ends : b.Ends steps) (phrase : Phrase A C N)
    (single : (b.policy.toList ++ phrase.calls.filterMap Call.policy?).length ≤ 1) :
    ∃ b', b.Runs phrase.calls b' ∧ b'.Ends (steps ++ phrase.steps b.settings) := by
  cases phrase with
  | neutral call =>
    refine ⟨_, .cons (.neutral call.2) (.nil _), ?_⟩
    rw [Phrase.steps, List.append_nil]
    exact ends.congr rfl rfl
  | plain call =>
    have unset : call.1.policy? = none ∨ b.policy = none := by
      cases sets : call.1.policy? <;> cases held : b.policy <;>
        simp [Phrase.calls, sets, held] at single ⊢
    refine ⟨_, .cons (.plain call.2 ends.ready unset) (.nil _), ?_⟩
    rw [← ends.steps_eq]
    exact ends_of_closed b.closeBlock_block
  | block block => exact runs_block ends block

/-- Phrases that set at most one policy run, and the builder ends with their steps. -/
theorem runs_phrases {b : Builder A C N} {steps} (ends : b.Ends steps)
    (phrases : List (Phrase A C N))
    (single : (b.policy.toList ++
      (phrases.flatMap Phrase.calls).filterMap Call.policy?).length ≤ 1) :
    ∃ b', b.Runs (phrases.flatMap Phrase.calls) b' ∧
      b'.Ends (steps ++ Phrase.stepsFrom b.settings phrases) := by
  induction phrases generalizing b steps with
  | nil => exact ⟨b, .nil b, by simpa [Phrase.stepsFrom] using ends⟩
  | cons phrase later ih =>
    rw [List.flatMap_cons, List.filterMap_append, ← List.append_assoc] at single
    have first : (b.policy.toList ++ phrase.calls.filterMap Call.policy?).length ≤ 1 := by
      rw [List.length_append] at single
      omega
    obtain ⟨b₁, run₁, ends₁⟩ := runs_phrase ends phrase first
    obtain ⟨b₂, run₂, ends₂⟩ := ih ends₁ (by rwa [run₁.policy_eq])
    refine ⟨b₂, run₁.append run₂, ?_⟩
    rwa [run₁.settings_eq, List.append_assoc] at ends₂

/-- How the calls read that may follow a builder with this open block. -/
def Reads : Option (OpenBlock A C N) → List (Call A C N) → Prop
  | none, calls => ∃ phrases : List (Phrase A C N), calls = phrases.flatMap Phrase.calls
  | some ⟨_, none⟩, calls => ∃ (rest : BlockRest A C N) (phrases : List (Phrase A C N)),
    calls = rest.calls ++ phrases.flatMap Phrase.calls
  | some ⟨_, some _⟩, calls =>
    ∃ (between : Gap A C N) (step : Step A C N) (rest : BlockRest A C N)
      (phrases : List (Phrase A C N)),
      calls = between.calls ++ [.andThen step] ++ rest.calls ++ phrases.flatMap Phrase.calls

theorem reads_of_phrases {b : Builder A C N} (ready : ¬ b.IsWaiting)
    (phrases : List (Phrase A C N)) : Reads b.block (phrases.flatMap Phrase.calls) := by
  rcases block : b.block with _ | ⟨arms, _ | guard⟩
  · exact ⟨phrases, rfl⟩
  · exact ⟨⟨[], none⟩, phrases, rfl⟩
  · exact absurd ⟨arms, guard, block⟩ ready

theorem Moves.reads {b b' : Builder A C N} {call : Call A C N} {later : List (Call A C N)}
    (move : b.Moves call b') (reads : Reads b'.block later) : Reads b.block (call :: later) := by
  cases move with
  | neutral standing =>
    dsimp only at reads
    rcases block : b.block with _ | ⟨arms, _ | guard⟩ <;> rw [block] at reads
    · obtain ⟨phrases, rfl⟩ := reads
      exact ⟨.neutral ⟨call, standing⟩ :: phrases, rfl⟩
    · obtain ⟨rest, phrases, rfl⟩ := reads
      exact rest.neutral_cons standing phrases
    · obtain ⟨between, step, rest, phrases, rfl⟩ := reads
      exact ⟨⟨call, standing⟩ :: between, step, rest, phrases, rfl⟩
  | plain standing ready =>
    dsimp only at reads
    rw [closeBlock_block] at reads
    obtain ⟨phrases, rfl⟩ := reads
    exact reads_of_phrases ready (.plain ⟨call, standing⟩ :: phrases)
  | @opening _ guard opens ready =>
    obtain ⟨between, step, rest, phrases, rfl⟩ := reads
    exact reads_of_phrases ready (.block ⟨call, guard, opens, between, step, rest⟩ :: phrases)
  | consequent step waiting =>
    obtain ⟨rest, phrases, rfl⟩ := reads
    rw [waiting]
    exact ⟨[], step, rest, phrases, rfl⟩
  | orIf guard resting =>
    obtain ⟨between, step, rest, phrases, rfl⟩ := reads
    rw [resting]
    refine ⟨⟨⟨[], guard, between, step⟩ :: rest.arms, rest.fallback⟩, phrases, ?_⟩
    simp [BlockRest.calls, Arm.calls, Gap.calls]
  | otherwise step resting =>
    obtain ⟨phrases, rfl⟩ := reads
    rw [resting]
    exact ⟨⟨[], some ([], step)⟩, phrases, rfl⟩

/-- The calls of a run that leaves no guard waiting can be read as phrases. -/
theorem Runs.reads {b b' : Builder A C N} {calls : List (Call A C N)} (run : b.Runs calls b')
    (ready : ¬ b'.IsWaiting) : Reads b.block calls := by
  induction run with
  | nil => exact reads_of_phrases ready []
  | cons move _ ih => exact move.reads (ih ready)

theorem result_ok_iff {b : Builder A C N} {entropy : Entropy} {serial : Nat}
    {s : Sequence A C N} :
    b.result entropy serial = .ok s ↔
      b.closeBlock.misuses = [] ∧ s = b.closeBlock.toSequence entropy serial := by
  unfold result fault?
  cases misuses : b.closeBlock.misuses with
  | nil => simp [misuses, eq_comm]
  | cons first others =>
    cases fatal : (first :: others).find? BuildError.isFatal <;> simp [misuses, fatal]

theorem Runs.sequence_eq {name : String} {b : Builder A C N} {phrases : List (Phrase A C N)}
    (run : (new name).Runs (phrases.flatMap Phrase.calls) b)
    (ends : b.Ends (Phrase.stepsFrom .standard phrases)) (entropy : Entropy) (serial : Nat) :
    b.closeBlock.toSequence entropy serial = Phrase.sequence name phrases entropy serial := by
  have companions : b.companions = (phrases.flatMap Phrase.calls).filterMap Call.companion? :=
    run.companions_eq
  have policy : b.policy = ((phrases.flatMap Phrase.calls).filterMap Call.policy?).head? := by
    have held : b.policy.toList = (phrases.flatMap Phrase.calls).filterMap Call.policy? :=
      run.policy_eq
    rw [← held, Option.head?_toList]
  have settings : b.settings = (phrases.flatMap Phrase.calls).foldl Call.settings .standard :=
    run.settings_eq
  simp [toSequence, Phrase.sequence, run.name_eq, ends.steps_eq, policy, companions, settings, new]

/-- A chain makes a sequence if and only if it is a list of phrases whose arguments are valid and
that set at most one repetition policy; the sequence is the one that the phrases describe. -/
theorem done_ok_iff (name : String) (calls : List (Call A C N)) (entropy : Entropy) (serial : Nat)
    (s : Sequence A C N) :
    ((ofCalls name calls).done entropy serial).result = .ok s ↔
      ∃ phrases : List (Phrase A C N),
        calls = phrases.flatMap Phrase.calls ∧ Call.ValidFrom .standard calls ∧
        (calls.filterMap Call.policy?).length ≤ 1 ∧
        s = Phrase.sequence name phrases entropy serial := by
  -- the run of phrases, once they are known to make the calls of the chain
  have made {phrases : List (Phrase A C N)} (reads : calls = phrases.flatMap Phrase.calls)
      (valid : Call.ValidFrom .standard calls)
      (single : (calls.filterMap Call.policy?).length ≤ 1) :
      (ofCalls name calls).closeBlock.misuses = [] ∧
        (ofCalls name calls).closeBlock.toSequence entropy serial =
          Phrase.sequence name phrases entropy serial := by
    subst reads
    obtain ⟨b, run, ends⟩ := runs_phrases (b := new name) (ends_of_closed rfl) phrases single
    obtain ⟨same, clean⟩ := foldl_clean_iff.mpr ⟨rfl, valid, run⟩
    rw [ofCalls, same]
    exact ⟨(closeBlock_misuses b).mpr ⟨clean, ends.ready⟩, run.sequence_eq ends entropy serial⟩
  refine result_ok_iff.trans ⟨?_, ?_⟩
  · rintro ⟨clean, rfl⟩
    obtain ⟨kept, ready⟩ := (closeBlock_misuses _).mp clean
    obtain ⟨-, valid, run⟩ := foldl_clean_iff.mp ⟨rfl, kept⟩
    obtain ⟨phrases, reads⟩ := run.reads ready
    have single : (calls.filterMap Call.policy?).length ≤ 1 := by
      have held : (ofCalls name calls).policy.toList = calls.filterMap Call.policy? :=
        run.policy_eq
      rw [← held]
      exact Option.length_toList_le
    exact ⟨phrases, reads, valid, single, (made reads valid single).2⟩
  · rintro ⟨phrases, reads, valid, single, rfl⟩
    obtain ⟨clean, same⟩ := made reads valid single
    exact ⟨clean, same.symm⟩

example (guard : Condition C N) (step other : Step A C N) :
    (ofCalls "door" [.ifHolds guard, .seed 7, .andThen step, .otherwise other]).steps =
      [.branch (.guarded [(guard, step)] (some other))] := rfl

end Builder

end Sequencer

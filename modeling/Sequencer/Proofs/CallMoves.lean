import Sequencer.Builder.Call

/-!
# What builder calls do

A call is no misuse if and only if its argument is valid and its move is possible. The moves are
stated without misuses, and a chain of calls without misuse is a run of moves.
-/

namespace Sequencer

variable {A C N : Type}

namespace Call

/-- Calls that may stand anywhere. -/
def isNeutral : Call A C N → Bool
  | withSettings _ | seed _ | alongside _ => true
  | _ => false

/-- Calls that end an open block and open none. -/
def isPlain : Call A C N → Bool
  | run _ | andThen _ | waitUntil _ | wait _ | randomOneOf _ | randomOneOfWeighted _ | maybe _
  | maybeWith .. | inParallel _ | repeatTimes _ | repeatUntil _ | repeatForever => true
  | _ => false

/-- Whether the argument of a call makes sense, under the settings in force. -/
def IsValid (settings : Settings) : Call A C N → Prop
  | withSettings new => isProbability new.maybeProbability = true
  | ifAll guards => guards ≠ []
  | wait seconds => seconds.isFinite = true ∧ seconds ≥ 0
  | randomOneOf options => options ≠ []
  | randomOneOfWeighted options =>
    options ≠ [] ∧ checkWeights (options.map Prod.fst) = .ok ()
  | maybe _ => isProbability settings.maybeProbability = true
  | maybeWith probability _ => isProbability probability = true
  | repeatTimes count => 1 ≤ count
  | _ => True

def settings (old : Settings) : Call A C N → Settings
  | withSettings new => new
  | seed number => { old with seed := some number }
  | _ => old

def companion? : Call A C N → Option (Sequence A C N)
  | alongside companion => some companion
  | _ => none

def policy? : Call A C N → Option (Policy C N)
  | repeatTimes count => some (.count count)
  | repeatUntil condition => some (.untilHolds condition)
  | repeatForever => some .forever
  | _ => none

/-- The step that a plain call appends, under the settings in force. -/
def step? (settings : Settings) : Call A C N → Option (Step A C N)
  | run step | andThen step => some step
  | waitUntil condition => some (.leaf (.waitUntil condition))
  | wait seconds => some (.leaf (.wait (.ofSeconds seconds)))
  | randomOneOf options => some (.branch ⟨.uniform, options, none⟩)
  | randomOneOfWeighted options =>
    some (.branch ⟨.weighted (options.map Prod.fst), options.map Prod.snd, none⟩)
  | maybe step => some (.branch ⟨.chance settings.maybeProbability, [step], none⟩)
  | maybeWith probability step => some (.branch ⟨.chance probability, [step], none⟩)
  | inParallel sequences => some (.parallel (.ofList .all sequences))
  | _ => none

def opening? : Call A C N → Option (Condition C N)
  | ifHolds guard => some guard
  | ifAll guards => some (.all guards)
  | _ => none

theorem policy?_of_neutral {call : Call A C N} (h : call.isNeutral = true) :
    call.policy? = none := by
  cases call <;> first | rfl | cases h

theorem settings_of_plain {call : Call A C N} (h : call.isPlain = true) (old : Settings) :
    call.settings old = old := by
  cases call <;> first | rfl | cases h

theorem companion?_of_plain {call : Call A C N} (h : call.isPlain = true) :
    call.companion? = none := by
  cases call <;> first | rfl | cases h

theorem other_of_opening {call : Call A C N} {guard} (h : call.opening? = some guard) :
    (∀ old, call.settings old = old) ∧ call.companion? = none ∧ call.policy? = none := by
  cases call <;> first | exact ⟨fun _ => rfl, rfl, rfl⟩ | cases h

def ValidFrom (old : Settings) : List (Call A C N) → Prop
  | [] => True
  | call :: later => call.IsValid old ∧ ValidFrom (call.settings old) later

end Call

namespace Builder

def IsWaiting (b : Builder A C N) : Prop := ∃ arms guard, b.block = some ⟨arms, some guard⟩

/-- What a call does to a builder, as far as its argument is valid. -/
inductive Moves (b : Builder A C N) : Call A C N → Builder A C N → Prop
  | neutral {call} (standing : call.isNeutral = true) :
    Moves b call { b with
      settings := call.settings b.settings
      companions := b.companions ++ call.companion?.toList }
  | plain {call} (standing : call.isPlain = true) (ready : ¬ b.IsWaiting)
      (single : call.policy? = none ∨ b.policy = none) :
    Moves b call { b.closeBlock with
      steps := b.closeBlock.steps ++ (call.step? b.settings).toList
      policy := b.policy <|> call.policy? }
  | opening {call guard} (opens : call.opening? = some guard) (ready : ¬ b.IsWaiting) :
    Moves b call { b.closeBlock with block := some ⟨[], some guard⟩ }
  | consequent {arms guard} (step) (waiting : b.block = some ⟨arms, some guard⟩) :
    Moves b (.andThen step) { b with block := some ⟨arms ++ [(guard, step)], none⟩ }
  | orIf {arms} (guard) (resting : b.block = some ⟨arms, none⟩) :
    Moves b (.orIf guard) { b with block := some ⟨arms, some guard⟩ }
  | otherwise {arms} (step) (resting : b.block = some ⟨arms, none⟩) :
    Moves b (.otherwise step) { b with
      block := none
      steps := b.steps ++ [.branch (.guarded arms (some step))] }

theorem closeBlock_of_closed {b : Builder A C N} (closed : b.block = none) : b.closeBlock = b := by
  simp only [closeBlock, closed]

theorem closeBlock_of_resting {b : Builder A C N} {arms} (resting : b.block = some ⟨arms, none⟩) :
    b.closeBlock =
      { b with block := none, steps := b.steps ++ [.branch (.guarded arms none)] } := by
  simp only [closeBlock, resting]

theorem closeBlock_misuses (b : Builder A C N) :
    b.closeBlock.misuses = [] ↔ b.misuses = [] ∧ ¬ b.IsWaiting := by
  unfold closeBlock IsWaiting
  split <;> simp_all [fail]

@[simp] theorem closeBlock_name (b : Builder A C N) : b.closeBlock.name = b.name := by
  unfold closeBlock
  split <;> rfl

@[simp] theorem closeBlock_settings (b : Builder A C N) : b.closeBlock.settings = b.settings := by
  unfold closeBlock
  split <;> rfl

@[simp] theorem closeBlock_policy (b : Builder A C N) : b.closeBlock.policy = b.policy := by
  unfold closeBlock
  split <;> rfl

@[simp] theorem closeBlock_companions (b : Builder A C N) :
    b.closeBlock.companions = b.companions := by
  unfold closeBlock
  split <;> rfl

@[simp] theorem closeBlock_block (b : Builder A C N) : b.closeBlock.block = none := by
  unfold closeBlock
  split
  · assumption
  · rfl
  · rfl

@[simp] theorem fail_misuses (b : Builder A C N) (error : BuildError) :
    (b.fail error).misuses ≠ [] := by
  simp [fail]

theorem andThen_of_ready {b : Builder A C N} (ready : ¬ b.IsWaiting) (step : Step A C N) :
    b.andThen step = b.push step := by
  unfold andThen
  split
  · next arms guard waiting => exact absurd ⟨arms, guard, waiting⟩ ready
  · rfl

theorem setPolicy_of_none {b : Builder A C N} (unset : b.policy = none) (policy : Policy C N) :
    b.setPolicy policy = { b.closeBlock with policy := some policy } := by
  simp [setPolicy, unset]

theorem setPolicy_misuses (b : Builder A C N) (policy : Policy C N) :
    (b.setPolicy policy).misuses = [] ↔ b.closeBlock.misuses = [] ∧ b.policy = none := by
  cases h : b.policy <;> simp [setPolicy, h]

theorem pushChoice_of_ok {b : Builder A C N} {choice : Except ChoiceError (Branch A C N)}
    {branch : Branch A C N} (made : choice = .ok branch) :
    b.pushChoice choice = b.push (.branch branch) := by
  rw [made]
  rfl

theorem pushChoice_misuses (b : Builder A C N) (choice : Except ChoiceError (Branch A C N)) :
    (b.pushChoice choice).misuses = [] ↔
      b.closeBlock.misuses = [] ∧ ∃ branch, choice = .ok branch := by
  cases choice <;> simp [pushChoice, push]

theorem uniform_eq_ok {options : List (Step A C N)} {branch : Branch A C N} :
    Branch.uniform options = .ok branch ↔ options ≠ [] ∧ ⟨.uniform, options, none⟩ = branch := by
  cases options <;> simp [Branch.uniform]

theorem weighted_eq_ok {options : List (Float × Step A C N)} {branch : Branch A C N} :
    Branch.weighted options = .ok branch ↔
      (options ≠ [] ∧ checkWeights (options.map Prod.fst) = .ok ()) ∧
        ⟨.weighted (options.map Prod.fst), options.map Prod.snd, none⟩ = branch := by
  unfold Branch.weighted
  split
  · simp_all
  · split <;> simp_all

theorem chance_eq_ok {probability : Float} {step : Step A C N} {branch : Branch A C N} :
    Branch.chance probability step = .ok branch ↔
      isProbability probability = true ∧ ⟨.chance probability, [step], none⟩ = branch := by
  unfold Branch.chance
  split <;> simp_all

theorem apply_of_neutral {b : Builder A C N} {call : Call A C N}
    (standing : call.isNeutral = true) (valid : call.IsValid b.settings) :
    b.apply call = { b with
      settings := call.settings b.settings
      companions := b.companions ++ call.companion?.toList } := by
  cases call with
  | withSettings new =>
    have accepted : new.validate = .ok () := if_pos valid
    simp [apply, withSettings, accepted, Call.settings, Call.companion?]
  | seed number => simp [apply, Builder.seed, Call.settings, Call.companion?]
  | alongside companion => rfl
  | _ => cases standing

theorem apply_of_plain {b : Builder A C N} {call : Call A C N} (standing : call.isPlain = true)
    (ready : ¬ b.IsWaiting) (single : call.policy? = none ∨ b.policy = none)
    (valid : call.IsValid b.settings) :
    b.apply call = { b.closeBlock with
      steps := b.closeBlock.steps ++ (call.step? b.settings).toList
      policy := b.policy <|> call.policy? } := by
  have pushed (step : Step A C N) : b.push step = { b.closeBlock with
      steps := b.closeBlock.steps ++ [step], policy := b.policy <|> none } := by
    have kept : (b.policy <|> none) = b.closeBlock.policy := by simp
    rw [kept]
    rfl
  have policySet (policy : Policy C N) (sets : call.policy? = some policy) :
      b.setPolicy policy = { b.closeBlock with
        steps := b.closeBlock.steps ++ [], policy := b.policy <|> some policy } := by
    have unset : b.policy = none := single.resolve_left (by simp [sets])
    simp [setPolicy_of_none unset, unset]
  cases call with
  | run step => exact pushed step
  | andThen step => exact (andThen_of_ready ready step).trans (pushed step)
  | waitUntil condition => exact pushed _
  | wait seconds =>
    have accepted : (seconds.isFinite && seconds ≥ 0) = true := by simpa [Call.IsValid] using valid
    exact (if_pos accepted).trans (pushed _)
  | randomOneOf options =>
    exact (pushChoice_of_ok (uniform_eq_ok.mpr ⟨valid, rfl⟩)).trans (pushed _)
  | randomOneOfWeighted options =>
    exact (pushChoice_of_ok (weighted_eq_ok.mpr ⟨valid, rfl⟩)).trans (pushed _)
  | maybe step | maybeWith probability step =>
    exact (pushChoice_of_ok (chance_eq_ok.mpr ⟨valid, rfl⟩)).trans (pushed _)
  | inParallel sequences => exact pushed _
  | repeatTimes count =>
    have nonzero : (count == 0) = false := beq_false_of_ne (Nat.one_le_iff_ne_zero.mp valid)
    simp only [apply, repeatTimes, nonzero]
    exact policySet (.count count) rfl
  | repeatUntil condition => exact policySet (.untilHolds condition) rfl
  | repeatForever => exact policySet .forever rfl
  | _ => cases standing

theorem apply_of_opening {b : Builder A C N} {call : Call A C N} {guard : Condition C N}
    (opens : call.opening? = some guard) (valid : call.IsValid b.settings) :
    b.apply call = { b.closeBlock with block := some ⟨[], some guard⟩ } := by
  cases call with
  | ifHolds guard => cases opens; rfl
  | ifAll guards =>
    cases opens
    have some_guard : guards.isEmpty = false := by simpa [Call.IsValid] using valid
    simp [apply, ifAll, openBlock, some_guard]
  | _ => cases opens

theorem Moves.apply_eq {b b' : Builder A C N} {call : Call A C N} (move : b.Moves call b')
    (valid : call.IsValid b.settings) : b.apply call = b' := by
  cases move with
  | neutral standing => exact apply_of_neutral standing valid
  | plain standing ready single => exact apply_of_plain standing ready single valid
  | opening opens ready => exact apply_of_opening opens valid
  | consequent step waiting => simp [apply, andThen, waiting]
  | orIf guard resting => simp [apply, Builder.orIf, resting]
  | otherwise step resting => simp [apply, Builder.otherwise, resting]

/-- A call that is valid and whose move is possible, on a builder without misuse. -/
def Allows (b : Builder A C N) (call : Call A C N) : Prop :=
  b.misuses = [] ∧ call.IsValid b.settings ∧ ∃ b', b.Moves call b'

theorem allows_neutral {b : Builder A C N} {call : Call A C N}
    (standing : call.isNeutral = true) (clean : (b.apply call).misuses = []) : b.Allows call := by
  have kept_valid : b.misuses = [] ∧ call.IsValid b.settings := by
    cases call with
    | withSettings new =>
      cases probable : isProbability new.maybeProbability with
      | true =>
        have accepted : new.validate = .ok () := if_pos probable
        exact ⟨by simpa [apply, withSettings, accepted] using clean, probable⟩
      | false => simp [apply, withSettings, Settings.validate, probable] at clean
    | seed number | alongside companion => exact ⟨clean, trivial⟩
    | _ => cases standing
  exact ⟨kept_valid.1, kept_valid.2, _, .neutral standing⟩

theorem allows_plain {b : Builder A C N} {call : Call A C N} (standing : call.isPlain = true)
    (clean : (b.apply call).misuses = []) : b.Allows call := by
  have ends (ended : b.closeBlock.misuses = []) (valid : call.IsValid b.settings)
      (single : call.policy? = none ∨ b.policy = none) : b.Allows call := by
    obtain ⟨kept, ready⟩ := (closeBlock_misuses b).mp ended
    exact ⟨kept, valid, _, .plain standing ready single⟩
  have chosen {choice : Except ChoiceError (Branch A C N)} :=
    (pushChoice_misuses b choice).mp
  cases call with
  | run step | waitUntil condition | inParallel sequences => exact ends clean trivial (.inl rfl)
  | andThen step =>
    -- the only plain call that a waiting guard admits, though not as one that ends the block
    by_cases waiting : b.IsWaiting
    · obtain ⟨arms, guard, waiting⟩ := waiting
      exact ⟨by simpa [apply, andThen, waiting] using clean, trivial, _, .consequent step waiting⟩
    · exact ends (by rwa [apply, andThen_of_ready waiting] at clean) trivial (.inl rfl)
  | wait seconds =>
    simp only [apply, wait] at clean
    split at clean
    · next accepted => exact ends clean (by simpa [Call.IsValid] using accepted) (.inl rfl)
    · exact absurd clean (fail_misuses _ _)
  | randomOneOf options =>
    obtain ⟨ended, _, made⟩ := chosen clean
    exact ends ended (uniform_eq_ok.mp made).1 (.inl rfl)
  | randomOneOfWeighted options =>
    obtain ⟨ended, _, made⟩ := chosen clean
    exact ends ended (weighted_eq_ok.mp made).1 (.inl rfl)
  | maybe step | maybeWith probability step =>
    obtain ⟨ended, _, made⟩ := chosen clean
    exact ends ended (chance_eq_ok.mp made).1 (.inl rfl)
  | repeatTimes count =>
    simp only [apply, repeatTimes] at clean
    split at clean
    · exact absurd clean (fail_misuses _ _)
    · next nonzero =>
      obtain ⟨ended, unset⟩ := (setPolicy_misuses _ _).mp clean
      exact ends ended (Nat.one_le_iff_ne_zero.mpr (by simpa using nonzero)) (.inr unset)
  | repeatUntil condition | repeatForever =>
    obtain ⟨ended, unset⟩ := (setPolicy_misuses _ _).mp clean
    exact ends ended trivial (.inr unset)
  | _ => cases standing

theorem allows_opening {b : Builder A C N} {call : Call A C N} {guard : Condition C N}
    (opens : call.opening? = some guard) (clean : (b.apply call).misuses = []) :
    b.Allows call := by
  have begins (ended : b.closeBlock.misuses = []) (valid : call.IsValid b.settings) :
      b.Allows call := by
    obtain ⟨kept, ready⟩ := (closeBlock_misuses b).mp ended
    exact ⟨kept, valid, _, .opening opens ready⟩
  cases call with
  | ifHolds guard => exact begins clean trivial
  | ifAll guards =>
    cases guards with
    | nil =>
      have ended := (closeBlock_misuses (b.fail .emptyIf)).mp clean
      exact absurd ended.1 (fail_misuses b .emptyIf)
    | cons first others => exact begins clean (List.cons_ne_nil first others)
  | _ => cases opens

theorem allows_of_clean {b : Builder A C N} {call : Call A C N}
    (clean : (b.apply call).misuses = []) : b.Allows call := by
  cases call with
  | withSettings new | seed number | alongside companion => exact allows_neutral rfl clean
  | ifHolds guard | ifAll guards => exact allows_opening rfl clean
  | orIf guard =>
    simp only [apply, Builder.orIf] at clean
    split at clean
    · exact absurd clean (fail_misuses _ _)
    · exact absurd clean (fail_misuses _ _)
    · next resting => exact ⟨clean, trivial, _, .orIf guard resting⟩
  | otherwise step =>
    simp only [apply, Builder.otherwise] at clean
    split at clean
    · exact absurd clean (fail_misuses _ _)
    · exact absurd clean (fail_misuses _ _)
    · next resting => exact ⟨clean, trivial, _, .otherwise step resting⟩
  | _ => exact allows_plain rfl clean

theorem Moves.misuses_eq {b b' : Builder A C N} {call : Call A C N} (move : b.Moves call b')
    (kept : b.misuses = []) : b'.misuses = [] := by
  cases move with
  | neutral | consequent | orIf | otherwise => exact kept
  | plain _ ready | opening _ ready => exact (closeBlock_misuses b).mpr ⟨kept, ready⟩

/-- Calls without misuse are the valid calls that make a move. -/
theorem apply_clean_iff {b b' : Builder A C N} {call : Call A C N} :
    b.apply call = b' ∧ b'.misuses = [] ↔
      b.misuses = [] ∧ call.IsValid b.settings ∧ b.Moves call b' := by
  constructor
  · rintro ⟨rfl, clean⟩
    obtain ⟨kept, valid, b', move⟩ := allows_of_clean clean
    exact ⟨kept, valid, move.apply_eq valid ▸ move⟩
  · rintro ⟨kept, valid, move⟩
    exact ⟨move.apply_eq valid, move.misuses_eq kept⟩

/-- The moves of a chain of calls, one after the other. -/
inductive Runs : Builder A C N → List (Call A C N) → Builder A C N → Prop
  | nil (b) : Runs b [] b
  | cons {b b' b'' call later} (move : b.Moves call b') (rest : Runs b' later b'') :
    Runs b (call :: later) b''

theorem Runs.append {b b' b'' : Builder A C N} {xs ys : List (Call A C N)}
    (first : b.Runs xs b') (second : b'.Runs ys b'') : b.Runs (xs ++ ys) b'' := by
  induction first with
  | nil => exact second
  | cons move _ ih => exact .cons move (ih second)

theorem Moves.settings_eq {b b' : Builder A C N} {call : Call A C N} (move : b.Moves call b') :
    b'.settings = call.settings b.settings := by
  cases move with
  | neutral | consequent | orIf | otherwise => rfl
  | plain standing => simp [Call.settings_of_plain standing]
  | opening opens => simp [(Call.other_of_opening opens).1]

theorem Moves.companions_eq {b b' : Builder A C N} {call : Call A C N} (move : b.Moves call b') :
    b'.companions = b.companions ++ call.companion?.toList := by
  cases move with
  | neutral => rfl
  | plain standing => simp [Call.companion?_of_plain standing]
  | opening opens => simp [(Call.other_of_opening opens).2.1]
  | consequent | orIf | otherwise => simp [Call.companion?]

theorem Moves.policy_eq {b b' : Builder A C N} {call : Call A C N} (move : b.Moves call b') :
    b'.policy.toList = b.policy.toList ++ call.policy?.toList := by
  cases move with
  | neutral standing => simp [Call.policy?_of_neutral standing]
  | plain _ _ single => obtain unset | unset := single <;> simp [unset]
  | opening opens => simp [(Call.other_of_opening opens).2.2]
  | consequent | orIf | otherwise => simp [Call.policy?]

theorem Moves.name_eq {b b' : Builder A C N} {call : Call A C N} (move : b.Moves call b') :
    b'.name = b.name := by
  cases move with
  | neutral | consequent | orIf | otherwise => rfl
  | plain | opening => exact closeBlock_name b

theorem Runs.settings_eq {b b' : Builder A C N} {calls : List (Call A C N)}
    (run : b.Runs calls b') : b'.settings = calls.foldl Call.settings b.settings := by
  induction run with
  | nil => rfl
  | cons move _ ih => rw [ih, move.settings_eq, List.foldl_cons]

theorem Runs.companions_eq {b b' : Builder A C N} {calls : List (Call A C N)}
    (run : b.Runs calls b') :
    b'.companions = b.companions ++ calls.filterMap Call.companion? := by
  induction run with
  | nil => simp
  | @cons _ _ _ call _ move _ ih =>
    rw [ih, move.companions_eq]
    cases h : call.companion? <;> simp [h]

theorem Runs.policy_eq {b b' : Builder A C N} {calls : List (Call A C N)}
    (run : b.Runs calls b') :
    b'.policy.toList = b.policy.toList ++ calls.filterMap Call.policy? := by
  induction run with
  | nil => simp
  | @cons _ _ _ call _ move _ ih =>
    rw [ih, move.policy_eq]
    cases h : call.policy? <;> simp [h]

theorem Runs.name_eq {b b' : Builder A C N} {calls : List (Call A C N)}
    (run : b.Runs calls b') : b'.name = b.name := by
  induction run with
  | nil => rfl
  | cons move _ ih => rw [ih, move.name_eq]

/-- Chains without misuse are the valid chains that make their moves. -/
theorem foldl_clean_iff {b b' : Builder A C N} {calls : List (Call A C N)} :
    calls.foldl apply b = b' ∧ b'.misuses = [] ↔
      b.misuses = [] ∧ Call.ValidFrom b.settings calls ∧ b.Runs calls b' := by
  induction calls generalizing b with
  | nil =>
    constructor
    · rintro ⟨rfl, clean⟩
      exact ⟨clean, trivial, .nil _⟩
    · rintro ⟨clean, -, ⟨⟩⟩
      exact ⟨rfl, clean⟩
  | cons call later ih =>
    rw [List.foldl_cons, ih]
    constructor
    · rintro ⟨clean, validLater, rest⟩
      obtain ⟨kept, valid, move⟩ := apply_clean_iff.mp ⟨rfl, clean⟩
      exact ⟨kept, ⟨valid, move.settings_eq ▸ validLater⟩, .cons move rest⟩
    · rintro ⟨kept, ⟨valid, validLater⟩, run⟩
      cases run with
      | cons move rest =>
        obtain ⟨rfl, clean⟩ := apply_clean_iff.mpr ⟨kept, valid, move⟩
        exact ⟨clean, move.settings_eq ▸ validLater, rest⟩

end Builder

end Sequencer

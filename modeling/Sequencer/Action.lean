import Sequencer.Condition

/-!
# Actions

An action is what a step does. It answers five hooks: it is reloaded and started when its step is
entered, updated and checked on every tick while the step is active, and ended when it has
completed. Four actions come with the library; an application adds its own through `Behavior`.
-/

namespace Sequencer

/-- What a hook leaves behind: its notes, the action and the context, changed or not, and its
result. A hook that fails keeps the changes it has made. -/
structure Reply (A C N : Type) where
  notes : List N
  action : A
  context : C
  result : Except TickError Unit

/-- What a completion check leaves behind. It cannot change the context. -/
structure Check (A N : Type) where
  notes : List N
  action : A
  answer : Except TickError Bool

/-- The actions `A` of an application whose context is `C`. A hook that is left out does nothing,
and an action without a check of its own never completes. -/
class Behavior (A C N : Type) where
  start : A → C → Reply A C N := fun action ctx => ⟨[], action, ctx, .ok ()⟩
  update : A → C → Float32 → Reply A C N := fun action ctx _ => ⟨[], action, ctx, .ok ()⟩
  check : A → C → Check A N := fun action _ => ⟨[], action, .ok false⟩
  finish : A → C → Reply A C N := fun action ctx => ⟨[], action, ctx, .ok ()⟩
  reload : A → List N × A

/-- Completes once the tick times since its activation add up to a duration in seconds. -/
structure Wait where
  duration : Float32
  elapsed : Float32
  deriving DecidableEq

namespace Wait

def ofSeconds (duration : Float32) : Wait := ⟨duration, 0⟩

/-- The time left. It is zero when the difference is not a number. -/
def remaining (w : Wait) : Float32 :=
  let left := w.duration - w.elapsed
  if left > 0 then left else 0

def addTime (w : Wait) (dt : Float32) : Wait := { w with elapsed := w.elapsed + dt }

def isOver (w : Wait) : Bool := w.elapsed ≥ w.duration

end Wait

/-- What one run of a callback's function leaves behind. -/
structure Effect (C N : Type) where
  notes : List N
  context : C
  result : Except TickError Unit

/-- Runs a function on its first update and completes right after. A failed run leaves the callback
unfired, so the next update runs the function again. The function is told how often it ran
before. -/
structure Callback (C N : Type) where
  run : Nat → C → Effect C N
  runs : Nat
  fired : Bool

namespace Callback

variable {C N : Type}

def fallible (run : Nat → C → Effect C N) : Callback C N := ⟨run, 0, false⟩

/-- A callback whose function leaves notes and cannot fail. -/
def noting (run : C → List N × C) : Callback C N :=
  fallible fun _ ctx => let (notes, ctx) := run ctx; ⟨notes, ctx, .ok ()⟩

def modifying (change : C → C) : Callback C N := noting fun ctx => ([], change ctx)

end Callback

/-- What a step does: one of the library's actions or one of the application's. -/
inductive Action (A C N : Type)
  /-- Does nothing and never completes. -/
  | idle
  | wait (wait : Wait)
  /-- Completes when a condition holds. -/
  | waitUntil (condition : Condition C N)
  | callback (callback : Callback C N)
  | custom (action : A)

/-- What a hook of an action came to, with the events on the way. -/
structure Hooked (A C N α : Type) where
  events : List (Event N)
  action : Action A C N
  context : C
  result : Except TickError α

namespace Action

variable {A C N : Type} [Behavior A C N]

/-- The instance that runs for the next activation. -/
def reload : Action A C N → List (Event N) × Action A C N
  | idle => ([.reloaded], idle)
  | wait w => ([.reloaded], wait { w with elapsed := 0 })
  | waitUntil condition => ([.reloaded], waitUntil condition)
  | callback c => ([.reloaded], callback { c with fired := false })
  | custom action =>
    let (notes, reloaded) := Behavior.reload C action
    (notes.map .note ++ [.reloaded], custom reloaded)

def start (ctx : C) : Action A C N → Hooked A C N Unit
  | custom action =>
    let reply := Behavior.start (N := N) action ctx
    ⟨reply.notes.map .note ++ [.started reply.result], custom reply.action, reply.context,
      reply.result⟩
  | action => ⟨[.started (.ok ())], action, ctx, .ok ()⟩

def update (dt : Float32) (ctx : C) : Action A C N → Hooked A C N Unit
  | wait w => ⟨[.updated (.ok ())], wait (w.addTime dt), ctx, .ok ()⟩
  | callback c =>
    if c.fired then ⟨[.updated (.ok ())], callback c, ctx, .ok ()⟩
    else
      let effect := c.run c.runs ctx
      let fired := match effect.result with
        | .ok _ => true
        | .error _ => false
      ⟨effect.notes.map .note ++ [.ran effect.result, .updated effect.result],
        callback { c with runs := c.runs + 1, fired }, effect.context, effect.result⟩
  | custom action =>
    let reply := Behavior.update (N := N) action ctx dt
    ⟨reply.notes.map .note ++ [.updated reply.result], custom reply.action, reply.context,
      reply.result⟩
  | action => ⟨[.updated (.ok ())], action, ctx, .ok ()⟩

def check (ctx : C) : Action A C N → Hooked A C N Bool
  | idle => ⟨[.checked (.ok false)], idle, ctx, .ok false⟩
  | wait w => ⟨[.checked (.ok w.isOver)], wait w, ctx, .ok w.isOver⟩
  | waitUntil condition =>
    let verdict := condition.evaluate ctx
    ⟨verdict.events ++ [.checked verdict.answer], waitUntil condition, ctx, verdict.answer⟩
  | callback c => ⟨[.checked (.ok c.fired)], callback c, ctx, .ok c.fired⟩
  | custom action =>
    let check := Behavior.check action ctx
    ⟨check.notes.map .note ++ [.checked check.answer], custom check.action, ctx, check.answer⟩

def finish (ctx : C) : Action A C N → Hooked A C N Unit
  | custom action =>
    let reply := Behavior.finish (N := N) action ctx
    ⟨reply.notes.map .note ++ [.ended reply.result], custom reply.action, reply.context,
      reply.result⟩
  | action => ⟨[.ended (.ok ())], action, ctx, .ok ()⟩

/-- Enters an action: it is reloaded, then the reloaded instance is started. -/
def enter (action : Action A C N) (ctx : C) : Hooked A C N Unit :=
  let (events, reloaded) := action.reload
  let started := reloaded.start ctx
  { started with events := events ++ started.events }

/-- Drives an entered action for one tick: an update, then the completion check, then the end of an
action that has completed. The result says whether the action has finished. -/
def drive (action : Action A C N) (dt : Float32) (ctx : C) : Hooked A C N Bool :=
  let updated := action.update dt ctx
  match updated.result with
  | .error e => ⟨updated.events, updated.action, updated.context, .error e⟩
  | .ok () =>
    let checked := updated.action.check updated.context
    match checked.result with
    | .error e => ⟨updated.events ++ checked.events, checked.action, checked.context, .error e⟩
    | .ok false => ⟨updated.events ++ checked.events, checked.action, checked.context, .ok false⟩
    | .ok true =>
      let ended := checked.action.finish checked.context
      ⟨updated.events ++ checked.events ++ ended.events, ended.action, ended.context,
        ended.result.map fun () => true⟩

end Action

end Sequencer

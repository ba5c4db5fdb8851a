import Sequencer.Action
import Sequencer.Decimal.Bits

/-!
# Rehearsals

Stand-ins for an application, to watch a sequence at work: a small context, and actions, callbacks
and conditions that write down what is called and fail on request.
-/

namespace Sequencer.Rehearsal

structure Stage where
  flag : Bool
  value : Int64
  /-- Whether conditions and updates that look for it are to reject the stage. -/
  invalid : Bool
  deriving DecidableEq

def Stage.empty : Stage := ⟨false, 0, false⟩

inductive Fault
  | action
  | invalidContext
  | other
  deriving DecidableEq

def Fault.error (text : String) : Fault → TickError
  | action => .action text
  | invalidContext => .invalidContext text
  | other => .other text

/-- How a marked stage is rejected. -/
def markedInvalid : TickError := .invalidContext "context marked invalid"

inductive Cue
  | push (text : String)
  | add (amount : Int64)
  | setFlag (flag : Bool)
  | setInvalid (invalid : Bool)

def Cue.follow (stage : Stage) : Cue → List String × Stage
  | push text => ([text], stage)
  | add amount => ([], { stage with value := stage.value + amount })
  | setFlag flag => ([], { stage with flag })
  | setInvalid invalid => ([], { stage with invalid })

def followAll (stage : Stage) : List Cue → List String × Stage
  | [] => ([], stage)
  | cue :: rest =>
    let (notes, stage) := cue.follow stage
    let (later, stage) := followAll stage rest
    (notes ++ later, stage)

/-- A callback that follows cues. -/
def cues (script : List Cue) : Callback Stage String := .noting fun stage => followAll stage script

/-- A callback that follows cues after some failed runs. -/
def cuesAfter (failures : Nat) (fault : Fault) (script : List Cue) : Callback Stage String :=
  .fallible fun runs stage =>
    if runs < failures then ⟨["try-failed"], stage, .error (fault.error "not yet")⟩
    else
      let (notes, stage) := followAll stage script
      ⟨notes, stage, .ok ()⟩

/-- An action that notes every hook. Its failures are used up, never refilled. -/
structure Tracer where
  name : String
  /-- The number of updates after which it completes, if ever. -/
  after : Option Nat
  failStarts : Nat
  failUpdates : Nat
  failChecks : Nat
  failEnds : Nat
  fault : Fault
  /-- Whether a reload keeps the number of updates. -/
  keep : Bool
  /-- Whether a note of an update tells the tick time. -/
  showTime : Bool
  updates : Nat
  deriving DecidableEq

namespace Tracer

def note (t : Tracer) (hook : String) : String := t.name ++ ":" ++ hook

def failure (t : Tracer) (hook : String) : TickError :=
  t.fault.error (t.name ++ " " ++ hook ++ " failed")

def start (t : Tracer) (stage : Stage) : Reply Tracer Stage String :=
  if t.failStarts = 0 then ⟨[t.note "start"], t, stage, .ok ()⟩
  else
    ⟨[t.note "start-failed"], { t with failStarts := t.failStarts - 1 }, stage,
      .error (t.failure "start")⟩

def update (t : Tracer) (stage : Stage) (dt : Float32) : Reply Tracer Stage String :=
  if stage.invalid then ⟨[], t, stage, .error markedInvalid⟩
  else if t.failUpdates = 0 then
    let time := if t.showTime then " " ++ Decimal.bitsText32 dt else ""
    ⟨[t.note "update" ++ time], { t with updates := t.updates + 1 }, stage, .ok ()⟩
  else
    ⟨[t.note "update-failed"], { t with failUpdates := t.failUpdates - 1 }, stage,
      .error (t.failure "update")⟩

def check (t : Tracer) : Check Tracer String :=
  if t.failChecks = 0 then ⟨[], t, .ok (t.after.any (· ≤ t.updates))⟩
  else
    ⟨[t.note "complete-failed"], { t with failChecks := t.failChecks - 1 },
      .error (t.failure "complete")⟩

def finish (t : Tracer) (stage : Stage) : Reply Tracer Stage String :=
  if t.failEnds = 0 then ⟨[t.note "end"], t, stage, .ok ()⟩
  else
    ⟨[t.note "end-failed"], { t with failEnds := t.failEnds - 1 }, stage,
      .error (t.failure "end")⟩

def reload (t : Tracer) : List String × Tracer :=
  ([t.note "reload"], if t.keep then t else { t with updates := 0 })

end Tracer

inductive Act
  | tracer (tracer : Tracer)
  /-- Counts its updates, on the stage too, and completes after so many of them. A reload keeps the
  count, or starts over. -/
  | counter (perPass : Int) (keep : Bool) (tally done : Int)
  /-- Sets the flag of the stage and completes once it is set. -/
  | raiseFlag
  /-- Plays tracers in turn: a reload sends the one at work to the back of the queue and puts the
  first one to work. -/
  | rotation (live : Option Tracer) (queue : List Tracer)

namespace Act

/-- The answer of a rotation, from that of the tracer at work. -/
def rotationReply (queue : List Tracer) (reply : Reply Tracer Stage String) :
    Reply Act Stage String :=
  ⟨reply.notes, rotation (some reply.action) queue, reply.context, reply.result⟩

def tracerReply (reply : Reply Tracer Stage String) : Reply Act Stage String :=
  ⟨reply.notes, tracer reply.action, reply.context, reply.result⟩

instance : Behavior Act Stage String where
  start act stage :=
    match act with
    | tracer t => tracerReply (t.start stage)
    | counter _ _ tally _ => ⟨["counter:" ++ toString tally], act, stage, .ok ()⟩
    | rotation (some t) queue => rotationReply queue (t.start stage)
    | raiseFlag | rotation none _ => ⟨[], act, stage, .ok ()⟩
  update act stage dt :=
    match act with
    | tracer t => tracerReply (t.update stage dt)
    | counter perPass keep tally done =>
      ⟨[], counter perPass keep (tally + 1) (done + 1), { stage with value := stage.value + 1 },
        .ok ()⟩
    | raiseFlag => ⟨[], act, { stage with flag := true }, .ok ()⟩
    | rotation (some t) queue => rotationReply queue (t.update stage dt)
    | rotation none _ => ⟨[], act, stage, .ok ()⟩
  check act stage :=
    match act with
    | tracer t => let c := t.check; ⟨c.notes, tracer c.action, c.answer⟩
    | counter perPass _ _ done => ⟨[], act, .ok (perPass ≤ done)⟩
    | raiseFlag => ⟨[], act, .ok stage.flag⟩
    | rotation (some t) queue =>
      let c := t.check
      ⟨c.notes, rotation (some c.action) queue, c.answer⟩
    | rotation none _ => ⟨[], act, .ok true⟩
  finish act stage :=
    match act with
    | tracer t => tracerReply (t.finish stage)
    | rotation (some t) queue => rotationReply queue (t.finish stage)
    | counter .. | raiseFlag | rotation none _ => ⟨[], act, stage, .ok ()⟩
  reload act :=
    match act with
    | tracer t => let (notes, t) := t.reload; (notes, tracer t)
    | counter perPass keep tally _ =>
      ([], if keep then counter perPass keep tally 0 else counter perPass keep 0 0)
    | raiseFlag => ([], raiseFlag)
    | rotation live queue =>
      match queue ++ live.toList with
      | [] => ([], rotation none [])
      | t :: rest => ([t.note "rotate"], rotation (some { t with updates := 0 }) rest)

end Act

/-- Holds while the flag is set. -/
def flagIsSet : Condition Stage String := .reads Stage.flag

def valueAtLeast (n : Int64) : Condition Stage String := .reads fun stage => n ≤ stage.value

def valueDivisibleBy (n : Int) : Condition Stage String :=
  .reads fun stage => stage.value.toInt % n == 0

/-- A condition that is reached only on contexts that pass a check. -/
def checked {C N : Type} (rejects : C → Bool) (condition : Condition C N) : Condition C N :=
  .all [.fallible fun ctx => if rejects ctx then .error markedInvalid else .ok true, condition]

def failing {C N : Type} (fault : Fault) (text : String) : Condition C N :=
  .fallible fun _ => .error (fault.error text)

/-- A condition that is noted before it is evaluated. -/
def noted {C : Type} (text : String) (condition : Condition C String) : Condition C String :=
  .all [.test fun _ => ⟨["?" ++ text], .ok true⟩, condition]

end Sequencer.Rehearsal

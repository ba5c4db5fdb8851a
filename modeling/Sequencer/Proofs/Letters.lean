import Sequencer.Proofs.Owners

/-!
# The letters of a leaf

What a trace says about one leaf, as a word: its ticks, the calls of its hooks with their results,
and one letter for every time that something around the leaf was reset or entered anew. Each hook of
an action is one letter, whatever else it leaves behind.
-/

namespace Sequencer

variable {A C N : Type}

/-- What can be told about a leaf. -/
inductive Letter
  /-- Something around the leaf was reset, or entered anew. -/
  | renewed
  | ticked
  | reloaded
  | started (result : Except TickError Unit)
  | updated (result : Except TickError Unit)
  | checked (answer : Except TickError Bool)
  | ended (result : Except TickError Unit)

def Event.letter? : Event N → Option Letter
  | .ticked => some .ticked
  | .reloaded => some .reloaded
  | .started result => some (.started result)
  | .updated result => some (.updated result)
  | .checked answer => some (.checked answer)
  | .ended result => some (.ended result)
  | _ => none

/-- The letter of an event for the leaf at a path, when the event took place elsewhere or there. -/
def Event.letterFor? (event : Event N) : List Hop → List Hop → Option Letter
  | [], [] => event.letter?
  | hop :: _, [] => if event.reenters hop then some .renewed else none
  | hop :: path, other :: place => if other = hop then event.letterFor? path place else none
  | [], _ :: _ => none

/-- Whether a letter says that something around the leaf was reset or entered anew. -/
def Letter.isRenewal : Letter → Bool
  | renewed => true
  | _ => false

theorem Event.filter_letter? (event : Event N) :
    event.letter?.toList.filter (!·.isRenewal) = event.letter?.toList := by
  cases event <;> rfl

theorem Event.filter_letterFor? (event : Event N) (path place : List Hop) :
    (event.letterFor? path place).toList.filter (!·.isRenewal) =
      if place = path then event.letter?.toList else [] := by
  induction path generalizing place with
  | nil =>
    cases place with
    | nil => simpa [letterFor?] using event.filter_letter?
    | cons other place => rfl
  | cons hop path ih =>
    cases place with
    | nil => cases h : event.reenters hop <;> simp [letterFor?, h, Letter.isRenewal]
    | cons other place =>
      by_cases h : other = hop
      · simp [letterFor?, h, ih]
      · simp [letterFor?, h]

namespace Trace

/-- The word of the leaf at a path. -/
def letters (path : List Hop) (trace : Trace N) : List Letter :=
  trace.filterMap fun e => e.event.letterFor? path e.path

@[simp] theorem letters_append (path : List Hop) (t u : Trace N) :
    letters path (t ++ u) = letters path t ++ letters path u := by
  simp [letters]

theorem letters_cons_own (hop : Hop) (path : List Hop) (event : Event N) (t : Trace N) :
    letters (hop :: path) (⟨[], event⟩ :: t) =
      (if event.reenters hop then [.renewed] else []) ++ letters (hop :: path) t := by
  cases h : event.reenters hop <;> simp [letters, Event.letterFor?, h]

theorem letters_cons_of_ne {hop other : Hop} (h : other ≠ hop) (path place : List Hop)
    (event : Event N) (t : Trace N) :
    letters (hop :: path) (⟨other :: place, event⟩ :: t) = letters (hop :: path) t := by
  simp [letters, Event.letterFor?, h]

theorem letters_under (hop : Hop) (path : List Hop) (t : Trace N) :
    letters (hop :: path) (t.under hop) = letters path t := by
  simp [letters, under, List.filterMap_map, Function.comp_def, Event.letterFor?]

theorem letters_here (events : List (Event N)) :
    letters [] (here events) = events.filterMap Event.letter? := by
  simp [letters, here, List.filterMap_map, Function.comp_def, Event.letterFor?]

/-- But for renewals, the word of a leaf consists of its ticks and the calls of its hooks. -/
theorem filter_letters (path : List Hop) (t : Trace N) :
    (letters path t).filter (!·.isRenewal) = (t.eventsAt path).filterMap Event.letter? := by
  induction t with
  | nil => rfl
  | cons e t ih =>
    have he := e.event.filter_letterFor? path e.path
    have hc : letters path (e :: t) =
        (e.event.letterFor? path e.path).toList ++ letters path t := by
      cases h : e.event.letterFor? path e.path <;> simp [letters, h]
    rw [hc, List.filter_append, he, ih]
    by_cases h : e.path = path
    · cases hl : e.event.letter? <;> simp [eventsAt, h, hl]
    · simp [eventsAt, h]

@[simp] theorem letters_line (line : LogEvent) : letters [] (Trace.line line : Trace N) = [] := rfl

end Trace

@[simp] theorem filterMap_letter?_note (notes : List N) :
    notes.filterMap (Event.letter? ∘ Event.note) = [] := by
  rw [List.filterMap_eq_nil_iff]
  intro n _
  rfl

theorem filterMap_letter?_of_isDecision {events : List (Event N)}
    (h : ∀ e ∈ events, e.isDecision = true) : events.filterMap Event.letter? = [] := by
  refine filterMap_of_isDecision (fun e hd => ?_) h
  cases e <;> first | rfl | cases hd

namespace Action

variable [Behavior A C N]

@[simp] theorem letters_reload (a : Action A C N) :
    a.reload.1.filterMap Event.letter? = [.reloaded] := by
  cases a with
  | custom a => simp [reload, Event.letter?]
  | _ => rfl

@[simp] theorem letters_start (a : Action A C N) (ctx : C) :
    (a.start ctx).events.filterMap Event.letter? = [.started (a.start ctx).result] := by
  cases a with
  | custom a => simp [start, Event.letter?]
  | _ => rfl

@[simp] theorem letters_update (a : Action A C N) (dt : Float32) (ctx : C) :
    (a.update dt ctx).events.filterMap Event.letter? = [.updated (a.update dt ctx).result] := by
  cases a with
  | callback c =>
    simp only [update]
    split <;> simp [Event.letter?, List.filterMap_cons]
  | custom a => simp [update, Event.letter?]
  | _ => rfl

@[simp] theorem letters_check (a : Action A C N) (ctx : C) :
    (a.check ctx).events.filterMap Event.letter? = [.checked (a.check ctx).result] := by
  cases a with
  | waitUntil condition =>
    have h := filterMap_letter?_of_isDecision (condition.isDecision_evaluate ctx)
    simp [check, h, Event.letter?]
  | custom a => simp [check, Event.letter?]
  | _ => rfl

@[simp] theorem letters_finish (a : Action A C N) (ctx : C) :
    (a.finish ctx).events.filterMap Event.letter? = [.ended (a.finish ctx).result] := by
  cases a with
  | custom a => simp [finish, Event.letter?]
  | _ => rfl

end Action

end Sequencer

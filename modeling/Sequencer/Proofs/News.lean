import Sequencer.Proofs.Lifecycle

/-!
# News of a part

What a trace tells a part anywhere in the tree: that something around it was reset or entered anew,
and every entry at the part and behind it, as seen from there. A chronicle adds to the entries how
long the tick of the root is in which they take place. `Part.Lives` reads a chronicle as the visits
that it comes from, and `Part.Follows` the bare news. Resets are lazy, so a part may have to wait
for its own: the flag says that something around it is going to reset it before it is used. The main
statements are that every history of the sequence at the root is such a succession of visits, for
every part of its tree, and that the part is ticked for as long as the root.
-/

namespace Sequencer

/-- What a part is told. -/
inductive News (N : Type)
  /-- Something around the part was reset, or entered anew. -/
  | renewed
  /-- Something happened at the part or behind it; the path starts at the part. -/
  | entry (e : Entry N)

variable {A C N : Type}

/-- What an event at `place` tells the part at `path`. -/
def Event.newsFor? (event : Event N) : List Hop → List Hop → Option (News N)
  | [], place => some (.entry ⟨place, event⟩)
  | hop :: _, [] => if event.reenters hop then some .renewed else none
  | hop :: path, other :: place => if other = hop then event.newsFor? path place else none

def News.entry? : News N → Option (Entry N)
  | renewed => none
  | entry e => some e

/-- A piece of news in a chronicle: an entry comes with the length of the tick that it is from. -/
inductive Told (N : Type)
  | renewed
  | entry (clock : Float32) (e : Entry N)

def News.toldAt (clock : Float32) : News N → Told N
  | renewed => .renewed
  | entry e => .entry clock e

def Told.news : Told N → News N
  | renewed => .renewed
  | entry _ e => .entry e

theorem Told.map_news_entry (clock : Float32) (t : Trace N) :
    (t.map (entry clock)).map news = t.map .entry := by
  simp [Function.comp_def, news]

@[simp] theorem News.news_toldAt (clock : Float32) (news : News N) :
    (news.toldAt clock).news = news := by
  cases news <;> rfl

def Told.entry? (told : Told N) : Option (Entry N) := told.news.entry?

theorem Told.filterMap_entry?_map (clock : Float32) (t : Trace N) :
    (t.map (entry clock)).filterMap entry? = t := by
  induction t with
  | nil => rfl
  | cons e t ih => exact congrArg (e :: ·) ih

namespace Trace

/-- The news of the part at a path. -/
def newsFor (path : List Hop) (trace : Trace N) : List (News N) :=
  trace.filterMap fun e => e.event.newsFor? path e.path

@[simp] theorem newsFor_append (path : List Hop) (t u : Trace N) :
    newsFor path (t ++ u) = newsFor path t ++ newsFor path u := by
  simp [newsFor]

@[simp] theorem newsFor_nil (t : Trace N) : newsFor [] t = t.map .entry := by
  simp [newsFor, Event.newsFor?, List.filterMap_eq_map']

theorem newsFor_cons_own (hop : Hop) (path : List Hop) (event : Event N) (t : Trace N) :
    newsFor (hop :: path) (⟨[], event⟩ :: t) =
      (if event.reenters hop then [.renewed] else []) ++ newsFor (hop :: path) t := by
  cases h : event.reenters hop <;> simp [newsFor, Event.newsFor?, h]

theorem newsFor_cons_of_ne {hop other : Hop} (h : other ≠ hop) (path place : List Hop)
    (event : Event N) (t : Trace N) :
    newsFor (hop :: path) (⟨other :: place, event⟩ :: t) = newsFor (hop :: path) t := by
  simp [newsFor, Event.newsFor?, h]

theorem newsFor_under (hop : Hop) (path : List Hop) (t : Trace N) :
    newsFor (hop :: path) (t.under hop) = newsFor path t := by
  simp [newsFor, under, List.filterMap_map, Function.comp_def, Event.newsFor?]

/-- But for renewals, the news of a part are the entries at it and behind it. -/
theorem entries_newsFor (path : List Hop) (t : Trace N) :
    (newsFor path t).filterMap News.entry? = t.within path := by
  induction path generalizing t with
  | nil => simp [within, List.filterMap_map, Function.comp_def, News.entry?]
  | cons hop path ih =>
    rw [within, ← ih]
    induction t with
    | nil => rfl
    | cons e t iht =>
      obtain ⟨place, event⟩ := e
      cases place with
      | nil =>
        rw [newsFor_cons_own, inside_cons_own, ← iht, List.filterMap_append]
        cases event.reenters hop <;> rfl
      | cons other place =>
        by_cases h : other = hop
        · subst h
          have hc : (⟨other :: place, event⟩ :: t : Trace N) =
              Trace.under other [⟨place, event⟩] ++ t := rfl
          rw [hc, newsFor_append, inside_append, newsFor_under, inside_under_self,
            List.filterMap_append, iht, newsFor_append, List.filterMap_append]
        · rw [newsFor_cons_of_ne h, inside_cons_of_ne h, iht]

end Trace

namespace Part

/-- Whether something around the part at a path is going to reset it before it is used. -/
def awaitsReset : Part A C N → List Hop → Bool
  | _, [] => false
  | part, hop :: path => part.renews hop || (part.child? hop).any (·.awaitsReset path)

theorem awaitsReset_cons {part c : Part A C N} {hop : Hop} (h : part.child? hop = some c)
    (path : List Hop) :
    part.awaitsReset (hop :: path) = (part.renews hop || c.awaitsReset path) := by
  simp [awaitsReset, h]

theorem awaitsReset_of_isUnstarted {part : Part A C N} (h : part.isUnstarted = true) (hop : Hop)
    (path : List Hop) : part.awaitsReset (hop :: path) = true := by
  simp [awaitsReset, renews_of_isUnstarted h hop]

/-- The reset of a part either reaches what it holds or leaves it to be reset later. -/
theorem find?_reset {part found : Part A C N} {path : List Hop} (h : part.find? path = some found) :
    part.reset.find? path = some found.reset ∨
      part.reset.find? path = some found ∧ part.reset.awaitsReset path = true := by
  induction path generalizing part with
  | nil =>
    obtain rfl : part = found := Option.some.inj h
    exact .inl rfl
  | cons hop path ih =>
    obtain ⟨c, hc, hf⟩ := find?_cons_eq_some.mp h
    have hw := awaitsReset_of_isUnstarted part.isUnstarted_reset hop path
    match part with
    | .sequence s =>
      have hc' := child?_sequence_reset hc
      rcases ih hf with hr | ⟨hr, _⟩
      · exact .inl (find?_cons_eq_some.mpr ⟨c.reset, hc', hr⟩)
      · exact .inr ⟨find?_cons_eq_some.mpr ⟨c.reset, hc', hr⟩, hw⟩
    | .step s =>
      have hc' := (child?_step_reset s hop).trans hc
      exact .inr ⟨find?_cons_eq_some.mpr ⟨c, hc', hf⟩, hw⟩

variable [Behavior A C N]

/-- `Lives due part told due' part'`: in visits that are told so, the part becomes `part'`; the
flags tell whether it awaits a reset before and after. It is neither entered nor ticked while it
does, and entered only if it is unstarted. -/
inductive Lives : Bool → Part A C N → List (Told N) → Bool → Part A C N → Prop
  | done (due : Bool) (part : Part A C N) : Lives due part [] due part
  | renewed {due due' : Bool} {part part' : Part A C N} {told : List (Told N)}
      (later : Lives true part told due' part') :
      Lives due part (.renewed :: told) due' part'
  /-- The part is reset. It may be about to be reset once more. -/
  | reset {due due' : Bool} {part part' : Part A C N} {told : List (Told N)}
      (later : Lives due part.reset told due' part') : Lives true part told due' part'
  | entered {due' : Bool} {part part' : Part A C N} {told : List (Told N)}
      (h : part.isUnstarted = true) (clock : Float32) (ctx : C) (generator : Generator)
      (later : Lives false (part.visit (.enter ctx generator)).part told due' part') :
      Lives false part ((part.visit (.enter ctx generator)).trace.map (.entry clock) ++ told) due'
        part'
  | ticked {due' : Bool} {part part' : Part A C N} {told : List (Told N)} (clock : Float32)
      (ctx : C) (generator : Generator)
      (later : Lives false (part.visit (.tick clock ctx generator)).part told due' part') :
      Lives false part ((part.visit (.tick clock ctx generator)).trace.map (.entry clock) ++ told)
        due' part'

/-- The part lives through the news, whenever they took place. -/
def Follows (due : Bool) (part : Part A C N) (news : List (News N)) (due' : Bool)
    (part' : Part A C N) : Prop :=
  ∃ told, told.map Told.news = news ∧ Lives due part told due' part'

namespace Lives

variable {due due' due'' : Bool} {part part' part'' : Part A C N} {u v : List (Told N)}

theorem append (h : Lives due part u due' part') (k : Lives due' part' v due'' part'') :
    Lives due part (u ++ v) due'' part'' := by
  induction h with
  | done due part => exact k
  | renewed later ih => exact .renewed (ih k)
  | reset later ih => exact .reset (ih k)
  | entered h clock ctx generator later ih =>
    rw [List.append_assoc]
    exact .entered h clock ctx generator (ih k)
  | ticked clock ctx generator later ih =>
    rw [List.append_assoc]
    exact .ticked clock ctx generator (ih k)

end Lives

theorem lives_of_drives (part : Part A C N) {v : Visit C} (hv : v.Drives part) {clock : Float32}
    (ht : v.TicksAt clock) :
    Lives false part ((part.visit v).trace.map (.entry clock)) false (part.visit v).part := by
  rw [← List.append_nil (List.map _ _)]
  cases v with
  | reset => exact hv.elim
  | enter ctx generator => exact .entered hv clock ctx generator (.done false _)
  | tick dt ctx generator =>
    obtain rfl : dt = clock := ht
    exact .ticked dt ctx generator (.done false _)

theorem exists_lives_reset {part found : Part A C N} {path : List Hop}
    (h : part.find? path = some found) :
    ∃ found', part.reset.find? path = some found' ∧
      Lives true found [] (part.reset.awaitsReset path) found' := by
  rcases find?_reset h with hr | ⟨hr, hw⟩
  · exact ⟨found.reset, hr, .reset (.done _ _)⟩
  · exact ⟨found, hr, hw ▸ .done true found⟩

end Part

/-- The chronicle of the part at a path in a tick of the given length. -/
def Trace.toldFor (path : List Hop) (clock : Float32) (t : Trace N) : List (Told N) :=
  (t.newsFor path).map (News.toldAt clock)

@[simp] theorem Trace.toldFor_nil (clock : Float32) (t : Trace N) :
    t.toldFor [] clock = t.map (.entry clock) := by
  simp [toldFor, Function.comp_def, News.toldAt]

@[simp] theorem Trace.toldFor_append (path : List Hop) (clock : Float32) (t u : Trace N) :
    toldFor path clock (t ++ u) = toldFor path clock t ++ toldFor path clock u := by
  simp [toldFor]

theorem Trace.entries_toldFor (path : List Hop) (clock : Float32) (t : Trace N) :
    (t.toldFor path clock).filterMap Told.entry? = t.within path := by
  have hnews : Told.entry? ∘ News.toldAt clock = News.entry? (N := N) :=
    funext fun news => congrArg News.entry? (news.news_toldAt clock)
  rw [← entries_newsFor, toldFor, List.filterMap_map, hnews]

theorem Trace.mem_newsFor_of_toldFor {path : List Hop} {clock : Float32} {t : Trace N}
    {told : Told N} (h : told ∈ t.toldFor path clock) :
    told.news ∈ t.newsFor path ∧ told.news.toldAt clock = told := by
  obtain ⟨news, hnews, rfl⟩ := List.mem_map.mp h
  rw [News.news_toldAt]
  exact ⟨hnews, rfl⟩

theorem Trace.toldFor_under (hop : Hop) (path : List Hop) (clock : Float32) (t : Trace N) :
    toldFor (hop :: path) clock (t.under hop) = toldFor path clock t := by
  rw [toldFor, newsFor_under, toldFor]

variable [Behavior A C N]

/-- What is so for every visit of a part is so for every trace of its owner: what the part holds at
a path lives through its chronicle. -/
theorem Seen.lives {hop : Hop} {clock : Float32} {due due' : Bool} {part part' : Part A C N}
    {t : Trace N} {n : Nat} (hs : Seen hop clock due part t n due' part') {path : List Hop}
    (ih : ∀ (c : Part A C N) (v : Visit C) (found : Part A C N), v.Drives c → v.TicksAt clock →
      c.find? path = some found → ∃ found', (c.visit v).part.find? path = some found' ∧
        Part.Lives (c.awaitsReset path) found ((c.visit v).trace.toldFor path clock)
          ((c.visit v).part.awaitsReset path) found')
    {found : Part A C N} (h : part.find? path = some found) :
    ∃ found', part'.find? path = some found' ∧
      Part.Lives (due || part.awaitsReset path) found (t.toldFor (hop :: path) clock)
        (due' || part'.awaitsReset path) found' := by
  induction hs generalizing found with
  | done due part => exact ⟨found, h, .done _ _⟩
  | @own due due' part part' t n event later ihs =>
    obtain ⟨found', h', hl⟩ := ihs h
    refine ⟨found', h', ?_⟩
    rw [Trace.toldFor, Trace.newsFor_cons_own]
    cases hr : event.reenters hop with
    | false => simpa [hr, Trace.toldFor] using hl
    | true =>
      rw [hr, Bool.or_true, Bool.true_or] at hl
      exact .renewed hl
  | aside hne place event later ihs =>
    obtain ⟨found', h', hl⟩ := ihs h
    exact ⟨found', h', by rwa [Trace.toldFor, Trace.newsFor_cons_of_ne hne]⟩
  | @reset due' part part' t n later ihs =>
    obtain ⟨mid, hm, hr⟩ := Part.exists_lives_reset h
    obtain ⟨found', h', hl⟩ := ihs hm
    exact ⟨found', h', hr.append hl⟩
  | @entered due' part part' t n hun ctx generator later ihs =>
    obtain ⟨mid, hm, hv⟩ := ih part (.enter ctx generator) found hun trivial h
    obtain ⟨found', h', hl⟩ := ihs hm
    refine ⟨found', h', ?_⟩
    rw [Trace.toldFor_append, Trace.toldFor_under]
    exact hv.append hl
  | @ticked due' part part' t n ctx generator later ihs =>
    obtain ⟨mid, hm, hv⟩ := ih part (.tick clock ctx generator) found trivial rfl h
    obtain ⟨found', h', hl⟩ := ihs hm
    refine ⟨found', h', ?_⟩
    rw [Trace.toldFor_append, Trace.toldFor_under]
    exact hv.append hl

/-- In a visit that drives a part, everything in it lives through its chronicle. -/
theorem Part.exists_lives_visit (part : Part A C N) (v : Visit C) (clock : Float32)
    (path : List Hop) {found : Part A C N} (hv : v.Drives part) (ht : v.TicksAt clock)
    (h : part.find? path = some found) :
    ∃ found', (part.visit v).part.find? path = some found' ∧
      Part.Lives (part.awaitsReset path) found ((part.visit v).trace.toldFor path clock)
        ((part.visit v).part.awaitsReset path) found' := by
  induction path generalizing part v found with
  | nil =>
    obtain rfl : part = found := Option.some.inj h
    rw [Trace.toldFor_nil]
    exact ⟨_, rfl, part.lives_of_drives hv ht⟩
  | cons hop path ih =>
    obtain ⟨c, hc, hf⟩ := Part.find?_cons_eq_some.mp h
    obtain ⟨n, _, c', hc', hs⟩ := part.seen_visit hv.ne_reset ht hc
    obtain ⟨found', hf', hl⟩ := hs.lives (fun c v found => ih c v) hf
    rw [Part.awaitsReset_cons hc, Part.awaitsReset_cons hc']
    exact ⟨found', Part.find?_cons_eq_some.mpr ⟨c', hc', hf'⟩, hl⟩

namespace Sequence

def newsOf (s : Sequence A C N) (path : List Hop) : Command C → List (News N)
  | .advance dt ctx => (s.advance dt ctx).trace.newsFor path
  | .reset => [.renewed]

def news (s : Sequence A C N) (path : List Hop) : List (Command C) → List (News N)
  | [] => []
  | command :: later => s.newsOf path command ++ (s.obey command).news path later

theorem entries_news (s : Sequence A C N) (path : List Hop) (commands : List (Command C)) :
    (s.news path commands).filterMap News.entry? = (s.history commands).within path := by
  rw [← Trace.entries_newsFor]
  induction commands generalizing s with
  | nil => rfl
  | cons command commands ih =>
    rw [news, history, Trace.newsFor_append, List.filterMap_append, List.filterMap_append, ih]
    cases command <;> rfl

def toldOf (s : Sequence A C N) (path : List Hop) : Command C → List (Told N)
  | .advance dt ctx => (s.advance dt ctx).trace.toldFor path dt
  | .reset => [.renewed]

/-- The chronicle of the part at a path in a history of the root. -/
def chronicle (s : Sequence A C N) (path : List Hop) : List (Command C) → List (Told N)
  | [] => []
  | command :: later => s.toldOf path command ++ (s.obey command).chronicle path later

theorem news_chronicle (s : Sequence A C N) (path : List Hop) (commands : List (Command C)) :
    (s.chronicle path commands).map Told.news = s.news path commands := by
  induction commands generalizing s with
  | nil => rfl
  | cons command commands ih =>
    rw [chronicle, news, List.map_append, ih]
    cases command with
    | advance dt ctx => simp [toldOf, newsOf, Trace.toldFor, Function.comp_def]
    | reset => rfl

theorem exists_lives_obey (s : Sequence A C N) (command : Command C) {path : List Hop}
    {found : Part A C N} (h : (Part.sequence s).find? path = some found) :
    ∃ found', (Part.sequence (s.obey command)).find? path = some found' ∧
      Part.Lives ((Part.sequence s).awaitsReset path) found (s.toldOf path command)
        ((Part.sequence (s.obey command)).awaitsReset path) found' := by
  cases command with
  | advance dt ctx =>
    exact (Part.sequence s).exists_lives_visit (.tick dt ctx s.generator) dt path trivial rfl h
  | reset =>
    obtain ⟨found', h', hl⟩ := Part.exists_lives_reset h
    exact ⟨found', h', .renewed hl⟩

/-- Whatever happens to the sequence at the root, every part of its tree lives through its
chronicle. -/
theorem exists_lives (s : Sequence A C N) (commands : List (Command C)) {path : List Hop}
    {found : Part A C N} (h : (Part.sequence s).find? path = some found) :
    ∃ found', (Part.sequence (s.after commands)).find? path = some found' ∧
      Part.Lives ((Part.sequence s).awaitsReset path) found (s.chronicle path commands)
        ((Part.sequence (s.after commands)).awaitsReset path) found' := by
  induction commands generalizing s found with
  | nil => exact ⟨found, h, .done _ _⟩
  | cons command commands ih =>
    obtain ⟨mid, hm, hl⟩ := s.exists_lives_obey command h
    obtain ⟨found', h', hl'⟩ := ih (s.obey command) hm
    exact ⟨found', h', hl.append hl'⟩

theorem exists_follows (s : Sequence A C N) (commands : List (Command C)) {path : List Hop}
    {found : Part A C N} (h : (Part.sequence s).find? path = some found) :
    ∃ found', (Part.sequence (s.after commands)).find? path = some found' ∧
      Part.Follows ((Part.sequence s).awaitsReset path) found (s.news path commands)
        ((Part.sequence (s.after commands)).awaitsReset path) found' := by
  obtain ⟨found', h', hl⟩ := s.exists_lives commands h
  exact ⟨found', h', _, s.news_chronicle path commands, hl⟩

end Sequence

end Sequencer

import Sequencer.Settings.Text
import Sequencer.Proofs.Notation.Records

/-!
# Settings in storage

Settings are had back from the text that stores them, every bit of their probability included, unless
the probability is not one. Of a text that gives only some of the fields, in whatever order, the rest
are standard.
-/

namespace Sequencer.Settings

open Notation Decimal

/-- A field of settings and a value for it. -/
inductive Assignment
  | maybeProbability (value : Float)
  | seed (value : Option UInt64)
  | warnOnInstantLoops (value : Bool)

namespace Assignment

def name : Assignment → String
  | maybeProbability _ => "maybe_probability"
  | seed _ => "seed"
  | warnOnInstantLoops _ => "warn_on_instant_loops"

def text : Assignment → String
  | maybeProbability value => floatText value
  | seed value => optionText (value.map fun seed => Nat.repr seed.toNat)
  | warnOnInstantLoops value => boolText value

/-- The texts of a value. A probability may be written as it is stored, or by any decimal that is
the probability without loss. Blanks may stand between the parts of a seed. -/
inductive IsSpelled : List Char → Assignment → Prop
  | stored (value : Float) : IsSpelled (floatText value).toList (maybeProbability value)
  | decimal {value : Float} {negative : Bool} {whole fraction : List Char}
    (hwhole : AreDigits whole) (hfraction : ∀ c ∈ fraction, c.isDigit = true)
    (hvalue : IsExactly value negative
      (digitsValue (whole ++ fraction) * 10 ^ (-fraction.length : Int))) :
    IsSpelled (decimalChars negative whole fraction) (maybeProbability value)
  | noSeed : IsSpelled (optionText none).toList (seed none)
  | someSeed (before inside after : Spacing) {value : UInt64} {digits : List Char}
    (hdigits : AreDigits digits) (hvalue : digitsValue digits = value.toNat) :
    IsSpelled (someChars before inside after digits) (seed (some value))
  | flag (value : Bool) : IsSpelled (boolText value).toList (warnOnInstantLoops value)

/-- Whether a written field gives the value to the field. -/
def IsWritten (t : FieldText) (a : Assignment) : Prop := t.name = a.name ∧ IsSpelled t.value a

def apply : Assignment → Settings → Settings
  | maybeProbability value, s => { s with maybeProbability := value }
  | seed value, s => { s with seed := value }
  | warnOnInstantLoops value, s => { s with warnOnInstantLoops := value }

theorem isSpelled_text (a : Assignment) : IsSpelled a.text.toList a := by
  cases a with
  | maybeProbability value => exact .stored value
  | warnOnInstantLoops value => exact .flag value
  | seed value =>
    cases value with
    | none => exact .noSeed
    | some seed =>
      rw [text, Option.map_some, toList_optionText, Nat.toList_repr]
      exact .someSeed _ _ _ (areDigits_toDigits seed.toNat) (digitsValue_toDigits seed.toNat)

theorem spells_seed {chars : List Char} {value : Option UInt64} (h : IsSpelled chars (seed value)) :
    Spells (option {} (nat .natural64)) chars (value.map UInt64.toNat) := by
  cases h with
  | noSeed => exact spells_none {} _
  | @someSeed before inside after value digits hdigits hvalue =>
    have hrange : WholeType.natural64.contains (digitsValue digits) = true := by
      have hlt := value.toNat_lt
      simp [WholeType.contains, WholeType.natural64, hvalue]
      omega
    have hspells := spells_some (d := {}) (spells_nat hdigits hrange) before inside after
    rwa [hvalue] at hspells

theorem spells_maybeProbability {chars : List Char} {value : Float}
    (h : IsSpelled chars (maybeProbability value)) : Spells float chars value := by
  cases h with
  | stored => exact spells_float value
  | decimal hwhole hfraction hvalue => exact spells_exactly hwhole hfraction hvalue

theorem spells_warnOnInstantLoops {chars : List Char} {value : Bool}
    (h : IsSpelled chars (warnOnInstantLoops value)) : Spells bool chars value := by
  cases h with
  | flag => exact spells_bool value

theorem changes_of_isWritten {t : FieldText} {a : Assignment} (h : IsWritten t a) :
    t.Changes (fields {}) a.apply := by
  obtain ⟨hname, hspelled⟩ := h
  cases a with
  | maybeProbability value =>
    have hmap := (spells_maybeProbability hspelled).map fun (value : Float) (s : Settings) =>
      { s with maybeProbability := value }
    exact ⟨_, by rw [hname]; rfl, hmap⟩
  | seed value =>
    have hmap := (spells_seed hspelled).map fun (value : Option Nat) (s : Settings) =>
      { s with seed := value.map UInt64.ofNat }
    have hseed : (value.map UInt64.toNat).map UInt64.ofNat = value := by
      cases value <;> simp
    rw [hseed] at hmap
    exact ⟨_, by rw [hname]; rfl, hmap⟩
  | warnOnInstantLoops value =>
    have hmap := (spells_warnOnInstantLoops hspelled).map fun (value : Bool) (s : Settings) =>
      { s with warnOnInstantLoops := value }
    exact ⟨_, by rw [hname]; rfl, hmap⟩

/-- Values for different fields do not get in each other's way. -/
theorem apply_comm {a b : Assignment} (h : a.name ≠ b.name) (s : Settings) :
    a.apply (b.apply s) = b.apply (a.apply s) := by
  cases a <;> cases b <;> first | rfl | exact absurd rfl h

end Assignment

/-- Values for some of the fields. -/
structure Given where
  maybeProbability : Option Float
  seed : Option (Option UInt64)
  warnOnInstantLoops : Option Bool

namespace Given

/-- Settings with the given values, and with the standard ones in the other fields. -/
def complete (g : Given) : Settings where
  maybeProbability := g.maybeProbability.getD standard.maybeProbability
  seed := g.seed.getD standard.seed
  warnOnInstantLoops := g.warnOnInstantLoops.getD standard.warnOnInstantLoops

def assignments (g : Given) : List Assignment :=
  (g.maybeProbability.map .maybeProbability).toList ++ (g.seed.map .seed).toList ++
    (g.warnOnInstantLoops.map .warnOnInstantLoops).toList

theorem nodup_assignments (g : Given) : (g.assignments.map Assignment.name).Nodup := by
  obtain ⟨_ | _, _ | _, _ | _⟩ := g <;> simp [assignments, Assignment.name]

theorem foldl_assignments (g : Given) :
    g.assignments.foldl (fun s a => a.apply s) standard = g.complete := by
  obtain ⟨_ | _, _ | _, _ | _⟩ := g <;> rfl

/-- The order of the fields does not matter. -/
theorem foldl_of_perm {g : Given} {order : List Assignment} (h : order.Perm g.assignments) :
    order.foldl (fun s a => a.apply s) standard = g.complete := by
  rw [← foldl_assignments]
  refine h.foldl_eq' (fun a ha b hb s => ?_) standard
  by_cases hname : a.name = b.name
  · rw [List.inj_on_of_nodup_map g.nodup_assignments (h.mem_iff.mp ha) (h.mem_iff.mp hb) hname]
  · exact (Assignment.apply_comm hname s).symm

end Given

theorem isPlainName_fields : ∀ field ∈ fields {}, IsPlainName field.name := by
  intro field hfield
  simp only [fields, List.mem_cons, List.not_mem_nil, or_false] at hfield
  rcases hfield with rfl | rfl | rfl
  · exact ⟨⟨'m', rfl, by decide⟩, List.all_eq_true.mp rfl⟩
  · exact ⟨⟨'s', rfl, by decide⟩, List.all_eq_true.mp rfl⟩
  · exact ⟨⟨'w', rfl, by decide⟩, List.all_eq_true.mp rfl⟩

theorem isPlainName_type : IsPlainName "SequencerSettings" :=
  ⟨⟨'S', rfl, by decide⟩, List.all_eq_true.mp rfl⟩

/-- Settings are read from each text that gives values for some of the fields. -/
theorem ofText?_of_isDocument {g : Given} {order : List Assignment}
    (horder : order.Perm g.assignments) {ts : List FieldText}
    (hts : List.Forall₂ Assignment.IsWritten ts order) {text : String}
    (htext : IsDocument "SequencerSettings" ts text) :
    ofText? (read maxLevels) text = some g.complete := by
  have hnames : ts.map (·.name) = order.map Assignment.name := by
    rw [← List.forall₂_eq_eq_eq, List.forall₂_map_left_iff, List.forall₂_map_right_iff]
    exact hts.imp fun _ _ hwritten => hwritten.1
  have hchanges : List.Forall₂ (FieldText.Changes (fields {})) ts (order.map Assignment.apply) := by
    rw [List.forall₂_map_right_iff]
    exact hts.imp fun _ _ => Assignment.changes_of_isWritten
  have hnodup : (ts.map (·.name)).Nodup := by
    rw [hnames, (horder.map _).nodup_iff]
    exact g.nodup_assignments
  have hread := ofText?_record isPlainName_type isPlainName_fields htext hchanges hnodup maxLevels
    standard
  rw [List.foldl_map, Given.foldl_of_perm horder] at hread
  exact hread

theorem validate_ok_iff (s : Settings) :
    s.validate = .ok () ↔ isProbability s.maybeProbability = true := by
  unfold validate
  split <;> simp_all

theorem ofText_of_isDocument {g : Given} {order : List Assignment}
    (horder : order.Perm g.assignments) {ts : List FieldText}
    (hts : List.Forall₂ Assignment.IsWritten ts order) {text : String}
    (htext : IsDocument "SequencerSettings" ts text) :
    ofText text = if isProbability g.complete.maybeProbability then .ok g.complete
      else .error (.probabilityOutOfRange g.complete.maybeProbability) := by
  simp only [ofText, ofText?_of_isDocument horder hts htext, validate]
  split <;> rfl

theorem toText_isDocument (s : Settings) :
    ∃ (g : Given) (ts : List FieldText), g.complete = s ∧
      List.Forall₂ Assignment.IsWritten ts g.assignments ∧
      IsDocument "SequencerSettings" ts s.toText := by
  let g : Given := ⟨some s.maybeProbability, some s.seed, some s.warnOnInstantLoops⟩
  obtain ⟨ts, htext, hts⟩ := recordText_isText "SequencerSettings" 0
    (g.assignments.map fun a => (a.name, a.text))
  have hwritten : List.Forall₂ Assignment.IsWritten ts g.assignments := by
    rw [List.map_map, ← List.forall₂_eq_eq_eq, List.forall₂_map_left_iff,
      List.forall₂_map_right_iff] at hts
    refine hts.imp fun t a h => ⟨congrArg Prod.fst h, ?_⟩
    rw [show t.value = a.text.toList from congrArg Prod.snd h]
    exact a.isSpelled_text
  refine ⟨g, ts, rfl, hwritten, ⟨[], areBlank_nil⟩, ⟨[], areBlank_nil⟩, _, htext, ?_⟩
  rw [List.nil_append, List.append_nil]
  rfl

/-- Settings survive storage: valid ones are read from the text that stores them, and of others their
probability is reported. A text that gives values for some of the fields, in any order and with any
blanks between its parts, has the standard values in the other fields; it is checked after that. The
texts that stored values have are among those that give the values. -/
theorem survives_storage :
    (∀ s : Settings, s.validate = .ok () → ofText s.toText = .ok s) ∧
    (∀ s : Settings, s.validate ≠ .ok () →
      ofText s.toText = .error (.probabilityOutOfRange s.maybeProbability)) ∧
    (∀ (g : Given) (order : List Assignment) (ts : List FieldText) (text : String),
      order.Perm g.assignments → List.Forall₂ Assignment.IsWritten ts order →
      IsDocument "SequencerSettings" ts text →
        ofText text =
          if 0 ≤ g.complete.maybeProbability ∧ g.complete.maybeProbability ≤ 1 then .ok g.complete
          else .error (.probabilityOutOfRange g.complete.maybeProbability)) ∧
    ∀ a : Assignment, Assignment.IsSpelled a.text.toList a := by
  have hstored (s : Settings) : ofText s.toText = if isProbability s.maybeProbability then .ok s
      else .error (.probabilityOutOfRange s.maybeProbability) := by
    obtain ⟨g, ts, rfl, hts, htext⟩ := s.toText_isDocument
    exact ofText_of_isDocument (.refl _) hts htext
  refine ⟨fun s hvalid => ?valid, fun s hinvalid => ?invalid, ?given, Assignment.isSpelled_text⟩
  case valid =>
    rw [hstored, if_pos (s.validate_ok_iff.mp hvalid)]
  case invalid =>
    rw [hstored, if_neg (mt s.validate_ok_iff.mpr hinvalid)]
  case given =>
    intro g order ts text horder hts htext
    simpa [isProbability] using ofText_of_isDocument horder hts htext

theorem survives_storage_shuffled :
    ofText (seeded 9).toText = .ok (seeded 9) ∧
    ofText ({ standard with maybeProbability := 2 } : Settings).toText =
      .error (.probabilityOutOfRange 2) ∧
    ofText "(warn_on_instant_loops: false, seed: Some(3))" = .ok ⟨0.5, some 3, false⟩ := by
  obtain ⟨hvalid, hinvalid, hgiven, hspelled⟩ := survives_storage
  refine ⟨hvalid _ rfl, hinvalid _ (by decide), ?_⟩
  let tight : Spacing := ⟨[], areBlank_nil⟩
  let loose : Spacing := ⟨[' '], List.forall_mem_singleton.mpr rfl⟩
  let warn : FieldText := ⟨"warn_on_instant_loops", "false".toList, tight, loose⟩
  let seed : FieldText := ⟨"seed", "Some(3)".toList, tight, loose⟩
  have hfields := FieldsText.cons warn tight loose (.last seed tight)
  exact hgiven ⟨none, some (some 3), some false⟩ [.warnOnInstantLoops false, .seed (some 3)]
    [warn, seed] _ (.swap _ _ _)
    (.cons ⟨rfl, hspelled (.warnOnInstantLoops false)⟩
      (.cons ⟨rfl, hspelled (.seed (some 3))⟩ .nil))
    ⟨tight, tight, _, .unnamed tight hfields, by decide⟩

end Sequencer.Settings

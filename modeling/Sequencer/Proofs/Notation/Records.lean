import Sequencer.Notation.Layout
import Sequencer.Proofs.Notation.Values

/-!
# Records that are written and read

The fields of a record may be written in any order, with blanks between all their parts, with or
without a comma after the last one and with or without the name of the type. Whatever of this is
chosen, a reader of records makes of the standard value what the values of the fields say.
-/

namespace Sequencer.Notation

open Reader

variable {α : Type}

structure FieldText where
  name : String
  value : List Char
  beforeColon : Spacing
  afterColon : Spacing

def FieldText.chars (t : FieldText) : List Char :=
  t.name.toList ++ (t.beforeColon.1 ++ ':' :: (t.afterColon.1 ++ t.value))

/-- Fields as they are written one after the other, up to the closing parenthesis. -/
inductive FieldsText : List FieldText → List Char → Prop
  | nil : FieldsText [] [')']
  | last (t : FieldText) (gap : Spacing) : FieldsText [t] (t.chars ++ (gap.1 ++ [')']))
  | cons (t : FieldText) (before after : Spacing) {ts : List FieldText} {text : List Char}
    (h : FieldsText ts text) :
    FieldsText (t :: ts) (t.chars ++ (before.1 ++ ',' :: (after.1 ++ text)))

/-- A record as it is written, with or without the name of its type. -/
inductive RecordText (type : String) (ts : List FieldText) : List Char → Prop
  | unnamed (gap : Spacing) {text : List Char} (h : FieldsText ts text) :
    RecordText type ts ('(' :: (gap.1 ++ text))
  | named (before after : Spacing) {text : List Char} (h : FieldsText ts text) :
    RecordText type ts (type.toList ++ (before.1 ++ '(' :: (after.1 ++ text)))

theorem areBlank_indent (depth : Nat) : AreBlank (indent depth).toList := by
  have hpushn (n : Nat) : AreBlank ("".pushn ' ' n).toList := by
    induction n with
    | zero => exact List.forall_mem_nil _
    | succ n ih =>
      change AreBlank (("".pushn ' ' n).push ' ').toList
      rw [String.toList_push]
      exact List.forall_mem_append.mpr ⟨ih, List.forall_mem_singleton.mpr rfl⟩
  exact hpushn (4 * depth)

theorem fieldLines_isText (depth : Nat) (fields : List (String × String)) :
    ∃ ts gap text, AreBlank gap ∧ FieldsText ts text ∧
      (String.join (fields.map (fieldLine (depth + 1))) ++ indent depth ++ ")").toList =
        gap ++ text ∧
      ts.map (fun t => (t.name, t.value)) =
        fields.map fun field => (field.1, field.2.toList) := by
  induction fields with
  | nil => exact ⟨[], (indent depth).toList, _, areBlank_indent depth, .nil, by simp, rfl⟩
  | cons field fields ih =>
    obtain ⟨ts, gap, text, hgap, htext, heq, hts⟩ := ih
    let t : FieldText := ⟨field.1, field.2.toList, ⟨[], areBlank_nil⟩, ⟨[' '], by decide⟩⟩
    refine ⟨t :: ts, (indent (depth + 1)).toList, _, areBlank_indent _,
      .cons t ⟨[], areBlank_nil⟩ ⟨'\n' :: gap, List.forall_mem_cons.mpr ⟨rfl, hgap⟩⟩ htext,
      ?_, by simp [t, hts]⟩
    simp [fieldLine, FieldText.chars, t, ← heq]

/-- What is written for a record is a text of the record. -/
theorem recordText_isText (type : String) (depth : Nat) (fields : List (String × String)) :
    ∃ ts, RecordText type ts (recordText depth fields).toList ∧
      ts.map (fun t => (t.name, t.value)) =
        fields.map fun field => (field.1, field.2.toList) := by
  obtain ⟨ts, gap, text, hgap, htext, heq, hts⟩ := fieldLines_isText depth fields
  refine ⟨ts, ?_, hts⟩
  have hrecord :=
    @RecordText.unnamed type _ ⟨'\n' :: gap, List.forall_mem_cons.mpr ⟨rfl, hgap⟩⟩ _ htext
  simpa [recordText, ← heq] using hrecord

/-- Whether the value of a written field does that to a record, given the fields that it knows. -/
def FieldText.Changes (known : List (KnownField α)) (t : FieldText) (change : α → α) : Prop :=
  ∃ field, known.find? (·.name == t.name) = some field ∧ Spells field.read t.value change

theorem Spells.map {β : Type} {read : Reader α} {text : List Char} {a : α}
    (h : Spells read text a) (f : α → β) : Spells (do return f (← read)) text (f a) := by
  refine ⟨h.solid, fun rest hrest => ?_⟩
  simp only [bind_apply, h.reads rest hrest, Option.bind_some, pure_apply]

section Fields

variable (d : Dialect) (levels : Nat) {known : List (KnownField α)}

theorem FieldText.Changes.isPlainName {t : FieldText} {change : α → α}
    (hknown : ∀ field ∈ known, IsPlainName field.name) (h : t.Changes known change) :
    IsPlainName t.name := by
  obtain ⟨field, hfind, -⟩ := h
  have hfield : field.name = t.name := by simpa using List.find?_some hfind
  exact hfield ▸ hknown field (List.mem_of_find?_eq_some hfind)

/-- A field is read, if it is known and new. -/
theorem recordField_append (hknown : ∀ field ∈ known, IsPlainName field.name) {t : FieldText}
    {change : α → α} (hchange : t.Changes known change) {seen : List String}
    (hseen : t.name ∉ seen) {rest : List Char} (hrest : EndsValue rest) (record : α) :
    recordField d levels known (seen, record) (t.chars ++ rest) =
      some ((t.name :: seen, change record), rest) := by
  have hplain := hchange.isPlainName hknown
  obtain ⟨field, hfind, hsolid, hreads⟩ := hchange
  have hshape : t.chars ++ rest = t.name.toList ++
      (t.beforeColon.1 ++ ':' :: (t.afterColon.1 ++ (t.value ++ rest))) := by
    simp [FieldText.chars]
  have hname := name_append hplain (beginsWith_unmarked t.beforeColon (c := ':') (by decide)
    (t.afterColon.1 ++ (t.value ++ rest))).of_mem
  have hcolon : blanks (t.beforeColon.1 ++ ':' :: (t.afterColon.1 ++ (t.value ++ rest))) =
      some ((), ':' :: (t.afterColon.1 ++ (t.value ++ rest))) :=
    blanks_append t.beforeColon.2 (beginsWith_cons (by decide) _).of_mem
  have hvalue : blanks (t.afterColon.1 ++ (t.value ++ rest)) = some ((), t.value ++ rest) :=
    blanks_append t.afterColon.2 (hsolid.append _).of_mem
  have hnew : seen.contains t.name = false := by simpa using hseen
  simp only [recordField, hshape, bind_apply, hname, Option.bind_some, hcolon, expect_cons, hvalue,
    hfind, hnew, Bool.false_eq_true, if_false, hreads rest hrest, pure_apply]

theorem isSolid_of_isNameChar {c : Char} (h : isNameChar c = true) : IsSolid c ∧ c ≠ ')' := by
  have hmarked : isMarkedNameChar c = true := by simp [isMarkedNameChar, h]
  refine ⟨⟨isBlank_eq_false (.inl hmarked), ?_⟩, ?_⟩
  · rintro rfl
    exact absurd h (by decide)
  · rintro rfl
    exact absurd h (by decide)

theorem FieldText.Changes.begins {t : FieldText} {change : α → α}
    (hknown : ∀ field ∈ known, IsPlainName field.name) (h : t.Changes known change) :
    BeginsWith (fun c => IsSolid c ∧ c ≠ ')') t.chars := by
  have hbegins := (h.isPlainName hknown).begins
  exact (hbegins.imp fun c hc => isSolid_of_isNameChar hc).append _

theorem FieldsText.begins {ts : List FieldText} {text : List Char} (h : FieldsText ts text)
    {changes : List (α → α)} (hknown : ∀ field ∈ known, IsPlainName field.name)
    (hchanges : List.Forall₂ (FieldText.Changes known) ts changes) : BeginsWith IsSolid text := by
  cases h with
  | nil => exact beginsWith_cons (by decide) []
  | last t gap =>
    obtain ⟨change, -, hchange, -⟩ := List.forall₂_cons_left_iff.mp hchanges
    exact ((hchange.begins hknown).imp fun _ h => h.1).append _
  | cons t before after h =>
    obtain ⟨change, -, hchange, -⟩ := List.forall₂_cons_left_iff.mp hchanges
    exact ((hchange.begins hknown).imp fun _ h => h.1).append _

/-- After a field there is a comma and more, or the closing parenthesis. -/
theorem boundedItems_field (hknown : ∀ field ∈ known, IsPlainName field.name) {t : FieldText}
    {change : α → α} (hchange : t.Changes known change) {seen : List String}
    (hseen : t.name ∉ seen) {rest : List Char} (hrest : EndsValue rest) (bound : Nat) (record : α) :
    boundedItems (recordField d levels known) ')' (bound + 1) (seen, record) (t.chars ++ rest) =
      (do
        if ← comma then
          boundedItems (recordField d levels known) ')' bound (t.name :: seen, change record)
        else
          expect ')'
          return (t.name :: seen, change record)) rest := by
  have hbegins := (hchange.begins hknown).append rest
  have hgap := blanks_of_solid (hbegins.imp fun _ h => h.1).of_mem
  have hopen : accept ')' (t.chars ++ rest) = some (false, t.chars ++ rest) := by
    obtain ⟨c, chars, hchars, -, hclosing⟩ := hbegins.exists_cons
    rw [hchars]
    exact accept_of_ne hclosing.symm chars
  have hfield := recordField_append d levels hknown hchange hseen hrest record
  simp only [boundedItems, bind_apply, hgap, hopen, Option.bind_some, Bool.false_eq_true, if_false,
    hfield]

theorem boundedItems_recordField (hknown : ∀ field ∈ known, IsPlainName field.name)
    {ts : List FieldText} {text : List Char} (htext : FieldsText ts text)
    {changes : List (α → α)} (hchanges : List.Forall₂ (FieldText.Changes known) ts changes)
    (hnames : (ts.map (·.name)).Nodup) {seen : List String} (hseen : ∀ t ∈ ts, t.name ∉ seen)
    {bound : Nat} (hbound : ts.length < bound) (record : α) (rest : List Char) :
    ∃ seen', boundedItems (recordField d levels known) ')' bound (seen, record) (text ++ rest) =
      some ((seen', changes.foldl (fun record change => change record) record), rest) := by
  obtain ⟨bound, rfl⟩ : ∃ n, bound = n + 1 := Nat.exists_eq_succ_of_ne_zero (by omega)
  induction htext generalizing changes seen bound record with
  | nil =>
    obtain rfl := List.forall₂_nil_left_iff.mp hchanges
    have hgap : blanks (')' :: rest) = some ((), ')' :: rest) :=
      blanks_of_solid (beginsWith_cons (by decide) rest).of_mem
    refine ⟨seen, ?_⟩
    simp only [boundedItems, List.singleton_append, bind_apply, hgap, accept_cons,
      Option.bind_some, if_true, pure_apply, List.foldl_nil]
  | last t gap =>
    obtain ⟨change, others, hchange, hothers, rfl⟩ := List.forall₂_cons_left_iff.mp hchanges
    obtain rfl := List.forall₂_nil_left_iff.mp hothers
    have hends : EndsValue (gap.1 ++ ')' :: rest) :=
      ((beginsWith_append_cons gap ')' rest).imp fun _ h => h.imp_right .inr).of_mem
    have hcomma : comma (gap.1 ++ ')' :: rest) = some (false, ')' :: rest) :=
      comma_of_ne gap.2 (beginsWith_cons (by decide) rest).of_mem
    refine ⟨t.name :: seen, ?_⟩
    rw [List.append_assoc, List.append_assoc, List.singleton_append,
      boundedItems_field d levels hknown hchange (hseen t List.mem_cons_self) hends]
    simp only [bind_apply, hcomma, Option.bind_some, Bool.false_eq_true, if_false, expect_cons,
      pure_apply, List.foldl_cons, List.foldl_nil]
  | @cons t before after ts text h ih =>
    obtain ⟨change, others, hchange, hothers, rfl⟩ := List.forall₂_cons_left_iff.mp hchanges
    obtain ⟨hnew, hnames⟩ := List.nodup_cons.mp hnames
    obtain ⟨bound, rfl⟩ : ∃ n, bound = n + 1 :=
      Nat.exists_eq_succ_of_ne_zero (by rw [List.length_cons] at hbound; omega)
    have hends : EndsValue (before.1 ++ ',' :: (after.1 ++ (text ++ rest))) :=
      ((beginsWith_append_cons before ',' _).imp fun _ h => h.imp_right .inl).of_mem
    have hcomma : comma (before.1 ++ ',' :: (after.1 ++ (text ++ rest))) =
        some (true, text ++ rest) :=
      comma_append before.2 after.2 ((h.begins hknown hothers).append rest).of_mem
    have hseen' : ∀ t' ∈ ts, t'.name ∉ t.name :: seen := by
      intro t' ht'
      rw [List.mem_cons, not_or]
      exact ⟨fun heq => hnew (List.mem_map.mpr ⟨t', ht', heq⟩),
        hseen t' (List.mem_cons_of_mem _ ht')⟩
    obtain ⟨seen', hrest⟩ := ih hothers hnames hseen' (change record) bound
      (by rw [List.length_cons] at hbound; omega)
    refine ⟨seen', ?_⟩
    rw [List.append_assoc, List.append_assoc, List.cons_append, List.append_assoc,
      boundedItems_field d levels hknown hchange (hseen t List.mem_cons_self) hends]
    simp only [bind_apply, hcomma, Option.bind_some, if_true, hrest, List.foldl_cons]

end Fields

theorem FieldsText.length_lt {ts : List FieldText} {text : List Char} (h : FieldsText ts text) :
    ts.length < text.length := by
  induction h with
  | nil => exact Nat.one_pos
  | last t gap =>
    simp only [FieldText.chars, List.length_append, List.length_cons]
    omega
  | cons t before after h ih =>
    simp only [FieldText.chars, List.length_append, List.length_cons]
    omega

section Record

variable {d : Dialect} (levels : Nat) {known : List (KnownField α)}

theorem items_recordField (hknown : ∀ field ∈ known, IsPlainName field.name)
    {ts : List FieldText} {text : List Char} (htext : FieldsText ts text)
    {changes : List (α → α)} (hchanges : List.Forall₂ (FieldText.Changes known) ts changes)
    (hnames : (ts.map (·.name)).Nodup) (gap : Spacing) (record : α) (rest : List Char) :
    ∃ seen, items (recordField d levels known) ')' ([], record) (gap.1 ++ (text ++ rest)) =
      some ((seen, changes.foldl (fun record change => change record) record), rest) := by
  have hsolid := ((htext.begins hknown hchanges).append rest).of_mem
  have hbound : ts.length < (gap.1 ++ (text ++ rest)).length + 1 := by
    have hlt := htext.length_lt
    simp only [List.length_append]
    omega
  obtain ⟨seen, hread⟩ := boundedItems_recordField d levels hknown htext hchanges hnames
    (fun _ _ => List.not_mem_nil) hbound record rest
  refine ⟨seen, ?_⟩
  rw [← hread, items]
  simp only [boundedItems, bind_apply, blanks_append gap.2 hsolid, blanks_of_solid hsolid]

/-- The name of a record may be left out in most dialects. -/
theorem recordName_opening (type : String) (hnamed : d.explicitNames = false) (rest : List Char) :
    recordName d type ('(' :: rest) = some ((), '(' :: rest) := by
  have hopening : nextIs isNameChar ('(' :: rest) = some (false, '(' :: rest) := rfl
  simp [recordName, bind_apply, hopening, hnamed, pure_apply]

theorem recordName_append {type : String} (htype : IsPlainName type) {rest : List Char}
    (hrest : ∀ c ∈ rest.head?, isMarkedNameChar c = false) :
    recordName d type (type.toList ++ rest) = some ((), rest) := by
  obtain ⟨c, chars, hchars, hc⟩ := htype.begins.exists_cons
  have hfirst : nextIs isNameChar (type.toList ++ rest) = some (true, type.toList ++ rest) := by
    simp [nextIs, hchars, hc]
  simp [recordName, bind_apply, hfirst, name_append htype hrest, pure_apply]

/-- A record is read from each of its texts. -/
theorem record_append {type : String} (htype : IsPlainName type)
    (hknown : ∀ field ∈ known, IsPlainName field.name) (hnamed : d.explicitNames = false)
    {ts : List FieldText} {text : List Char} (htext : RecordText type ts text)
    {changes : List (α → α)} (hchanges : List.Forall₂ (FieldText.Changes known) ts changes)
    (hnames : (ts.map (·.name)).Nodup) (standard : α) (rest : List Char) :
    record d levels type known standard (text ++ rest) =
      some (changes.foldl (fun record change => change record) standard, rest) := by
  have hopening (text : List Char) : ∀ c ∈ ('(' :: text).head?, IsSolid c :=
    (beginsWith_cons (by decide) text).of_mem
  cases htext with
  | @unnamed gap text h =>
    obtain ⟨seen, hitems⟩ := items_recordField (d := d) (levels - recordLevels) hknown h hchanges
      hnames gap standard rest
    have hname := recordName_opening type hnamed (gap.1 ++ (text ++ rest))
    have hgap := blanks_of_solid (hopening (gap.1 ++ (text ++ rest)))
    rw [List.cons_append, List.append_assoc]
    simp only [record, bind_apply, hname, hgap, expect_cons, Option.bind_some, hitems, pure_apply]
  | @named before after text h =>
    obtain ⟨seen, hitems⟩ := items_recordField (d := d) (levels - recordLevels) hknown h hchanges
      hnames after standard rest
    have hname := recordName_append (d := d) htype
      (beginsWith_unmarked before (c := '(') (by decide) (after.1 ++ (text ++ rest))).of_mem
    have hgap := blanks_append before.2 (hopening (after.1 ++ (text ++ rest)))
    rw [List.append_assoc, List.append_assoc, List.cons_append, List.append_assoc]
    simp only [record, bind_apply, hname, hgap, expect_cons, Option.bind_some, hitems, pure_apply]

end Record

/-- Whether a text holds a record and blanks around it. -/
def IsDocument (type : String) (ts : List FieldText) (text : String) : Prop :=
  ∃ (before after : Spacing) (chars : List Char),
    RecordText type ts chars ∧ text.toList = before.1 ++ (chars ++ after.1)

theorem RecordText.begins {type : String} (htype : IsPlainName type) {ts : List FieldText}
    {text : List Char} (h : RecordText type ts text) :
    BeginsWith (fun c => IsSolid c ∧ c ≠ '#') text := by
  cases h with
  | unnamed gap h => exact beginsWith_cons (by decide) _
  | named before after h =>
    refine (htype.begins.imp fun c hc => ⟨(isSolid_of_isNameChar hc).1, ?_⟩).append _
    rintro rfl
    exact absurd hc (by decide)

theorem lines_of_ne {c : Char} (h : c ≠ '#') (rest : List Char) :
    Dialect.lines (c :: rest) = some ({}, c :: rest) := by
  have hfirst : nextIs (· == '#') (c :: rest) = some (false, c :: rest) := by
    simp [nextIs, h]
  simp only [Dialect.lines, List.length_cons, Dialect.boundedLines, bind_apply, hfirst,
    Option.bind_some, Bool.false_eq_true, if_false, pure_apply]

theorem ofText?_record {type : String} (htype : IsPlainName type)
    {known : Dialect → List (KnownField α)} (hknown : ∀ field ∈ known {}, IsPlainName field.name)
    {ts : List FieldText} {text : String} (htext : IsDocument type ts text)
    {changes : List (α → α)} (hchanges : List.Forall₂ (FieldText.Changes (known {})) ts changes)
    (hnames : (ts.map (·.name)).Nodup) (levels : Nat) (standard : α) :
    ofText? (fun d => record d levels type (known d) standard) text =
      some (changes.foldl (fun record change => change record) standard) := by
  obtain ⟨before, after, chars, hrecord, htext⟩ := htext
  have hbegins := (hrecord.begins htype).append after.1
  have hread := record_append (d := {}) levels htype hknown rfl hrecord hchanges
    hnames standard after.1
  have hbefore : blanks (before.1 ++ (chars ++ after.1)) = some ((), chars ++ after.1) :=
    blanks_append before.2 (hbegins.imp fun _ h => h.1).of_mem
  have hlines : Dialect.lines (chars ++ after.1) = some ({}, chars ++ after.1) := by
    obtain ⟨c, rest, hchars, -, hline⟩ := hbegins.exists_cons
    rw [hchars]
    exact lines_of_ne hline rest
  have hafter : blanks after.1 = some ((), []) := by
    have hgap := blanks_append after.2 fun c (hc : c ∈ [].head?) => nomatch hc
    rwa [List.append_nil] at hgap
  have hdocument : document (fun d => record d levels type (known d) standard) text.toList =
      some (changes.foldl (fun record change => change record) standard, []) := by
    rw [htext]
    simp only [document, bind_apply, hbefore, hlines, hread, hafter, Option.bind_some, pure_apply]
  simp only [ofText?, whole?, hdocument]

end Sequencer.Notation

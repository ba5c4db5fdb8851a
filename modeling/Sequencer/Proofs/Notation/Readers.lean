import Sequencer.Notation.Record

/-!
# What readers take off a text

A reader that is given its text with something behind it takes the text and leaves the rest, as long
as the rest does not begin like a part of the text. Blanks, names and words end at the first
character that cannot belong to them.
-/

namespace Sequencer.Notation

variable {α β : Type}

namespace Reader

variable {text rest : List Char}

theorem bind_apply (read : Reader α) (next : α → Reader β) (text : List Char) :
    (read >>= next) text = (read text).bind fun result => next result.1 result.2 := rfl

theorem pure_apply (a : α) (text : List Char) : (pure a : Reader α) text = some (a, text) := rfl

theorem get_apply (text : List Char) : (get : Reader (List Char)) text = some (text, text) := rfl

theorem accept_cons (c : Char) (rest : List Char) : accept c (c :: rest) = some (true, rest) :=
  if_pos rfl

theorem accept_of_ne {c d : Char} (h : c ≠ d) (rest : List Char) :
    accept c (d :: rest) = some (false, d :: rest) :=
  if_neg h

theorem expect_cons (c : Char) (rest : List Char) : expect c (c :: rest) = some ((), rest) := by
  simp [expect, bind_apply, accept_cons, pure_apply]

theorem expectAll_append (chars rest : List Char) :
    expectAll chars (chars ++ rest) = some ((), rest) := by
  have hprefix : chars.isPrefixOf (chars ++ rest) = true :=
    List.isPrefixOf_iff_prefix.mpr (List.prefix_append chars rest)
  simp [expectAll, hprefix]

theorem span_append {p : Char → Bool} {chars : List Char} (h : ∀ c ∈ chars, p c = true)
    (hrest : ∀ c ∈ rest.head?, p c = false) : span p (chars ++ rest) = some (chars, rest) := by
  have htake : rest.takeWhile p = [] := by
    cases rest with
    | nil => rfl
    | cons c rest => simp [hrest c rfl]
  have hdrop : rest.dropWhile p = rest := by
    cases rest with
    | nil => rfl
    | cons c rest => simp [hrest c rfl]
  simp [span, List.takeWhile_append_of_pos h, List.dropWhile_append_of_pos h, htake, hdrop]

end Reader

open Reader

/-- Whether a text has a first character, and one of a kind. -/
def BeginsWith (p : Char → Prop) (text : List Char) : Prop := ∃ c ∈ text.head?, p c

section BeginsWith

variable {p q : Char → Prop} {text : List Char}

theorem beginsWith_cons {c : Char} (h : p c) (rest : List Char) : BeginsWith p (c :: rest) :=
  ⟨c, rfl, h⟩

theorem beginsWith_of_forall (hne : text ≠ []) (h : ∀ c ∈ text, p c) : BeginsWith p text := by
  obtain ⟨c, rest, rfl⟩ := List.exists_cons_of_ne_nil hne
  exact beginsWith_cons (h c List.mem_cons_self) rest

theorem BeginsWith.exists_cons (h : BeginsWith p text) : ∃ c rest, text = c :: rest ∧ p c := by
  obtain ⟨c, hc, hp⟩ := h
  obtain ⟨rest, htext⟩ := List.head?_eq_some_iff.mp hc
  exact ⟨c, rest, htext, hp⟩

theorem BeginsWith.imp (h : BeginsWith p text) (hpq : ∀ c, p c → q c) : BeginsWith q text := by
  obtain ⟨c, hc, hp⟩ := h
  exact ⟨c, hc, hpq c hp⟩

theorem BeginsWith.append (h : BeginsWith p text) (rest : List Char) :
    BeginsWith p (text ++ rest) := by
  obtain ⟨c, others, rfl, hp⟩ := h.exists_cons
  exact beginsWith_cons hp _

theorem BeginsWith.of_mem (h : BeginsWith p text) : ∀ c ∈ text.head?, p c := by
  intro c hc
  obtain ⟨first, hfirst, hp⟩ := h
  rwa [Option.mem_unique hc hfirst]

end BeginsWith

/-- Whether a character is neither a blank nor the beginning of a comment. -/
def IsSolid (c : Char) : Prop := isBlank c = false ∧ c ≠ '/'

instance (c : Char) : Decidable (IsSolid c) := inferInstanceAs (Decidable (_ ∧ _))

def AreBlank (gap : List Char) : Prop := ∀ c ∈ gap, isBlank c = true

instance (gap : List Char) : Decidable (AreBlank gap) :=
  decidable_of_iff (gap.all isBlank = true) List.all_eq_true

abbrev Spacing := { gap : List Char // AreBlank gap }

theorem areBlank_nil : AreBlank [] := List.forall_mem_nil _

theorem ne_slash_of_isBlank {c : Char} (h : isBlank c = true) : c ≠ '/' := by
  rintro rfl
  exact absurd h (by decide)

theorem skip?_blanks {c : Char} (h : c ≠ '/') (rest : List Char) :
    Gap.blanks.skip? (c :: rest) =
      if isBlank c then Gap.blanks.skip? rest else some (c :: rest) := by
  rw [Gap.skip?] <;> simp_all

theorem blanks_append {gap rest : List Char} (hgap : AreBlank gap)
    (hrest : ∀ c ∈ rest.head?, IsSolid c) : blanks (gap ++ rest) = some ((), rest) := by
  have hskip : Gap.blanks.skip? (gap ++ rest) = some rest := by
    induction gap with
    | nil =>
      cases rest with
      | nil => rfl
      | cons c rest =>
        obtain ⟨hblank, hslash⟩ := hrest c rfl
        rw [List.nil_append, skip?_blanks hslash, hblank]
        rfl
    | cons c gap ih =>
      obtain ⟨hc, hgap⟩ := List.forall_mem_cons.mp hgap
      rw [List.cons_append, skip?_blanks (ne_slash_of_isBlank hc), if_pos hc]
      exact ih hgap
  simp [blanks, hskip]

theorem blanks_of_solid {rest : List Char} (hrest : ∀ c ∈ rest.head?, IsSolid c) :
    blanks rest = some ((), rest) :=
  blanks_append areBlank_nil hrest

/-- Whether a text goes on in a way that no value does: with a blank, a comma or a closing
parenthesis, if it goes on at all. -/
def EndsValue (rest : List Char) : Prop :=
  ∀ c ∈ rest.head?, isBlank c = true ∨ c = ',' ∨ c = ')'

def blankCodes : List Nat :=
  [0x20, 0x09, 0x0a, 0x0b, 0x0c, 0x0d, 0x85, 0x200e, 0x200f, 0x2028, 0x2029]

theorem toNat_mem_blankCodes {c : Char} (h : isBlank c = true) : c.toNat ∈ blankCodes := by
  have hspace : c == ' ' ↔ c.toNat = 0x20 := by
    rw [beq_iff_eq]
    exact ⟨fun h => h ▸ rfl, fun h => by rw [← Char.ofNat_toNat c, h]⟩
  simp only [isBlank, Bool.or_eq_true, hspace, Bool.and_eq_true, decide_eq_true_eq,
    beq_iff_eq] at h
  simp only [blankCodes, List.mem_cons, List.not_mem_nil, or_false]
  omega

theorem isMarkedNameChar_of_isBlank {c : Char} (h : isBlank c = true) :
    isMarkedNameChar c = false ∧ isNumberChar c = false := by
  have hall : ∀ code ∈ blankCodes,
      isMarkedNameChar (Char.ofNat code) = false ∧ isNumberChar (Char.ofNat code) = false := by
    decide +kernel
  rw [← Char.ofNat_toNat c]
  exact hall c.toNat (toNat_mem_blankCodes h)

theorem isBlank_eq_false {c : Char} (h : isMarkedNameChar c = true ∨ isNumberChar c = true) :
    isBlank c = false := by
  rw [Bool.eq_false_iff]
  intro hblank
  obtain ⟨hname, hnumber⟩ := isMarkedNameChar_of_isBlank hblank
  simp [hname, hnumber] at h

theorem beginsWith_append_cons (gap : Spacing) (c : Char) (rest : List Char) :
    BeginsWith (fun d => isBlank d = true ∨ d = c) (gap.1 ++ c :: rest) := by
  obtain ⟨gap, hgap⟩ := gap
  cases gap with
  | nil => exact beginsWith_cons (.inr rfl) rest
  | cons first gap => exact beginsWith_cons (.inl (hgap first List.mem_cons_self)) _

/-- A name ends before blanks and before a character that belongs to no name. -/
theorem beginsWith_unmarked (gap : Spacing) {c : Char} (h : isMarkedNameChar c = false)
    (rest : List Char) : BeginsWith (isMarkedNameChar · = false) (gap.1 ++ c :: rest) := by
  refine (beginsWith_append_cons gap c rest).imp fun d hd => ?_
  rcases hd with hblank | rfl
  · exact (isMarkedNameChar_of_isBlank hblank).1
  · exact h

theorem isNameChar_of_not_isMarked {c : Char} (h : isMarkedNameChar c = false) :
    isNameChar c = false := by
  simp only [isMarkedNameChar, Bool.or_eq_false_iff] at h
  exact h.1.1.1

theorem EndsValue.isMarkedNameChar {rest : List Char} (h : EndsValue rest) :
    ∀ c ∈ rest.head?, isMarkedNameChar c = false ∧ isNumberChar c = false := by
  intro c hc
  rcases h c hc with hblank | rfl | rfl
  · exact isMarkedNameChar_of_isBlank hblank
  · decide
  · decide

theorem EndsValue.isNameChar {rest : List Char} (h : EndsValue rest) :
    ∀ c ∈ rest.head?, isNameChar c = false :=
  fun c hc => isNameChar_of_not_isMarked (h.isMarkedNameChar c hc).1

/-- Whether a name is written without a mark and cannot be taken for the beginning of a text in
quotes. -/
structure IsPlainName (name : String) : Prop where
  first : BeginsWith (fun c => isNameStart c = true ∧ c ≠ 'r' ∧ c ≠ 'b') name.toList
  chars : ∀ c ∈ name.toList, isNameChar c = true

theorem IsPlainName.begins {name : String} (h : IsPlainName name) :
    BeginsWith (isNameChar · = true) name.toList := by
  obtain ⟨c, hc, -⟩ := h.first
  exact ⟨c, hc, h.chars c (List.mem_of_mem_head? hc)⟩

theorem isPrefixOf_cons_of_ne {c d : Char} (h : d ≠ c) (mark rest : List Char) :
    (d :: mark).isPrefixOf (c :: rest) = false := by
  simp [List.isPrefixOf, h]

theorem nextIs_of_head {p : Char → Bool} {rest : List Char} (h : ∀ c ∈ rest.head?, p c = false) :
    nextIs p rest = some (false, rest) := by
  cases rest with
  | nil => rfl
  | cons c rest => simp [nextIs, h c rfl]

theorem name_append {word : String} (h : IsPlainName word) {rest : List Char}
    (hrest : ∀ c ∈ rest.head?, isMarkedNameChar c = false) :
    name (word.toList ++ rest) = some (word, rest) := by
  obtain ⟨hfirst, hchars⟩ := h
  obtain ⟨c, chars, hword, hstart, hr, hb⟩ := hfirst.exists_cons
  have hspan := span_append hchars fun c hc => isNameChar_of_not_isMarked (hrest c hc)
  have hfirst : nextIs isNameStart (word.toList ++ rest) = some (true, word.toList ++ rest) := by
    simp [nextIs, hword, hstart]
  have hquote : (quoteMarks.any fun mark => mark.toList.isPrefixOf (word.toList ++ rest)) =
      false := by
    simp [quoteMarks, hword, isPrefixOf_cons_of_ne hr.symm, isPrefixOf_cons_of_ne hb.symm]
  have hmark : "r#".toList.isPrefixOf (word.toList ++ rest) = false := by
    simp [hword, isPrefixOf_cons_of_ne hr.symm]
  simp only [name, bind_apply, get_apply, pure_apply, Option.bind_some, hquote, hmark,
    Bool.false_eq_true, if_false, hfirst, if_true, hspan, nextIs_of_head hrest,
    String.ofList_toList]

theorem acceptWord_append (word : String) {rest : List Char}
    (hrest : ∀ c ∈ rest.head?, isNameChar c = false) :
    acceptWord word (word.toList ++ rest) = some (true, rest) := by
  simp only [acceptWord, bind_apply, attempt, expectAll_append, Option.bind_some,
    nextIs_of_head hrest, Bool.false_eq_true, if_false, pure_apply, Option.isSome_some]

theorem acceptWord_of_not_prefix {word : String} {text : List Char}
    (h : word.toList.isPrefixOf text = false) : acceptWord word text = some (false, text) := by
  simp only [acceptWord, bind_apply, attempt, expectAll, h, Bool.false_eq_true, if_false,
    Option.bind_none, Option.bind_some, pure_apply, Option.isSome_none]

theorem comma_append {gap gap' rest : List Char} (hgap : AreBlank gap) (hgap' : AreBlank gap')
    (hrest : ∀ c ∈ rest.head?, IsSolid c) :
    comma (gap ++ ',' :: (gap' ++ rest)) = some (true, rest) := by
  have hbefore : blanks (gap ++ ',' :: (gap' ++ rest)) = some ((), ',' :: (gap' ++ rest)) :=
    blanks_append hgap (beginsWith_cons (by decide) _).of_mem
  simp only [comma, bind_apply, hbefore, Option.bind_some, accept_cons, if_true,
    blanks_append hgap' hrest, pure_apply]

theorem comma_of_ne {gap rest : List Char} (hgap : AreBlank gap)
    (hrest : ∀ c ∈ rest.head?, IsSolid c ∧ c ≠ ',') :
    comma (gap ++ rest) = some (false, rest) := by
  have hbefore := blanks_append hgap fun c hc => (hrest c hc).1
  have haccept : accept ',' rest = some (false, rest) := by
    cases rest with
    | nil => rfl
    | cons c rest => exact accept_of_ne (hrest c rfl).2.symm rest
  simp only [comma, bind_apply, hbefore, Option.bind_some, haccept, Bool.false_eq_true, if_false,
    pure_apply]

end Sequencer.Notation

import Sequencer.Proofs.Decimal.Literals
import Sequencer.Proofs.FloatBits
import Sequencer.Proofs.Notation.Readers

/-!
# Values that are written and read

What is written for a truth value, a whole number, a number of double precision or an optional value
is read as that value, whatever follows that could not belong to it. Of a number of double precision
not a bit is lost, as its text is a decimal that is rounded to it.
-/

namespace Sequencer.Notation

open Reader Decimal

variable {α : Type}

/-- Whether a reader takes a text for a value. -/
structure Spells (read : Reader α) (text : List Char) (a : α) : Prop where
  solid : BeginsWith IsSolid text
  reads : ∀ rest, EndsValue rest → read (text ++ rest) = some (a, rest)

theorem spells_bool (b : Bool) : Spells bool (boolText b).toList b := by
  cases b with
  | true =>
    refine ⟨beginsWith_cons (by decide) _, fun rest hrest => ?_⟩
    have htrue := acceptWord_append "true" hrest.isNameChar
    simp only [boolText, if_true, bool, bind_apply, htrue, Option.bind_some, pure_apply]
  | false =>
    refine ⟨beginsWith_cons (by decide) _, fun rest hrest => ?_⟩
    have hfalse := acceptWord_append "false" hrest.isNameChar
    have htrue : acceptWord "true" ("false".toList ++ rest) =
        some (false, "false".toList ++ rest) :=
      acceptWord_of_not_prefix (isPrefixOf_cons_of_ne (by decide) _ _)
    simp only [boolText, Bool.false_eq_true, if_false, bool, bind_apply, htrue, Option.bind_some,
      hfalse, if_true, pure_apply]

theorem spells_none (d : Dialect) (value : Reader α) :
    Spells (option d value) (optionText none).toList none := by
  refine ⟨beginsWith_cons (by decide) _, fun rest hrest => ?_⟩
  have hnone := acceptWord_append "None" hrest.isNameChar
  simp only [optionText, option, bind_apply, hnone, Option.bind_some, if_true, pure_apply]

/-- The characters of an optional value that is there, with blanks around its parts. -/
def someChars (before inside after : Spacing) (chars : List Char) : List Char :=
  "Some".toList ++ (before.1 ++ '(' :: (inside.1 ++ (chars ++ (after.1 ++ [')']))))

theorem toList_optionText (text : String) :
    (optionText (some text)).toList =
      someChars ⟨[], areBlank_nil⟩ ⟨[], areBlank_nil⟩ ⟨[], areBlank_nil⟩ text.toList := by
  simp [optionText, someChars]

theorem spells_some {d : Dialect} {value : Reader α} {chars : List Char} {a : α}
    (h : Spells value chars a) (before inside after : Spacing) :
    Spells (option d value) (someChars before inside after chars) (some a) := by
  refine ⟨beginsWith_cons (by decide) _, fun rest hrest => ?_⟩
  have hshape : someChars before inside after chars ++ rest = "Some".toList ++
      (before.1 ++ '(' :: (inside.1 ++ (chars ++ (after.1 ++ ')' :: rest)))) := by
    simp [someChars]
  generalize hinner : chars ++ (after.1 ++ ')' :: rest) = inner at hshape
  have hnone : acceptWord "None" ("Some".toList ++ (before.1 ++ '(' :: (inside.1 ++ inner))) =
      some (false, "Some".toList ++ (before.1 ++ '(' :: (inside.1 ++ inner))) :=
    acceptWord_of_not_prefix (isPrefixOf_cons_of_ne (by decide) _ _)
  have hsome : acceptWord "Some" ("Some".toList ++ (before.1 ++ '(' :: (inside.1 ++ inner))) =
      some (true, before.1 ++ '(' :: (inside.1 ++ inner)) :=
    acceptWord_append "Some" fun c hc =>
      isNameChar_of_not_isMarked ((beginsWith_unmarked before (by decide) _).of_mem c hc)
  have hopening : blanks (before.1 ++ '(' :: (inside.1 ++ inner)) =
      some ((), '(' :: (inside.1 ++ inner)) :=
    blanks_append before.2 (beginsWith_cons (by decide) _).of_mem
  have hinside : blanks (inside.1 ++ inner) = some ((), inner) :=
    blanks_append inside.2 (hinner ▸ h.solid.append _).of_mem
  have hvalue : value inner = some (a, after.1 ++ ')' :: rest) := by
    rw [← hinner]
    refine h.reads _ (BeginsWith.of_mem ?_)
    exact (beginsWith_append_cons after ')' rest).imp fun _ h => h.imp_right .inr
  have hcomma : comma (after.1 ++ ')' :: rest) = some (false, ')' :: rest) :=
    comma_of_ne after.2 (beginsWith_cons (by decide) _).of_mem
  rw [hshape]
  simp only [option, bind_apply, hnone, hsome, Option.bind_some, Bool.false_eq_true, if_false,
    if_true, someValue, hopening, accept_cons, hinside, closed, hvalue, hcomma, expect_cons,
    pure_apply]

theorem isNumberChar_of_isDigit {c : Char} (h : c.isDigit = true) : isNumberChar c = true := by
  simp [isNumberChar, Char.isAlphanum, h]

theorem isSolid_of_isNumberChar {c : Char} (h : isNumberChar c = true) : IsSolid c := by
  refine ⟨isBlank_eq_false (.inr h), ?_⟩
  rintro rfl
  exact absurd h (by decide)

theorem hexValue?_of_isDigit {c : Char} (h : c.isDigit = true) :
    (hexValue? c).filter (· < 10) = some (c.toNat - '0'.toNat) := by
  have hlt : c.toNat - '0'.toNat < 10 := by
    simp only [Char.isDigit, ge_iff_le, Bool.and_eq_true, decide_eq_true_eq] at h
    have hle : c.toNat ≤ 57 := h.2
    change c.toNat - 48 < 10
    omega
  simp only [hexValue?, h, if_true, Option.filter_some, hlt, decide_true]

theorem digits?_of_isDigit {chars : List Char} (h : ∀ c ∈ chars, c.isDigit = true) (value : Nat) :
    digits? 10 value chars = some (Nat.ofDigitChars 10 chars value) := by
  induction chars generalizing value with
  | nil => rfl
  | cons c chars ih =>
    obtain ⟨hc, hchars⟩ := List.forall_mem_cons.mp h
    have hline : c ≠ '_' := by
      rintro rfl
      exact absurd hc (by decide)
    rw [digits?]
    · simp only [hexValue?_of_isDigit hc]
      exact ih hchars _
    · exact hline

theorem ofUnsigned?_of_areDigits {chars : List Char} (h : AreDigits chars) :
    Whole.ofUnsigned? chars = some (digitsValue chars, none) := by
  obtain ⟨hne, hdigits⟩ := h
  have hbase : Whole.ofUnsigned? chars = Whole.ofDigits? 10 chars := by
    unfold Whole.ofUnsigned?
    split
    · exact absurd (hdigits 'x' (by simp)) (by decide)
    · exact absurd (hdigits 'o' (by simp)) (by decide)
    · exact absurd (hdigits 'b' (by simp)) (by decide)
    · rfl
  have hall : ∀ c ∈ chars, (c.isDigit || c == '_') = true := fun c hc => by simp [hdigits c hc]
  have hnatural : natural? 10 chars = some (digitsValue chars) := by
    obtain ⟨c, rest, rfl⟩ := List.exists_cons_of_ne_nil hne
    have hline : c ≠ '_' := by
      rintro rfl
      exact absurd (hdigits '_' List.mem_cons_self) (by decide)
    rw [natural?]
    · exact digits?_of_isDigit hdigits 0
    · exact fun h => nomatch h
    · exact fun _ h => hline (List.cons.inj h).1
  simp [hbase, Whole.ofDigits?, List.takeWhile_eq_self_iff.mpr hall,
    List.dropWhile_eq_nil_iff.mpr hall, hnatural]

theorem spells_nat {t : WholeType} {digits : List Char} (hdigits : AreDigits digits)
    (h : t.contains (digitsValue digits) = true) : Spells (nat t) digits (digitsValue digits) := by
  refine ⟨?solid, fun rest hrest => ?reads⟩
  case solid =>
    exact beginsWith_of_forall hdigits.1 fun c hc =>
      isSolid_of_isNumberChar (isNumberChar_of_isDigit (hdigits.2 c hc))
  case reads =>
    have hspan := span_append (fun c hc => isNumberChar_of_isDigit (hdigits.2 c hc))
      fun c hc => (hrest.isMarkedNameChar c hc).2
    have hsign := takeSign_of_areDigits hdigits []
    rw [List.append_nil] at hsign
    have hwhole : Whole.ofChars? digits = some ⟨digitsValue digits, none⟩ := by
      simp [Whole.ofChars?, hsign, ofUnsigned?_of_areDigits hdigits]
    have hnat : Whole.toNat? t ⟨digitsValue digits, none⟩ = some (digitsValue digits) := by
      simp [Whole.toNat?, h]
    simp only [nat, bind_apply, hspan, Option.bind_some, hwhole, hnat, pure_apply]

theorem mem_decimalChars {whole fraction : List Char} (hwhole : AreDigits whole)
    (hfraction : ∀ c ∈ fraction, c.isDigit = true) (negative : Bool) :
    ∀ c ∈ decimalChars negative whole fraction, c.isDigit = true ∨ c = '.' ∨ c = '-' := by
  intro c hc
  simp only [decimalChars, List.mem_append] at hc
  rcases hc with hsign | hdigit | hrest
  · split at hsign
    · exact .inr (.inr (List.mem_singleton.mp hsign))
    · cases hsign
  · exact .inl (hwhole.2 c hdigit)
  · split at hrest
    · cases hrest
    · rcases List.mem_cons.mp hrest with hpoint | hdigit
      · exact .inr (.inl hpoint)
      · exact .inl (hfraction c hdigit)

theorem withoutLowLines?_eq {chars : List Char} (h : ∀ c ∈ chars, c ≠ '_') (allowed : Bool) :
    withoutLowLines? allowed chars = some chars := by
  induction chars generalizing allowed with
  | nil => rfl
  | cons c chars ih =>
    obtain ⟨hc, hchars⟩ := List.forall_mem_cons.mp h
    have hline : (c == '_') = false := by simpa using hc
    simp [withoutLowLines?, hline, ih hchars]

theorem typedBits?_decimalChars {whole fraction : List Char} (f : Format)
    (hwhole : AreDigits whole) (hfraction : ∀ c ∈ fraction, c.isDigit = true) (negative : Bool) :
    typedBits? f (decimalChars negative whole fraction) =
      some (Literal.bits f ⟨negative, digitsValue (whole ++ fraction), -fraction.length⟩) := by
  have hchars := mem_decimalChars hwhole hfraction negative
  have htype : (formatName f).isSuffixOf (decimalChars negative whole fraction) = false := by
    by_contra hsuffix
    have hsublist := List.isSuffixOf_iff_suffix.mp (Bool.not_eq_false _ ▸ hsuffix)
    have hname : 'f' ∈ decimalChars negative whole fraction :=
      hsublist.subset List.mem_cons_self
    exact absurd (hchars 'f' hname) (by decide)
  have hlines : ∀ c ∈ decimalChars negative whole fraction, c ≠ '_' := by
    rintro c hc rfl
    exact absurd (hchars '_' hc) (by decide)
  have hspecial (word : List Char) {first : Char} {others : List Char}
      (hword : word = first :: others) (hfirst : first.isDigit = false) :
      (whole ++ if fraction = [] then [] else '.' :: fraction) ≠ word := by
    obtain ⟨c, rest, rfl⟩ := List.exists_cons_of_ne_nil hwhole.1
    rintro heq
    rw [hword] at heq
    have hdigit := hwhole.2 c List.mem_cons_self
    rw [(List.cons.inj heq).1, hfirst] at hdigit
    cases hdigit
  simp only [typedBits?, htype, Bool.false_eq_true, if_false, bits?, takeSign_decimalChars hwhole,
    hspecial "inf".toList rfl rfl, hspecial "NaN".toList rfl rfl, withoutLowLines?_eq hlines,
    ofChars?_decimalChars hwhole hfraction, Option.bind_eq_bind, Option.bind_some, pure]

/-- The text of a finite number writes its shortest decimal. -/
theorem exists_readingText {f : Format} {c : Nat} {e : Int} (negative : Bool)
    (h : c % 2 ^ (-e).toNat = 0 → 0 ≤ (shortest f c e).exponent) :
    ∃ whole fraction, (readingText f (.finite negative c e)).toList =
        decimalChars negative whole fraction ∧ (shortest f c e).Writing whole fraction := by
  have hsign : (if negative then "-" else "").toList = if negative then ['-'] else [] := by
    cases negative <;> rfl
  by_cases hwhole : c % 2 ^ (-e).toNat = 0
  · refine ⟨_, _, ?_, Digits.writing_of_nonneg (h hwhole) 1⟩
    simp [readingText, Reading.text, Reading.isWhole, hwhole, decimalChars, hsign]
  · by_cases hpoint : 0 ≤ (shortest f c e).exponent
    · refine ⟨_, _, ?_, Digits.writing_of_nonneg hpoint 0⟩
      simp [readingText, Reading.text, Reading.isWhole, hwhole, decimalChars, hsign]
    · obtain ⟨whole, fraction, htext, hfraction, hwriting⟩ :=
        Digits.writing_of_neg (not_le.mp hpoint)
      refine ⟨whole, fraction, ?_, hwriting⟩
      simp [readingText, Reading.text, Reading.isWhole, hwhole, decimalChars, hsign, htext,
        hfraction]

theorem spells_of_typedBits? {x : Float} {text : List Char} (hne : text ≠ [])
    (htext : ∀ c ∈ text, isNumberChar c = true)
    (hbits : typedBits? .double text = some x.toBits.toNat) : Spells float text x := by
  refine ⟨beginsWith_of_forall hne fun c hc => isSolid_of_isNumberChar (htext c hc),
    fun rest hrest => ?_⟩
  have hspan := span_append htext fun c hc => (hrest.isMarkedNameChar c hc).2
  simp only [float, bits, bind_apply, hspan, Option.bind_some, hbits, pure_apply,
    UInt64.ofNat_toNat, Double.ofBits_toBits]

theorem within_of_isNumber {c : Nat} {e : Int} (h : Format.double.IsNumber c e) :
    c < 2 ^ 53 ∧ -1074 ≤ e ∧ e ≤ 971 := by
  obtain ⟨-, hlt, hmin, hfull, hfinite⟩ := h
  have hexponent : Format.double.minExponent = -1074 := rfl
  have hinfinity : Format.double.infinityBits = 2047 * 2 ^ 52 := rfl
  have hfraction : Format.double.fractionBits = 52 := rfl
  simp only [Format.bitsOf, hexponent, hinfinity, hfraction] at *
  refine ⟨hlt, hmin, ?_⟩
  by_contra hlarge
  have hcoefficient := hfull (by omega)
  have hsteps : 2046 ≤ (e - -1074).toNat := by omega
  omega

/-- A decimal is read as the number whose bits it has. -/
theorem spells_decimalChars {x : Float} {negative : Bool} {whole fraction : List Char}
    (hwhole : AreDigits whole) (hfraction : ∀ c ∈ fraction, c.isDigit = true)
    (hbits : Literal.bits .double ⟨negative, digitsValue (whole ++ fraction), -fraction.length⟩ =
      x.toBits.toNat) : Spells float (decimalChars negative whole fraction) x := by
  refine spells_of_typedBits? ?nonempty (fun c hc => ?numberChar) ?bits
  case nonempty =>
    exact List.append_ne_nil_of_right_ne_nil _ (List.append_ne_nil_of_left_ne_nil hwhole.1 _)
  case numberChar =>
    rcases mem_decimalChars hwhole hfraction negative c hc with hdigit | rfl | rfl
    · exact isNumberChar_of_isDigit hdigit
    · rfl
    · rfl
  case bits =>
    rw [typedBits?_decimalChars .double hwhole hfraction, hbits]

/-- Whether a number with that sign is as large as a value. -/
def IsExactly (x : Float) (negative : Bool) (v : ℚ) : Prop :=
  ∃ c e, Format.double.decode x.toBits.toNat = .finite negative c e ∧ c * 2 ^ e = v

theorem decoded_toBits (x : Float) :
    Format.Decoded .double x.toBits.toNat (Format.double.decode x.toBits.toNat) :=
  Format.decoded_decode x.toBits.toNat_lt

/-- The bits of a decimal in the interval around a number are those of the number. Around zero there
is only zero. -/
theorem bits_of_finite {x : Float} {negative : Bool} {c : Nat} {e : Int}
    (hx : Format.double.decode x.toBits.toNat = .finite negative c e) {l : Literal}
    (hnegative : l.negative = negative) (hzero : c = 0 → l.value = 0)
    (hholds : 0 < c → (Interval.around .double c e).Holds l.value) :
    l.bits .double = x.toBits.toNat := by
  have hdecoded := decoded_toBits x
  rw [hx] at hdecoded
  cases hdecoded with
  | zero negative e hbits =>
    have hten : (10 : ℚ) ^ l.exponent ≠ 0 := zpow_ne_zero _ (by decide)
    have hcoefficient : l.coefficient = 0 := by
      simpa [Literal.value, hten] using hzero rfl
    rw [Literal.bits_of_coefficient_zero hcoefficient, hnegative, hbits]
  | number negative hnumber hbits =>
    obtain ⟨hlt, he, he'⟩ := within_of_isNumber hnumber
    rw [Literal.bits_of_holds hnumber hlt he he' (hholds hnumber.pos), hnegative, hbits]

theorem spells_exactly {x : Float} {negative : Bool} {whole fraction : List Char}
    (hwhole : AreDigits whole) (hfraction : ∀ c ∈ fraction, c.isDigit = true)
    (hx : IsExactly x negative (digitsValue (whole ++ fraction) * 10 ^ (-fraction.length : Int))) :
    Spells float (decimalChars negative whole fraction) x := by
  obtain ⟨c, e, hdecode, hvalue⟩ := hx
  refine spells_decimalChars hwhole hfraction (bits_of_finite hdecode rfl ?_ ?_)
  · rintro rfl
    rw [Nat.cast_zero, zero_mul] at hvalue
    exact hvalue.symm
  · intro hpos
    have hholds := Interval.holds_center (f := .double) (e := e) hpos
    rwa [hvalue] at hholds

/-- A number of double precision is read from its text, and so is what is not a number. -/
theorem spells_float (x : Float) : Spells float (floatText x).toList x := by
  have hdecoded := decoded_toBits x
  unfold floatText
  generalize hreading : Format.double.decode x.toBits.toNat = reading at hdecoded ⊢
  cases hdecoded with
  | zero negative e hbits =>
    obtain ⟨whole, fraction, htext, hwriting⟩ := exists_readingText (f := .double) (c := 0) (e := e)
      negative fun _ => le_rfl
    rw [htext]
    refine spells_decimalChars hwriting.areDigits hwriting.isDigit
      (bits_of_finite hreading rfl (fun _ => ?_) fun h => absurd h (lt_irrefl 0))
    exact hwriting.value.trans (by simp [Digits.value, shortest])
  | @number negative c e hnumber hbits =>
    obtain ⟨hlt, he, he'⟩ := within_of_isNumber hnumber
    obtain ⟨hholds, hwhole⟩ := shortest_spec (f := .double) hnumber.pos hlt he he'
    obtain ⟨whole, fraction, htext, hwriting⟩ := exists_readingText negative hwhole
    rw [htext]
    refine spells_decimalChars hwriting.areDigits hwriting.isDigit
      (bits_of_finite hreading rfl (fun h => absurd h (Nat.ne_of_gt hnumber.pos)) fun _ => ?_)
    rw [Literal.value, hwriting.value]
    exact hholds
  | infinite negative hbits =>
    cases negative with
    | true =>
      change Spells float ['-', 'i', 'n', 'f'] x
      exact spells_of_typedBits? (by decide) (List.all_eq_true.mp rfl) (hbits ▸ rfl)
    | false =>
      change Spells float ['i', 'n', 'f'] x
      exact spells_of_typedBits? (by decide) (List.all_eq_true.mp rfl) (hbits ▸ rfl)
  | notANumber hfield hfraction =>
    have hbits := Double.toBits_of_notANumber x hfield hfraction
    change Spells float ['N', 'a', 'N'] x
    exact spells_of_typedBits? (by decide) (List.all_eq_true.mp rfl) (hbits ▸ rfl)

end Sequencer.Notation

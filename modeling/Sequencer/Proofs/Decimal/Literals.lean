import Sequencer.Proofs.Decimal.Decoding
import Sequencer.Proofs.Decimal.Grids
import Sequencer.Notation.Layout
import Sequencer.Notation.Number

/-!
# Decimals that are written and read

A number is written as digits, with a point among them if there is a fraction and a sign before them
if it is negative. Read as a literal, the digits stand for the shortest decimal of the number, and
so the bits of the literal are those of the number.
-/

namespace Sequencer.Decimal

def Literal.value (l : Literal) : ℚ := l.coefficient * 10 ^ l.exponent

namespace Literal

variable {f : Format} {l : Literal}

theorem value_bounds (hl : 0 < l.coefficient) :
    let magnitude : Int := (Nat.toDigits 10 l.coefficient).length + l.exponent
    (10 : ℚ) ^ (magnitude - 1) ≤ l.value ∧ l.value < 10 ^ magnitude := by
  obtain ⟨places, hplaces⟩ : ∃ places, (Nat.toDigits 10 l.coefficient).length = places + 1 :=
    Nat.exists_eq_succ_of_ne_zero (Nat.ne_of_gt Nat.length_toDigits_pos)
  have hten : (10 : ℚ) ≠ 0 := by norm_num
  have hlow : 10 ^ places ≤ l.coefficient := by
    rcases Nat.eq_zero_or_pos places with rfl | hpos
    · exact hl
    · by_contra hlt
      have hle := (Nat.length_toDigits_le_iff (by decide) hpos).mpr (not_le.mp hlt)
      omega
  have hhigh : l.coefficient < 10 ^ (places + 1) :=
    (Nat.length_toDigits_le_iff (by decide) (Nat.succ_pos places)).mp (Nat.le_of_eq hplaces)
  simp only [hplaces, value]
  push_cast
  constructor
  · rw [show (places : Int) + 1 + l.exponent - 1 = places + l.exponent by ring, zpow_add₀ hten,
      zpow_natCast]
    gcongr
    exact_mod_cast hlow
  · rw [zpow_add₀ hten]
    gcongr
    exact_mod_cast hhigh

theorem bits_of_coefficient_zero (hl : l.coefficient = 0) :
    l.bits f = f.withSign l.negative 0 := by
  simp [bits, Format.withSign, hl]

/-- No literal in the range of the 64-bit numbers is taken for zero or for infinity. -/
theorem magnitude_within (hl : 0 < l.coefficient) (hlow : (2 : ℚ) ^ (-1075 : Int) ≤ l.value)
    (hhigh : l.value ≤ 2 ^ (1024 : Int)) :
    let magnitude : Int := (Nat.toDigits 10 l.coefficient).length + l.exponent
    magnitude ≤ maxMagnitude ∧ -maxMagnitude ≤ magnitude := by
  intro magnitude
  obtain ⟨hfirst, hlast⟩ := value_bounds hl
  unfold maxMagnitude
  constructor
  · by_contra hlarge
    have hle : (10 : ℚ) ^ (-(magnitude - 1)) ≤ 2 ^ (-1025 : Int) :=
      ten_zpow_le_two_zpow (by omega) (by omega)
    rw [zpow_neg, zpow_neg, inv_le_inv₀ (by positivity) (by positivity)] at hle
    have hlt : (2 : ℚ) ^ (1024 : Int) < 2 ^ (1025 : Int) :=
      zpow_lt_zpow_right₀ (by norm_num) (by norm_num)
    exact absurd (hfirst.trans hhigh) (not_le.mpr (hlt.trans_le hle))
  · by_contra hsmall
    have hle : (10 : ℚ) ^ magnitude ≤ 2 ^ (-1075 : Int) :=
      ten_zpow_le_two_zpow (by omega) (by omega)
    exact absurd (hlow.trans_lt hlast) (not_lt.mpr hle)

theorem holds_within {c : Nat} {e : Int} {v : ℚ} (h : (Interval.around f c e).Holds v)
    (hc : 0 < c) (hlt : c < 2 ^ 53) (he : -1074 ≤ e) (he' : e ≤ 971) :
    (2 : ℚ) ^ (-1075 : Int) ≤ v ∧ v ≤ 2 ^ (1024 : Int) := by
  obtain ⟨hlow, hhigh, -⟩ := h.within hc
  rw [le_div_iff₀ (by positivity)] at hlow
  rw [div_le_iff₀ (by positivity)] at hhigh
  have hone : (1 : ℚ) ≤ c := by exact_mod_cast hc
  have hfits : (c : ℚ) + 1 ≤ 2 ^ (53 : Int) := by exact_mod_cast hlt
  constructor
  · calc (2 : ℚ) ^ (-1075 : Int) ≤ 2 ^ (e - 1) := zpow_le_zpow_right₀ (by norm_num) (by omega)
      _ = (1 - 1 / 2) * 2 ^ e := by rw [zpow_sub₀ (by norm_num)]; ring
      _ ≤ (c - 1 / 2) * 2 ^ e := by gcongr
      _ ≤ v := hlow
  · calc v ≤ (c + 1 / 2) * 2 ^ e := hhigh
      _ ≤ 2 ^ (53 : Int) * 2 ^ (971 : Int) := by gcongr <;> linarith
      _ = 2 ^ (1024 : Int) := by rw [← zpow_add₀ (by norm_num)]; rfl

/-- A literal around a number has the bits of the number. -/
theorem bits_of_holds {c : Nat} {e : Int} (h : f.IsNumber c e) (hlt : c < 2 ^ 53)
    (he : -1074 ≤ e) (he' : e ≤ 971) (hl : (Interval.around f c e).Holds l.value) :
    l.bits f = f.withSign l.negative (f.bitsOf c e) := by
  obtain ⟨hlow, hhigh⟩ := holds_within hl h.pos hlt he he'
  have hpos : 0 < l.coefficient := by
    rw [Nat.pos_iff_ne_zero]
    intro hzero
    have hvalue : l.value = 0 := by simp [value, hzero]
    exact absurd (hvalue ▸ hlow) (not_le.mpr (by positivity))
  obtain ⟨hlarge, hsmall⟩ := magnitude_within hpos hlow hhigh
  have hne : (l.coefficient == 0) = false := by simpa using Nat.ne_of_gt hpos
  have hquotient : ((l.coefficient * 10 ^ l.exponent.toNat : Nat) : ℚ) /
      (10 ^ (-l.exponent).toNat : Nat) = l.value := by
    have hten := Format.zpow_eq_div 10 (by decide) l.exponent
    push_cast at hten ⊢
    rw [value, hten, mul_div_assoc]
  have hnearest : f.nearest (l.coefficient * 10 ^ l.exponent.toNat) (10 ^ (-l.exponent).toNat) =
      f.bitsOf c e :=
    Format.nearest_of_holds h (Nat.mul_pos hpos (Nat.pow_pos (by decide)))
      (Nat.pow_pos (by decide)) (hquotient ▸ hl)
  simp only [bits, hne, Bool.false_or, not_lt.mpr hsmall, not_lt.mpr hlarge, decide_false,
    Bool.false_eq_true, if_false, Nat.pow_eq, hnearest, Format.withSign]

end Literal

theorem digitsValue_append (digits more : List Char) :
    digitsValue (digits ++ more) = Nat.ofDigitChars 10 more (digitsValue digits) :=
  Nat.ofDigitChars_append 0

theorem digitsValue_toDigits (n : Nat) : digitsValue (Nat.toDigits 10 n) = n :=
  Nat.ofDigitChars_ten_toDigits

/-- The characters of a decimal: a sign, digits, and more digits after a point if there are any. -/
def decimalChars (negative : Bool) (whole fraction : List Char) : List Char :=
  (if negative then ['-'] else []) ++
    (whole ++ if fraction = [] then [] else '.' :: fraction)

def AreDigits (chars : List Char) : Prop := chars ≠ [] ∧ ∀ c ∈ chars, c.isDigit = true

theorem areDigits_toDigits (n : Nat) : AreDigits (Nat.toDigits 10 n) :=
  ⟨Nat.toDigits_ne_nil, fun _ hc => Nat.isDigit_of_mem_toDigits (by decide) (by decide) hc⟩

/-- How a decimal without its sign is written. -/
structure Digits.Writing (d : Digits) (whole fraction : List Char) : Prop where
  areDigits : AreDigits whole
  isDigit : ∀ c ∈ fraction, c.isDigit = true
  value : (digitsValue (whole ++ fraction) : ℚ) * 10 ^ (-(fraction.length : Int)) = d.value

theorem Digits.writing_of_nonneg {d : Digits} (h : 0 ≤ d.exponent) (zeros : Nat) :
    d.Writing d.positional.toList (List.replicate zeros '0') := by
  obtain ⟨hne, hdigits⟩ := areDigits_toDigits d.coefficient
  obtain ⟨places, hplaces⟩ := Int.eq_ofNat_of_zero_le h
  have htext : d.positional.toList =
      Nat.toDigits 10 d.coefficient ++ List.replicate places '0' := by
    simp [positional, hplaces]
  have hzeros {n : Nat} : ∀ c ∈ List.replicate n '0', c.isDigit = true := by
    intro c hc
    obtain rfl := List.eq_of_mem_replicate hc
    rfl
  refine ⟨⟨?_, ?_⟩, hzeros, ?_⟩
  · rw [htext]
    exact List.append_ne_nil_of_left_ne_nil hne _
  · rw [htext, List.forall_mem_append]
    exact ⟨hdigits, hzeros⟩
  · rw [htext, digitsValue_append, digitsValue_append, Nat.ofDigitChars_replicate_zero,
      Nat.ofDigitChars_replicate_zero, digitsValue_toDigits, value, hplaces, List.length_replicate]
    push_cast
    rw [zpow_neg, zpow_natCast, zpow_natCast]
    field_simp

theorem Digits.writing_of_neg {d : Digits} (h : d.exponent < 0) :
    ∃ whole fraction, d.positional.toList = whole ++ '.' :: fraction ∧ fraction ≠ [] ∧
      d.Writing whole fraction := by
  obtain ⟨places, hplaces⟩ := Int.eq_ofNat_of_zero_le (show 0 ≤ -d.exponent by omega)
  obtain ⟨hne, hdigits⟩ := areDigits_toDigits d.coefficient
  let padded := List.replicate (places + 1 - (Nat.toDigits 10 d.coefficient).length) '0' ++
    Nat.toDigits 10 d.coefficient
  have hlength : places + 1 ≤ padded.length := by
    simp only [padded, List.length_append, List.length_replicate]
    omega
  have hpadded : ∀ c ∈ padded, c.isDigit = true := by
    rw [List.forall_mem_append]
    refine ⟨fun c hc => ?_, hdigits⟩
    obtain rfl := List.eq_of_mem_replicate hc
    rfl
  have hvalue : digitsValue padded = d.coefficient := by
    rw [digitsValue_append, digitsValue, ← Nat.ofDigitChars_eq_foldl,
      Nat.ofDigitChars_replicate_zero, Nat.mul_zero, Nat.ofDigitChars_ten_toDigits]
  have hfraction : (padded.drop (padded.length - places)).length = places := by
    rw [List.length_drop]
    omega
  refine ⟨padded.take (padded.length - places), padded.drop (padded.length - places), ?_, ?_,
    ⟨?_, ?_⟩, ?_, ?_⟩
  · simp only [positional, not_le.mpr h, if_false, hplaces, Int.toNat_natCast,
      String.toList_ofList, padded]
  · rw [← List.length_pos_iff, hfraction]
    omega
  · rw [← List.length_pos_iff, List.length_take]
    omega
  · exact fun c hc => hpadded c (List.mem_of_mem_take hc)
  · exact fun c hc => hpadded c (List.mem_of_mem_drop hc)
  · rw [List.take_append_drop, hvalue, hfraction, value]
    congr 2
    omega

theorem isDigit_ne_sign {c : Char} (h : c.isDigit = true) : c ≠ '-' ∧ c ≠ '+' := by
  constructor <;> rintro rfl <;> exact absurd h (by decide)

theorem takeSign_of_areDigits {whole : List Char} (h : AreDigits whole) (rest : List Char) :
    Literal.takeSign (whole ++ rest) = (false, whole ++ rest) := by
  obtain ⟨hne, hdigits⟩ := h
  obtain ⟨first, others, rfl⟩ := List.exists_cons_of_ne_nil hne
  obtain ⟨hminus, hplus⟩ := isDigit_ne_sign (hdigits first List.mem_cons_self)
  rw [List.cons_append, Literal.takeSign]
  · exact fun _ heq => hminus (List.cons.inj heq).1
  · exact fun _ heq => hplus (List.cons.inj heq).1

theorem takeSign_decimalChars {whole : List Char} (h : AreDigits whole) (negative : Bool)
    (fraction : List Char) :
    Literal.takeSign (decimalChars negative whole fraction) =
      (negative, whole ++ if fraction = [] then [] else '.' :: fraction) := by
  cases negative with
  | true => rfl
  | false => exact takeSign_of_areDigits h _

theorem ofChars?_decimalChars {whole fraction : List Char} (h : AreDigits whole)
    (hfraction : ∀ c ∈ fraction, c.isDigit = true) (negative : Bool) :
    Literal.ofChars? (decimalChars negative whole fraction) =
      some ⟨negative, digitsValue (whole ++ fraction), -fraction.length⟩ := by
  have hempty : whole.isEmpty = false := by simpa using h.1
  rw [Literal.ofChars?, takeSign_decimalChars h]
  by_cases hnone : fraction = []
  · subst hnone
    simp [List.takeWhile_eq_self_iff.mpr h.2, List.dropWhile_eq_nil_iff.mpr h.2, hempty,
      Literal.readExponent]
  · have hpoint : ('.' : Char).isDigit = false := rfl
    simp [hnone, List.takeWhile_append_of_pos h.2, List.dropWhile_append_of_pos h.2, hpoint,
      List.takeWhile_eq_self_iff.mpr hfraction, List.dropWhile_eq_nil_iff.mpr hfraction, hempty,
      Literal.readExponent]

end Sequencer.Decimal

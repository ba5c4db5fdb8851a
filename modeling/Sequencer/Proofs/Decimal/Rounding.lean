import Mathlib
import Sequencer.Decimal.Shortest

/-!
# Quotients that are rounded to a number

A positive number of a format is a coefficient times a power of two. Around it lie the quotients
that are nearer to it than to its neighbours. Rounding finds the exponent of the number for all of
them, or the one below if the number is a power of two and the quotient is smaller; either way it
comes to the bits of the number.
-/

namespace Sequencer.Decimal

namespace Format

/-- A quotient that is no further than a half from a whole number is rounded to it, if it is nearer
to it than to any other or the whole number is even. -/
theorem roundDiv_eq {num den c : Nat} (hden : 0 < den)
    (hlow : (c : ℚ) - 1 / 2 ≤ num / den) (hhigh : (num : ℚ) / den ≤ c + 1 / 2)
    (hnear : c % 2 = 0 ∨ (c : ℚ) - 1 / 2 < num / den ∧ (num : ℚ) / den < c + 1 / 2) :
    roundDiv num den = c := by
  have hden' : (0 : ℚ) < den := by exact_mod_cast hden
  rw [le_div_iff₀ hden'] at hlow
  rw [div_le_iff₀ hden'] at hhigh
  rw [lt_div_iff₀ hden', div_lt_iff₀ hden'] at hnear
  have hlow' : 2 * (c * den) ≤ 2 * num + den := by
    have hle : (2 * (c * den) : ℚ) ≤ 2 * num + den := by linarith
    exact_mod_cast hle
  have hhigh' : 2 * num ≤ 2 * (c * den) + den := by
    have hle : (2 * num : ℚ) ≤ 2 * (c * den) + den := by linarith
    exact_mod_cast hle
  have hnear' : c % 2 = 0 ∨ 2 * (c * den) < 2 * num + den ∧ 2 * num < 2 * (c * den) + den := by
    refine hnear.imp_right fun ⟨h, h'⟩ => ⟨?_, ?_⟩
    · have hlt : (2 * (c * den) : ℚ) < 2 * num + den := by linarith
      exact_mod_cast hlt
    · have hlt : (2 * num : ℚ) < 2 * (c * den) + den := by linarith
      exact_mod_cast hlt
  have hsplit := Nat.div_add_mod' num den
  have hmod := Nat.mod_lt num hden
  unfold roundDiv
  generalize num / den = quotient at *
  generalize num % den = rest at *
  subst hsplit
  rcases Nat.lt_trichotomy quotient c with hlt | rfl | hgt
  · obtain ⟨gap, rfl⟩ := Nat.exists_eq_add_of_lt hlt
    -- a quotient that is two below the number is too far away
    obtain rfl : gap = 0 := by
      by_contra hgap
      have hle : 1 * den ≤ gap * den := Nat.mul_le_mul_right _ (by omega)
      simp only [Nat.add_mul] at *
      omega
    simp only [Nat.add_mul, Nat.add_zero] at *
    rw [if_neg (by omega)]
  · rw [if_pos (by omega)]
  · obtain ⟨gap, rfl⟩ := Nat.exists_eq_add_of_lt hgt
    simp only [Nat.add_mul] at *
    omega

theorem scaled_pos (num : Nat) {den : Nat} (hden : 0 < den) (exponent : Int) :
    0 < (scaled num den exponent).2 :=
  Nat.mul_pos hden (Nat.two_pow_pos _)

theorem zpow_eq_div (base : Nat) (hbase : 0 < base) (exponent : Int) :
    (base : ℚ) ^ exponent =
      ((base ^ exponent.toNat : Nat) : ℚ) / (base ^ (-exponent).toNat : Nat) := by
  have hne : (base : ℚ) ≠ 0 := by exact_mod_cast Nat.ne_of_gt hbase
  rcases Int.le_total 0 exponent with h | h
  · obtain ⟨n, rfl⟩ := Int.eq_ofNat_of_zero_le h
    simp
  · obtain ⟨n, hn⟩ := Int.eq_ofNat_of_zero_le (show 0 ≤ -exponent by omega)
    obtain rfl : exponent = -n := by omega
    simp

theorem scaled_div (num den : Nat) (exponent : Int) :
    ((scaled num den exponent).1 : ℚ) / (scaled num den exponent).2 =
      num / den / 2 ^ exponent := by
  have hpow := zpow_eq_div 2 (by decide) exponent
  have hfirst : (2 : ℚ) ^ exponent.toNat ≠ 0 := by positivity
  have hlast : (2 : ℚ) ^ (-exponent).toNat ≠ 0 := by positivity
  push_cast at hpow
  rw [hpow]
  simp only [scaled, Nat.pow_eq, Nat.cast_mul, Nat.cast_pow, Nat.cast_ofNat]
  rcases Nat.eq_zero_or_pos den with rfl | hden
  · simp
  · field_simp

/-- The exponent with which the quotient has as many bits before the point as a coefficient. -/
def fitting (f : Format) (num den : Nat) : Int :=
  let guess : Int := (Nat.log2 num : Int) - Nat.log2 den - f.fractionBits - 1
  let (n, d) := scaled num den guess
  if n / d < Nat.pow 2 (f.fractionBits + 1) then guess else guess + 1

theorem nearest_eq {f : Format} {num den : Nat} (hnum : 0 < num) :
    f.nearest num den =
      let exponent := max (f.fitting num den) f.minExponent
      let quotient := scaled num den exponent
      min ((exponent - f.minExponent).toNat * Nat.pow 2 f.fractionBits +
        roundDiv quotient.1 quotient.2) f.infinityBits := by
  have hne : (num == 0) = false := by simpa using Nat.ne_of_gt hnum
  simp only [nearest, hne, fitting, Bool.false_eq_true, if_false]

theorem log2_bounds {n : Nat} (hn : 0 < n) :
    (2 : ℚ) ^ (n.log2 : Int) ≤ n ∧ (n : ℚ) < 2 ^ ((n.log2 : Int) + 1) := by
  constructor
  · exact_mod_cast Nat.log2_self_le (Nat.ne_of_gt hn)
  · exact_mod_cast Nat.lt_log2_self

theorem fitting_bounds {f : Format} {num den : Nat} (hnum : 0 < num) (hden : 0 < den) :
    (2 : ℚ) ^ (f.fractionBits + f.fitting num den) ≤ num / den ∧
      (num : ℚ) / den < 2 ^ (f.fractionBits + f.fitting num den + 1) := by
  obtain ⟨hnumLow, hnumHigh⟩ := log2_bounds hnum
  obtain ⟨hdenLow, hdenHigh⟩ := log2_bounds hden
  have hden' : (0 : ℚ) < den := by exact_mod_cast hden
  have htwo : (2 : ℚ) ≠ 0 := by norm_num
  let guess : Int := (Nat.log2 num : Int) - Nat.log2 den - f.fractionBits - 1
  have hquotient := scaled_div num den guess
  have hpos := scaled_pos num hden guess
  have hpos' : (0 : ℚ) < (scaled num den guess).2 := by exact_mod_cast hpos
  -- the quotient lies within a factor of four above the guess
  have hlow : (2 : ℚ) ^ (f.fractionBits + guess) < num / den := by
    rw [lt_div_iff₀ hden']
    calc (2 : ℚ) ^ (f.fractionBits + guess) * den
        < 2 ^ (f.fractionBits + guess) * 2 ^ ((den.log2 : Int) + 1) := by gcongr
      _ = 2 ^ (num.log2 : Int) := by rw [← zpow_add₀ htwo]; congr 1; simp only [guess]; ring
      _ ≤ num := hnumLow
  have hhigh : (num : ℚ) / den < 2 ^ (f.fractionBits + guess + 2) := by
    rw [div_lt_iff₀ hden']
    calc (num : ℚ) < 2 ^ ((num.log2 : Int) + 1) := hnumHigh
      _ = 2 ^ (f.fractionBits + guess + 2) * 2 ^ (den.log2 : Int) := by
        rw [← zpow_add₀ htwo]; congr 1; simp only [guess]; ring
      _ ≤ 2 ^ (f.fractionBits + guess + 2) * den := by gcongr
  have hsplit : (2 : ℚ) ^ (f.fractionBits + guess + 1) = 2 ^ (f.fractionBits + 1) * 2 ^ guess := by
    rw [← zpow_natCast, ← zpow_add₀ htwo]
    congr 1
    push_cast
    ring
  have hfits :
      (scaled num den guess).1 / (scaled num den guess).2 < Nat.pow 2 (f.fractionBits + 1) ↔
        (num : ℚ) / den < 2 ^ (f.fractionBits + guess + 1) := by
    rw [hsplit, ← div_lt_iff₀ (by positivity), ← hquotient, div_lt_iff₀ hpos',
      Nat.div_lt_iff_lt_mul hpos]
    simp only [Nat.pow_eq]
    exact_mod_cast Iff.rfl
  by_cases h : (num : ℚ) / den < 2 ^ (f.fractionBits + guess + 1)
  · have hfit : f.fitting num den = guess := if_pos (hfits.mpr h)
    rw [hfit]
    exact ⟨hlow.le, h⟩
  · have hfit : f.fitting num den = guess + 1 := if_neg fun hlt => h (hfits.mp hlt)
    rw [hfit, ← add_assoc]
    refine ⟨not_lt.mp h, ?_⟩
    convert hhigh using 2
    ring

theorem fitting_eq {f : Format} {num den : Nat} (hnum : 0 < num) (hden : 0 < den) {exponent : Int}
    (hlow : (2 : ℚ) ^ (f.fractionBits + exponent) ≤ num / den)
    (hhigh : (num : ℚ) / den < 2 ^ (f.fractionBits + exponent + 1)) :
    f.fitting num den = exponent := by
  obtain ⟨hlow', hhigh'⟩ := fitting_bounds (f := f) hnum hden
  have hle := (zpow_lt_zpow_iff_right₀ (one_lt_two (α := ℚ))).mp (hlow.trans_lt hhigh')
  have hle' := (zpow_lt_zpow_iff_right₀ (one_lt_two (α := ℚ))).mp (hlow'.trans_lt hhigh)
  omega

def bitsOf (f : Format) (coefficient : Nat) (exponent : Int) : Nat :=
  (exponent - f.minExponent).toNat * 2 ^ f.fractionBits + coefficient

/-- Whether a coefficient and an exponent are those of a positive number of a format. -/
structure IsNumber (f : Format) (coefficient : Nat) (exponent : Int) : Prop where
  pos : 0 < coefficient
  lt : coefficient < 2 ^ (f.fractionBits + 1)
  minExponent_le : f.minExponent ≤ exponent
  /-- Only the smallest numbers have coefficients that do not fill the fraction field. -/
  full : f.minExponent < exponent → 2 ^ f.fractionBits ≤ coefficient
  finite : f.bitsOf coefficient exponent < f.infinityBits

end Format

namespace Interval

def unit (i : Interval) : ℚ := i.num / i.den

def Holds (i : Interval) (v : ℚ) : Prop :=
  if i.closed then i.low * i.unit ≤ v ∧ v ≤ i.high * i.unit
  else i.low * i.unit < v ∧ v < i.high * i.unit

theorem contains_iff {i : Interval} {a b : Nat} (hi : 0 < i.den) (hb : 0 < b) :
    i.contains a b = true ↔ i.Holds (a / b) := by
  have hi' : (0 : ℚ) < i.den := by exact_mod_cast hi
  have hb' : (0 : ℚ) < b := by exact_mod_cast hb
  have hle (bound : Nat) : bound * i.num * b ≤ a * i.den ↔ bound * i.unit ≤ (a / b : ℚ) := by
    rw [unit, ← mul_div_assoc, div_le_div_iff₀ hi' hb']
    exact_mod_cast Iff.rfl
  have hge (bound : Nat) : a * i.den ≤ bound * i.num * b ↔ (a / b : ℚ) ≤ bound * i.unit := by
    rw [unit, ← mul_div_assoc, div_le_div_iff₀ hb' hi']
    exact_mod_cast Iff.rfl
  unfold contains Holds
  split
  · simp only [Bool.and_eq_true, decide_eq_true_iff, hle, hge]
  · simp only [Bool.and_eq_true, decide_eq_true_iff, ← not_le, hle, hge]

theorem den_around_pos (f : Format) (coefficient : Nat) (exponent : Int) :
    0 < (around f coefficient exponent).den :=
  Nat.two_pow_pos _

theorem unit_around (f : Format) (coefficient : Nat) (exponent : Int) :
    (around f coefficient exponent).unit = 2 ^ (exponent - 2) :=
  (Format.zpow_eq_div 2 (by decide) _).symm

theorem mul_unit_around (f : Format) (coefficient : Nat) (exponent : Int) (x : ℚ) :
    x * (around f coefficient exponent).unit = x / 4 * 2 ^ exponent := by
  rw [unit_around, zpow_sub₀ (by norm_num)]
  ring

theorem low_around {f : Format} {c : Nat} {e : Int} (hc : 0 < c) :
    4 * (c : ℚ) - 2 ≤ (around f c e).low := by
  have hle : 4 * c ≤ (around f c e).low + 2 := by
    simp only [around]
    split <;> omega
  have hle' : (4 * c : ℚ) ≤ (around f c e).low + 2 := by exact_mod_cast hle
  linarith

theorem high_around (f : Format) (c : Nat) (e : Int) :
    ((around f c e).high : ℚ) = 4 * c + 2 := by
  simp [around]

theorem closed_around (f : Format) (c : Nat) (e : Int) :
    (around f c e).closed = true ↔ c % 2 = 0 := by
  simp [around]

theorem Holds.le {i : Interval} {v : ℚ} (h : i.Holds v) :
    i.low * i.unit ≤ v ∧ v ≤ i.high * i.unit := by
  unfold Holds at h
  split at h
  · exact h
  · exact ⟨h.1.le, h.2.le⟩

theorem Holds.lt {i : Interval} {v : ℚ} (h : i.Holds v) (hi : ¬i.closed = true) :
    i.low * i.unit < v ∧ v < i.high * i.unit := by
  unfold Holds at h
  rwa [if_neg hi] at h

/-- What lies around a number is no further away than half of its last place. -/
theorem Holds.within {f : Format} {c : Nat} {e : Int} {v : ℚ} (h : (around f c e).Holds v)
    (hc : 0 < c) :
    (c : ℚ) - 1 / 2 ≤ v / 2 ^ e ∧ v / 2 ^ e ≤ c + 1 / 2 ∧
      (c % 2 = 0 ∨ (c : ℚ) - 1 / 2 < v / 2 ^ e ∧ v / 2 ^ e < c + 1 / 2) := by
  have hpow : (0 : ℚ) < 2 ^ e := by positivity
  have hlow := low_around (f := f) (e := e) hc
  have hmul : ((around f c e).low : ℚ) / 4 * 2 ^ e ≥ (c - 1 / 2) * 2 ^ e := by
    gcongr
    linarith
  have hhigh : ((4 * c + 2 : ℚ) / 4) * 2 ^ e = (c + 1 / 2) * 2 ^ e := by ring
  obtain ⟨hle, hle'⟩ := h.le
  rw [mul_unit_around] at hle hle'
  rw [high_around, hhigh] at hle'
  rw [le_div_iff₀ hpow, div_le_iff₀ hpow, lt_div_iff₀ hpow, div_lt_iff₀ hpow]
  refine ⟨hmul.trans hle, hle', ?_⟩
  by_cases heven : c % 2 = 0
  · exact .inl heven
  · obtain ⟨hlt, hlt'⟩ := h.lt fun hclosed => heven ((closed_around f c e).mp hclosed)
    rw [mul_unit_around] at hlt hlt'
    rw [high_around, hhigh] at hlt'
    exact .inr ⟨hmul.trans_lt hlt, hlt'⟩

/-- The neighbour below a power of two is nearer than the one above. -/
theorem Holds.boundary {f : Format} {e : Int} {v : ℚ}
    (h : (around f (2 ^ f.fractionBits) e).Holds v) (he : f.minExponent < e) :
    (2 : ℚ) ^ f.fractionBits - 1 / 4 ≤ v / 2 ^ e := by
  have hpow : (0 : ℚ) < 2 ^ e := by positivity
  have hpos := Nat.two_pow_pos f.fractionBits
  have hlow : ((around f (2 ^ f.fractionBits) e).low : ℚ) = 4 * 2 ^ f.fractionBits - 1 := by
    have hnat : (around f (2 ^ f.fractionBits) e).low + 1 = 4 * 2 ^ f.fractionBits := by
      simp only [around, Nat.pow_eq, BEq.rfl, he, decide_true, Bool.and_self, if_true]
      omega
    rw [eq_sub_iff_add_eq]
    exact_mod_cast hnat
  have hle := h.le.1
  rw [mul_unit_around, hlow] at hle
  rw [le_div_iff₀ hpow]
  calc ((2 : ℚ) ^ f.fractionBits - 1 / 4) * 2 ^ e
      = (4 * 2 ^ f.fractionBits - 1) / 4 * 2 ^ e := by ring
    _ ≤ v := hle

end Interval

namespace Format

theorem two_pow_le_div_iff {p : Nat} {e : Int} {v : ℚ} :
    (2 : ℚ) ^ p ≤ v / 2 ^ e ↔ 2 ^ (p + e) ≤ v := by
  rw [le_div_iff₀ (by positivity), ← zpow_natCast, ← zpow_add₀ (by norm_num)]

theorem div_lt_two_pow_iff {p : Nat} {e : Int} {v : ℚ} :
    v / 2 ^ e < (2 : ℚ) ^ p ↔ v < 2 ^ (p + e) :=
  not_le.symm.trans (two_pow_le_div_iff.not.trans not_le)

/-- The bits of the nearest number, given the exponent and the coefficient to which the quotient
is rounded. -/
theorem nearest_eq_min {f : Format} {c : Nat} {e : Int} {num den : Nat} (hnum : 0 < num)
    (hden : 0 < den) (he : max (f.fitting num den) f.minExponent = e)
    (hlow : (c : ℚ) - 1 / 2 ≤ num / den / 2 ^ e) (hhigh : (num : ℚ) / den / 2 ^ e ≤ c + 1 / 2)
    (hnear : c % 2 = 0 ∨
      (c : ℚ) - 1 / 2 < num / den / 2 ^ e ∧ (num : ℚ) / den / 2 ^ e < c + 1 / 2) :
    f.nearest num den = min (f.bitsOf c e) f.infinityBits := by
  rw [← scaled_div] at hlow hhigh hnear
  simp only [nearest_eq hnum, he, roundDiv_eq (scaled_pos num hden e) hlow hhigh hnear, bitsOf,
    Nat.pow_eq]

/-- All quotients around a number are rounded to it. -/
theorem nearest_of_holds {f : Format} {c : Nat} {e : Int} (h : f.IsNumber c e) {num den : Nat}
    (hnum : 0 < num) (hden : 0 < den) (hv : (Interval.around f c e).Holds (num / den)) :
    f.nearest num den = f.bitsOf c e := by
  obtain ⟨hlow, hhigh, hnear⟩ := hv.within h.pos
  -- a coefficient is at least one below the next power of two
  have hbelow : (num : ℚ) / den / 2 ^ e < 2 ^ (f.fractionBits + 1) := by
    have hlt : (c : ℚ) + 1 ≤ 2 ^ (f.fractionBits + 1) := by exact_mod_cast h.lt
    linarith
  by_cases hfull : (2 : ℚ) ^ f.fractionBits ≤ num / den / 2 ^ e
  · have hfits : f.fitting num den = e := by
      rw [div_lt_two_pow_iff, Nat.cast_add, Nat.cast_one, add_right_comm] at hbelow
      exact fitting_eq hnum hden (two_pow_le_div_iff.mp hfull) hbelow
    have hexponent : max (f.fitting num den) f.minExponent = e := by
      rw [hfits]
      exact max_eq_left h.minExponent_le
    rw [nearest_eq_min hnum hden hexponent hlow hhigh hnear, min_eq_left h.finite.le]
  rw [not_le] at hfull
  rcases h.minExponent_le.eq_or_lt with hmin | hmin
  · have hfits : f.fitting num den < e := by
      obtain ⟨hle, -⟩ := fitting_bounds (f := f) hnum hden
      have hlt := hle.trans_lt (div_lt_two_pow_iff.mp hfull)
      rw [zpow_lt_zpow_iff_right₀ one_lt_two] at hlt
      omega
    have hexponent : max (f.fitting num den) f.minExponent = e := by omega
    rw [nearest_eq_min hnum hden hexponent hlow hhigh hnear, min_eq_left h.finite.le]
  -- only a power of two has quotients around it that are below that power
  have hc : c = 2 ^ f.fractionBits := by
    refine Nat.le_antisymm ?_ (h.full hmin)
    have hlt : (c : ℚ) < 2 ^ f.fractionBits + 1 := by linarith
    exact Nat.lt_succ_iff.mp (by exact_mod_cast hlt)
  subst hc
  have hboundary := hv.boundary hmin
  have hhalf : (num : ℚ) / den / 2 ^ (e - 1) = 2 * (num / den / 2 ^ e) := by
    rw [zpow_sub₀ (by norm_num)]
    field_simp
  have hone : (1 : ℚ) ≤ 2 ^ f.fractionBits := one_le_pow₀ (by norm_num)
  have hdouble : ((2 ^ (f.fractionBits + 1) : Nat) : ℚ) = 2 * 2 ^ f.fractionBits := by
    push_cast
    ring
  have hfits : f.fitting num den = e - 1 := by
    refine fitting_eq hnum hden ?_ ?_
    · rw [← two_pow_le_div_iff, hhalf]
      linarith
    · rw [add_sub_assoc', sub_add_cancel]
      exact div_lt_two_pow_iff.mp hfull
  have hexponent : max (f.fitting num den) f.minExponent = e - 1 := by omega
  have hbits : f.bitsOf (2 ^ (f.fractionBits + 1)) (e - 1) = f.bitsOf (2 ^ f.fractionBits) e := by
    obtain ⟨steps, hsteps⟩ := Int.eq_ofNat_of_zero_le (show 0 ≤ e - 1 - f.minExponent by omega)
    have hnext : (e - f.minExponent).toNat = steps + 1 := by omega
    simp only [bitsOf, hsteps, Int.toNat_natCast, hnext]
    ring
  rw [nearest_eq_min (c := 2 ^ (f.fractionBits + 1)) hnum hden hexponent, hbits,
    min_eq_left h.finite.le]
  · rw [hhalf, hdouble]
    linarith
  · rw [hhalf, hdouble]
    linarith
  · exact .inl (by rw [Nat.pow_succ, Nat.mul_mod_left])

end Format
end Sequencer.Decimal

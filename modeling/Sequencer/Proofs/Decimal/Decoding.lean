import Sequencer.Proofs.Decimal.Rounding

/-!
# The fields of a number

The bits of a number are a sign, an exponent and a fraction. They are told from what they stand for,
unless that is not a number.
-/

namespace Sequencer.Decimal

namespace Format

variable {f : Format} {bits : Nat}

def withSign (f : Format) (negative : Bool) (bits : Nat) : Nat :=
  if negative then bits + f.signBit else bits

def field (f : Format) (bits : Nat) : Nat := bits / 2 ^ f.fractionBits % 2 ^ f.exponentBits

def fraction (f : Format) (bits : Nat) : Nat := bits % 2 ^ f.fractionBits

def isNegative (f : Format) (bits : Nat) : Bool := bits / f.signBit % 2 == 1

theorem field_lt (f : Format) (bits : Nat) : f.field bits < 2 ^ f.exponentBits :=
  Nat.mod_lt _ (Nat.two_pow_pos _)

theorem fraction_lt (f : Format) (bits : Nat) : f.fraction bits < 2 ^ f.fractionBits :=
  Nat.mod_lt _ (Nat.two_pow_pos _)

theorem bits_eq (hbits : bits < 2 * f.signBit) :
    bits = f.withSign (f.isNegative bits)
      (f.field bits * 2 ^ f.fractionBits + f.fraction bits) := by
  have hsign : f.signBit = 2 ^ f.fractionBits * 2 ^ f.exponentBits := by
    rw [← Nat.pow_add, Nat.add_comm]
    rfl
  have hlow : bits % f.signBit = f.field bits * 2 ^ f.fractionBits + f.fraction bits := by
    rw [hsign, Nat.mod_mul, Nat.mul_comm (2 ^ f.fractionBits), Nat.add_comm]
    rfl
  have hsplit := Nat.div_add_mod bits f.signBit
  have htwo : bits / f.signBit < 2 := Nat.div_lt_of_lt_mul (by rwa [Nat.mul_comm] at hbits)
  rw [hlow] at hsplit
  unfold withSign isNegative
  rcases Nat.lt_succ_iff_lt_or_eq.mp htwo with h | h
  · have hzero : bits / f.signBit = 0 := Nat.lt_one_iff.mp h
    rw [hzero, Nat.mul_zero, Nat.zero_add] at hsplit
    simp [hzero, hsplit]
  · rw [h, Nat.mul_one, Nat.add_comm] at hsplit
    simp [h, hsplit]

theorem decode_eq (f : Format) (bits : Nat) :
    f.decode bits =
      if f.field bits = 2 ^ f.exponentBits - 1 then
        if f.fraction bits = 0 then .infinite (f.isNegative bits) else .notANumber
      else if f.field bits = 0 then .finite (f.isNegative bits) (f.fraction bits) f.minExponent
      else .finite (f.isNegative bits) (f.fraction bits + 2 ^ f.fractionBits)
        (f.minExponent + (f.field bits - 1 : Nat)) := by
  simp only [decode, beq_iff_eq]
  rfl

/-- What bits stand for has those bits. All that is not a number is told apart by its fields only. -/
inductive Decoded (f : Format) (bits : Nat) : Reading → Prop
  | zero (negative : Bool) (exponent : Int) (h : bits = f.withSign negative 0) :
    Decoded f bits (.finite negative 0 exponent)
  | number (negative : Bool) {coefficient : Nat} {exponent : Int}
    (hnumber : f.IsNumber coefficient exponent)
    (h : bits = f.withSign negative (f.bitsOf coefficient exponent)) :
    Decoded f bits (.finite negative coefficient exponent)
  | infinite (negative : Bool) (h : bits = f.withSign negative f.infinityBits) :
    Decoded f bits (.infinite negative)
  | notANumber (hfield : f.field bits = 2 ^ f.exponentBits - 1) (hfraction : f.fraction bits ≠ 0) :
    Decoded f bits .notANumber

theorem decoded_decode (hbits : bits < 2 * f.signBit) : Decoded f bits (f.decode bits) := by
  have heq := bits_eq hbits
  have hfield := f.field_lt bits
  have hfraction := f.fraction_lt bits
  rw [decode_eq]
  by_cases hlast : f.field bits = 2 ^ f.exponentBits - 1
  · rw [if_pos hlast]
    by_cases hzero : f.fraction bits = 0
    · rw [if_pos hzero]
      rw [hlast, hzero] at heq
      exact .infinite _ heq
    · rw [if_neg hzero]
      exact .notANumber hlast hzero
  · rw [if_neg hlast]
    have hroom : (f.field bits + 1) * 2 ^ f.fractionBits ≤ f.infinityBits :=
      Nat.mul_le_mul_right _ (by simp only [Nat.pow_eq]; omega)
    rw [Nat.add_mul, Nat.one_mul] at hroom
    by_cases hfirst : f.field bits = 0
    · rw [if_pos hfirst]
      rw [hfirst, Nat.zero_mul, Nat.zero_add] at heq
      rw [hfirst, Nat.zero_mul, Nat.zero_add] at hroom
      by_cases hzero : f.fraction bits = 0
      · rw [hzero] at heq ⊢
        exact .zero _ _ heq
      · have hsame : f.bitsOf (f.fraction bits) f.minExponent = f.fraction bits := by
          simp [bitsOf]
        refine .number _ ⟨by omega, ?_, le_rfl, fun h => absurd h (lt_irrefl _), ?_⟩ ?_
        · rw [Nat.pow_succ]
          omega
        · rw [hsame]
          omega
        · rw [hsame]
          exact heq
    · rw [if_neg hfirst]
      obtain ⟨steps, hsteps⟩ := Nat.exists_eq_succ_of_ne_zero hfirst
      have hexponent :
          (f.minExponent + (f.field bits - 1 : Nat) - f.minExponent).toNat = steps := by
        omega
      have hsame : f.bitsOf (f.fraction bits + 2 ^ f.fractionBits)
          (f.minExponent + (f.field bits - 1 : Nat)) =
            f.field bits * 2 ^ f.fractionBits + f.fraction bits := by
        rw [bitsOf, hexponent, hsteps, Nat.succ_mul]
        omega
      refine .number _ ⟨by omega, ?_, by omega, fun _ => Nat.le_add_left _ _, ?_⟩ ?_
      · rw [Nat.pow_succ]
        omega
      · rw [hsame]
        omega
      · rw [hsame]
        exact heq

end Format
end Sequencer.Decimal

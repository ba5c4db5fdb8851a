import Sequencer.Notation.Number
import Sequencer.Proofs.Decimal.Decoding
import Sequencer.Proofs.FloatOrder

/-!
# Numbers and their bits

A number of double precision is made of its bits: it can be had from them again. What is not a
number has the same bits everywhere.
-/

namespace Sequencer.Double

open Float.Model Float.Model.UnpackedFloat

section Packing

variable {spec : Format}

theorem toBitVec_ofBitVec (b : BitVec 1) : (Sign.ofBitVec b).toBitVec = b := by
  revert b
  decide

theorem packComponents_unpack (b : BitVec spec.numBits) :
    packComponents spec (.ofBitVec (unpackSign b)) (unpackExponent b) (unpackMantissa b) = b := by
  have hm := spec.hm
  have he := spec.he
  have hnum : spec.numBits = 1 + spec.exponentBits + spec.mantissaBitsWithoutImplicit := rfl
  apply BitVec.eq_of_getLsbD_eq
  intro i hi
  simp only [packComponents, toBitVec_ofBitVec, unpackSign, unpackExponent, unpackMantissa,
    BitVec.getLsbD_append, BitVec.getLsbD_cast, BitVec.getLsbD_extractLsb]
  split
  · simp
    omega
  · split
    · rw [Nat.add_sub_cancel' (by omega)]
      simp
      omega
    · have hlast : i - spec.mantissaBitsWithoutImplicit - spec.exponentBits = 0 := by omega
      have hplace : spec.mantissaBitsWithoutImplicit + spec.exponentBits = i := by omega
      simp [hlast, hplace]

theorem packComponents_eq {b : BitVec spec.numBits} {exponent : BitVec spec.exponentBits}
    {mantissa : BitVec spec.mantissaBitsWithoutImplicit} (hexponent : unpackExponent b = exponent)
    (hmantissa : unpackMantissa b = mantissa) :
    packComponents spec (.ofBitVec (unpackSign b)) exponent mantissa = b := by
  subst hexponent hmantissa
  exact packComponents_unpack b

theorem pack_subnormal {sign : Sign} {m : BitVec spec.mantissaBitsWithoutImplicit}
    (hpos : 0 < m.toNat) {e : Int}
    (he : e + spec.exponentBias + spec.mantissaBitsWithoutImplicit = 1)
    (hbits : 1 < spec.exponentBits) :
    UnpackedFloat.pack spec (.finite sign m.toNat e hpos) = packComponents spec sign 0#_ m := by
  have hroom : 2 ^ 2 ≤ 2 ^ spec.exponentBits := Nat.pow_le_pow_right (by decide) hbits
  have hlog : m.toNat.log2 + 1 ≠ spec.mantissaBits := by
    have hlt := (Nat.log2_lt (Nat.ne_of_gt hpos)).mpr m.isLt
    unfold Format.mantissaBits
    omega
  have hbiased : (e + spec.exponentBias + spec.mantissaBitsWithoutImplicit).toNat = 1 := by omega
  simp only [UnpackedFloat.pack, hbiased, if_neg (show ¬2 ^ spec.exponentBits ≤ 1 + 1 by omega),
    if_neg hlog, BitVec.ofNat_toNat, BitVec.setWidth_eq]

theorem pack_normal {sign : Sign} {exponent : BitVec spec.exponentBits}
    {m : BitVec spec.mantissaBitsWithoutImplicit} {e : Int} (hpos : 0 < (1#1 ++ m).toNat)
    (he : e + spec.exponentBias + spec.mantissaBitsWithoutImplicit = exponent.toNat)
    (hlast : exponent ≠ -1#_) :
    UnpackedFloat.pack spec (.finite sign (1#1 ++ m).toNat e hpos) =
      packComponents spec sign exponent m := by
  have hnat := Single.toNat_append_one m
  have hm := m.isLt
  have hlog : (1#1 ++ m).toNat.log2 + 1 = spec.mantissaBits := by
    have hfull : (1#1 ++ m).toNat.log2 = spec.mantissaBitsWithoutImplicit := by
      rw [Nat.log2_eq_iff (Nat.ne_of_gt hpos), hnat, Nat.pow_succ]
      omega
    rw [hfull, Format.mantissaBits, Nat.add_comm]
  have hbiased : (e + spec.exponentBias + spec.mantissaBitsWithoutImplicit).toNat =
      exponent.toNat := by omega
  have hroom : ¬2 ^ spec.exponentBits ≤ exponent.toNat + 1 := by
    intro hle
    apply hlast
    apply BitVec.eq_of_toNat_eq
    have hlt := exponent.isLt
    rw [BitVec.neg_one_eq_allOnes, BitVec.toNat_allOnes]
    omega
  have hmantissa : BitVec.ofNat spec.mantissaBitsWithoutImplicit (1#1 ++ m).toNat = m := by
    apply BitVec.eq_of_toNat_eq
    rw [BitVec.toNat_ofNat, hnat, Nat.add_mod_left, Nat.mod_eq_of_lt hm]
  simp only [UnpackedFloat.pack, hbiased, if_neg hroom, if_pos hlog, hmantissa,
    BitVec.ofNat_toNat, BitVec.setWidth_eq]

/-- Packing undoes unpacking, if the bits of what is not a number are the valid ones. -/
theorem pack_unpack {b : BitVec spec.numBits} (hb : spec.Valid b) (hbits : 1 < spec.exponentBits) :
    UnpackedFloat.pack spec (UnpackedFloat.unpack spec b) = b := by
  unfold UnpackedFloat.unpack
  simp only
  split
  case isTrue hexponent =>
    split
    case isTrue hmantissa => exact packComponents_eq hexponent hmantissa
    case isFalse hmantissa => exact (hb.eq_packedNaN hexponent hmantissa).symm
  case isFalse hlast =>
    split
    case isTrue hexponent =>
      split
      case isTrue hmantissa => exact packComponents_eq hexponent hmantissa
      case isFalse hmantissa =>
        have hzero : (unpackExponent b).toNat = 0 := by rw [hexponent]; simp
        rw [pack_subnormal _ (by omega) hbits]
        exact packComponents_eq hexponent rfl
    case isFalse hexponent =>
      rw [pack_normal _ (by omega) hlast]
      exact packComponents_unpack b

end Packing

theorem ofBits_toBits (x : Float) : Float.ofBits x.toBits = x := by
  obtain ⟨⟨bits, hvalid⟩⟩ := x
  have hpacked := pack_unpack hvalid (by decide)
  change Float.ofModel (.pack (UnpackedFloat.unpack Format.binary64 bits.toBitVec)) = _
  simp only [Float.Model.pack, hpacked]

theorem toNat_unpackMantissa (b : BitVec 64) :
    (@unpackMantissa .binary64 b).toNat = b.toNat % 2 ^ 52 := by
  simp [unpackMantissa, BitVec.extractLsb_toNat]

theorem toNat_unpackExponent (b : BitVec 64) :
    (@unpackExponent .binary64 b).toNat = b.toNat / 2 ^ 52 % 2 ^ 11 := by
  simp [unpackExponent, BitVec.extractLsb_toNat, Nat.shiftRight_eq_div_pow]

theorem toBits_of_notANumber (x : Float)
    (hfield : Decimal.Format.double.field x.toBits.toNat = 2 ^ 11 - 1)
    (hfraction : Decimal.Format.double.fraction x.toBits.toNat ≠ 0) :
    x.toBits.toNat = Notation.notANumberBits .double := by
  have hexponent : @unpackExponent .binary64 x.toBits.toBitVec = -1#_ := by
    apply BitVec.eq_of_toNat_eq
    rw [toNat_unpackExponent]
    exact hfield
  have hmantissa : @unpackMantissa .binary64 x.toBits.toBitVec ≠ 0#_ := by
    intro hzero
    refine hfraction ?_
    have hnat := congrArg BitVec.toNat hzero
    rw [toNat_unpackMantissa] at hnat
    exact hnat
  have hpacked := x.toModel.valid.eq_packedNaN hexponent hmantissa
  have hnat := congrArg BitVec.toNat hpacked
  exact hnat

end Sequencer.Double

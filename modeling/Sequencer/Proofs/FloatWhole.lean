import Sequencer.Proofs.FloatOrder

/-!
# Whole numbers of single precision

A whole number below `2 ^ 24` has no more bits than a mantissa has room for, so it is a number of
single precision, and rounding leaves it alone, however many zero bits stand behind its mantissa.
Sums and differences of such numbers are exact as long as they are such numbers, too.
-/

namespace Sequencer.Single

open Float.Model Float.Model.UnpackedFloat

theorem shiftRight_mul_two_pow (m s : Nat) :
    ExtendedMantissa.mk (m * 2 ^ s) false false >>> s = ExtendedMantissa.mk m false false := by
  change s.repeat ExtendedMantissa.shiftRightOne _ = _
  induction s generalizing m with
  | zero => simp [Nat.repeat]
  | succ s ih =>
    have hsplit : m * 2 ^ (s + 1) = m * 2 * 2 ^ s := by rw [Nat.pow_succ']; ring
    rw [Nat.repeat, hsplit, ih]
    simp [ExtendedMantissa.shiftRightOne]

theorem log2_mul_two_pow {m : Nat} (hpos : 0 < m) (s : Nat) : (m * 2 ^ s).log2 = m.log2 + s := by
  have hpos' : 0 < m * 2 ^ s := Nat.mul_pos hpos (Nat.two_pow_pos s)
  rw [Nat.log2_eq_iff (Nat.ne_of_gt hpos'), Nat.add_right_comm, Nat.pow_add, Nat.pow_add _ _ s]
  exact ⟨Nat.mul_le_mul_right _ (Nat.log2_self_le (Nat.ne_of_gt hpos)),
    Nat.mul_lt_mul_of_pos_right Nat.lt_log2_self (Nat.two_pow_pos s)⟩

theorem roundWithAccuracy_eq {m s : Nat} {e e' : Int} (hpos : 0 < m) (hm : IsFull m)
    (he : e + s = e') (he' : -149 ≤ e') :
    roundWithAccuracy Format.binary32 .positive (m * 2 ^ s) e .exact =
      .finite .positive m e' hpos := by
  have hlog : (m * 2 ^ s).log2 = 23 + s := by rw [log2_mul_two_pow hpos, hm.log2]
  have hrounded : (ExtendedMantissa.mk m false false).roundedMantissa = m := rfl
  have hlast := shiftToTargetExponent_eq (s := 0) (e := e') hm.log2 (by omega)
  have hsame := shiftRight_mul_two_pow m 0
  rw [Nat.pow_zero, Nat.mul_one] at hsame
  rw [roundWithAccuracy, shiftToTargetExponent_eq hlog (by omega), shiftRight_mul_two_pow, he]
  simp only [hrounded, hlast, hsame, Int.ofNat_zero, Int.add_zero, Nat.ne_of_gt hpos, ↓reduceDIte]

/-- The mantissa of a whole number, shifted so that it is full. -/
def wholeMantissa (n : Nat) : Nat := n * 2 ^ (23 - n.log2)

theorem isFull_wholeMantissa {n : Nat} (hpos : 0 < n) (hn : n < 2 ^ 24) :
    IsFull (wholeMantissa n) := by
  have hlog : n.log2 < 24 := (Nat.log2_lt (Nat.ne_of_gt hpos)).mpr hn
  have hsum : n.log2 + (23 - n.log2) = 23 := by omega
  have hfull : (wholeMantissa n).log2 = 23 := by
    rw [wholeMantissa, log2_mul_two_pow hpos, hsum]
  have hpos' : 0 < wholeMantissa n := Nat.mul_pos hpos (Nat.two_pow_pos _)
  exact (Nat.log2_eq_iff (Nat.ne_of_gt hpos')).mp hfull

def unpackedWhole (n : Nat) : UnpackedFloat :=
  if hpos : 0 < n then
    .finite .positive (wholeMantissa n) (n.log2 - 23) (Nat.mul_pos hpos (Nat.two_pow_pos _))
  else .zero .positive

theorem unpackedWhole_zero : unpackedWhole 0 = .zero .positive := rfl

/-- However many zero bits a mantissa is given, rounding finds the whole number. -/
theorem normalize_mul_two_pow {n : Nat} (hn : n < 2 ^ 24) (j : Nat) :
    UnpackedFloat.normalize Format.binary32 ((n * 2 ^ j : Nat) : Int) (-j) .positive =
      unpackedWhole n := by
  rcases Nat.eq_zero_or_pos n with rfl | hpos
  · rw [Nat.zero_mul]
    rfl
  have hlog : n.log2 < 24 := (Nat.log2_lt (Nat.ne_of_gt hpos)).mpr hn
  have hfull := isFull_wholeMantissa hpos hn
  have htarget : Format.binary32.targetExponent (totalExponent (n * 2 ^ j) (-j)) =
      n.log2 - 23 := by
    rw [targetExponent_eq] <;> simp only [totalExponent, log2_mul_two_pow hpos] <;> omega
  have hcompare : compare ((n * 2 ^ j : Nat) : Int) 0 = .gt :=
    Int.compare_eq_gt.mpr (by exact_mod_cast Nat.mul_pos hpos (Nat.two_pow_pos j))
  -- bits are appended to a short mantissa, and a long one loses its last bits, which are zeros
  have hbits : (n * 2 ^ j) <<< (-(j : Int) - (n.log2 - 23)).toNat =
      wholeMantissa n * 2 ^ (j - (23 - n.log2)) := by
    have hsum : j + (-(j : Int) - (n.log2 - 23)).toNat =
        23 - n.log2 + (j - (23 - n.log2)) := by omega
    rw [Nat.shiftLeft_eq, wholeMantissa, Nat.mul_assoc, Nat.mul_assoc, ← Nat.pow_add,
      ← Nat.pow_add, hsum]
  rw [UnpackedFloat.normalize, hcompare, unpackedWhole, dif_pos hpos]
  simp only [Int.toNat_natCast, UnpackedFloat.round, htarget, decreaseExponent, hbits]
  exact roundWithAccuracy_eq _ hfull (by omega) (by omega)

/-- The number of single precision that is nearest to a whole number. -/
def whole (n : Nat) : Float32 := .ofModel (.ofNat n)

theorem toModel_whole {n : Nat} (hn : n < 2 ^ 24) :
    (whole n).toModel = .pack (unpackedWhole n) := by
  have hscaled := normalize_mul_two_pow hn 0
  rw [Nat.pow_zero, Nat.mul_one] at hscaled
  exact congrArg Float32.Model.pack hscaled

theorem unpack_whole {n : Nat} (hn : n < 2 ^ 24) : (whole n).toModel.unpack = unpackedWhole n := by
  rw [toModel_whole hn, unpackedWhole]
  split
  case isTrue hpos =>
    have hlog : n.log2 < 24 := (Nat.log2_lt (Nat.ne_of_gt hpos)).mpr hn
    exact unpack_pack_of_le _ (isFull_wholeMantissa hpos hn) (by omega) (by omega)
  case isFalse => rfl

theorem wholeMantissa_shiftLeft (n : Nat) {j : Nat} (hj : 23 - n.log2 ≤ j) (hlog : n.log2 < 24) :
    wholeMantissa n <<< ((n.log2 : Int) - 23 - -j).toNat = n * 2 ^ j := by
  have hsum : 23 - n.log2 + ((n.log2 : Int) - 23 - -j).toNat = j := by omega
  rw [Nat.shiftLeft_eq, wholeMantissa, Nat.mul_assoc, ← Nat.pow_add, hsum]

section Exact

variable {a b : Nat}

theorem add_unpackedWhole (h : a + b < 2 ^ 24) :
    UnpackedFloat.add Format.binary32 (unpackedWhole a) (unpackedWhole b) =
      unpackedWhole (a + b) := by
  rcases Nat.eq_zero_or_pos a with rfl | ha
  · rw [Nat.zero_add, unpackedWhole_zero, unpackedWhole]
    split <;> rfl
  rcases Nat.eq_zero_or_pos b with rfl | hb
  · rw [Nat.add_zero, unpackedWhole_zero, unpackedWhole]
    split <;> rfl
  have hlogA : a.log2 < 24 := (Nat.log2_lt (Nat.ne_of_gt ha)).mpr (by omega)
  have hlogB : b.log2 < 24 := (Nat.log2_lt (Nat.ne_of_gt hb)).mpr (by omega)
  let j := max (23 - a.log2) (23 - b.log2)
  have hmin : min ((a.log2 : Int) - 23) (b.log2 - 23) = -j := by omega
  have hshiftA := wholeMantissa_shiftLeft a (j := j) (by omega) hlogA
  have hshiftB := wholeMantissa_shiftLeft b (j := j) (by omega) hlogB
  rw [← normalize_mul_two_pow h j]
  simp only [unpackedWhole, ha, hb, ↓reduceDIte, UnpackedFloat.add, decreaseExponent, hmin,
    hshiftA, hshiftB, Sign.apply, Nat.add_mul, Int.natCast_add]

theorem sub_unpackedWhole (hle : b ≤ a) (ha : a < 2 ^ 24) :
    UnpackedFloat.sub Format.binary32 (unpackedWhole a) (unpackedWhole b) =
      unpackedWhole (a - b) := by
  rcases Nat.eq_zero_or_pos b with rfl | hb
  · rw [Nat.sub_zero, unpackedWhole_zero, unpackedWhole]
    split <;> rfl
  have hpos : 0 < a := by omega
  have hlogA : a.log2 < 24 := (Nat.log2_lt (Nat.ne_of_gt hpos)).mpr ha
  have hlogB : b.log2 < 24 := (Nat.log2_lt (Nat.ne_of_gt hb)).mpr (by omega)
  let j := max (23 - a.log2) (23 - b.log2)
  have hmin : min ((a.log2 : Int) - 23) (b.log2 - 23) = -j := by omega
  have hshiftA := wholeMantissa_shiftLeft a (j := j) (by omega) hlogA
  have hshiftB := wholeMantissa_shiftLeft b (j := j) (by omega) hlogB
  have hle' : b * 2 ^ j ≤ a * 2 ^ j := Nat.mul_le_mul_right _ hle
  rw [← normalize_mul_two_pow (Nat.lt_of_le_of_lt (Nat.sub_le a b) ha) j]
  simp only [unpackedWhole, hpos, hb, ↓reduceDIte, UnpackedFloat.sub, decreaseExponent, hmin,
    hshiftA, hshiftB, Sign.apply, Nat.sub_mul, Int.ofNat_sub hle']

/-- Sums of whole numbers are exact while they have a mantissa of their own. -/
theorem whole_add (h : a + b < 2 ^ 24) : whole a + whole b = whole (a + b) := by
  change Float32.ofModel (.pack (.add _ (whole a).toModel.unpack (whole b).toModel.unpack)) = _
  rw [unpack_whole (by omega), unpack_whole (by omega), add_unpackedWhole h, ← toModel_whole h]

theorem whole_sub (hle : b ≤ a) (ha : a < 2 ^ 24) : whole a - whole b = whole (a - b) := by
  change Float32.ofModel (.pack (.sub _ (whole a).toModel.unpack (whole b).toModel.unpack)) = _
  rw [unpack_whole ha, unpack_whole (by omega), sub_unpackedWhole hle ha,
    ← toModel_whole (Nat.lt_of_le_of_lt (Nat.sub_le a b) ha)]

theorem whole_nonneg (ha : a < 2 ^ 24) : 0 ≤ whole a := by
  have hzero : (0 : Float32).toModel.unpack = .zero .positive := rfl
  rw [le_iff, unpack_whole ha, hzero, unpackedWhole]
  split <;> rfl

end Exact

/-- The value of an unpacked number, which is zero if it is infinite or not a number. -/
def unpackedValue : UnpackedFloat → ℚ
  | .finite sign m e _ => (sign.apply m : ℤ) * 2 ^ e
  | _ => 0

/-- The value of a number, without any rounding. Only finite numbers have one; what is given for
the others is zero. -/
def value (x : Float32) : ℚ := unpackedValue x.toModel.unpack

/-- Below `2 ^ 24`, a whole number is the value of a number of single precision. -/
theorem value_whole {n : Nat} (hn : n < 2 ^ 24) : value (whole n) = n := by
  rw [value, unpack_whole hn, unpackedWhole]
  split
  case isTrue hpos =>
    have hlog : n.log2 < 24 := (Nat.log2_lt (Nat.ne_of_gt hpos)).mpr hn
    have hexponent : (n.log2 : ℤ) - 23 = -((23 - n.log2 : Nat) : ℤ) := by omega
    simp [unpackedValue, wholeMantissa, Sign.apply, hexponent]
  case isFalse hzero =>
    obtain rfl : n = 0 := by omega
    rfl

theorem isFinite_whole {n : Nat} (hn : n < 2 ^ 24) : (whole n).isFinite = true := by
  change (whole n).toModel.unpack.isFinite = true
  rw [unpack_whole hn, unpackedWhole]
  split <;> rfl

end Sequencer.Single

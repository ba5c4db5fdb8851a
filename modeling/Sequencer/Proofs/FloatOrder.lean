import Mathlib

/-!
# Sums of numbers of single precision

Numbers of single precision are compared by exponent first and by mantissa then, and a sum is
rounded to the nearest number. A number that is not too small has a full mantissa, so a sum of
positive numbers one of which is at least as large as such a number is at least as large, too:
rounding does not take it below.
-/

namespace Sequencer.Single

open Float.Model Float.Model.UnpackedFloat

theorem mantissa_shiftRight (em : ExtendedMantissa) (n : Nat) :
    (em >>> n).mantissa = em.mantissa / 2 ^ n := by
  change (n.repeat ExtendedMantissa.shiftRightOne em).mantissa = em.mantissa / 2 ^ n
  induction n with
  | zero => simp [Nat.repeat]
  | succ n ih =>
    simp [Nat.repeat, ExtendedMantissa.shiftRightOne, ih, Nat.div_div_eq_div_mul, Nat.pow_succ]

theorem roundedMantissa_bounds (em : ExtendedMantissa) :
    em.mantissa ≤ em.roundedMantissa ∧ em.roundedMantissa ≤ em.mantissa + 1 := by
  obtain ⟨m, roundBit, stickyBit⟩ := em
  cases roundBit <;> cases stickyBit <;>
    simp only [ExtendedMantissa.roundedMantissa, ExtendedMantissa.accuracy,
      Accuracy.roundToNearestEven] <;> omega

/-- Whether a mantissa has all the bits that a normal number has. -/
def IsFull (m : Nat) : Prop := 2 ^ 23 ≤ m ∧ m < 2 ^ 24

theorem IsFull.log2 {m : Nat} (h : IsFull m) : m.log2 = 23 := by
  have hpos : m ≠ 0 := by
    have hm := h.1
    omega
  exact (Nat.log2_eq_iff hpos).mpr h

theorem targetExponent_eq {total : Int} (h : -125 ≤ total) :
    Format.binary32.targetExponent total = total - 24 := by
  change max (total - 24) (-149) = total - 24
  omega

theorem shiftToTargetExponent_eq {m s : Nat} {e : Int} (hm : m.log2 = 23 + s)
    (he : -149 ≤ e + s) :
    shiftToTargetExponent Format.binary32 m e .exact =
      (ExtendedMantissa.mk m false false >>> s, e + s) := by
  have htarget : Format.binary32.targetExponent (totalExponent m e) = e + s := by
    rw [targetExponent_eq] <;> simp only [totalExponent, hm] <;> omega
  have hshift : (e + s - e).toNat = s := by omega
  simp only [shiftToTargetExponent, htarget, shiftToExponent, hshift,
    ExtendedMantissa.ofMantissaAndAccuracy]

/-- Rounding may give a mantissa that is one bit too long; it loses its last bit. -/
theorem shiftToTargetExponent_rounded {r : Nat} {e : Int} (hlow : 2 ^ 23 ≤ r) (hhigh : r ≤ 2 ^ 24)
    (he : -149 ≤ e) :
    let carried := shiftToTargetExponent Format.binary32 r e .exact
    IsFull carried.1.mantissa ∧
      (carried.2 = e ∧ carried.1.mantissa = r ∨ carried.2 = e + 1) := by
  by_cases hfit : r < 2 ^ 24
  · have hfull : IsFull r := ⟨hlow, hfit⟩
    have hsame := shiftToTargetExponent_eq (s := 0) (e := e) hfull.log2 (by omega)
    intro carried
    have hm : carried.1.mantissa = r := by
      simp only [carried, hsame, mantissa_shiftRight, Nat.pow_zero, Nat.div_one]
    have he' : carried.2 = e := by
      simp only [carried, hsame, Int.ofNat_zero, Int.add_zero]
    exact ⟨hm ▸ hfull, .inl ⟨he', hm⟩⟩
  · obtain rfl : r = 2 ^ 24 := by omega
    have hnext := shiftToTargetExponent_eq (s := 1) (e := e) (Nat.log2_two_pow (n := 24)) (by omega)
    have hhalf : IsFull (2 ^ 23) := ⟨Nat.le_refl _, by decide⟩
    rw [hnext]
    exact ⟨hhalf, .inr rfl⟩

theorem isFull_div {m s : Nat} (hm : m.log2 = 23 + s) : IsFull (m / 2 ^ s) := by
  have hm0 : m ≠ 0 := by
    rintro rfl
    rw [Nat.log2_zero] at hm
    omega
  have hlow := Nat.log2_self_le hm0
  have hhigh := Nat.lt_log2_self (n := m)
  rw [hm] at hlow hhigh
  constructor
  · rw [Nat.le_div_iff_mul_le (Nat.two_pow_pos s), ← Nat.pow_add]
    exact hlow
  · rw [Nat.div_lt_iff_lt_mul (Nat.two_pow_pos s), ← Nat.pow_add, Nat.add_right_comm 23 1 s]
    exact hhigh

/-- What a mantissa of too many bits is rounded to: its leading bits at least. -/
theorem exists_round {m s : Nat} {e : Int} (hm : m.log2 = 23 + s) (he : -149 ≤ e + s) :
    ∃ (m' : Nat) (e' : Int) (hpos : 0 < m'),
      UnpackedFloat.round Format.binary32 .positive m e = .finite .positive m' e' hpos ∧
        IsFull m' ∧ (e' = e + s ∧ m / 2 ^ s ≤ m' ∨ e' = e + s + 1) := by
  obtain ⟨hfirst, hlast⟩ := isFull_div hm
  have htotal : totalExponent m e = e + s + 24 := by
    simp only [totalExponent, hm]
    omega
  -- nothing is appended to a mantissa that is long enough
  have hkeep : (e - (e + s + 24 - 24)).toNat = 0 := by omega
  have hround : UnpackedFloat.round Format.binary32 .positive m e =
      roundWithAccuracy Format.binary32 .positive m e .exact := by
    rw [UnpackedFloat.round, htotal, targetExponent_eq (by omega)]
    simp only [decreaseExponent, hkeep, Nat.shiftLeft_zero, Int.ofNat_zero, Int.sub_zero]
  obtain ⟨hlow, hhigh⟩ := roundedMantissa_bounds (ExtendedMantissa.mk m false false >>> s)
  rw [mantissa_shiftRight] at hlow hhigh
  have hcarried := shiftToTargetExponent_rounded (Nat.le_trans hfirst hlow)
    (Nat.le_trans hhigh hlast) he
  rw [hround, roundWithAccuracy, shiftToTargetExponent_eq hm he]
  generalize hc : shiftToTargetExponent Format.binary32
    (ExtendedMantissa.mk m false false >>> s).roundedMantissa (e + s) .exact = carried at hcarried
  obtain ⟨em, e'⟩ := carried
  obtain ⟨hfull, hplace⟩ := hcarried
  have hpos := Nat.lt_of_lt_of_le (Nat.two_pow_pos 23) hfull.1
  refine ⟨em.mantissa, e', hpos, ?_, hfull, ?_⟩
  · simp only [hc, dif_neg (Nat.ne_of_gt hpos)]
  · rcases hplace with ⟨he', hm'⟩ | he'
    · exact .inl ⟨he', Nat.le_trans hlow (Nat.le_of_eq hm'.symm)⟩
    · exact .inr he'

theorem toNat_append_one {width : Nat} (v : BitVec width) :
    (1#1 ++ v).toNat = 2 ^ width + v.toNat := by
  rw [BitVec.toNat_append, ← Nat.shiftLeft_add_eq_or_of_lt v.isLt, Nat.shiftLeft_eq]
  simp

theorem unpack_packedInfinity :
    unpack Format.binary32 (packedInfinity Format.binary32 .positive) = .infinity .positive := rfl

theorem exponentBias_eq : (Format.binary32.exponentBias : Int) = 127 := rfl

/-- A number with a full mantissa that is not too large is packed without loss. -/
theorem unpack_pack_of_le {m : Nat} {e : Int} (hpos : 0 < m) (hm : IsFull m) (he : -149 ≤ e)
    (he' : e ≤ 104) :
    UnpackedFloat.unpack Format.binary32
      (UnpackedFloat.pack Format.binary32 (.finite .positive m e hpos)) =
        .finite .positive m e hpos := by
  have hbits : m.log2 + 1 = Format.binary32.mantissaBits := by
    rw [hm.log2]
    rfl
  obtain ⟨biased, hbiased⟩ := Int.eq_ofNat_of_zero_le (show 0 ≤ e + 127 + 23 by omega)
  have hnat : (e + 127 + 23).toNat = biased := by omega
  have hsmall : ¬2 ^ 8 ≤ biased + 1 := by omega
  have hexponent : (BitVec.ofNat 8 biased).toNat = biased := by
    rw [BitVec.toNat_ofNat]
    omega
  have hmax : BitVec.ofNat 8 biased ≠ -1#8 := by
    intro h
    have hv : biased = 255 := by rw [← hexponent, h]; rfl
    omega
  have hmin : BitVec.ofNat 8 biased ≠ 0#8 := by
    intro h
    have hv : biased = 0 := by rw [← hexponent, h]; rfl
    omega
  have hmantissa : (1#1 ++ BitVec.ofNat 23 m).toNat = m := by
    rw [toNat_append_one, BitVec.toNat_ofNat]
    have hlow := hm.1
    have hhigh := hm.2
    omega
  have hback : (biased : Int) - (127 + 23) = e := by omega
  simp only [UnpackedFloat.pack, exponentBias_eq, Int.cast_ofNat_Int, hnat, if_neg hsmall, hbits,
    ↓reduceIte, UnpackedFloat.unpack, unpackMantissa_packComponents,
    unpackExponent_packComponents, unpackSign_packComponents, hmax, hmin, hmantissa, hexponent,
    hback]
  rfl

theorem unpack_pack {m : Nat} {e : Int} (hpos : 0 < m) (hm : IsFull m) (he : -149 ≤ e) :
    let packed := UnpackedFloat.pack Format.binary32 (.finite .positive m e hpos)
    unpack Format.binary32 packed = .finite .positive m e hpos ∨
      unpack Format.binary32 packed = .infinity .positive := by
  by_cases hlarge : e ≤ 104
  · exact .inl (unpack_pack_of_le hpos hm he hlarge)
  · right
    obtain ⟨biased, hbiased⟩ := Int.eq_ofNat_of_zero_le (show 0 ≤ e + 127 + 23 by omega)
    have hnat : (e + 127 + 23).toNat = biased := by omega
    have hinfinite : 2 ^ 8 ≤ biased + 1 := by omega
    simp only [UnpackedFloat.pack, exponentBias_eq, Int.cast_ofNat_Int, hnat, if_pos hinfinite]
    rfl

/-- Whether an unpacked number is positive, and its exponent and its mantissa at least as large as
given ones, the exponent compared first. -/
def AtLeast (m₀ : Nat) (e₀ : Int) : UnpackedFloat → Prop
  | .infinity .positive => True
  | .finite .positive m e _ => e₀ < e ∨ e₀ = e ∧ m₀ ≤ m
  | _ => False

theorem isLE_then_compare {m₀ m : Nat} {e₀ e : Int} :
    ((compare e₀ e).then (compare m₀ m)).isLE = true ↔ e₀ < e ∨ e₀ = e ∧ m₀ ≤ m := by
  rw [Ordering.isLE_then_iff_or]
  simp [Int.compare_eq_lt, Nat.isLE_compare]

theorem le_iff_atLeast {m₀ : Nat} {e₀ : Int} (hpos : 0 < m₀) (f : UnpackedFloat) :
    (UnpackedFloat.finite .positive m₀ e₀ hpos).le f = true ↔ AtLeast m₀ e₀ f := by
  match f with
  | .infinity .positive => exact ⟨fun _ => trivial, fun _ => rfl⟩
  | .finite .positive m e _ => exact isLE_then_compare
  | .infinity .negative => exact ⟨fun h => (nomatch h), fun h => (nomatch h)⟩
  | .finite .negative .. => exact ⟨fun h => (nomatch h), fun h => (nomatch h)⟩
  | .notANumber => exact ⟨fun h => (nomatch h), fun h => (nomatch h)⟩
  | .zero _ => exact ⟨fun h => (nomatch h), fun h => (nomatch h)⟩

theorem AtLeast.not_lt {m₀ : Nat} {e₀ : Int} {f : UnpackedFloat} (h : AtLeast m₀ e₀ f)
    (hpos : 0 < m₀) : ¬ f.lt (.finite .positive m₀ e₀ hpos) = true := by
  match f with
  | .infinity .positive => exact fun hlt => nomatch hlt
  | .finite .positive m e _ =>
    intro hlt
    have hthen : (compare e e₀).then (compare m m₀) = .lt := by
      simpa [UnpackedFloat.lt, UnpackedFloat.compare] using hlt
    rw [Ordering.then_eq_lt] at hthen
    rw [Int.compare_eq_lt, Int.compare_eq_eq, Nat.compare_eq_lt] at hthen
    rcases h with hlt | ⟨heq, hle⟩ <;> omega

theorem unpack_mantissa {b : BitVec Format.binary32.numBits} {sign : Sign} {m : Nat} {e : Int}
    {hpos : 0 < m} (h : UnpackedFloat.unpack Format.binary32 b = .finite sign m e hpos) :
    e = -149 ∨ IsFull m := by
  unfold UnpackedFloat.unpack at h
  simp only at h
  split at h
  · split at h <;> cases h
  · split at h
    · split at h
      · cases h
      · rename_i hz _
        rw [hz] at h
        injection h with _ _ he
        left
        rw [← he]
        rfl
    · right
      injection h with _ hm
      rw [← hm, toNat_append_one]
      have hv := (unpackMantissa b).isLt
      change (unpackMantissa b).toNat < 2 ^ 23 at hv
      exact ⟨Nat.le_add_right _ _, Nat.add_lt_add_left hv (2 ^ 23)⟩

/-- What rounding leaves of a number is at least as large as a number below it. -/
theorem atLeast_round {m₀ m₁ k M : Nat} {e₀ e : Int} (hfull : 2 ^ 23 ≤ m₁) (he₀ : -149 ≤ e₀)
    (hle : e₀ ≤ e + k) (hm₁ : e₀ = e + k → m₀ ≤ m₁) (hM : m₁ * 2 ^ k ≤ M) :
    AtLeast m₀ e₀ (UnpackedFloat.unpack Format.binary32
      (UnpackedFloat.pack Format.binary32 (.round Format.binary32 .positive M e))) := by
  have hlong : 2 ^ (23 + k) ≤ M := by
    rw [Nat.pow_add]
    exact Nat.le_trans (Nat.mul_le_mul_right _ hfull) hM
  have hM0 : M ≠ 0 := by
    have hpos := Nat.two_pow_pos (23 + k)
    omega
  obtain ⟨s, hs⟩ := Nat.exists_eq_add_of_le ((Nat.le_log2 hM0).mpr hlong)
  have hlog : M.log2 = 23 + (k + s) := by omega
  obtain ⟨m, e', hpos, hround, hm, hplace⟩ := exists_round (e := e) hlog (by omega)
  rw [hround]
  rcases unpack_pack (e := e') hpos hm (by omega) with hkept | hlarge
  · rw [hkept]
    rcases hplace with ⟨rfl, hlead⟩ | rfl
    · by_cases hs0 : s = 0
      · subst hs0
        have hlead' : m₁ ≤ m := by
          refine Nat.le_trans ?_ hlead
          rwa [Nat.le_div_iff_mul_le (Nat.two_pow_pos _)]
        by_cases heq : e₀ = e + k
        · exact .inr ⟨heq, Nat.le_trans (hm₁ heq) hlead'⟩
        · exact .inl (by omega)
      · exact .inl (by omega)
    · exact .inl (by omega)
  · rw [hlarge]
    trivial

def IsPositive : UnpackedFloat → Prop
  | .infinity .positive | .finite .positive .. => True
  | _ => False

theorem AtLeast.isPositive {m₀ : Nat} {e₀ : Int} {f : UnpackedFloat} (h : AtLeast m₀ e₀ f) :
    IsPositive f := by
  match f with
  | .infinity .positive | .finite .positive .. => exact trivial

theorem AtLeast.add {m₀ : Nat} {e₀ : Int} {x y : UnpackedFloat} (hm₀ : 2 ^ 23 ≤ m₀)
    (he₀ : -149 ≤ e₀) (hx : AtLeast m₀ e₀ x)
    (hfull : ∀ sign m e hpos, x = .finite sign m e hpos → e = -149 ∨ IsFull m)
    (hy : IsPositive y) :
    AtLeast m₀ e₀ (UnpackedFloat.unpack Format.binary32
      (UnpackedFloat.pack Format.binary32 (.add Format.binary32 x y))) := by
  match x, y with
  | .infinity .positive, .infinity .positive => exact trivial
  | .infinity .positive, .finite .positive m₂ e₂ _ =>
    change AtLeast m₀ e₀ (UnpackedFloat.unpack _ (packedInfinity Format.binary32 .positive))
    rw [unpack_packedInfinity]
    trivial
  | .finite .positive m₁ e₁ _, .infinity .positive =>
    change AtLeast m₀ e₀ (UnpackedFloat.unpack _ (packedInfinity Format.binary32 .positive))
    rw [unpack_packedInfinity]
    trivial
  | .finite .positive m₁ e₁ hpos₁, .finite .positive m₂ e₂ hpos₂ =>
    have hm₁ : 2 ^ 23 ≤ m₁ := by
      rcases hx with hlt | ⟨_, hle⟩
      · rcases hfull _ _ _ _ rfl with rfl | hf
        · omega
        · exact hf.1
      · exact Nat.le_trans hm₀ hle
    let e := min e₁ e₂
    let k := (e₁ - e).toNat
    let M := m₁ <<< k + m₂ <<< (e₂ - e).toNat
    have hM : m₁ * 2 ^ k ≤ M := by
      rw [← Nat.shiftLeft_eq]
      exact Nat.le_add_right _ _
    have hpos : 0 < M := Nat.lt_of_lt_of_le (Nat.mul_pos hpos₁ (Nat.two_pow_pos k)) hM
    have hcompare : compare (M : Int) 0 = .gt := Int.compare_eq_gt.mpr (by omega)
    have hadd : UnpackedFloat.add Format.binary32 (.finite .positive m₁ e₁ hpos₁)
        (.finite .positive m₂ e₂ hpos₂) = .round Format.binary32 .positive M e := by
      change UnpackedFloat.normalize Format.binary32 (M : Int) e .positive = _
      rw [UnpackedFloat.normalize, hcompare]
      rfl
    have hk : e₁ = e + k := by omega
    rw [hadd]
    apply atLeast_round hm₁ he₀ _ _ hM
    · rcases hx with hlt | ⟨heq, _⟩ <;> omega
    · intro heq
      rcases hx with hlt | ⟨_, hle⟩
      · omega
      · exact hle

theorem le_iff {a x : Float32} : a ≤ x ↔ a.toModel.unpack.le x.toModel.unpack = true :=
  decide_eq_true_iff

theorem lt_iff {a x : Float32} : a < x ↔ a.toModel.unpack.lt x.toModel.unpack = true :=
  decide_eq_true_iff

/-- Whether a number is positive and has a full mantissa. -/
def IsNormal (a : Float32) : Prop :=
  ∃ (m : Nat) (e : Int) (hpos : 0 < m),
    a.toModel.unpack = .finite .positive m e hpos ∧ 2 ^ 23 ≤ m ∧ -149 ≤ e

theorem not_lt_of_le {a x : Float32} (ha : IsNormal a) (h : a ≤ x) : ¬ x < a := by
  obtain ⟨m, e, hpos, hu, -, -⟩ := ha
  rw [le_iff, hu, le_iff_atLeast] at h
  rw [lt_iff, hu]
  exact h.not_lt hpos

/-- A sum of numbers that are at least as large as normal ones is at least as large as both. -/
theorem le_add {a b x y : Float32} (ha : IsNormal a) (hb : IsNormal b) (hx : a ≤ x) (hy : b ≤ y) :
    a ≤ x + y := by
  obtain ⟨m, e, hpos, hu, hm, he⟩ := ha
  obtain ⟨m', e', hpos', hu', -, -⟩ := hb
  rw [le_iff, hu, le_iff_atLeast] at hx ⊢
  rw [le_iff, hu', le_iff_atLeast] at hy
  exact hx.add hm he (fun _ _ _ _ => unpack_mantissa) hy.isPositive

end Sequencer.Single

import Sequencer.Proofs.Decimal.Rounding

/-!
# The grids of decimals

The points of a grid are the multiples of a power of ten. The search for the shortest decimal goes
from coarse grids to fine ones. It ends with a point that rounds to the number, since the last of
the grids has one in every interval as long as a quarter of the last place of the number; and it
does not go on to fractions if the number itself is whole.
-/

namespace Sequencer.Decimal

def Digits.value (d : Digits) : ℚ := d.coefficient * 10 ^ d.exponent

namespace Interval

variable {i : Interval} {place : Int} {k : Nat}

theorem contains_grid_iff (hi : 0 < i.den) :
    i.contains (k * Nat.pow 10 place.toNat) (Nat.pow 10 (-place).toNat) = true ↔
      i.Holds (k * 10 ^ place) := by
  have hpow := Format.zpow_eq_div 10 (by decide) place
  push_cast at hpow
  have hvalue : ((k * 10 ^ place.toNat : Nat) : ℚ) / (10 ^ (-place).toNat : Nat) =
      k * 10 ^ place := by
    push_cast
    rw [hpow, mul_div_assoc]
  simp only [Nat.pow_eq]
  rw [contains_iff hi (Nat.pow_pos (by decide)), hvalue]

/-- The last point of a grid that is not above the center. -/
def floorAt (i : Interval) (place : Int) : Nat :=
  i.center * i.num * Nat.pow 10 (-place).toNat / (i.den * Nat.pow 10 place.toNat)

theorem floorAt_bounds (hi : 0 < i.den) (place : Int) :
    (i.floorAt place : ℚ) * 10 ^ place ≤ i.center * i.unit ∧
      i.center * i.unit < (i.floorAt place + 1) * 10 ^ place := by
  have hpow := Format.zpow_eq_div 10 (by decide) place
  push_cast at hpow
  have hi' : (0 : ℚ) < i.den := by exact_mod_cast hi
  have hden : 0 < i.den * Nat.pow 10 place.toNat := Nat.mul_pos hi (Nat.pow_pos (by decide))
  have hfloor := Nat.div_mul_le_self (i.center * i.num * Nat.pow 10 (-place).toNat)
    (i.den * Nat.pow 10 place.toNat)
  have hnext := Nat.lt_div_mul_add (a := i.center * i.num * Nat.pow 10 (-place).toNat) hden
  change i.floorAt place * (i.den * 10 ^ place.toNat) ≤ i.center * i.num * 10 ^ (-place).toNat
    at hfloor
  change i.center * i.num * 10 ^ (-place).toNat < i.floorAt place * (i.den * 10 ^ place.toNat) +
    i.den * 10 ^ place.toNat at hnext
  rw [hpow, unit, ← mul_div_assoc, ← mul_div_assoc, ← mul_div_assoc]
  constructor
  · rw [div_le_div_iff₀ (by positivity) hi']
    have hcast : ((i.floorAt place * (i.den * 10 ^ place.toNat) : Nat) : ℚ) ≤
        (i.center * i.num * 10 ^ (-place).toNat : Nat) := by exact_mod_cast hfloor
    push_cast at hcast
    linarith
  · rw [div_lt_div_iff₀ hi' (by positivity)]
    have hcast : ((i.center * i.num * 10 ^ (-place).toNat : Nat) : ℚ) <
        (i.floorAt place * (i.den * 10 ^ place.toNat) + i.den * 10 ^ place.toNat : Nat) := by
      exact_mod_cast hnext
    push_cast at hcast
    linarith

theorem holds_of_pointAt (hi : 0 < i.den) (h : i.pointAt place = some k) :
    i.Holds (k * 10 ^ place) := by
  rw [← contains_grid_iff hi]
  unfold pointAt at h
  simp only at h
  split at h
  · cases h
  · rename_i hbelow _
    obtain rfl := Option.some.inj h
    exact hbelow
  · rename_i habove
    obtain rfl := Option.some.inj h
    exact habove
  · rename_i hbelow habove
    obtain rfl := Option.some.inj h
    split
    · exact hbelow
    · exact habove

theorem pointAt_ne_none (hi : 0 < i.den) (h : i.Holds (i.floorAt place * 10 ^ place)) :
    i.pointAt place ≠ none := by
  have hbelow : i.contains (i.floorAt place * Nat.pow 10 place.toNat)
      (Nat.pow 10 (-place).toNat) = true := (contains_grid_iff hi).mpr h
  unfold floorAt at hbelow
  unfold pointAt
  simp only [hbelow]
  split <;> simp_all

/-- The search ends at a grid with a point in the interval, if there is such a grid among those that
it may look at, and not after that grid. -/
theorem coarsest_spec (grids : Nat) {first : Int} (h : i.pointAt place ≠ none)
    (hfirst : place ≤ first) (hlast : first < place + grids) :
    let d := i.coarsest grids first
    i.pointAt d.exponent = some d.coefficient ∧ place ≤ d.exponent := by
  induction grids generalizing first with
  | zero => omega
  | succ grids ih =>
    rw [coarsest]
    cases hpoint : i.pointAt first with
    | some k => exact ⟨hpoint, hfirst⟩
    | none =>
      have hne : place ≠ first := fun heq => h (heq ▸ hpoint)
      exact ih (by omega) (by omega)

section Around

variable {f : Format} {c : Nat} {e : Int}

theorem center_around (f : Format) (c : Nat) (e : Int) :
    (around f c e).center * (around f c e).unit = c * 2 ^ e := by
  rw [mul_unit_around]
  simp only [around]
  push_cast
  ring

theorem holds_of_lt {v : ℚ} (hc : 0 < c) (hlow : ((c : ℚ) - 1 / 4) * 2 ^ e < v)
    (hhigh : v ≤ c * 2 ^ e) : (around f c e).Holds v := by
  have hpow : (0 : ℚ) < 2 ^ e := by positivity
  have hends : ((around f c e).low : ℚ) * (around f c e).unit < v ∧
      v < (around f c e).high * (around f c e).unit := by
    rw [mul_unit_around, mul_unit_around, high_around]
    constructor
    · refine lt_of_le_of_lt ?_ hlow
      gcongr
      have hle : (around f c e).low + 1 ≤ 4 * c := by
        simp only [around]
        split <;> omega
      have hle' : ((around f c e).low : ℚ) + 1 ≤ 4 * c := by exact_mod_cast hle
      linarith
    · refine lt_of_le_of_lt hhigh ?_
      gcongr
      linarith
  unfold Holds
  split
  · exact ⟨hends.1.le, hends.2.le⟩
  · exact hends

theorem holds_center (hc : 0 < c) : (around f c e).Holds (c * 2 ^ e) := by
  refine holds_of_lt hc ?_ le_rfl
  have hpow : (0 : ℚ) < 2 ^ e := by positivity
  gcongr
  linarith

/-- A grid that is finer than a quarter of the last place has a point in the interval. -/
theorem pointAt_ne_none_of_le (hc : 0 < c) (hfine : (10 : ℚ) ^ place ≤ 2 ^ (e - 2)) :
    (around f c e).pointAt place ≠ none := by
  obtain ⟨hle, hlt⟩ := floorAt_bounds (den_around_pos f c e) place
  rw [center_around] at hle hlt
  refine pointAt_ne_none (den_around_pos f c e) (holds_of_lt hc ?_ hle)
  rw [zpow_sub₀ (by norm_num)] at hfine
  norm_num at hfine
  linarith

theorem pointAt_zero_ne_none (hc : 0 < c) (hwhole : c % 2 ^ (-e).toNat = 0) :
    (around f c e).pointAt 0 ≠ none := by
  obtain ⟨n, hn⟩ := Nat.dvd_of_mod_eq_zero hwhole
  have hvalue : (c : ℚ) * 2 ^ e = (n * 2 ^ e.toNat : Nat) := by
    have hpow := Format.zpow_eq_div 2 (by decide) e
    push_cast at hpow
    rw [hpow, hn]
    push_cast
    field_simp
  obtain ⟨hle, hlt⟩ := floorAt_bounds (den_around_pos f c e) 0
  rw [center_around, hvalue, zpow_zero, mul_one] at hle hlt
  have hfloor : (around f c e).floorAt 0 = n * 2 ^ e.toNat := by
    have hle' : (around f c e).floorAt 0 ≤ n * 2 ^ e.toNat := by exact_mod_cast hle
    have hlt' : n * 2 ^ e.toNat < (around f c e).floorAt 0 + 1 := by exact_mod_cast hlt
    omega
  refine pointAt_ne_none (den_around_pos f c e) ?_
  rw [hfloor, ← hvalue, zpow_zero, mul_one]
  exact holds_center hc

end Around

end Interval

/-- A power of ten is compared with a power of two by way of two powers that are nearly equal. -/
theorem ten_zpow_le_two_zpow {place e : Int} (hup : 10 * place ≤ 3 * e)
    (hdown : 93 * place ≤ 28 * e) : (10 : ℚ) ^ place ≤ 2 ^ e := by
  rcases Int.le_total 0 place with hplace | hplace
  · obtain ⟨n, rfl⟩ := Int.eq_ofNat_of_zero_le hplace
    rw [← pow_le_pow_iff_left₀ (by positivity) (by positivity) (three_ne_zero)]
    calc ((10 : ℚ) ^ (n : Int)) ^ 3 = (10 ^ 3) ^ n := by rw [zpow_natCast, ← pow_mul', ← pow_mul]
      _ ≤ (2 ^ 10) ^ n := by gcongr; norm_num
      _ = 2 ^ (10 * (n : Int)) := by rw [← pow_mul, ← zpow_natCast]; push_cast; rfl
      _ ≤ 2 ^ (3 * e) := zpow_le_zpow_right₀ (by norm_num) hup
      _ = (2 ^ e) ^ 3 := by rw [mul_comm, zpow_mul]; rfl
  · obtain ⟨n, hn⟩ := Int.eq_ofNat_of_zero_le (show 0 ≤ -place by omega)
    obtain rfl : place = -n := by omega
    rw [← pow_le_pow_iff_left₀ (by positivity) (by positivity) (show 28 ≠ 0 by decide)]
    calc ((10 : ℚ) ^ (-(n : Int))) ^ 28 = ((10 ^ 28) ^ n)⁻¹ := by
          rw [zpow_neg, zpow_natCast, inv_pow, ← pow_mul', ← pow_mul]
      _ ≤ ((2 ^ 93) ^ n)⁻¹ := by gcongr; norm_num
      _ = 2 ^ (93 * -(n : Int)) := by
          rw [← pow_mul, ← zpow_natCast, ← zpow_neg, mul_neg]
          push_cast
          rfl
      _ ≤ 2 ^ (28 * e) := zpow_le_zpow_right₀ (by norm_num) hdown
      _ = (2 ^ e) ^ 28 := by rw [mul_comm, zpow_mul]; rfl

/-- The last grid of the search is fine enough for every number of at most 64 bits. -/
theorem pow_place_le {e : Int} (he : -1074 ≤ e) (he' : e ≤ 971) :
    (10 : ℚ) ^ ((53 + e) * 30103 / 100000 - 30) ≤ 2 ^ (e - 2) :=
  ten_zpow_le_two_zpow (by omega) (by omega)

section Shortest

variable {f : Format} {c : Nat} {e : Int}

theorem firstPlace_le (hlt : c < 2 ^ 53) :
    firstPlace c e - 31 ≤ (53 + e) * 30103 / 100000 - 30 := by
  have hlog : c.log2 < 53 := by
    rcases Nat.eq_zero_or_pos c with rfl | hc
    · decide
    · exact (Nat.log2_lt (Nat.ne_of_gt hc)).mpr hlt
  unfold firstPlace
  omega

theorem firstPlace_nonneg (hc : 0 < c) (hwhole : c % 2 ^ (-e).toNat = 0) : 0 ≤ firstPlace c e := by
  have hle : (-e).toNat ≤ c.log2 := by
    rw [Nat.le_log2 (Nat.ne_of_gt hc)]
    exact Nat.le_of_dvd hc (Nat.dvd_of_mod_eq_zero hwhole)
  unfold firstPlace
  omega

/-- The shortest decimal lies in the interval around the number, and is whole if the number is. -/
theorem shortest_spec (hc : 0 < c) (hlt : c < 2 ^ 53) (he : -1074 ≤ e) (he' : e ≤ 971) :
    let d := shortest f c e
    (Interval.around f c e).Holds d.value ∧ (c % 2 ^ (-e).toNat = 0 → 0 ≤ d.exponent) := by
  have hne : (c == 0) = false := by simpa using Nat.ne_of_gt hc
  have hfine : (10 : ℚ) ^ (firstPlace c e - 31) ≤ 2 ^ (e - 2) := by
    have hle := zpow_le_zpow_right₀ (a := (10 : ℚ)) (by norm_num) (firstPlace_le (e := e) hlt)
    exact hle.trans (pow_place_le he he')
  have hpoint := Interval.pointAt_ne_none_of_le (f := f) hc hfine
  obtain ⟨hfound, hle⟩ := Interval.coarsest_spec maxGrids hpoint
    (Int.sub_le_self _ (by decide)) (by simp only [maxGrids]; omega)
  simp only [shortest, hne, Bool.false_eq_true, if_false]
  refine ⟨Interval.holds_of_pointAt (Interval.den_around_pos f c e) hfound, fun hwhole => ?_⟩
  by_cases hfar : 31 < firstPlace c e
  · omega
  · have hzero := Interval.pointAt_zero_ne_none (f := f) hc hwhole
    exact (Interval.coarsest_spec maxGrids hzero (firstPlace_nonneg hc hwhole)
      (by simp only [maxGrids]; omega)).2

end Shortest

end Sequencer.Decimal

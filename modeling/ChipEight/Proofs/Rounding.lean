import ChipEight.Numeric.Number
import Mathlib.Algebra.Order.Field.Power
import Mathlib.Data.Rat.Floor
import Mathlib.Tactic.FieldSimp
import Mathlib.Tactic.Linarith
import Mathlib.Tactic.NormNum
import Mathlib.Tactic.Positivity
import Mathlib.Tactic.Ring

/-!
# Rounding

How far rounding moves a number, and what is still in range afterwards. A product that
is in range can be rounded to the nearest integer without leaving it.
-/

namespace ChipEight
namespace Binary64

theorem powerOfTwo_eq_zpow (e : Int) : powerOfTwo e = (2 : ℚ) ^ e := by
  unfold powerOfTwo
  split_ifs with h
  · obtain ⟨n, rfl⟩ := Int.eq_ofNat_of_zero_le h
    simp [Rat.mkRat_eq_div]
  · obtain ⟨n, hn⟩ := Int.eq_ofNat_of_zero_le (by omega : 0 ≤ -e)
    have he : e = -(n : Int) := by omega
    subst he
    simp [Rat.mkRat_eq_div]

theorem magnitude_eq_abs (x : ℚ) : magnitude x = |x| := by
  unfold magnitude
  split_ifs with h
  · exact (abs_of_neg h).symm
  · exact (abs_of_nonneg (not_lt.mp h)).symm

/-- The two bit lengths bound a rational from both sides. -/
theorem abs_between (x : ℚ) (hx : x ≠ 0) :
    (2 : ℚ) ^ ((x.num.natAbs.log2 : Int) - x.den.log2 - 1) ≤ |x| ∧
      |x| < (2 : ℚ) ^ ((x.num.natAbs.log2 : Int) - x.den.log2 + 1) := by
  have hnum : x.num.natAbs ≠ 0 := Int.natAbs_ne_zero.mpr (Rat.num_ne_zero.mpr hx)
  have habs : |x| = (x.num.natAbs : ℚ) / x.den := by
    conv_lhs => rw [← Rat.num_div_den x]
    rw [abs_div, Nat.abs_cast, Nat.cast_natAbs, Int.cast_abs]
  have hnlow : ((2 : ℚ) ^ x.num.natAbs.log2) ≤ x.num.natAbs := by
    exact_mod_cast Nat.log2_self_le hnum
  have hnhigh : (x.num.natAbs : ℚ) < 2 ^ (x.num.natAbs.log2 + 1) := by
    exact_mod_cast Nat.lt_log2_self
  have hdlow : ((2 : ℚ) ^ x.den.log2) ≤ x.den := by
    exact_mod_cast Nat.log2_self_le x.den_nz
  have hdhigh : (x.den : ℚ) < 2 ^ (x.den.log2 + 1) := by
    exact_mod_cast Nat.lt_log2_self
  have hdpos : (0 : ℚ) < x.den := by exact_mod_cast x.den_pos
  rw [habs]
  constructor
  · have hsplit : (2 : ℚ) ^ ((x.num.natAbs.log2 : Int) - x.den.log2 - 1) =
        2 ^ x.num.natAbs.log2 / 2 ^ (x.den.log2 + 1) := by
      rw [sub_sub, zpow_sub₀ two_ne_zero]
      norm_cast
    rw [hsplit]
    exact div_le_div₀ (by positivity) hnlow hdpos hdhigh.le
  · have hsplit : (2 : ℚ) ^ ((x.num.natAbs.log2 : Int) - x.den.log2 + 1) =
        2 ^ (x.num.natAbs.log2 + 1) / 2 ^ x.den.log2 := by
      rw [sub_add_eq_add_sub, zpow_sub₀ two_ne_zero]
      norm_cast
    rw [hsplit]
    exact div_lt_div₀ hnhigh hdlow (by positivity) (by positivity)

theorem binade_le (x : ℚ) (hx : x ≠ 0) : (2 : ℚ) ^ binade x ≤ |x| := by
  simp only [binade, powerOfTwo_eq_zpow, magnitude_eq_abs]
  split_ifs with h
  · exact (abs_between x hx).1
  · exact not_lt.mp h

theorem lt_binade (x : ℚ) (hx : x ≠ 0) : |x| < (2 : ℚ) ^ (binade x + 1) := by
  simp only [binade, powerOfTwo_eq_zpow, magnitude_eq_abs]
  split_ifs with h
  · rwa [sub_add_cancel]
  · exact (abs_between x hx).2

theorem mkRat_half : mkRat 1 2 = (1 / 2 : ℚ) := by
  norm_num [Rat.mkRat_eq_div]

theorem abs_roundEven_sub_le (x : ℚ) : |(roundEven x : ℚ) - x| ≤ 1 / 2 := by
  have hlow : (x.floor : ℚ) ≤ x := Int.floor_le x
  have hhigh : x < x.floor + 1 := Int.lt_floor_add_one x
  unfold roundEven
  simp only [mkRat_half]
  rw [abs_le]
  split_ifs with hbelow habove heven
  · constructor <;> linarith
  · push_cast
    constructor <;> linarith
  · constructor <;> linarith
  · push_cast
    constructor <;> linarith

def unitExponent (x : ℚ) : Int := max (binade x - 52) (-1074)

/-- A rational rounded to a multiple of the spacing around it. -/
def onGrid (x : ℚ) : ℚ := (roundEven (x / 2 ^ unitExponent x) : ℚ) * 2 ^ unitExponent x

theorem nearest_eq {x : ℚ} (hx : x ≠ 0) :
    nearest x = if (2 : ℚ) ^ (1024 : Int) ≤ |onGrid x| then infinite (x < 0)
      else if onGrid x = 0 ∧ x < 0 then negativeZero else finite (onGrid x) := by
  simp only [nearest, if_neg hx, spacing, overflowBound, powerOfTwo_eq_zpow, magnitude_eq_abs,
    onGrid, unitExponent]
  rfl

theorem abs_onGrid_le (x : ℚ) : |onGrid x| ≤ |x| + 2 ^ unitExponent x / 2 := by
  have hpos : (0 : ℚ) < 2 ^ unitExponent x := by positivity
  have hround := abs_roundEven_sub_le (x / 2 ^ unitExponent x)
  have hdistance : |onGrid x - x| ≤ 2 ^ unitExponent x / 2 := by
    have hscale : onGrid x - x =
        ((roundEven (x / 2 ^ unitExponent x) : ℚ) - x / 2 ^ unitExponent x) *
          2 ^ unitExponent x := by
      unfold onGrid
      field_simp
    rw [hscale, abs_mul, abs_of_pos hpos]
    calc |(roundEven (x / 2 ^ unitExponent x) : ℚ) - x / 2 ^ unitExponent x| *
          2 ^ unitExponent x
        ≤ 1 / 2 * 2 ^ unitExponent x := mul_le_mul_of_nonneg_right hround hpos.le
      _ = 2 ^ unitExponent x / 2 := by ring
  have htriangle := abs_sub_abs_le_abs_sub (onGrid x) x
  linarith

/-- Where the spacing is not that of the largest numbers, rounding stays far below the
bound of the range. -/
theorem abs_onGrid_of_unitExponent_le {x : ℚ} (hx : x ≠ 0) (h : unitExponent x ≤ 970) :
    |onGrid x| ≤ 2 ^ (1023 : Int) + 2 ^ (969 : Int) := by
  have hbinade : binade x + 1 ≤ 1023 := by
    unfold unitExponent at h
    omega
  have hsize : |x| ≤ 2 ^ (1023 : Int) :=
    (lt_binade x hx).le.trans (zpow_le_zpow_right₀ one_le_two hbinade)
  have hunit : (2 : ℚ) ^ unitExponent x / 2 ≤ 2 ^ (969 : Int) := by
    rw [div_eq_mul_inv, ← zpow_sub_one₀ two_ne_zero]
    exact zpow_le_zpow_right₀ one_le_two (by omega)
  have hgrid := abs_onGrid_le x
  linarith

theorem top_powers :
    (2 : ℚ) ^ (970 : Int) = 2 * 2 ^ (969 : Int) ∧ (2 : ℚ) ^ (971 : Int) = 4 * 2 ^ (969 : Int) ∧
      (2 : ℚ) ^ (1023 : Int) = 2 ^ 54 * 2 ^ (969 : Int) ∧
      (2 : ℚ) ^ (1024 : Int) = 2 ^ 55 * 2 ^ (969 : Int) := by
  have hadd : ∀ n : Nat, (2 : ℚ) ^ ((n : Int) + 969) = 2 ^ n * 2 ^ (969 : Int) := by
    intro n
    rw [zpow_add₀ two_ne_zero, zpow_natCast]
  refine ⟨?_, ?_, ?_, ?_⟩
  · simpa using hadd 1
  · have hfour := hadd 2
    norm_num at hfour ⊢
    exact hfour
  · exact hadd 54
  · exact hadd 55

def largest : ℚ := 2 ^ (1024 : Int) - 2 ^ (971 : Int)

/-- Half a spacing beyond the largest number, rounding still comes back to it. -/
theorem abs_onGrid_lt {x : ℚ} (hx : x ≠ 0) (h : |x| < 2 ^ (1024 : Int) - 2 ^ (970 : Int)) :
    |onGrid x| < 2 ^ (1024 : Int) := by
  have hunder : (2 : ℚ) ^ binade x < 2 ^ (1024 : Int) := by
    have hpos : (0 : ℚ) < 2 ^ (970 : Int) := by positivity
    exact (binade_le x hx).trans_lt (h.trans (sub_lt_self _ hpos))
  have hbinade : binade x < 1024 := (zpow_lt_zpow_iff_right₀ one_lt_two).mp hunder
  obtain ⟨h970, h971, h1023, h1024⟩ := top_powers
  have hpos : (0 : ℚ) < 2 ^ (969 : Int) := by positivity
  rcases le_or_gt (unitExponent x) 970 with hsmall | hlarge
  · have hgrid := abs_onGrid_of_unitExponent_le hx hsmall
    rw [h1023] at hgrid
    rw [h1024]
    generalize (2 : ℚ) ^ (969 : Int) = u at hgrid hpos ⊢
    linarith only [hgrid, hpos]
  · have hunit : unitExponent x = 971 := by
      unfold unitExponent at hlarge ⊢
      omega
    have hgrid := abs_onGrid_le x
    rw [hunit, h971] at hgrid
    rw [h1024, h970] at h
    rw [h1024]
    linarith only [hgrid, h]

/-- Nothing lies between the largest number and the bound of the range. -/
theorem abs_onGrid_le_largest {x : ℚ} (hx : x ≠ 0) (h : |onGrid x| < 2 ^ (1024 : Int)) :
    |onGrid x| ≤ largest := by
  obtain ⟨h970, h971, h1023, h1024⟩ := top_powers
  have hpos : (0 : ℚ) < 2 ^ (969 : Int) := by positivity
  rcases le_or_gt (unitExponent x) 970 with hsmall | hlarge
  · have hgrid := abs_onGrid_of_unitExponent_le hx hsmall
    rw [h1023] at hgrid
    rw [largest, h1024, h971]
    generalize (2 : ℚ) ^ (969 : Int) = u at hgrid hpos ⊢
    linarith only [hgrid, hpos]
  · obtain ⟨n, hn⟩ := Int.eq_ofNat_of_zero_le (by omega : 0 ≤ unitExponent x - 971)
    have hunit : (2 : ℚ) ^ unitExponent x = 2 ^ n * (4 * 2 ^ (969 : Int)) := by
      have hsum : unitExponent x = n + 971 := by omega
      rw [hsum, zpow_add₀ two_ne_zero, zpow_natCast, h971]
    -- the number counted in units of the spacing of the largest numbers
    obtain ⟨k, hk⟩ : ∃ k : Int, onGrid x = (k : ℚ) * (4 * 2 ^ (969 : Int)) := by
      refine ⟨roundEven (x / 2 ^ unitExponent x) * 2 ^ n, ?_⟩
      unfold onGrid
      rw [hunit, ← mul_assoc, Int.cast_mul, Int.cast_pow, Int.cast_ofNat]
    have habs : |onGrid x| = ((|k| : Int) : ℚ) * (4 * 2 ^ (969 : Int)) := by
      rw [hk, abs_mul, Int.cast_abs, abs_of_pos (by positivity : (0 : ℚ) < 4 * 2 ^ (969 : Int))]
    rw [habs, h1024] at h
    rw [habs, largest, h1024, h971]
    have hunits : (0 : ℚ) ≤ 4 * 2 ^ (969 : Int) := by positivity
    have hlt : ((|k| : Int) : ℚ) < ((2 ^ 53 : Int) : ℚ) := by
      apply lt_of_mul_lt_mul_right _ hunits
      rw [Int.cast_pow, Int.cast_ofNat]
      linarith only [h]
    have hle : ((|k| : Int) : ℚ) ≤ ((2 ^ 53 - 1 : Int) : ℚ) := by
      exact_mod_cast Int.le_sub_one_of_lt (Int.cast_lt.mp hlt)
    have hproduct := mul_le_mul_of_nonneg_right hle hunits
    rw [Int.cast_sub, Int.cast_pow, Int.cast_ofNat, Int.cast_one] at hproduct
    linarith only [hproduct]

theorem exists_value?_nearest {x : ℚ} (h : |x| < 2 ^ (1024 : Int) - 2 ^ (970 : Int)) :
    ∃ v, (nearest x).value? = some v := by
  by_cases hx : x = 0
  · subst hx
    exact ⟨0, rfl⟩
  · rw [nearest_eq hx, if_neg (not_le.mpr (abs_onGrid_lt hx h))]
    split_ifs
    · exact ⟨0, rfl⟩
    · exact ⟨_, rfl⟩

theorem zero_le_largest : 0 ≤ largest := by
  obtain ⟨_, h971, _, h1024⟩ := top_powers
  have hpos : (0 : ℚ) < 2 ^ (969 : Int) := by positivity
  rw [largest, h1024, h971]
  generalize (2 : ℚ) ^ (969 : Int) = u at hpos ⊢
  linarith only [hpos]

theorem abs_le_largest_of_nearest {x v : ℚ} (h : (nearest x).value? = some v) : |v| ≤ largest := by
  by_cases hx : x = 0
  · subst hx
    cases h
    rw [abs_zero]
    exact zero_le_largest
  · rw [nearest_eq hx] at h
    split_ifs at h with hbig hzero
    · cases h
    · cases h
      rw [abs_zero]
      exact zero_le_largest
    · cases h
      exact abs_onGrid_le_largest hx (not_le.mp hbig)

theorem abs_le_largest_of_mul {a b : Binary64} {v : ℚ} (h : (a.mul b).value? = some v) :
    |v| ≤ largest := by
  unfold Binary64.mul at h
  simp only at h
  split at h
  · cases h
  · cases h
  · cases h
  · split_ifs at h <;> cases h
  · split_ifs at h <;> cases h
  · split_ifs at h with hzero
    · unfold zero at h
      split_ifs at h <;> cases h <;> rw [abs_zero] <;> exact zero_le_largest
    · exact abs_le_largest_of_nearest h

/-- One half more than a value is no overflow. -/
theorem exists_value?_add_half {a : Binary64} {v : ℚ} (h : a.value? = some v)
    (hv : |v| ≤ largest) : ∃ w, (a.add half).value? = some w := by
  have hhalf : |v + mkRat 1 2| < 2 ^ (1024 : Int) - 2 ^ (970 : Int) := by
    obtain ⟨h970, h971, _, h1024⟩ := top_powers
    have hone : (1 : ℚ) ≤ 2 ^ (969 : Int) := one_le_zpow₀ one_le_two (by norm_num)
    have hmk : |mkRat 1 2| = (1 / 2 : ℚ) := by norm_num [mkRat_half]
    have htriangle := abs_add_le v (mkRat 1 2)
    rw [hmk] at htriangle
    rw [largest, h1024, h971] at hv
    rw [h1024, h970]
    generalize (2 : ℚ) ^ (969 : Int) = u at hone hv ⊢
    generalize |v + mkRat 1 2| = w at htriangle ⊢
    linarith only [hone, hv, htriangle]
  cases a with
  | nan => cases h
  | infinite negative => cases h
  | negativeZero =>
    cases h
    exact exists_value?_nearest hhalf
  | finite x =>
    cases h
    exact exists_value?_nearest hhalf

theorem integral_of_value? {a : Binary64} {v : ℚ} (h : a.value? = some v) :
    a.integral = .ok v := by
  cases a with
  | nan => cases h
  | infinite negative => cases h
  | negativeZero =>
    cases h
    rfl
  | finite x =>
    cases h
    rfl

end Binary64

theorem Number.abs_le_largest_of_mul {x y : Number} {p : Binary64} {v : ℚ}
    (h : x.mul y = .ok (.float p)) (hv : p.value? = some v) : |v| ≤ Binary64.largest := by
  unfold Number.mul at h
  split at h
  · cases h
  · cases hx : x.toBinary64 with
    | error e => rw [hx] at h; cases h
    | ok a =>
      cases hy : y.toBinary64 with
      | error e => rw [hx, hy] at h; cases h
      | ok b =>
        rw [hx, hy] at h
        cases h
        exact Binary64.abs_le_largest_of_mul hv

end ChipEight

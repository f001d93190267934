import ChipEight.Machine.Cycle
import ChipEight.Proofs.Rounding

/-!
# Exact numbers

Rounding leaves alone what the 53 bits of a significand can hold. So the number of cycles in
a whole number of seconds is exact: up to 2^52 cycles there is still a bit for the one half
that is added before the fraction is cut off.
-/

namespace ChipEight
namespace Binary64

@[simp] theorem roundEven_intCast (k : Int) : roundEven (k : ℚ) = k := by
  have hhalf : (0 : ℚ) < mkRat 1 2 := by norm_num [mkRat_half]
  simp only [roundEven, Rat.floor_intCast, sub_self, if_pos hhalf]

section Significand

variable {k e : Int}

theorem abs_mul_zpow_lt (hk : |k| < 2 ^ 53) : |(k : ℚ) * 2 ^ e| < 2 ^ (e + 53) := by
  have hpos : (0 : ℚ) < 2 ^ e := by positivity
  have hcast : |(k : ℚ)| < 2 ^ 53 := by exact_mod_cast hk
  calc |(k : ℚ) * 2 ^ e| = |(k : ℚ)| * 2 ^ e := by rw [abs_mul, abs_of_pos hpos]
    _ < 2 ^ 53 * 2 ^ e := mul_lt_mul_of_pos_right hcast hpos
    _ = 2 ^ (e + 53) := by
      rw [zpow_add₀ two_ne_zero, mul_comm]
      rfl

/-- A number with 53 bits above some place has its spacing at that place or below it. -/
theorem unitExponent_mul_zpow_le (hne : (k : ℚ) * 2 ^ e ≠ 0) (hk : |k| < 2 ^ 53)
    (he : -1074 ≤ e) : unitExponent (k * 2 ^ e) ≤ e := by
  have hunder : (2 : ℚ) ^ binade (k * 2 ^ e) < 2 ^ (e + 53) :=
    (binade_le _ hne).trans_lt (abs_mul_zpow_lt hk)
  have hbinade := (zpow_lt_zpow_iff_right₀ one_lt_two).mp hunder
  unfold unitExponent
  omega

theorem onGrid_mul_zpow (hne : (k : ℚ) * 2 ^ e ≠ 0) (hk : |k| < 2 ^ 53) (he : -1074 ≤ e) :
    onGrid (k * 2 ^ e) = k * 2 ^ e := by
  have hunit := unitExponent_mul_zpow_le hne hk he
  unfold onGrid
  generalize unitExponent ((k : ℚ) * 2 ^ e) = u at hunit ⊢
  obtain ⟨d, rfl⟩ : ∃ d : Nat, e = d + u := ⟨(e - u).toNat, by omega⟩
  have hpos : (0 : ℚ) < 2 ^ u := by positivity
  -- counted in units of the spacing, the number is an integer
  have hcount : (k : ℚ) * 2 ^ ((d : Int) + u) / 2 ^ u = ((k * 2 ^ d : Int) : ℚ) := by
    rw [zpow_add₀ two_ne_zero, zpow_natCast, ← mul_assoc, mul_div_cancel_right₀ _ hpos.ne']
    push_cast
    rfl
  rw [hcount, roundEven_intCast, ← hcount, div_mul_cancel₀ _ hpos.ne']

/-- What fits into a significand is its own nearest number. -/
theorem nearest_mul_zpow (hk : |k| < 2 ^ 53) (hlow : -1074 ≤ e) (hhigh : e ≤ 971) :
    nearest (k * 2 ^ e) = finite (k * 2 ^ e) := by
  by_cases hne : (k : ℚ) * 2 ^ e = 0
  · rw [hne]
    rfl
  · have hrange : |(k : ℚ) * 2 ^ e| < 2 ^ (1024 : Int) :=
      (abs_mul_zpow_lt hk).trans_le (zpow_le_zpow_right₀ one_le_two (by omega))
    rw [nearest_eq hne, onGrid_mul_zpow hne hk hlow, if_neg (not_le.mpr hrange),
      if_neg fun h => hne h.1]

end Significand

theorem nearest_intCast {n : Int} (hn : |n| < 2 ^ 53) : nearest (n : ℚ) = finite n := by
  have hexact := nearest_mul_zpow (e := 0) hn (by decide) (by decide)
  rwa [zpow_zero, mul_one] at hexact

theorem ofInt_eq_ok {n : Int} (hn : |n| < 2 ^ 53) : ofInt n = .ok (finite n) := by
  simp only [ofInt, nearest_intCast hn]

/-- One half more than an integer fits as well, with one bit less for the integer. -/
theorem nearest_add_half {n : Int} (hn : |2 * n + 1| < 2 ^ 53) :
    nearest (n + mkRat 1 2) = finite (n + mkRat 1 2) := by
  have hhalves : (n : ℚ) + mkRat 1 2 = ((2 * n + 1 : Int) : ℚ) * 2 ^ (-1 : Int) := by
    rw [mkRat_half, zpow_neg_one]
    push_cast
    ring
  rw [hhalves]
  exact nearest_mul_zpow hn (by decide) (by decide)

theorem floor_add_half (n : Int) : ((n : ℚ) + mkRat 1 2).floor = n := by
  change ⌊(n : ℚ) + mkRat 1 2⌋ = n
  rw [mkRat_half, Int.floor_eq_iff]
  constructor <;> linarith

end Binary64

/-- One half added to an integer of this size is cut off again. At the upper end there is no
bit for it, and the sum is rounded down to the integer, which is even. -/
theorem Number.addHalf_int {n : Int} (hn : |n| ≤ 2 ^ 52) :
    ∃ v, (Number.int n).addHalf = .ok (.finite v) ∧ v.floor = n := by
  have hinteger : Binary64.ofInt n = .ok (.finite n) :=
    Binary64.ofInt_eq_ok (hn.trans_lt (by norm_num))
  have hsum : (Number.int n).addHalf = .ok (Binary64.nearest (n + mkRat 1 2)) := by
    change (Binary64.ofInt n).bind _ = _
    rw [hinteger]
    rfl
  obtain ⟨hlow, hhigh⟩ := abs_le.mp hn
  rcases hhigh.lt_or_eq with hbelow | rfl
  · have hfits : |2 * n + 1| < 2 ^ 53 := by
      rw [abs_lt]
      omega
    exact ⟨_, hsum.trans (congrArg _ (Binary64.nearest_add_half hfits)),
      Binary64.floor_add_half n⟩
  · exact ⟨2 ^ 52, hsum.trans (by decide +kernel), by decide +kernel⟩

theorem Machine.cyclesFor_int {m : Machine} {seconds rate : Int}
    (hrate : m.settings.cycleRate = .int rate) (hsize : |seconds * rate| ≤ 2 ^ 52) :
    m.cyclesFor (.int seconds) = .ok (if 0 < seconds then seconds * rate else 0) := by
  have hle : (Number.int seconds).le (.int 0) = decide (seconds ≤ 0) := by
    rw [Number.le_int]
    exact decide_eq_decide.mpr Int.cast_le
  unfold cyclesFor
  rw [hle, hrate, Number.mul_int]
  by_cases hpos : 0 < seconds
  · obtain ⟨v, hsum, hfloor⟩ := Number.addHalf_int hsize
    rw [if_neg (by simpa using hpos), if_pos hpos]
    change ((Number.int (seconds * rate)).addHalf).bind _ = _
    rw [hsum, ← hfloor]
    rfl
  · rw [if_pos (by simpa using hpos), if_neg hpos]

end ChipEight

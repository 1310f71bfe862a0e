import Mathlib.Data.Int.Log
import Mathlib.Data.Rat.Floor
import Mathlib.Tactic.Linarith
import Mathlib.Tactic.Positivity
import Mathlib.Tactic.FieldSimp
import Mathlib.Tactic.Ring

/-! The values of double precision arithmetic: an exact result rounded to the nearest double, ties
to even. Results too large for a double are not cut off. -/
namespace RethinkDB.Lib

/-- The nearest integer; of two the even one. -/
def nearestEven (x : ℚ) : ℤ :=
  let k := ⌊x + 1 / 2⌋
  if x + 1 / 2 = k ∧ k % 2 = 1 then k - 1 else k

/-- The distance of two doubles around `x`. -/
def ulp (x : ℚ) : ℚ := 2 ^ (max (Int.log 2 |x|) (-1022) - 52)

def roundDouble (x : ℚ) : ℚ := nearestEven (x / ulp x) * ulp x

@[irreducible] def unitRoundoff : ℚ := 2 ^ (-53 : ℤ)

/-- Half the smallest positive double. -/
@[irreducible] def halfTiniest : ℚ := 2 ^ (-1075 : ℤ)

theorem unitRoundoff_nonneg : 0 ≤ unitRoundoff := by
  unfold unitRoundoff
  exact zpow_nonneg zero_le_two _

theorem halfTiniest_nonneg : 0 ≤ halfTiniest := by
  unfold halfTiniest
  exact zpow_nonneg zero_le_two _

theorem nearestEven_le (x : ℚ) : (nearestEven x : ℚ) ≤ x + 1 / 2 := by
  have hfloor := Int.floor_le (x + 1 / 2)
  unfold nearestEven
  dsimp only
  split
  · push_cast
    linarith
  · exact hfloor

theorem nearestEven_nonneg {x : ℚ} (hx : 0 ≤ x) : 0 ≤ nearestEven x := by
  have hfloor : 0 ≤ ⌊x + 1 / 2⌋ := Int.floor_nonneg.mpr (by linarith)
  unfold nearestEven
  dsimp only
  split <;> omega

theorem ulp_pos (x : ℚ) : 0 < ulp x := zpow_pos two_pos _

theorem roundDouble_nonneg {x : ℚ} (hx : 0 ≤ x) : 0 ≤ roundDouble x := by
  have hulp := ulp_pos x
  have hquot : 0 ≤ nearestEven (x / ulp x) := nearestEven_nonneg (by positivity)
  exact mul_nonneg (by exact_mod_cast hquot) hulp.le

/-- An ulp is small against its number, or the smallest there is. -/
theorem ulp_le {x : ℚ} (hx : 0 < x) : ulp x ≤ x * 2 ^ (-52 : ℤ) + 2 ^ (-1074 : ℤ) := by
  have hlog : (2 : ℚ) ^ Int.log 2 x ≤ x := by
    exact_mod_cast Int.zpow_log_le_self (b := 2) one_lt_two hx
  unfold ulp
  rw [abs_of_pos hx]
  rcases le_total (-1022) (Int.log 2 x) with h | h
  · calc (2 : ℚ) ^ (max (Int.log 2 x) (-1022) - 52)
        = 2 ^ Int.log 2 x * 2 ^ (-52 : ℤ) := by
          rw [max_eq_left h, sub_eq_add_neg, zpow_add₀ two_ne_zero]
      _ ≤ x * 2 ^ (-52 : ℤ) := by gcongr
      _ ≤ x * 2 ^ (-52 : ℤ) + 2 ^ (-1074 : ℤ) := le_add_of_nonneg_right (zpow_nonneg zero_le_two _)
  · rw [max_eq_right h]
    have : 0 ≤ x * 2 ^ (-52 : ℤ) := by positivity
    norm_num at this ⊢
    linarith

/-- The error of one operation. -/
theorem roundDouble_le {x : ℚ} (hx : 0 ≤ x) :
    roundDouble x ≤ x * (1 + unitRoundoff) + halfTiniest := by
  rcases hx.eq_or_lt with rfl | hx
  · have hzero : nearestEven 0 = 0 := by norm_num [nearestEven]
    rw [roundDouble, zero_div, hzero, Int.cast_zero, zero_mul, zero_mul, zero_add]
    exact halfTiniest_nonneg
  · have hulp := ulp_pos x
    have hle := ulp_le hx
    have hnear : (nearestEven (x / ulp x) : ℚ) ≤ x / ulp x + 1 / 2 := nearestEven_le _
    calc roundDouble x ≤ (x / ulp x + 1 / 2) * ulp x := by
          unfold roundDouble
          gcongr
      _ = x + ulp x / 2 := by
          field_simp
      _ ≤ x + (x * 2 ^ (-52 : ℤ) + 2 ^ (-1074 : ℤ)) / 2 := by gcongr
      _ = x * (1 + unitRoundoff) + halfTiniest := by
          have h52 : (2 : ℚ) ^ (-52 : ℤ) = 2 * unitRoundoff := by
            rw [unitRoundoff, show (-52 : ℤ) = 1 + -53 by norm_num, zpow_add₀ two_ne_zero, zpow_one]
          have h1074 : (2 : ℚ) ^ (-1074 : ℤ) = 2 * halfTiniest := by
            rw [halfTiniest, show (-1074 : ℤ) = 1 + -1075 by norm_num, zpow_add₀ two_ne_zero,
              zpow_one]
          rw [h52, h1074]
          ring

end RethinkDB.Lib

import Mathlib.Tactic.Linarith
import Mathlib.Tactic.SplitIfs

/-! Days of the proleptic Gregorian calendar by number, the first day of the year 1 being 1. -/
namespace RethinkDB.Lib.Calendar

structure Date where
  year : ℕ
  month : ℕ
  day : ℕ
  deriving Repr, DecidableEq

def IsLeap (year : ℕ) : Prop := year % 4 = 0 ∧ (year % 100 ≠ 0 ∨ year % 400 = 0)

instance (year : ℕ) : Decidable (IsLeap year) := inferInstanceAs (Decidable (_ ∧ _))

def daysBeforeYear (year : ℕ) : ℕ :=
  let y := year - 1
  y * 365 + y / 4 - y / 100 + y / 400

def daysBeforeMonth (leap : Bool) (month : ℕ) : ℕ :=
  [0, 0, 31, 59, 90, 120, 151, 181, 212, 243, 273, 304, 334].getD month 0 +
    if 2 < month ∧ leap then 1 else 0

/-- `date.toordinal`. -/
def Date.toOrdinal (date : Date) : ℕ :=
  daysBeforeYear date.year + daysBeforeMonth (IsLeap date.year) date.month + date.day

/-- Month and day of a day of the year, which counts from 0. -/
def monthAndDay (leap : Bool) (n : ℕ) : ℕ × ℕ :=
  let month := (n + 50) / 32
  if n < daysBeforeMonth leap month then (month - 1, n - daysBeforeMonth leap (month - 1) + 1)
  else (month, n - daysBeforeMonth leap month + 1)

def ofOrdinal (ordinal : ℕ) : Date :=
  let n := ordinal - 1
  let n400 := n / 146097
  let n := n % 146097
  let n100 := n / 36524
  let n := n % 36524
  let n4 := n / 1461
  let n := n % 1461
  let n1 := n / 365
  let n := n % 365
  let year := n400 * 400 + 1 + n100 * 100 + n4 * 4 + n1
  if n1 = 4 ∨ n100 = 4 then ⟨year - 1, 12, 31⟩
  else
    let leap := n1 = 3 ∧ (n4 ≠ 24 ∨ n100 = 3)
    ⟨year, (monthAndDay leap n).1, (monthAndDay leap n).2⟩

/-! ### Every day has its date -/

theorem monthAndDay_spec {leap : Bool} {n : ℕ} (hn : n < 365 + leap.toNat) :
    (monthAndDay leap n).1 ≤ 12 ∧ (monthAndDay leap n).2 ≤ 31 ∧
      daysBeforeMonth leap (monthAndDay leap n).1 + (monthAndDay leap n).2 = n + 1 := by
  have hcommon : ∀ n < 365, (monthAndDay false n).1 ≤ 12 ∧ (monthAndDay false n).2 ≤ 31 ∧
      daysBeforeMonth false (monthAndDay false n).1 + (monthAndDay false n).2 = n + 1 := by
    decide +kernel
  have hleap : ∀ n < 366, (monthAndDay true n).1 ≤ 12 ∧ (monthAndDay true n).2 ≤ 31 ∧
      daysBeforeMonth true (monthAndDay true n).1 + (monthAndDay true n).2 = n + 1 := by
    decide +kernel
  cases leap with
  | false => exact hcommon n hn
  | true => exact hleap n hn

/-- The year of a day, of 400, 100, 4 and single years before it. -/
theorem isLeap_year {n400 n100 n4 n1 : ℕ} (h100 : n100 < 4) (h4 : n4 < 25) (h1 : n1 < 4) :
    IsLeap (n400 * 400 + 1 + n100 * 100 + n4 * 4 + n1) ↔ n1 = 3 ∧ (n4 ≠ 24 ∨ n100 = 3) := by
  unfold IsLeap
  omega

theorem daysBeforeYear_year {n400 n100 n4 n1 : ℕ} (h100 : n100 < 4) (h4 : n4 < 25) (h1 : n1 < 4) :
    daysBeforeYear (n400 * 400 + 1 + n100 * 100 + n4 * 4 + n1) =
      n400 * 146097 + n100 * 36524 + n4 * 1461 + n1 * 365 := by
  unfold daysBeforeYear
  dsimp only
  omega

/-- The last day of a leap year, which the divisions give one unit too many. -/
theorem toOrdinal_last {n400 n100 n4 year : ℕ}
    (hyear : year = n400 * 400 + 1 + n100 * 100 + n4 * 4 + 3) (h100 : n100 < 4) (h4 : n4 < 25)
    (hleap : n4 ≠ 24 ∨ n100 = 3) :
    (Date.mk year 12 31).toOrdinal =
      n400 * 146097 + n100 * 36524 + n4 * 1461 + 3 * 365 + 366 := by
  have hyears : daysBeforeYear year = n400 * 146097 + n100 * 36524 + n4 * 1461 + 3 * 365 := by
    rw [hyear]
    exact daysBeforeYear_year h100 h4 (by omega)
  have hleap : IsLeap year := by
    rw [hyear]
    exact (isLeap_year h100 h4 (by omega)).mpr ⟨rfl, hleap⟩
  have hmonths : daysBeforeMonth true 12 = 335 := by decide
  simp only [Date.toOrdinal, hleap, decide_true, hmonths, hyears]

theorem toOrdinal_monthAndDay {year n : ℕ} {leap : Bool} (hleap : decide (IsLeap year) = leap)
    (hn : n < 365 + leap.toNat) :
    (Date.mk year (monthAndDay leap n).1 (monthAndDay leap n).2).toOrdinal =
      daysBeforeYear year + n + 1 := by
  have hspec := (monthAndDay_spec hn).2.2
  simp only [Date.toOrdinal, hleap]
  omega

theorem toOrdinal_ofOrdinal {ordinal : ℕ} (hordinal : 0 < ordinal) :
    (ofOrdinal ordinal).toOrdinal = ordinal := by
  unfold ofOrdinal
  extract_lets n n400 r400 n100 r100 n4 r4 n1 r1 year leap
  split_ifs with hlast
  · by_cases h100 : n100 = 4
    · obtain ⟨k100, k4, hk100, hk4⟩ : ∃ k100 k4, k100 = 3 ∧ k4 = 24 := ⟨3, 24, rfl, rfl⟩
      have hyear : year - 1 = n400 * 400 + 1 + k100 * 100 + k4 * 4 + 3 := by omega
      rw [toOrdinal_last hyear (by omega) (by omega) (by omega)]
      omega
    · have hyear : year - 1 = n400 * 400 + 1 + n100 * 100 + n4 * 4 + 3 := by omega
      rw [toOrdinal_last hyear (by omega) (by omega) (by omega)]
      omega
  · have h100 : n100 < 4 := by omega
    have h4 : n4 < 25 := by omega
    have h1 : n1 < 4 := by omega
    have hyear : daysBeforeYear year = n400 * 146097 + n100 * 36524 + n4 * 1461 + n1 * 365 :=
      daysBeforeYear_year h100 h4 h1
    have hleap : decide (IsLeap year) = decide leap := by
      rw [decide_eq_decide]
      exact isLeap_year h100 h4 h1
    have hr : r1 < 365 + (decide leap).toNat := by omega
    rw [toOrdinal_monthAndDay hleap hr]
    omega

/-! ### Fields that fit their places -/

theorem ofOrdinal_month_le (ordinal : ℕ) : (ofOrdinal ordinal).month ≤ 12 := by
  unfold ofOrdinal
  extract_lets n n400 r400 n100 r100 n4 r4 n1 r1 year leap
  split_ifs
  · exact le_rfl
  · exact (monthAndDay_spec (by omega)).1

theorem ofOrdinal_day_le (ordinal : ℕ) : (ofOrdinal ordinal).day ≤ 31 := by
  unfold ofOrdinal
  extract_lets n n400 r400 n100 r100 n4 r4 n1 r1 year leap
  split_ifs
  · exact le_rfl
  · exact (monthAndDay_spec (by omega)).2.1

/-- 3652059 is the last day of the year 9999. -/
theorem ofOrdinal_year_le {ordinal : ℕ} (h : ordinal ≤ 3652059) : (ofOrdinal ordinal).year ≤ 9999 := by
  unfold ofOrdinal
  extract_lets n n400 r400 n100 r100 n4 r4 n1 r1 year leap
  split_ifs
  · change year - 1 ≤ 9999
    omega
  · change year ≤ 9999
    omega

end RethinkDB.Lib.Calendar

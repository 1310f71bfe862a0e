import Mathlib.Data.Nat.ModEq
import Mathlib.Tactic.Positivity
import Mathlib.Tactic.Ring
import Mathlib.Tactic.Zify

/-! Fixed-width little-endian numbers over byte lists. -/
namespace RethinkDB.Lib

abbrev Bytes := List UInt8

/-- The low `w` base-256 digits, least significant first. -/
def encodeLE : ℕ → ℕ → Bytes
  | 0, _ => []
  | w + 1, n => UInt8.ofNat n :: encodeLE w (n / 256)

def decodeLE : Bytes → ℕ
  | [] => 0
  | b :: bs => b.toNat + 256 * decodeLE bs

@[simp] theorem length_encodeLE (w n : ℕ) : (encodeLE w n).length = w := by
  induction w generalizing n with
  | zero => rfl
  | succ w ih => simp [encodeLE, ih]

theorem decodeLE_encodeLE (w n : ℕ) : decodeLE (encodeLE w n) = n % 256 ^ w := by
  induction w generalizing n with
  | zero => simp [encodeLE, decodeLE, Nat.mod_one]
  | succ w ih =>
    have hb : (UInt8.ofNat n).toNat = n % 256 := by simp
    rw [encodeLE, decodeLE, ih, hb, pow_succ', Nat.mod_mul]

theorem decodeLE_fits {w n : ℕ} (hn : n < 256 ^ w) : decodeLE (encodeLE w n) = n :=
  (decodeLE_encodeLE w n).trans (Nat.mod_eq_of_lt hn)

/-- The two's-complement reading of a `w`-byte number. -/
def signed (w n : ℕ) : ℤ := if 2 * n < 256 ^ w then n else (n : ℤ) - 256 ^ w

/-- The `w`-byte two's complement of an integer. -/
def unsigned (w : ℕ) (t : ℤ) : ℕ := (t % 256 ^ w).toNat

theorem unsigned_lt (w : ℕ) (t : ℤ) : unsigned w t < 256 ^ w := by
  have hpos : (0 : ℤ) < 256 ^ w := by positivity
  have hlt := Int.emod_lt_of_pos t hpos
  have hnn := Int.emod_nonneg t hpos.ne'
  unfold unsigned
  zify
  omega

/-- Two's complement round trip, on the range of a signed `w`-byte number. -/
theorem signed_unsigned {w : ℕ} {t : ℤ} (hlo : -(256 ^ w) ≤ 2 * t) (hhi : 2 * t < 256 ^ w) :
    signed w (unsigned w t) = t := by
  have hpos : (0 : ℤ) < 256 ^ w := by positivity
  have hnn := Int.emod_nonneg t hpos.ne'
  have hcast : ((unsigned w t : ℕ) : ℤ) = t % 256 ^ w := Int.toNat_of_nonneg hnn
  unfold signed
  by_cases ht : 0 ≤ t
  · have hm : t % 256 ^ w = t := Int.emod_eq_of_lt ht (by omega)
    have hlt : 2 * unsigned w t < 256 ^ w := by zify; rw [hcast, hm]; exact hhi
    rw [if_pos hlt, hcast, hm]
  · have hm : t % 256 ^ w = t + 256 ^ w := by
      rw [← Int.add_emod_right, Int.emod_eq_of_lt] <;> omega
    have hge : ¬ 2 * unsigned w t < 256 ^ w := by zify; rw [hcast, hm]; omega
    rw [if_neg hge, hcast, hm]
    ring

end RethinkDB.Lib

import Mathlib.Algebra.Group.Nat.Defs
import Mathlib.Data.Nat.Size

/-!
# Numbers cut to a mantissa

A number is cut to the leading bytes that fit a mantissa of 23 bits.  The
cut number is not larger, it misses less than one unit of the last byte that
is kept, and cutting it again changes nothing.
-/

namespace DSValue.Lib.Mantissa

/-- The number of bytes that are cut off. -/
def excess (value : Nat) : Nat := (value.size - 16) / 8

/-- One unit of the last byte that is kept. -/
def lastUnit (value : Nat) : Nat := 256 ^ excess value

/-- A number without the bytes that are cut off. -/
def truncate (value : Nat) : Nat := value / lastUnit value * lastUnit value

theorem lastUnit_pos (value : Nat) : 0 < lastUnit value :=
  Nat.pow_pos (by decide)

theorem truncate_le (value : Nat) : truncate value ≤ value :=
  Nat.div_mul_le_self value (lastUnit value)

/-- Less than one unit of the last byte is lost. -/
theorem lt_truncate_add (value : Nat) :
    value < truncate value + lastUnit value :=
  Nat.lt_div_mul_add (lastUnit_pos value)

theorem pow_256 (exponent : Nat) : 256 ^ exponent = 2 ^ (8 * exponent) := by
  rw [show 256 = 2 ^ 8 from rfl, ← Nat.pow_mul]

theorem size_of_bounds
    {value bits : Nat} (lower : 2 ^ bits ≤ value)
    (upper : value < 2 ^ (bits + 1)) : value.size = bits + 1 := by
  have atMost := Nat.size_le.mpr upper
  have atLeast := Nat.lt_size.mpr lower
  omega

theorem bounds_of_size
    {value bits : Nat} (size : value.size = bits + 1) :
    2 ^ bits ≤ value ∧ value < 2 ^ (bits + 1) :=
  ⟨Nat.lt_size.mp (by omega), Nat.size_le.mp (Nat.le_of_eq size)⟩

/-- The number of bytes above a mantissa of 23 bits. -/
theorem excess_eq
    {value cut : Nat} (lower : 2 ^ (8 * cut + 15) ≤ value ∨ cut = 0)
    (upper : value < 2 ^ (8 * cut + 23)) : excess value = cut := by
  rw [← Nat.size_le] at upper
  rw [← Nat.lt_size] at lower
  rw [excess]
  omega

theorem truncate_of_lt {value : Nat} (small : value < 2 ^ 23) :
    truncate value = value := by
  rw [truncate, lastUnit, excess_eq (Or.inr rfl) small, Nat.pow_zero,
    Nat.div_one, Nat.mul_one]

theorem size_truncate (value : Nat) : (truncate value).size = value.size := by
  cases size : value.size with
  | zero =>
      rw [Nat.size_eq_zero.mp size]
      rfl
  | succ bits =>
      rcases bounds_of_size size with ⟨lower, upper⟩
      refine size_of_bounds ?_ (Nat.lt_of_le_of_lt (truncate_le value) upper)
      have fits : 8 * excess value ≤ bits := by
        rw [excess]
        omega
      have whole : 2 ^ bits / lastUnit value * lastUnit value = 2 ^ bits := by
        apply Nat.div_mul_cancel
        rw [lastUnit, pow_256]
        exact Nat.pow_dvd_pow 2 fits
      rw [← whole, truncate]
      exact Nat.mul_le_mul_right _ (Nat.div_le_div_right lower)

end DSValue.Lib.Mantissa

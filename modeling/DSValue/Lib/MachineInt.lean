import Mathlib.Algebra.Group.Int.Defs
import Mathlib.Order.Defs.LinearOrder

/-!
# Machine integers

The 32-bit signed integers are a linear order, which lets them be the keys of
an ordered map.  Division of 64-bit signed integers is partial: the processor
traps on a zero divisor and on the one quotient that does not fit.

Code that may fail runs in `Except Fault`.  A loop without a bound of its own
gets one in the model, and a run that exceeds it ends in `Fault.unfinished`.
-/

namespace DSValue.Lib

instance instLinearOrderInt32 : LinearOrder Int32 where
  le_refl := Int32.le_refl
  le_trans := fun _ _ _ => Int32.le_trans
  le_antisymm := fun _ _ => Int32.le_antisymm
  le_total := Int32.le_total
  lt_iff_le_not_ge := fun left right => by
    rw [Int32.lt_iff_toInt_lt, Int32.le_iff_toInt_le, Int32.le_iff_toInt_le]
    omega
  toDecidableLE := inferInstance
  toDecidableEq := inferInstance
  toDecidableLT := inferInstance

/-- The ways a run of machine code ends without a value. -/
inductive Fault where
  | assertion
  | divideError
  | outOfRange
  | exception
  | unfinished
deriving DecidableEq

/-- A sequence of two runs succeeds when both do. -/
theorem bind_eq_ok
    {ε α β : Type} {first : Except ε α} {next : α → Except ε β}
    {result : β} :
    (first >>= next) = .ok result ↔
      ∃ value, first = .ok value ∧ next value = .ok result := by
  cases first with
  | error failure => simp [bind, Except.bind]
  | ok value => simp [bind, Except.bind]

/-- Signed 64-bit division as the processor performs it. -/
def divide (dividend divisor : Int64) : Except Fault Int64 :=
  if divisor = 0 ∨ (dividend = Int64.minValue ∧ divisor = -1) then
    throw .divideError
  else pure (dividend / divisor)

theorem divide_of_pos
    {dividend divisor : Int64}
    (positive : 0 < divisor) :
    divide dividend divisor = pure (dividend / divisor) := by
  rw [divide, if_neg]
  rintro (rfl | ⟨-, rfl⟩)
  · exact absurd positive (by decide)
  · exact absurd positive (by decide)

/-! ## Operations that stay in range -/

theorem toInt_add_of_bounds
    {left right : Int64}
    (lower : -2 ^ 63 ≤ left.toInt + right.toInt)
    (upper : left.toInt + right.toInt < 2 ^ 63) :
    (left + right).toInt = left.toInt + right.toInt := by
  rw [Int64.toInt_add]
  exact Int.bmod_eq_of_le (by simpa using lower) (by simpa using upper)

theorem toInt_sub_of_bounds
    {left right : Int64}
    (lower : -2 ^ 63 ≤ left.toInt - right.toInt)
    (upper : left.toInt - right.toInt < 2 ^ 63) :
    (left - right).toInt = left.toInt - right.toInt := by
  rw [Int64.toInt_sub]
  exact Int.bmod_eq_of_le (by simpa using lower) (by simpa using upper)

theorem toInt_mul_of_bounds
    {left right : Int64}
    (lower : -2 ^ 63 ≤ left.toInt * right.toInt)
    (upper : left.toInt * right.toInt < 2 ^ 63) :
    (left * right).toInt = left.toInt * right.toInt := by
  rw [Int64.toInt_mul]
  exact Int.bmod_eq_of_le (by simpa using lower) (by simpa using upper)

theorem toInt_div_of_nonneg
    {dividend divisor : Int64}
    (nonneg : 0 ≤ dividend.toInt)
    (positive : 0 < divisor.toInt) :
    (dividend / divisor).toInt = dividend.toInt / divisor.toInt := by
  have upper := dividend.toInt_lt
  have quotientLower : 0 ≤ dividend.toInt / divisor.toInt :=
    Int.ediv_nonneg nonneg (Int.le_of_lt positive)
  have quotientUpper : dividend.toInt / divisor.toInt ≤ dividend.toInt :=
    Int.ediv_le_self _ nonneg
  rw [Int64.toInt_div, Int.tdiv_eq_ediv_of_nonneg nonneg]
  exact Int.bmod_eq_of_le (by simp; omega) (by simp; omega)

end DSValue.Lib

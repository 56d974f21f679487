import Mathlib.Data.Nat.Log
import Mathlib.Algebra.Order.Ring.Int

/-!
# Integers in double precision

A program that mixes `int64_t` and `double` on whole numbers rounds every
intermediate result to 53 significant bits, ties to even, and converts back
by truncation.  Whole numbers stay whole: a result of more than 53 bits is
rounded to a multiple of a power of two, a smaller one is exact.  A value
outside the range of `int64_t` converts to its minimum, as the x86-64
instruction does.
-/

namespace DSValue.Lib.Double

/-- Round a natural number to 53 significant bits, ties to even. -/
def roundNat (value : Nat) : Nat :=
  if value < 2 ^ 53 then value
  else
    let unit := 2 ^ (value.log2 - 52)
    let quotient := value / unit
    let remainder := value % unit
    if 2 * remainder < unit ∨ (2 * remainder = unit ∧ quotient % 2 = 0) then
      quotient * unit
    else (quotient + 1) * unit

/-- Round an integer to 53 significant bits, ties to even. -/
def round (value : Int) : Int :=
  if 0 ≤ value then roundNat value.natAbs else -roundNat value.natAbs

/-- The conversion of an `int64_t` to `double`. -/
def ofInt64 (value : Int64) : Int :=
  round value.toInt

def mul (left right : Int) : Int :=
  round (left * right)

def add (left right : Int) : Int :=
  round (left + right)

/-- The conversion of a whole `double` to `int64_t`. -/
def toInt64 (value : Int) : Int64 :=
  if -2 ^ 63 ≤ value ∧ value < 2 ^ 63 then Int64.ofInt value
  else Int64.minValue

/-! ## Rounding errors -/

theorem roundNat_of_lt {value : Nat} (small : value < 2 ^ 53) :
    roundNat value = value := by
  rw [roundNat, if_pos small]

/-- Rounding does not leave the range above the exact integers. -/
theorem le_roundNat {value : Nat} (large : 2 ^ 53 ≤ value) :
    2 ^ 53 ≤ roundNat value := by
  have nonzero : value ≠ 0 := by omega
  have magnitude : 53 ≤ value.log2 := (Nat.le_log2 nonzero).mpr large
  have lower : 2 ^ value.log2 ≤ value := Nat.log2_self_le nonzero
  have split : 2 ^ value.log2 = 2 ^ 52 * 2 ^ (value.log2 - 52) := by
    rw [← pow_add]
    congr 1
    omega
  have unitLarge : 2 ≤ 2 ^ (value.log2 - 52) := by
    calc 2 = 2 ^ 1 := rfl
      _ ≤ 2 ^ (value.log2 - 52) :=
          Nat.pow_le_pow_right (by decide) (by omega)
  have quotientLarge : 2 ^ 52 ≤ value / 2 ^ (value.log2 - 52) := by
    rw [Nat.le_div_iff_mul_le (Nat.two_pow_pos _)]
    rw [← split]
    exact lower
  have product :
      2 ^ 53 ≤ value / 2 ^ (value.log2 - 52) * 2 ^ (value.log2 - 52) := by
    calc 2 ^ 53 = 2 ^ 52 * 2 := rfl
      _ ≤ value / 2 ^ (value.log2 - 52) * 2 ^ (value.log2 - 52) :=
          Nat.mul_le_mul quotientLarge unitLarge
  rw [roundNat, if_neg (by omega)]
  dsimp only
  split_ifs
  · exact product
  · rw [Nat.succ_mul]
    omega

/-- Rounding up adds at most one unit in the fifty-third bit. -/
theorem roundNat_le (value : Nat) :
    roundNat value ≤ value + value / 2 ^ 53 := by
  rw [roundNat]
  split_ifs with small
  · omega
  have nonzero : value ≠ 0 := by omega
  have magnitude : 53 ≤ value.log2 := (Nat.le_log2 nonzero).mpr (by omega)
  have lower : 2 ^ value.log2 ≤ value := Nat.log2_self_le nonzero
  have unitHalves :
      2 ^ (value.log2 - 52) = 2 * 2 ^ (value.log2 - 53) := by
    rw [← pow_succ']
    congr 1
    omega
  have half : 2 ^ (value.log2 - 53) ≤ value / 2 ^ 53 := by
    rw [Nat.le_div_iff_mul_le (Nat.two_pow_pos _), ← pow_add,
      Nat.sub_add_cancel magnitude]
    exact lower
  have division := Nat.div_add_mod value (2 ^ (value.log2 - 52))
  rw [Nat.mul_comm] at division
  dsimp only
  split_ifs with down
  · omega
  · rw [Nat.succ_mul]
    omega

theorem natAbs_round (value : Int) :
    (round value).natAbs = roundNat value.natAbs := by
  rw [round]
  split_ifs
  · exact Int.natAbs_natCast _
  · rw [Int.natAbs_neg, Int.natAbs_natCast]

/-! ## Approximation of natural numbers -/

/--
A computed whole number against the natural number it stands for: equal below
`2 ^ 53`, not below `2 ^ 53` otherwise, and not above by more than `slack`.
-/
structure Approximates (value : Int) (exact slack : Nat) : Prop where
  small : exact < 2 ^ 53 → value = exact
  large : 2 ^ 53 ≤ exact → 2 ^ 53 ≤ value
  above : value ≤ exact + slack

theorem Approximates.nonneg
    {value : Int} {exact slack : Nat}
    (approximates : Approximates value exact slack) :
    0 ≤ value := by
  by_cases below : exact < 2 ^ 53
  · have equal := approximates.small below
    omega
  · have atLeast := approximates.large (by omega)
    omega

theorem Approximates.refl (exact : Nat) : Approximates exact exact 0 :=
  ⟨fun _ => rfl, fun large => by omega, by omega⟩

theorem Approximates.add
    {left right : Int} {exactLeft exactRight slackLeft slackRight : Nat}
    (leftApprox : Approximates left exactLeft slackLeft)
    (rightApprox : Approximates right exactRight slackRight) :
    Approximates (left + right) (exactLeft + exactRight)
      (slackLeft + slackRight) := by
  have leftNonneg := leftApprox.nonneg
  have rightNonneg := rightApprox.nonneg
  have leftSmall := leftApprox.small
  have rightSmall := rightApprox.small
  have leftLarge := leftApprox.large
  have rightLarge := rightApprox.large
  have leftAbove := leftApprox.above
  have rightAbove := rightApprox.above
  constructor
  · intro below
    have leftEqual := leftSmall (by omega)
    have rightEqual := rightSmall (by omega)
    omega
  · intro atLeast
    by_cases leftBelow : exactLeft < 2 ^ 53
    · have leftEqual := leftSmall leftBelow
      by_cases rightBelow : exactRight < 2 ^ 53
      · have rightEqual := rightSmall rightBelow
        omega
      · have rightBound := rightLarge (by omega)
        omega
    · have leftBound := leftLarge (by omega)
      omega
  · push_cast
    omega

theorem round_natCast (value : Nat) : round value = roundNat value := by
  rw [round, if_pos (Int.natCast_nonneg value), Int.natAbs_natCast]

theorem Approximates.round
    {value : Int} {exact slack : Nat}
    (approximates : Approximates value exact slack)
    (fits : exact + slack < 2 ^ 64) :
    Approximates (round value) exact (slack + 2048) := by
  have nonneg := approximates.nonneg
  have small := approximates.small
  have large := approximates.large
  have above := approximates.above
  rcases Int.eq_ofNat_of_zero_le nonneg with ⟨natural, rfl⟩
  rw [round_natCast]
  constructor
  · intro below
    have equal := small below
    rw [roundNat_of_lt (by omega)]
    omega
  · intro atLeast
    have bound := le_roundNat (by have := large atLeast; omega : 2 ^ 53 ≤ natural)
    omega
  · have bound := roundNat_le natural
    omega

/-- A product with a factor that is first rounded itself. -/
theorem approximates_mul_round
    (factor value : Nat)
    (positive : 0 < factor)
    (fits : factor * value < 2 ^ 63) :
    Approximates (factor * round value) (factor * value) 1024 := by
  have bound := roundNat_le value
  have scaled := Nat.mul_le_mul_left factor bound
  have errors : factor * (value / 2 ^ 53) ≤ factor * value / 2 ^ 53 :=
    Nat.mul_div_le_mul_div_assoc factor value (2 ^ 53)
  have valueLe : value ≤ factor * value := Nat.le_mul_of_pos_left value positive
  rw [round_natCast]
  constructor
  · intro below
    rw [roundNat_of_lt (by omega)]
    push_cast
    rfl
  · intro atLeast
    by_cases valueSmall : value < 2 ^ 53
    · rw [roundNat_of_lt valueSmall]
      exact_mod_cast atLeast
    · have valueBound := le_roundNat (by omega : 2 ^ 53 ≤ value)
      have product : roundNat value ≤ factor * roundNat value :=
        Nat.le_mul_of_pos_left _ positive
      exact_mod_cast valueBound.trans product
  · rw [Nat.mul_add] at scaled
    have total : factor * roundNat value ≤ factor * value + 1024 := by omega
    exact_mod_cast total

/-- The conversion to `int64_t` keeps a value that fits. -/
theorem toInt_toInt64
    {value : Int} (lower : 0 ≤ value) (upper : value < 2 ^ 63) :
    (toInt64 value).toInt = value := by
  rw [toInt64, if_pos ⟨by omega, upper⟩,
    Int64.toInt_ofInt_of_le (by omega) upper]

end DSValue.Lib.Double

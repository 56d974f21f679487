import Mathlib.Algebra.Ring.GeomSum
import Mathlib.Data.Fin.Basic
import Mathlib.Tactic.Ring

/-!
# Bijective numeration

Every digit of a bijective numeral stands for one more than it shows, so that
no leading digit is void.  Every list of digits is then the numeral of exactly
one number, and the numerals of a limited length are those of the numbers
below a geometric sum.
-/

namespace DSValue.Lib.Bijective

variable {base : Nat}

/-- A digit behind what was read before it. -/
def shift (base value : Nat) (digit : Fin base) : Nat :=
  value * base + digit + 1

/-- The number of a numeral, whose first digit is the most significant one. -/
def number (digits : List (Fin base)) : Nat :=
  digits.foldl (shift base) 0

theorem number_concat (digits : List (Fin base)) (digit : Fin base) :
    number (digits ++ [digit]) = number digits * base + digit + 1 := by
  rw [number, List.foldl_append]
  rfl

/-- What was read before a numeral counts once for each of its digits. -/
theorem foldl_shift (value : Nat) (digits : List (Fin base)) :
    digits.foldl (shift base) value =
      value * base ^ digits.length + number digits := by
  induction digits using List.reverseRecOn with
  | nil => simp [number]
  | append_singleton digits digit inductionHypothesis =>
      rw [List.foldl_append, inductionHypothesis, number_concat,
        List.length_append, List.length_singleton, Nat.pow_succ]
      simp only [List.foldl_cons, List.foldl_nil, shift]
      ring

theorem number_cons (digit : Fin base) (digits : List (Fin base)) :
    number (digit :: digits) =
      (digit + 1) * base ^ digits.length + number digits := by
  rw [number, List.foldl_cons, foldl_shift, shift, Nat.zero_mul, Nat.zero_add]

variable [NeZero base]

/-- The numeral of a number. -/
def numeral (base : Nat) [NeZero base] : Nat → List (Fin base)
  | 0 => []
  | value + 1 => numeral base (value / base) ++ [Fin.ofNat base value]
termination_by value => value
decreasing_by exact Nat.lt_succ_of_le (Nat.div_le_self _ _)

theorem numeral_zero : numeral base 0 = [] := by
  rw [numeral]

theorem numeral_succ (value : Nat) :
    numeral base (value + 1) =
      numeral base (value / base) ++ [Fin.ofNat base value] := by
  rw [numeral]

theorem number_numeral (value : Nat) : number (numeral base value) = value := by
  induction value using Nat.strongRecOn with
  | ind value inductionHypothesis =>
      cases value with
      | zero =>
          rw [numeral_zero]
          rfl
      | succ value =>
          have earlier := inductionHypothesis (value / base)
            (Nat.lt_succ_of_le (Nat.div_le_self _ _))
          rw [numeral_succ, number_concat, earlier, Fin.val_ofNat,
            Nat.div_add_mod']

theorem numeral_number (digits : List (Fin base)) :
    numeral base (number digits) = digits := by
  induction digits using List.reverseRecOn with
  | nil => exact numeral_zero
  | append_singleton digits digit inductionHypothesis =>
      have quotient : (number digits * base + digit) / base = number digits := by
        rw [Nat.mul_comm, Nat.mul_add_div (NeZero.pos base),
          Nat.div_eq_of_lt digit.isLt, Nat.add_zero]
      have remainder : Fin.ofNat base (number digits * base + digit) = digit := by
        apply Fin.ext
        rw [Fin.val_ofNat, Nat.mul_add_mod_of_lt digit.isLt]
      rw [number_concat, numeral_succ, quotient, remainder, inductionHypothesis]

/-- The numbers whose numerals have a limited length. -/
theorem length_numeral_le_iff (value count : Nat) :
    (numeral base value).length ≤ count ↔
      value < ∑ place ∈ Finset.range (count + 1), base ^ place := by
  induction count generalizing value with
  | zero =>
      cases value with
      | zero => simp [numeral_zero]
      | succ value => simp [numeral_succ]
  | succ count inductionHypothesis =>
      cases value with
      | zero =>
          rw [numeral_zero, geom_sum_succ]
          simp
      | succ value =>
          rw [numeral_succ, List.length_append, List.length_singleton,
            Nat.add_le_add_iff_right, inductionHypothesis,
            @geom_sum_succ _ _ base (count + 1), Nat.add_lt_add_iff_right,
            Nat.div_lt_iff_lt_mul (NeZero.pos base), Nat.mul_comm base]

end DSValue.Lib.Bijective

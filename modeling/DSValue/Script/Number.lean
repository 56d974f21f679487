import DSValue.Lib.SignMagnitude

/-!
# Numbers on the stack

A stack element is a byte vector.  `CBigNum` turns it into an integer and back
through the format of `BN_mpi2bn`, which is big-endian behind a length field;
`setvch` and `getvch` swap the bytes and drop the field.  `CastToBool` reads
the bytes one by one instead.
-/

namespace DSValue.Script.Number

open DSValue.Lib
open DSValue.Lib.Encoding
open DSValue.Lib.SignMagnitude

/-- A stack element. -/
abbrev Valtype := List UInt8

def vchFalse : Valtype := []
def vchTrue : Valtype := [1]

/-- The largest size of a number that is computed with. -/
def nMaxNumSize : Nat := 4

/-- `CBigNum::setvch`. -/
def setvch (vch : Valtype) : Int := decode vch

/-- `CBigNum::getvch`. -/
def getvch (bn : Int) : Valtype := encode bn

/-- `CBigNum::getint`, which saturates. -/
def getint (bn : Int) : Int :=
  if 0 ≤ bn then if 2147483647 < bn then 2147483647 else bn
  else if 2147483647 < bn.natAbs then -2147483648 else bn

/-- `CastToBigNum`, which throws on too many bytes. -/
def castToBigNum (vch : Valtype) : Option Int :=
  if nMaxNumSize < vch.length then none
  else some (setvch (getvch (setvch vch)))

/-- `CastToBool`. -/
def castToBool : Valtype → Bool
  | [] => false
  | byte :: rest =>
      if byte ≠ 0 then !(rest.isEmpty && byte == 0x80) else castToBool rest

variable {vch : Valtype} {bn : Int}

/-- The second conversion of `CastToBigNum` changes the bytes only. -/
theorem castToBigNum_eq :
    castToBigNum vch =
      if nMaxNumSize < vch.length then none else some (decode vch) := by
  rw [castToBigNum, setvch, getvch, setvch, decode_encode]

theorem castToBigNum_eq_some :
    castToBigNum vch = some bn ↔
      vch.length ≤ nMaxNumSize ∧ decode vch = bn := by
  rw [castToBigNum_eq]
  split_ifs with long
  · refine iff_of_false (fun equal => ?_) fun both => ?_
    · cases equal
    · exact absurd both.1 (Nat.not_le_of_lt long)
  · rw [Option.some_inj, and_iff_right (Nat.le_of_not_lt long)]

/-- Numbers that are computed with have 31 bits and a sign. -/
theorem natAbs_lt_of_cast (cast : castToBigNum vch = some bn) :
    bn.natAbs < 2 ^ 31 := by
  rcases castToBigNum_eq_some.mp cast with ⟨short, rfl⟩
  by_cases empty : vch = []
  · subst empty
    decide
  · have small := natAbs_decode_lt empty
    have wide : signBit vch.length ≤ signBit 4 :=
      Nat.mul_le_mul_left _
        (Nat.pow_le_pow_right (by decide) (Nat.sub_le_sub_right short 1))
    exact small.trans_le wide

/-- The bound of `getint` is out of reach. -/
theorem getint_of_cast (cast : castToBigNum vch = some bn) : getint bn = bn := by
  have small := natAbs_lt_of_cast cast
  rw [getint]
  split_ifs <;> omega

/-- What one numeric operation makes of two numbers has at most five bytes. -/
theorem length_getvch_le (small : bn.natAbs < 2 ^ 39) :
    (getvch bn).length ≤ 5 :=
  length_encode_le (by decide) (small.trans_le (by decide))

/-! ## `CastToBool` -/

theorem castToBool_eq_false :
    castToBool vch = false ↔
      leValue vch = 0 ∨ vch ≠ [] ∧ leValue vch = signBit vch.length := by
  induction vch with
  | nil => exact iff_of_true rfl (Or.inl rfl)
  | cons byte rest inductionHypothesis =>
      have value : leValue (byte :: rest) = byte.toNat + 256 * leValue rest := rfl
      have bound : byte.toNat < 256 := byte.toNat_lt
      rw [castToBool, value, List.length_cons]
      by_cases zero : byte = 0
      · have none : byte.toNat = 0 := by rw [zero]; rfl
        rw [if_neg (not_not_intro zero), inductionHypothesis, none]
        cases rest with
        | nil => simp [leValue]
        | cons next others =>
            have larger : signBit ((next :: others).length + 1) =
                256 * signBit (next :: others).length := by
              simp only [signBit, List.length_cons, Nat.add_sub_cancel, pow_succ]
              ring
            rw [larger]
            simp
      · have some : byte.toNat ≠ 0 :=
          fun none => zero (UInt8.toNat_inj.mp none)
        rw [if_pos zero]
        cases rest with
        | nil =>
            have sign : byte = 0x80 ↔ byte.toNat = 128 := by
              rw [← UInt8.toNat_inj]
              rfl
            simp [leValue, signBit, sign, some]
        | cons next others =>
            have multiple : signBit ((next :: others).length + 1) =
                256 * signBit (next :: others).length := by
              simp only [signBit, List.length_cons, Nat.add_sub_cancel, pow_succ]
              ring
            rw [multiple]
            simp only [List.isEmpty_cons, Bool.false_and, Bool.not_false,
              Bool.true_eq_false, false_iff]
            omega

/-- `CastToBool` is the comparison of the number with zero. -/
theorem castToBool_eq (vch : Valtype) :
    castToBool vch = decide (setvch vch ≠ 0) := by
  by_cases empty : vch = []
  · subst empty
    rfl
  · have zero : castToBool vch = false ↔ setvch vch = 0 := by
      have sign := signBit_pos vch.length
      rw [castToBool_eq_false, and_iff_right empty, setvch, decode, if_neg empty]
      split_ifs <;> omega
    by_cases false : castToBool vch = false
    · rw [false, zero.mp false]
      rfl
    · rw [Bool.not_eq_false] at false
      rw [false, eq_comm, decide_eq_true_eq]
      intro none
      rw [zero.mpr none] at false
      cases false

/-- The truth value of a number that was pushed. -/
theorem castToBool_getvch (bn : Int) :
    castToBool (getvch bn) = decide (bn ≠ 0) := by
  rw [castToBool_eq, setvch, getvch, decode_encode]

example : getvch (-255) = [0xff, 0x80] := by decide

end DSValue.Script.Number

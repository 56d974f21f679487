import DSValue.Lib.Encoding
import Mathlib.Data.Nat.Log

/-!
# Integers as sign and magnitude

An integer is written as the little-endian bytes of its magnitude, and the
highest bit of the last byte is its sign.  A byte is added where the magnitude
needs that bit for itself.  Zero has no bytes, so a sequence of zero bytes, a
negative zero and every byte that only moves the sign are other ways to write
a number that has a shorter encoding.
-/

namespace DSValue.Lib.SignMagnitude

open DSValue.Lib.Encoding

/-- The value of the sign in a number of `width` bytes. -/
def signBit (width : Nat) : Nat := 128 * 256 ^ (width - 1)

/-- The bytes that a magnitude and a sign bit need. -/
def width (magnitude : Nat) : Nat :=
  if magnitude = 0 then 0 else (Nat.log2 magnitude + 1) / 8 + 1

/-- The encoding of an integer. -/
def encode (n : Int) : List UInt8 :=
  littleEndian (width n.natAbs)
    (n.natAbs + if n < 0 then signBit (width n.natAbs) else 0)

/-- The integer that some bytes stand for. -/
def decode (vch : List UInt8) : Int :=
  if vch = [] then 0
  else if leValue vch < signBit vch.length then leValue vch
  else -(leValue vch - signBit vch.length : Nat)

variable {n : Int} {magnitude bytes : Nat} {vch : List UInt8}

theorem signBit_pos (bytes : Nat) : 0 < signBit bytes :=
  Nat.mul_pos (by decide) (Nat.pow_pos (by decide))

theorem two_mul_signBit (positive : 0 < bytes) :
    2 * signBit bytes = 256 ^ bytes := by
  rcases Nat.exists_eq_succ_of_ne_zero positive.ne' with ⟨rest, rfl⟩
  rw [signBit, Nat.succ_sub_one, pow_succ]
  ring

theorem width_pos (nonzero : magnitude ≠ 0) : 0 < width magnitude := by
  rw [width, if_neg nonzero]
  exact Nat.succ_pos _

/-- A magnitude leaves the sign bit free. -/
theorem lt_signBit (nonzero : magnitude ≠ 0) :
    magnitude < signBit (width magnitude) := by
  have large : magnitude < 2 ^ (Nat.log2 magnitude + 1) :=
    Nat.lt_log2_self
  have exponent : Nat.log2 magnitude + 1 ≤ 7 + 8 * (width magnitude - 1) := by
    rw [width, if_neg nonzero]
    omega
  calc
    magnitude < 2 ^ (Nat.log2 magnitude + 1) := large
    _ ≤ 2 ^ (7 + 8 * (width magnitude - 1)) :=
      Nat.pow_le_pow_right (by decide) exponent
    _ = signBit (width magnitude) := by
      rw [pow_add, pow_mul]
      rfl

/-- With fewer bytes the sign bit would be taken. -/
theorem signBit_le
    (nonzero : magnitude ≠ 0) (positive : 0 < bytes)
    (fewer : bytes < width magnitude) : signBit bytes ≤ magnitude := by
  have exponent : 7 + 8 * (bytes - 1) ≤ Nat.log2 magnitude := by
    rw [width, if_neg nonzero] at fewer
    omega
  calc
    signBit bytes = 2 ^ (7 + 8 * (bytes - 1)) := by
      rw [pow_add, pow_mul]
      rfl
    _ ≤ 2 ^ Nat.log2 magnitude := Nat.pow_le_pow_right (by decide) exponent
    _ ≤ magnitude := Nat.log2_self_le nonzero

theorem width_le (positive : 0 < bytes) (small : magnitude < signBit bytes) :
    width magnitude ≤ bytes := by
  by_cases zero : magnitude = 0
  · rw [width, if_pos zero]
    exact Nat.zero_le _
  · by_contra wider
    exact absurd (signBit_le zero positive (Nat.lt_of_not_le wider))
      (Nat.not_le_of_lt small)

@[simp]
theorem length_encode (n : Int) : (encode n).length = width n.natAbs := by
  rw [encode, length_littleEndian]

@[simp]
theorem encode_zero : encode 0 = [] := rfl

/-- What is written is read back. -/
theorem decode_encode (n : Int) : decode (encode n) = n := by
  by_cases zero : n = 0
  · rw [zero]
    rfl
  · have nonzero : n.natAbs ≠ 0 := Int.natAbs_ne_zero.mpr zero
    have small := lt_signBit nonzero
    have whole := two_mul_signBit (width_pos nonzero)
    have written : encode n ≠ [] := by
      intro empty
      have none := length_encode n
      rw [empty] at none
      exact (width_pos nonzero).ne none
    rw [decode, if_neg written, length_encode]
    by_cases negative : n < 0
    · have value : leValue (encode n) = n.natAbs + signBit (width n.natAbs) := by
        rw [encode, leValue_littleEndian, if_pos negative,
          Nat.mod_eq_of_lt (by omega)]
      rw [value, if_neg (by omega)]
      omega
    · have value : leValue (encode n) = n.natAbs := by
        rw [encode, leValue_littleEndian, if_neg negative, Nat.add_zero,
          Nat.mod_eq_of_lt (by omega)]
      rw [value, if_pos small]
      omega

theorem encode_injective : Function.Injective encode := by
  intro first second equal
  rw [← decode_encode first, equal, decode_encode]

/-- The magnitude of what some bytes stand for leaves their sign bit free. -/
theorem natAbs_decode_lt (nonempty : vch ≠ []) :
    (decode vch).natAbs < signBit vch.length := by
  have whole := two_mul_signBit (List.length_pos_iff.mpr nonempty)
  have bound := leValue_lt vch
  rw [decode, if_neg nonempty]
  split_ifs with positive
  · exact positive
  · rw [Int.natAbs_neg, Int.natAbs_natCast]
    omega

theorem leValue_eq (nonempty : vch ≠ []) (nonzero : decode vch ≠ 0) :
    leValue vch =
      (decode vch).natAbs +
        if decode vch < 0 then signBit vch.length else 0 := by
  rw [decode, if_neg nonempty] at nonzero ⊢
  split_ifs at nonzero ⊢ <;> omega

/--
The encoding of a number is the only shortest one: all other bytes that stand
for the number are more.
-/
theorem eq_encode_or_longer (vch : List UInt8) :
    vch = encode (decode vch) ∨
      (encode (decode vch)).length < vch.length := by
  by_cases empty : vch = []
  · subst empty
    exact Or.inl rfl
  · have positive := List.length_pos_iff.mpr empty
    by_cases zero : decode vch = 0
    · rw [zero]
      exact Or.inr positive
    · have fits := width_le positive (natAbs_decode_lt empty)
      rw [length_encode]
      rcases Nat.lt_or_eq_of_le fits with shorter | same
      · exact Or.inr shorter
      · refine Or.inl ?_
        rw [encode, same, ← leValue_eq empty zero, littleEndian_leValue]

/-- A number is encoded in at most as many bytes as it was read from. -/
theorem length_encode_decode_le (vch : List UInt8) :
    (encode (decode vch)).length ≤ vch.length := by
  rcases eq_encode_or_longer vch with same | longer
  · exact (congrArg List.length same).ge
  · exact longer.le

/-- A number below the sign bit of some bytes is encoded in as many. -/
theorem length_encode_le
    (positive : 0 < bytes) (small : n.natAbs < signBit bytes) :
    (encode n).length ≤ bytes := by
  rw [length_encode]
  exact width_le positive small

end DSValue.Lib.SignMagnitude

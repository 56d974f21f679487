import DSValue.Consensus.CheckBlock
import DSValue.Lib.Mantissa

/-!
# The compact form of targets

`GetCompact` writes a number as its size in bytes and a mantissa of three
bytes, whose first bit is kept for the sign.  `SetCompact` gives the number cut
to its mantissa back.
-/

namespace DSValue.Consensus.Compact

open DSValue.Lib
open DSValue.Lib.Mantissa
open DSValue.Consensus.CheckBlock

/-- `BN_num_bytes`. -/
def numBytes (magnitude : Nat) : Nat := (magnitude.size + 7) / 8

/-- `CBigNum::GetCompact`. -/
def getCompact (value : Int) : UInt32 :=
  let nSize := numBytes value.natAbs
  let nWord :=
    if nSize ≤ 3 then value.natAbs * 256 ^ (3 - nSize)
    else value.natAbs / 256 ^ (nSize - 3)
  let signed := nWord / 2 ^ 23 % 2 = 1
  let nCompact := if signed then nWord / 256 else nWord
  let nBytes := if signed then nSize + 1 else nSize
  UInt32.ofNat
    (nCompact ||| nBytes <<< 24 ||| if value < 0 then 2 ^ 23 else 0)

/-- The division of `CBigNum`, which throws on a zero divisor. -/
def bnDiv (dividend divisor : Int) : Except Fault Int :=
  if divisor = 0 then throw .exception else pure (dividend.tdiv divisor)

theorem bnDiv_of_pos
    {dividend divisor : Int} (nonnegative : 0 ≤ dividend)
    (positive : 0 < divisor) :
    bnDiv dividend divisor = .ok (dividend / divisor) := by
  rw [bnDiv, if_neg positive.ne', Int.tdiv_eq_ediv_of_nonneg nonnegative]
  rfl

/-- A target that is scaled by at most a factor. -/
theorem scaled_bounds
    {target span factor part : Int} (nonnegative : 0 ≤ target)
    (positive : 0 < factor) (some : 0 < part) (spanLow : part ≤ span)
    (spanHigh : span ≤ factor * (factor * part)) :
    target / factor ≤ target * span / (factor * part) ∧
      target * span / (factor * part) ≤ factor * target := by
  have whole : 0 < factor * part := Int.mul_pos positive some
  constructor
  · rw [Int.le_ediv_iff_mul_le whole, ← mul_assoc]
    calc
      target / factor * factor * part ≤ target * part :=
        Int.mul_le_mul_of_nonneg_right (Int.ediv_mul_le _ positive.ne') some.le
      _ ≤ target * span := Int.mul_le_mul_of_nonneg_left spanLow nonnegative
  · apply Int.ediv_le_of_le_mul whole
    calc
      target * span ≤ target * (factor * (factor * part)) :=
        Int.mul_le_mul_of_nonneg_left spanHigh nonnegative
      _ = factor * target * (factor * part) := by ring

theorem setCompact_ofNat
    {nWord nSize : Nat} (mantissa : nWord < 2 ^ 23) (small : nSize < 256) :
    setCompact (UInt32.ofNat (nWord ||| nSize <<< 24 ||| 0)) =
      if nSize ≤ 3 then (nWord / 256 ^ (3 - nSize) : Nat)
      else (nWord * 256 ^ (nSize - 3) : Nat) := by
  have joined : nWord ||| nSize <<< 24 ||| 0 = nSize * 2 ^ 24 + nWord := by
    rw [Nat.or_zero, Nat.or_comm,
      ← Nat.shiftLeft_add_eq_or_of_lt (by omega : nWord < 2 ^ 24),
      Nat.shiftLeft_eq]
  have number :
      (UInt32.ofNat (nWord ||| nSize <<< 24 ||| 0)).toNat =
        nSize * 2 ^ 24 + nWord := by
    rw [joined, UInt32.toNat_ofNat', Nat.mod_eq_of_lt (by omega)]
  have size : (nSize * 2 ^ 24 + nWord) / 2 ^ 24 = nSize := by omega
  have word : (nSize * 2 ^ 24 + nWord) % 2 ^ 23 = nWord := by omega
  have positive : ¬ (nSize * 2 ^ 24 + nWord) / 2 ^ 23 % 2 = 1 := by omega
  simp only [setCompact, number, size, word, if_neg positive]

/-- The bytes of a number that has any. -/
theorem numBytes_bounds
    {value nSize : Nat} (bytes : numBytes value = nSize + 1) :
    256 ^ nSize ≤ value ∧ value < 256 ^ (nSize + 1) := by
  rw [numBytes] at bytes
  rw [pow_256, pow_256, ← Nat.lt_size, ← Nat.size_le]
  omega

/-- The leading three bytes of a number. -/
def leadingWord (value : Nat) : Nat :=
  if numBytes value ≤ 3 then value * 256 ^ (3 - numBytes value)
  else value / 256 ^ (numBytes value - 3)

theorem leadingWord_lt (value : Nat) : leadingWord value < 2 ^ 24 := by
  cases bytes : numBytes value with
  | zero =>
      have zero : value = 0 := by
        rw [← Nat.size_eq_zero]
        rw [numBytes] at bytes
        omega
      rw [zero]
      decide
  | succ nSize =>
      have upper := (numBytes_bounds bytes).2
      rw [leadingWord, bytes]
      split_ifs with few
      · calc
          value * 256 ^ (3 - (nSize + 1)) <
              256 ^ (nSize + 1) * 256 ^ (3 - (nSize + 1)) :=
            Nat.mul_lt_mul_of_pos_right upper (Nat.pow_pos (by decide))
          _ = 2 ^ 24 := by
            rw [← Nat.pow_add, Nat.add_sub_cancel' few]
            rfl
      · rw [Nat.div_lt_iff_lt_mul (Nat.pow_pos (by decide))]
        calc
          value < 256 ^ (nSize + 1) := upper
          _ = 2 ^ 24 * 256 ^ (nSize + 1 - 3) := by
            rw [show 2 ^ 24 = 256 ^ 3 from rfl, ← Nat.pow_add]
            congr 1
            omega

theorem getCompact_of_unsigned
    {value : Nat} (unsigned : leadingWord value < 2 ^ 23) :
    getCompact value =
      UInt32.ofNat (leadingWord value ||| numBytes value <<< 24 ||| 0) := by
  have sign : ¬ leadingWord value / 2 ^ 23 % 2 = 1 := by omega
  rw [leadingWord] at sign ⊢
  simp only [getCompact, Int.natAbs_natCast, if_neg sign]
  rw [if_neg (not_lt.mpr (Int.natCast_nonneg value))]

theorem getCompact_of_signed
    {value : Nat} (signed : 2 ^ 23 ≤ leadingWord value) :
    getCompact value =
      UInt32.ofNat
        (leadingWord value / 256 ||| (numBytes value + 1) <<< 24 ||| 0) := by
  have upper := leadingWord_lt value
  have sign : leadingWord value / 2 ^ 23 % 2 = 1 := by omega
  rw [leadingWord] at sign ⊢
  simp only [getCompact, Int.natAbs_natCast, if_pos sign]
  rw [if_neg (not_lt.mpr (Int.natCast_nonneg value))]

theorem leadingWord_of_few {value : Nat} (few : numBytes value ≤ 3) :
    leadingWord value = value * 256 ^ (3 - numBytes value) := if_pos few

theorem leadingWord_of_many {value : Nat} (many : 3 ≤ numBytes value) :
    leadingWord value = value / 256 ^ (numBytes value - 3) := by
  rcases Nat.lt_or_eq_of_le many with more | exact
  · exact if_neg (not_le.mpr more)
  · rw [leadingWord_of_few exact.ge, ← exact, Nat.pow_zero, Nat.mul_one,
      Nat.div_one]

theorem le_leadingWord {value : Nat} (few : numBytes value ≤ 3) :
    value ≤ leadingWord value := by
  rw [leadingWord_of_few few]
  exact Nat.le_mul_of_pos_right value (Nat.pow_pos (by decide))

theorem excess_of_unsigned
    {value : Nat} (unsigned : leadingWord value < 2 ^ 23)
    (many : 3 ≤ numBytes value) : excess value = numBytes value - 3 := by
  rcases Nat.exists_eq_add_of_le many with ⟨more, bytes⟩
  have above : numBytes value = more + 2 + 1 := by omega
  have lower := (numBytes_bounds above).1
  rw [leadingWord_of_many many, Nat.div_lt_iff_lt_mul (Nat.pow_pos (by decide)),
    pow_256, ← Nat.pow_add] at unsigned
  apply excess_eq
  · rw [pow_256] at lower
    rcases Nat.eq_zero_or_pos more with none | some
    · exact Or.inr (by omega)
    · exact Or.inl ((Nat.pow_le_pow_right (by decide) (by omega)).trans lower)
  · rw [Nat.add_comm]
    exact unsigned

theorem excess_of_signed
    {value : Nat} (signed : 2 ^ 23 ≤ leadingWord value)
    (many : 3 ≤ numBytes value) : excess value = numBytes value - 2 := by
  rcases Nat.exists_eq_add_of_le many with ⟨more, bytes⟩
  have above : numBytes value = more + 2 + 1 := by omega
  have upper := (numBytes_bounds above).2
  rw [leadingWord_of_many many, Nat.le_div_iff_mul_le (Nat.pow_pos (by decide)),
    pow_256, ← Nat.pow_add] at signed
  rw [pow_256] at upper
  apply excess_eq
  · exact Or.inl ((Nat.pow_le_pow_right (by decide) (by omega)).trans signed)
  · exact upper.trans_le (Nat.pow_le_pow_right (by decide) (by omega))

theorem leadingWord_div
    {value : Nat} (many : 3 ≤ numBytes value) :
    leadingWord value / 256 = value / 256 ^ (numBytes value - 2) := by
  rw [leadingWord_of_many many, Nat.div_div_eq_div_mul, ← Nat.pow_succ]
  congr 2
  omega

theorem setCompact_of_unsigned
    {value : Nat} (unsigned : leadingWord value < 2 ^ 23)
    (small : numBytes value < 255) :
    setCompact (getCompact value) = truncate value := by
  rw [getCompact_of_unsigned unsigned, setCompact_ofNat unsigned (by omega)]
  split_ifs with few
  · rw [truncate_of_lt ((le_leadingWord few).trans_lt unsigned),
      leadingWord_of_few few, Nat.mul_div_cancel _ (Nat.pow_pos (by decide))]
  · rw [truncate, lastUnit, excess_of_unsigned unsigned (by omega),
      leadingWord_of_many (by omega)]

theorem setCompact_of_signed
    {value : Nat} (signed : 2 ^ 23 ≤ leadingWord value)
    (small : numBytes value < 255) :
    setCompact (getCompact value) = truncate value := by
  have upper := leadingWord_lt value
  rw [getCompact_of_signed signed, setCompact_ofNat (by omega) (by omega)]
  split_ifs with few
  · have low : value < 2 ^ 16 := by
      rw [← Nat.size_le]
      rw [numBytes] at few
      omega
    rw [truncate_of_lt (by omega), leadingWord_of_few (by omega),
      Nat.div_div_eq_div_mul, ← Nat.pow_succ',
      show (3 - (numBytes value + 1)).succ = 3 - numBytes value by omega,
      Nat.mul_div_cancel _ (Nat.pow_pos (by decide))]
  · rw [truncate, lastUnit, excess_of_signed signed (by omega),
      leadingWord_div (by omega),
      show numBytes value + 1 - 3 = numBytes value - 2 by omega]

/-- Decoding an encoded target gives the target cut to its mantissa. -/
theorem setCompact_getCompact
    {value : Nat} (small : numBytes value < 255) :
    setCompact (getCompact value) = truncate value := by
  rcases Nat.lt_or_ge (leadingWord value) (2 ^ 23) with unsigned | signed
  · exact setCompact_of_unsigned unsigned small
  · exact setCompact_of_signed signed small

/-- Encoding what was decoded gives the same encoding. -/
theorem getCompact_truncate (value : Nat) :
    getCompact (truncate value) = getCompact value := by
  rcases Nat.lt_or_ge value (2 ^ 23) with small | large
  · rw [truncate_of_lt small]
  have many : 3 ≤ numBytes value := by
    rw [ge_iff_le, ← Nat.lt_size] at large
    rw [numBytes]
    omega
  have bytes : numBytes (truncate value) = numBytes value := by
    rw [numBytes, size_truncate, numBytes]
  have cut : truncate value / lastUnit value = value / lastUnit value :=
    Nat.mul_div_cancel _ (lastUnit_pos value)
  rcases Nat.lt_or_ge (leadingWord value) (2 ^ 23) with unsigned | signed
  · have word : leadingWord (truncate value) = leadingWord value := by
      rw [lastUnit, excess_of_unsigned unsigned many] at cut
      rw [leadingWord_of_many (bytes ▸ many), leadingWord_of_many many, bytes,
        cut]
    rw [getCompact_of_unsigned unsigned,
      getCompact_of_unsigned (word ▸ unsigned), word, bytes]
  · have word :
        leadingWord (truncate value) / 256 = leadingWord value / 256 := by
      rw [lastUnit, excess_of_signed signed many] at cut
      rw [leadingWord_div (bytes ▸ many), leadingWord_div many, bytes, cut]
    rw [getCompact_of_signed signed, getCompact_of_signed (by omega), word,
      bytes]

/-- Any target up to a limit survives another encoding. -/
theorem encoded_target
    {limit value : Nat} (bounded : limit < 2 ^ 256) (small : value ≤ limit) :
    setCompact (getCompact value) = truncate value ∧
      setCompact (getCompact value) ≤ limit ∧
      getCompact (setCompact (getCompact value)) = getCompact value := by
  have upper := small.trans_lt bounded
  rw [← Nat.size_le] at upper
  have decoded :=
    @setCompact_getCompact value (by rw [numBytes]; omega)
  refine ⟨decoded, ?_, ?_⟩
  · rw [decoded]
    exact_mod_cast (truncate_le value).trans small
  · rw [decoded, getCompact_truncate]

end DSValue.Consensus.Compact

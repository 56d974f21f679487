import DSValue.Core.Deserialize
import DSValue.Lib.Bijective

/-!
# Variable-length integers

`WriteVarInt` writes a number in groups of seven bits, the most significant
group first.  Every group but the last has its high bit set and stands for
one more than it spells: the groups in front of the last one are a bijective
numeral in base 128.  So no number has two spellings, the spelling does not
depend on the type of the number, and every sequence of groups is the spelling
of a number.  A sequence whose number does not fit the type is read modulo the
size of the type.

The buffer of `WriteVarInt` has room for `(bits + 6) / 7` groups.  A negative
`int` is below `0x7F` for the comparison that ends the loop and leaves a
single byte, which is read back as a non-negative number.
-/

namespace DSValue.Core.VarInt

open DSValue.Lib.Stream
open DSValue.Lib.Bijective
open DSValue.Core.Deserialize

/-! ## Unsigned integers -/

/-- `tmp[len]`, with whether `len` is positive. -/
def varIntGroup (n : Nat) (follows : Bool) : UInt8 :=
  UInt8.ofNat (n % 128 + if follows then 128 else 0)

/-- The groups in `tmp`, as far as the buffer reaches. -/
def varIntGroups : (size n : Nat) → (follows : Bool) → List UInt8
  | 0, _, _ => []
  | size + 1, n, follows =>
      varIntGroup n follows ::
        if n ≤ 0x7F then [] else varIntGroups size (n / 128 - 1) true

/-- `WriteVarInt` of an unsigned integer. -/
def writeVarInt (bits n : Nat) : List UInt8 :=
  (varIntGroups ((bits + 6) / 7) n false).reverse

/-- The loop of `ReadVarInt`. -/
def readVarIntLoop (bits : Nat) :
    Nat → List UInt8 → Except StreamError (Nat × List UInt8)
  | _, [] => .error .endOfData
  | n, chData :: rest =>
      let value := (n * 128 + chData.toNat % 128) % 2 ^ bits
      if 128 ≤ chData.toNat then
        readVarIntLoop bits ((value + 1) % 2 ^ bits) rest
      else .ok (value, rest)

/-- `ReadVarInt` of an unsigned integer. -/
def readVarInt (bits : Nat) : Reader Nat := fun stream =>
  readVarIntLoop bits 0 stream

/-- `GetSizeOfVarInt` of an unsigned integer. -/
def getSizeOfVarInt (n : Nat) : Nat :=
  if n ≤ 0x7F then 1 else getSizeOfVarInt (n / 128 - 1) + 1
termination_by n

variable {bits : Nat}

theorem toNat_varIntGroup (n : Nat) (follows : Bool) :
    (varIntGroup n follows).toNat =
      n % 128 + if follows then 128 else 0 := by
  rw [varIntGroup, UInt8.toNat_ofNat_of_lt']
  split_ifs <;> simp [UInt8.size] <;> omega

theorem lt_pow_groups
    {n : Nat} (positive : 0 < bits) (fits : n < 2 ^ bits) :
    n < 128 ^ ((bits - 1) / 7 + 1) := by
  refine lt_of_lt_of_le fits ?_
  rw [show (128 : Nat) = 2 ^ 7 by rfl, ← Nat.pow_mul]
  exact Nat.pow_le_pow_right (by decide) (by omega)

theorem varIntGroups_more
    (room : Nat) {n : Nat} (follows : Bool) (more : ¬ n ≤ 0x7F) :
    varIntGroups (room + 1) n follows =
      varIntGroup n follows :: varIntGroups room (n / 128 - 1) true := by
  rw [varIntGroups, if_neg more]

/-! ## Numerals -/

/-- The byte of a digit in front of the last one. -/
def leadingByte (digit : Fin 128) : UInt8 := varIntGroup digit true

theorem leadingByte_ofNat (n : Nat) :
    leadingByte (Fin.ofNat 128 n) = varIntGroup n true := by
  rw [leadingByte, varIntGroup, varIntGroup, Fin.val_ofNat, Nat.mod_mod]

/-- The groups in front of the last one are a bijective numeral. -/
theorem reverse_varIntGroups
    (room : Nat) {n : Nat} (follows : Bool) (fits : n < 128 ^ (room + 1)) :
    (varIntGroups (room + 1) n follows).reverse =
      (numeral 128 (n / 128)).map leadingByte ++
        [varIntGroup n follows] := by
  induction room generalizing n follows with
  | zero =>
      rw [varIntGroups, if_pos (by omega), Nat.div_eq_of_lt (by omega),
        numeral_zero]
      rfl
  | succ room inductionHypothesis =>
      by_cases final : n ≤ 0x7F
      · rw [varIntGroups, if_pos final, Nat.div_eq_of_lt (by omega),
          numeral_zero]
        rfl
      · have earlier : n / 128 - 1 < 128 ^ (room + 1) := by
          rw [Nat.pow_succ] at fits
          omega
        have next : n / 128 = n / 128 - 1 + 1 := by omega
        rw [varIntGroups_more _ _ final, List.reverse_cons,
          inductionHypothesis true earlier, next, numeral_succ,
          Nat.add_sub_cancel, List.map_append, List.map_singleton,
          leadingByte_ofNat]

/-- The spelling of a number does not depend on its type. -/
theorem writeVarInt_eq_numeral
    {n : Nat} (positive : 0 < bits) (fits : n < 2 ^ bits) :
    writeVarInt bits n =
      (numeral 128 (n / 128)).map leadingByte ++
        [varIntGroup n false] := by
  have groups : (bits + 6) / 7 = (bits - 1) / 7 + 1 := by omega
  rw [writeVarInt, groups,
    reverse_varIntGroups _ false (lt_pow_groups positive fits)]

theorem getSizeOfVarInt_eq (n : Nat) :
    getSizeOfVarInt n = (numeral 128 (n / 128)).length + 1 := by
  induction n using Nat.strongRecOn with
  | ind n inductionHypothesis =>
      rw [getSizeOfVarInt]
      split_ifs with final
      · rw [Nat.div_eq_of_lt (by omega), numeral_zero]
        rfl
      · have next : n / 128 = n / 128 - 1 + 1 := by omega
        rw [inductionHypothesis _ (by omega), next, numeral_succ,
          Nat.add_sub_cancel, List.length_append, List.length_singleton]

/-- `WriteVarInt` writes as many bytes as `GetSizeOfVarInt` says. -/
theorem length_writeVarInt
    {n : Nat} (positive : 0 < bits) (fits : n < 2 ^ bits) :
    (writeVarInt bits n).length = getSizeOfVarInt n := by
  rw [writeVarInt_eq_numeral positive fits, getSizeOfVarInt_eq,
    List.length_append, List.length_map, List.length_singleton]

/-- The numbers with a limited number of groups. -/
theorem getSizeOfVarInt_le_iff (n count : Nat) :
    getSizeOfVarInt n ≤ count + 1 ↔
      n < 128 * ∑ place ∈ Finset.range (count + 1), 128 ^ place := by
  rw [getSizeOfVarInt_eq, Nat.add_le_add_iff_right, length_numeral_le_iff,
    Nat.div_lt_iff_lt_mul (by decide), Nat.mul_comm]

/-- The buffer has room for the groups of every number of its type. -/
theorem getSizeOfVarInt_le_buffer
    {n : Nat} (positive : 0 < bits) (fits : n < 2 ^ bits) :
    getSizeOfVarInt n ≤ (bits + 6) / 7 := by
  have groups : (bits + 6) / 7 = (bits - 1) / 7 + 1 := by omega
  have highest :
      128 ^ ((bits - 1) / 7) ≤
        ∑ place ∈ Finset.range ((bits - 1) / 7 + 1), 128 ^ place := by
    rw [Finset.sum_range_succ]
    exact Nat.le_add_left _ _
  have room := lt_pow_groups positive fits
  rw [Nat.pow_succ'] at room
  rw [groups, getSizeOfVarInt_le_iff]
  exact lt_of_lt_of_le room (Nat.mul_le_mul_left 128 highest)

/-! ## Terminated sequences -/

/-- All bytes but the last have bit 128 set. -/
def Terminated (a : List UInt8) : Prop :=
  ∃ leading last, a = leading ++ [last] ∧
    (∀ byte ∈ leading, 128 ≤ byte.toNat) ∧ last.toNat < 128

/-- The number that a byte sequence encodes. -/
def encodedNumber (a : List UInt8) : Nat :=
  (a.getD (a.length - 1) 0).toNat % 128 +
    ∑ i ∈ Finset.Ico 1 a.length,
      128 ^ i * ((a.getD (a.length - i - 1) 0).toNat % 128 + 1)

example : encodedNumber [0x8E, 0xFE, 0xFE, 0xFF, 0x00] = 2 ^ 32 := by decide

/-- The seven low bits of a byte. -/
def digitOf (byte : UInt8) : Fin 128 := Fin.ofNat 128 byte.toNat

theorem encodedNumber_singleton (last : UInt8) :
    encodedNumber [last] = last.toNat % 128 := by
  simp [encodedNumber]

/-- A first byte stands for the highest place. -/
theorem encodedNumber_cons
    (byte : UInt8) {a : List UInt8} (nonempty : a ≠ []) :
    encodedNumber (byte :: a) =
      (byte.toNat % 128 + 1) * 128 ^ a.length + encodedNumber a := by
  rcases List.exists_cons_of_ne_nil nonempty with ⟨head, tail, rfl⟩
  have first :
      (byte :: head :: tail).getD
        (tail.length + 1 + 1 - (tail.length + 1) - 1) 0 = byte := by
    rw [Nat.add_sub_cancel_left]
    rfl
  have later :
      ∀ i ∈ Finset.Ico 1 (tail.length + 1),
        128 ^ i *
            (((byte :: head :: tail).getD
              (tail.length + 1 + 1 - i - 1) 0).toNat % 128 + 1) =
          128 ^ i *
            (((head :: tail).getD (tail.length + 1 - i - 1) 0).toNat %
              128 + 1) := by
    intro i member
    have inside := (Finset.mem_Ico.mp member).2
    rw [show tail.length + 1 + 1 - i - 1 = tail.length + 1 - i - 1 + 1 by omega,
      List.getD_cons_succ]
  rw [encodedNumber, encodedNumber]
  simp only [List.length_cons, Nat.add_sub_cancel]
  rw [Finset.sum_Ico_succ_top (by omega), Finset.sum_congr rfl later, first,
    List.getD_cons_succ]
  ring

theorem encodedNumber_eq (leading : List UInt8) (last : UInt8) :
    encodedNumber (leading ++ [last]) =
      number (leading.map digitOf) * 128 + last.toNat % 128 := by
  induction leading with
  | nil =>
      rw [List.nil_append, encodedNumber_singleton, List.map_nil, number,
        List.foldl_nil, Nat.zero_mul, Nat.zero_add]
  | cons byte leading inductionHypothesis =>
      have nonempty : leading ++ [last] ≠ [] := by simp
      rw [List.cons_append, encodedNumber_cons byte nonempty,
        inductionHypothesis, List.map_cons, number_cons, List.length_append,
        List.length_singleton, List.length_map, Nat.pow_succ, digitOf,
        Fin.val_ofNat]
      ring

/-! ## Reading a sequence -/

/-- The bytes in front of the last one, modulo the size of the type. -/
theorem readVarIntLoop_leading
    (bits : Nat) {leading : List UInt8} (follows : ∀ byte ∈ leading, 128 ≤ byte.toNat)
    (n : Nat) (tail : List UInt8) :
    readVarIntLoop bits (n % 2 ^ bits) (leading ++ tail) =
      readVarIntLoop bits
        ((leading.map digitOf).foldl (shift 128) n % 2 ^ bits) tail := by
  induction leading generalizing n with
  | nil => rfl
  | cons byte leading inductionHypothesis =>
      have more := follows byte List.mem_cons_self
      have later := inductionHypothesis
        (fun other member => follows other (List.mem_cons_of_mem _ member))
      have next :
          ((n % 2 ^ bits * 128 + byte.toNat % 128) % 2 ^ bits + 1) % 2 ^ bits =
            shift 128 n (digitOf byte) % 2 ^ bits := by
        rw [shift, digitOf, Fin.val_ofNat, Nat.mod_add_mod, Nat.add_assoc,
          Nat.add_mod, Nat.mod_mul_mod, ← Nat.add_mod, Nat.add_assoc]
      rw [List.cons_append, readVarIntLoop, if_pos more, next, later,
        List.map_cons, List.foldl_cons]

/-- A terminated sequence is read as its number, modulo the size of the type. -/
theorem readVarInt_terminated
    {a : List UInt8} (terminated : Terminated a) (following : List UInt8) :
    readVarInt bits (a ++ following) =
      .ok (encodedNumber a % 2 ^ bits, following) := by
  rcases terminated with ⟨leading, last, rfl, follows, ends⟩
  have start := readVarIntLoop_leading bits follows 0 (last :: following)
  rw [Nat.zero_mod] at start
  rw [readVarInt, List.append_assoc, List.singleton_append, start,
    readVarIntLoop, encodedNumber_eq, if_neg (not_le.mpr ends), Nat.add_mod,
    Nat.mod_mul_mod, ← Nat.add_mod]
  rfl

/-! ## One spelling -/

theorem leadingByte_digitOf {byte : UInt8} (more : 128 ≤ byte.toNat) :
    leadingByte (digitOf byte) = byte := by
  have small := byte.toNat_lt
  apply UInt8.toNat_inj.mp
  rw [leadingByte, toNat_varIntGroup, digitOf, Fin.val_ofNat, if_pos rfl]
  omega

theorem digitOf_leadingByte (digit : Fin 128) :
    digitOf (leadingByte digit) = digit := by
  have small := digit.isLt
  apply Fin.ext
  rw [digitOf, Fin.val_ofNat, leadingByte, toNat_varIntGroup, if_pos rfl]
  omega

theorem terminated_writeVarInt
    {n : Nat} (positive : 0 < bits) (fits : n < 2 ^ bits) :
    Terminated (writeVarInt bits n) := by
  refine ⟨_, _, writeVarInt_eq_numeral positive fits, ?_, ?_⟩
  · intro byte member
    rcases List.mem_map.mp member with ⟨digit, -, rfl⟩
    rw [leadingByte, toNat_varIntGroup, if_pos rfl]
    omega
  · rw [toNat_varIntGroup, if_neg Bool.false_ne_true]
    omega

theorem encodedNumber_writeVarInt
    {n : Nat} (positive : 0 < bits) (fits : n < 2 ^ bits) :
    encodedNumber (writeVarInt bits n) = n := by
  have digits : digitOf ∘ leadingByte = id := funext digitOf_leadingByte
  rw [writeVarInt_eq_numeral positive fits, encodedNumber_eq, List.map_map,
    digits, List.map_id, number_numeral, toNat_varIntGroup,
    if_neg Bool.false_ne_true]
  omega

/-- A terminated sequence is what is written for its number. -/
theorem writeVarInt_encodedNumber
    {a : List UInt8} (terminated : Terminated a) (positive : 0 < bits)
    (fits : encodedNumber a < 2 ^ bits) :
    writeVarInt bits (encodedNumber a) = a := by
  rw [writeVarInt_eq_numeral positive fits]
  rcases terminated with ⟨leading, last, rfl, follows, ends⟩
  have front :
      encodedNumber (leading ++ [last]) / 128 =
        number (leading.map digitOf) := by
    rw [encodedNumber_eq]
    omega
  have final : varIntGroup (encodedNumber (leading ++ [last])) false = last := by
    apply UInt8.toNat_inj.mp
    rw [toNat_varIntGroup, encodedNumber_eq, if_neg Bool.false_ne_true]
    omega
  have same : leading.map (leadingByte ∘ digitOf) = leading.map id :=
    List.map_congr_left fun byte member =>
      leadingByte_digitOf (follows byte member)
  rw [front, final, numeral_number, List.map_map, same, List.map_id]

/-- `ReadVarInt` takes back what `WriteVarInt` wrote. -/
theorem reads_readVarInt
    {n : Nat} (positive : 0 < bits) (fits : n < 2 ^ bits) :
    Reads (readVarInt bits) (writeVarInt bits n) n := by
  intro rest
  rw [readVarInt_terminated (terminated_writeVarInt positive fits),
    encodedNumber_writeVarInt positive fits, Nat.mod_eq_of_lt fits]

/-! ## Signed integers -/

/-- `WriteVarInt` of an `int`. -/
def writeVarInt32 (value : Int32) : List UInt8 :=
  if value < 0 then [UInt8.ofNat (value.toBitVec.toNat % 128)]
  else writeVarInt 32 value.toBitVec.toNat

/-- `GetSizeOfVarInt` of an `int`. -/
def getSizeOfVarInt32 (value : Int32) : Nat :=
  if value < 0 then 1 else getSizeOfVarInt value.toBitVec.toNat

theorem length_writeVarInt32 (value : Int32) :
    (writeVarInt32 value).length = getSizeOfVarInt32 value := by
  rw [writeVarInt32, getSizeOfVarInt32]
  split_ifs
  · rfl
  · exact length_writeVarInt (by decide) value.toBitVec.isLt

/-- `ReadVarInt` of an `int`. -/
def readVarInt32 : Reader Int32 := do
  let n ← readVarInt 32
  pure (Int32.ofBitVec (BitVec.ofNat 32 n))

theorem reads_readVarInt32 {value : Int32} (nonneg : 0 ≤ value) :
    Reads readVarInt32 (writeVarInt32 value) value := by
  have taken :=
    reads_readVarInt (show 0 < 32 by decide) value.toBitVec.isLt
  rw [writeVarInt32, if_neg (Int32.not_lt.mpr nonneg), ← List.append_nil
    (writeVarInt 32 value.toBitVec.toNat)]
  refine taken.bind ?_
  rw [BitVec.ofNat_toNat, BitVec.setWidth_eq]
  exact Reads.pure value

/-- The byte of a negative number is read as a number, too. -/
theorem exists_reads_readVarInt32 (value : Int32) :
    ∃ taken, Reads readVarInt32 (writeVarInt32 value) taken := by
  by_cases negative : value < 0
  · have small : value.toBitVec.toNat % 128 < 2 ^ 32 := by omega
    have byte : writeVarInt32 value =
        writeVarInt 32 (value.toBitVec.toNat % 128) := by
      have group : value.toBitVec.toNat % 128 ≤ 0x7F := by omega
      rw [writeVarInt32, if_pos negative, writeVarInt, varIntGroups,
        if_pos group, varIntGroup, Nat.mod_mod]
      rfl
    refine ⟨Int32.ofBitVec (BitVec.ofNat 32 (value.toBitVec.toNat % 128)), ?_⟩
    rw [byte, ← List.append_nil (writeVarInt 32 _)]
    refine (reads_readVarInt (by decide) small).bind ?_
    exact Reads.pure _
  · exact ⟨value, reads_readVarInt32 (Int32.not_lt.mp negative)⟩

end DSValue.Core.VarInt

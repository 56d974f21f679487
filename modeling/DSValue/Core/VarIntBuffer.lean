import DSValue.Core.VarInt
import DSValue.Lib.MachineInt

/-!
# The buffer behind a variable-length integer

`WriteVarInt` stores the groups of a number in `tmp`, the last group first,
and writes them out backwards.  The buffer has as many bytes as the groups of
the largest number of the type, so that no group is stored behind it and what
it holds before does not matter.

With the compact sizes this settles the two codecs for lengths and counts:
both readers take back what the writers wrote and stop right behind it.
-/

namespace DSValue.Core.VarIntBuffer

open DSValue.Lib
open DSValue.Core.Serialize
open DSValue.Core.Deserialize
open DSValue.Core.VarInt hiding writeVarInt

variable {bits size : Nat}

/-! ## The buffer -/

/-- `(n & 0x7F) | (len ? 0x80 : 0x00)` as an `unsigned char`. -/
def groupByte (n : BitVec bits) (len : Nat) : UInt8 :=
  UInt8.ofNat ((n &&& 0x7F) ||| if len = 0 then 0x00 else 0x80).toNat

/-- The first loop of `WriteVarInt`: `tmp` and the last `len`. -/
def fillTmp (n : BitVec bits) (tmp : Vector UInt8 size) (len : Nat) :
    Except Fault (Vector UInt8 size × Nat) :=
  if inside : len < size then
    let filled := tmp.set len (groupByte n len)
    if n ≤ 0x7F then .ok (filled, len)
    else fillTmp ((n >>> 7) - 1) filled (len + 1)
  else .error .outOfRange
termination_by size - len

/-- `tmp[len]`. -/
def load (tmp : Vector UInt8 size) (len : Nat) : Except Fault UInt8 :=
  if inside : len < size then .ok tmp[len] else .error .outOfRange

/-- The second loop of `WriteVarInt`: `tmp[len]` and down to `tmp[0]`. -/
def writeTmp (tmp : Vector UInt8 size) : Nat → Except Fault (List UInt8)
  | 0 => do
      let byte ← load tmp 0
      pure [byte]
  | len + 1 => do
      let byte ← load tmp (len + 1)
      let bytes ← writeTmp tmp len
      pure (byte :: bytes)

/-- `WriteVarInt`, with what its buffer holds before. -/
def writeVarInt (n : BitVec bits) (tmp : Vector UInt8 ((bits + 6) / 7)) :
    Except Fault (List UInt8) := do
  let (filled, len) ← fillTmp n tmp 0
  writeTmp filled len

/-- The constants of the loop are as they are written in every wide type. -/
theorem toNat_constant {value : Nat} (wide : 8 ≤ bits) (byte : value < 256) :
    (BitVec.ofNat bits value).toNat = value := by
  have room : 2 ^ 8 ≤ 2 ^ bits := Nat.pow_le_pow_right (by decide) wide
  exact Nat.mod_eq_of_lt (lt_of_lt_of_le byte room)

theorem le_mask_iff (wide : 8 ≤ bits) (n : BitVec bits) :
    n ≤ 0x7F ↔ n.toNat ≤ 0x7F := by
  have mask : (0x7F : BitVec bits).toNat = 0x7F := toNat_constant wide (by decide)
  rw [BitVec.le_def, mask]

theorem groupByte_eq (wide : 8 ≤ bits) (n : BitVec bits) (len : Nat) :
    groupByte n len = varIntGroup n.toNat (decide (len ≠ 0)) := by
  have mask : (0x7F : BitVec bits).toNat = 2 ^ 7 - 1 :=
    toNat_constant wide (by decide)
  have high : (0x80 : BitVec bits).toNat = 2 ^ 7 * 1 :=
    toNat_constant wide (by decide)
  have group : (n &&& 0x7F).toNat = n.toNat % 2 ^ 7 := by
    rw [BitVec.toNat_and, mask, Nat.and_two_pow_sub_one_eq_mod]
  have small : n.toNat % 2 ^ 7 < 2 ^ 7 := Nat.mod_lt _ (by decide)
  rw [groupByte, varIntGroup, BitVec.toNat_or, group]
  by_cases first : len = 0
  · simp [first]
  · rw [if_neg first, high, Nat.or_comm, ← Nat.two_pow_add_eq_or_of_lt small,
      decide_eq_true first, if_pos rfl, Nat.add_comm]
    rfl

theorem toNat_next
    (wide : 8 ≤ bits) {n : BitVec bits} (more : ¬ n ≤ 0x7F) :
    ((n >>> 7) - 1).toNat = n.toNat / 128 - 1 := by
  rw [le_mask_iff wide] at more
  have one : (1 : BitVec bits).toNat = 1 := toNat_constant wide (by decide)
  have shifted : (n >>> 7).toNat = n.toNat / 128 := by
    rw [BitVec.toNat_ushiftRight, Nat.shiftRight_eq_div_pow]
  have positive : (1 : BitVec bits) ≤ n >>> 7 := by
    rw [BitVec.le_def, one, shifted]
    omega
  rw [BitVec.toNat_sub_of_le positive, shifted, one]

/-- A stored group is the last one so far. -/
theorem take_set
    (wide : 8 ≤ bits) (n : BitVec bits) (tmp : Vector UInt8 size) {len : Nat}
    (inside : len < size) :
    (tmp.set len (groupByte n len)).toList.take (len + 1) =
      tmp.toList.take len ++ [varIntGroup n.toNat (decide (len ≠ 0))] := by
  have place : len < tmp.toList.length := by rwa [Vector.length_toList]
  rw [Vector.toList_set, List.take_add_one, List.take_set_of_le (le_refl len),
    List.getElem?_set_self place, groupByte_eq wide]
  rfl

/-- No group is stored behind a buffer with room for all groups. -/
theorem fillTmp_eq
    (wide : 8 ≤ bits) (room : Nat) {n : BitVec bits}
    (tmp : Vector UInt8 size) {len : Nat} (left : len + (room + 1) = size)
    (fits : n.toNat < 128 ^ (room + 1)) :
    ∃ filled last, fillTmp n tmp len = .ok (filled, last) ∧ last < size ∧
      filled.toList.take (last + 1) =
        tmp.toList.take len ++
          varIntGroups (room + 1) n.toNat (decide (len ≠ 0)) := by
  induction room generalizing n tmp len with
  | zero =>
      have inside : len < size := by omega
      have final : n.toNat ≤ 0x7F := by omega
      refine ⟨_, len, ?_, inside, (take_set wide n tmp inside).trans ?_⟩
      · rw [fillTmp, dif_pos inside, if_pos ((le_mask_iff wide n).mpr final)]
      · rw [varIntGroups, if_pos final]
  | succ room inductionHypothesis =>
      have inside : len < size := by omega
      by_cases final : n ≤ 0x7F
      · refine ⟨_, len, ?_, inside, (take_set wide n tmp inside).trans ?_⟩
        · rw [fillTmp, dif_pos inside, if_pos final]
        · rw [varIntGroups, if_pos ((le_mask_iff wide n).mp final)]
      · have earlier : ((n >>> 7) - 1).toNat < 128 ^ (room + 1) := by
          rw [Nat.pow_succ] at fits
          rw [toNat_next wide final]
          omega
        rcases inductionHypothesis (tmp.set len (groupByte n len))
            (show len + 1 + (room + 1) = size by omega) earlier with
          ⟨filled, last, filling, stored, groups⟩
        refine ⟨filled, last, ?_, stored, ?_⟩
        · rw [fillTmp, dif_pos inside, if_neg final]
          exact filling
        · have more : ¬ n.toNat ≤ 0x7F := mt (le_mask_iff wide n).mpr final
          rw [groups, take_set wide n tmp inside, List.append_assoc,
            toNat_next wide final, varIntGroups_more (room + 1) _ more,
            decide_eq_true (Nat.succ_ne_zero len)]
          rfl

theorem load_eq {tmp : Vector UInt8 size} {len : Nat} (inside : len < size) :
    load tmp len = .ok tmp[len] :=
  dif_pos inside

/-- The groups are written backwards. -/
theorem writeTmp_eq
    (tmp : Vector UInt8 size) {len : Nat} (inside : len < size) :
    writeTmp tmp len = .ok (tmp.toList.take (len + 1)).reverse := by
  have place : len < tmp.toList.length := by rwa [Vector.length_toList]
  induction len with
  | zero =>
      rw [writeTmp, load_eq inside, List.take_succ_eq_append_getElem place]
      rfl
  | succ len inductionHypothesis =>
      have rest := inductionHypothesis (by omega) (by omega)
      rw [writeTmp, load_eq inside, List.take_succ_eq_append_getElem place,
        List.reverse_append, rest]
      rfl

/-- `WriteVarInt` stays inside its buffer, whatever is in it. -/
theorem writeVarInt_eq
    (wide : 8 ≤ bits) (n : BitVec bits)
    (tmp : Vector UInt8 ((bits + 6) / 7)) :
    writeVarInt n tmp = .ok (VarInt.writeVarInt bits n.toNat) := by
  have groups : (bits + 6) / 7 = (bits - 1) / 7 + 1 := by omega
  rcases fillTmp_eq wide ((bits - 1) / 7) tmp
      (by rw [Nat.zero_add, groups]) (lt_pow_groups (by omega) n.isLt) with
    ⟨filled, last, filling, inside, stored⟩
  have written := writeTmp_eq filled inside
  rw [stored, ← groups] at written
  rw [writeVarInt, filling]
  exact written

/-! ## The two codecs -/

/-- A number, written and read back. -/
theorem written_varInt
    (wide : 8 ≤ bits) (n : BitVec bits) (tmp : Vector UInt8 ((bits + 6) / 7)) :
    ∃ written, writeVarInt n tmp = .ok written ∧
      Terminated written ∧ encodedNumber written = n.toNat ∧
      written.length = getSizeOfVarInt n.toNat ∧
      written.length ≤ (bits + 6) / 7 ∧
      ∀ following,
        readVarInt bits (written ++ following) = .ok (n.toNat, following) := by
  have positive : 0 < bits := by omega
  have size := length_writeVarInt positive n.isLt
  refine ⟨_, writeVarInt_eq wide n tmp, terminated_writeVarInt positive n.isLt,
    encodedNumber_writeVarInt positive n.isLt, size, ?_,
    reads_readVarInt positive n.isLt⟩
  rw [size]
  exact getSizeOfVarInt_le_buffer positive n.isLt

/-- A sequence, read and written again. -/
theorem writeVarInt_of_terminated
    (wide : 8 ≤ bits) {a : List UInt8} (terminated : Terminated a)
    (fits : encodedNumber a < 2 ^ bits) :
    ∃ n : BitVec bits, n.toNat = encodedNumber a ∧
      (∀ following,
        readVarInt bits (a ++ following) = .ok (n.toNat, following)) ∧
      ∀ tmp, writeVarInt n tmp = .ok a := by
  have value : (BitVec.ofNat bits (encodedNumber a)).toNat = encodedNumber a :=
    Nat.mod_eq_of_lt fits
  refine ⟨BitVec.ofNat bits (encodedNumber a), value, ?_, ?_⟩
  · intro following
    rw [readVarInt_terminated terminated, value, Nat.mod_eq_of_lt fits]
  · intro tmp
    rw [writeVarInt_eq wide, value,
      writeVarInt_encodedNumber terminated (by omega) fits]

theorem readCompactSize_of_prefix
    {nSize : UInt64} {stream : List UInt8} (small : nSize.toNat ≤ MAX_SIZE)
    (begins : writeCompactSize nSize <+: stream) :
    readCompactSize stream =
      .ok (nSize.toNat, stream.drop (getSizeOfCompactSize nSize)) := by
  rcases begins with ⟨following, rfl⟩
  rw [readCompactSize_append, if_neg (not_lt.mpr small),
    ← length_writeCompactSize_eq, List.drop_left]

/--
The readers of variable-length integers and of compact sizes take back what
was written and nothing else, with the number of bytes that the size functions
return.
-/
theorem varInt_and_compactSize :
    (∀ bits, bits = 32 ∨ bits = 64 →
      (∀ (n : BitVec bits) (tmp : Vector UInt8 ((bits + 6) / 7)),
        ∃ written, writeVarInt n tmp = .ok written ∧
          Terminated written ∧ encodedNumber written = n.toNat ∧
          written.length = getSizeOfVarInt n.toNat ∧
          written.length ≤ (bits + 6) / 7 ∧
          ∀ following,
            readVarInt bits (written ++ following) =
              .ok (n.toNat, following)) ∧
      (∀ a, Terminated a → encodedNumber a < 2 ^ bits →
        ∃ n : BitVec bits, n.toNat = encodedNumber a ∧
          (∀ following,
            readVarInt bits (a ++ following) = .ok (n.toNat, following)) ∧
          ∀ tmp, writeVarInt n tmp = .ok a)) ∧
    (∀ stream, (∃ result, readCompactSize stream = .ok result) ↔
      ∃ nSize : UInt64, nSize.toNat ≤ MAX_SIZE ∧
        writeCompactSize nSize <+: stream) ∧
    (∀ (nSize : UInt64) stream, nSize.toNat ≤ MAX_SIZE →
      writeCompactSize nSize <+: stream →
        readCompactSize stream =
          .ok (nSize.toNat, stream.drop (getSizeOfCompactSize nSize))) := by
  refine ⟨?_, ?_, fun nSize stream => readCompactSize_of_prefix⟩
  · intro bits type
    have wide : 8 ≤ bits := by omega
    exact ⟨written_varInt wide, fun a => writeVarInt_of_terminated wide⟩
  · intro stream
    constructor
    · rintro ⟨⟨nSizeRet, rest⟩, read⟩
      rcases readCompactSize_eq_ok.mp read with ⟨nSize, small, -, written⟩
      exact ⟨nSize, small, rest, written.symm⟩
    · rintro ⟨nSize, small, begins⟩
      exact ⟨_, readCompactSize_of_prefix small begins⟩

theorem varInt_and_compactSize_16511 :
    (∀ tmp, writeVarInt (16511 : BitVec 32) tmp = .ok [0xFF, 0x7F]) ∧
      readVarInt 32 [0xFF, 0x7F, 0x2A] = .ok (16511, [0x2A]) ∧
      readCompactSize [0xFD, 0x7F, 0x40, 0x2A] = .ok (16511, [0x2A]) := by
  rcases varInt_and_compactSize with ⟨varInts, -, compactSizes⟩
  have number : encodedNumber [0xFF, 0x7F] = 16511 := by decide
  have terminated : Terminated [0xFF, 0x7F] :=
    ⟨[0xFF], 0x7F, rfl, by simp, by decide⟩
  rcases (varInts 32 (Or.inl rfl)).2 _ terminated (by decide) with
    ⟨n, value, reads, writes⟩
  rw [number] at value
  have same : n = 16511 := BitVec.eq_of_toNat_eq value
  subst same
  exact ⟨writes, reads [0x2A], compactSizes 16511 _ (by decide) (by decide)⟩

end DSValue.Core.VarIntBuffer

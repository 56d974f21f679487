import DSValue.Lib.Encoding

/-!
# Stream serialization of the primitive types

The fixed-width fields of `serialize.h` are written as the raw little-endian
bytes of the object, and the size of a container is written as a compact
size: one byte below 253, otherwise a marker byte followed by two, four or
eight bytes.  Every writer of this module is self-delimiting.
-/

namespace DSValue.Core.Serialize

open DSValue.Lib.Encoding

/-- The 256-bit unsigned integers used as hashes, keys and chain work. -/
abbrev Uint256 := BitVec 256

/-- The 160-bit unsigned integers used as addresses. -/
abbrev Uint160 := BitVec 160

/-! ## Fixed-width fields -/

/-- `READWRITE` of an `int`. -/
def writeInt32 (value : Int32) : List UInt8 :=
  littleEndian 4 value.toBitVec.toNat

/-- `READWRITE` of an `unsigned int`. -/
def writeUInt32 (value : UInt32) : List UInt8 :=
  littleEndian 4 value.toNat

/-- `READWRITE` of an `int64_t`. -/
def writeInt64 (value : Int64) : List UInt8 :=
  littleEndian 8 value.toBitVec.toNat

/-- `READWRITE` of a `uint256`. -/
def writeUint256 (value : Uint256) : List UInt8 :=
  littleEndian 32 value.toNat

theorem selfDelimiting_writeInt32 : SelfDelimiting writeInt32 := by
  apply selfDelimiting_littleEndian
  · intro first second equal
    exact Int32.toBitVec_inj.mp (BitVec.eq_of_toNat_eq equal)
  · intro value
    exact value.toBitVec.isLt

theorem selfDelimiting_writeUInt32 : SelfDelimiting writeUInt32 := by
  apply selfDelimiting_littleEndian
  · intro first second equal
    exact UInt32.toNat_inj.mp equal
  · intro value
    exact value.toNat_lt

theorem selfDelimiting_writeInt64 : SelfDelimiting writeInt64 := by
  apply selfDelimiting_littleEndian
  · intro first second equal
    exact Int64.toBitVec_inj.mp (BitVec.eq_of_toNat_eq equal)
  · intro value
    exact value.toBitVec.isLt

theorem selfDelimiting_writeUint256 : SelfDelimiting writeUint256 := by
  apply selfDelimiting_littleEndian
  · intro first second equal
    exact BitVec.eq_of_toNat_eq equal
  · intro value
    exact value.isLt

/-! ## Compact sizes -/

/-- `WriteCompactSize`. -/
def writeCompactSize (nSize : UInt64) : List UInt8 :=
  if nSize.toNat < 253 then
    littleEndian 1 nSize.toNat
  else if nSize.toNat ≤ 0xffff then
    253 :: littleEndian 2 nSize.toNat
  else if nSize.toNat ≤ 0xffffffff then
    254 :: littleEndian 4 nSize.toNat
  else
    255 :: littleEndian 8 nSize.toNat

/-- The first byte of a compact size tells how many bytes follow. -/
theorem writeCompactSize_eq_cons (nSize : UInt64) :
    writeCompactSize nSize =
      if nSize.toNat < 253 then [UInt8.ofNat nSize.toNat]
      else if nSize.toNat ≤ 0xffff then 253 :: littleEndian 2 nSize.toNat
      else if nSize.toNat ≤ 0xffffffff then 254 :: littleEndian 4 nSize.toNat
      else 255 :: littleEndian 8 nSize.toNat := by
  rw [writeCompactSize]
  split_ifs with small
  · rw [littleEndian, littleEndian, Nat.mod_eq_of_lt (by omega)]
  all_goals rfl

theorem ofNat_ne_marker
    {value : Nat} {marker : UInt8}
    (small : value < 253) (large : 253 ≤ marker.toNat) :
    UInt8.ofNat value ≠ marker := by
  intro equal
  have bytes := congrArg UInt8.toNat equal
  rw [UInt8.toNat_ofNat_of_lt' (show value < 256 by omega)] at bytes
  omega

theorem eq_of_ofNat_eq
    {first second : UInt64}
    (firstSmall : first.toNat < 253)
    (secondSmall : second.toNat < 253)
    (equal : UInt8.ofNat first.toNat = UInt8.ofNat second.toNat) :
    first = second := by
  have bytes := congrArg UInt8.toNat equal
  rw [UInt8.toNat_ofNat_of_lt' (show first.toNat < 256 by omega),
    UInt8.toNat_ofNat_of_lt' (show second.toNat < 256 by omega)] at bytes
  exact UInt64.toNat_inj.mp bytes

theorem eq_of_littleEndian_append
    {width : Nat} {first second : UInt64} {restFirst restSecond : List UInt8}
    (firstFits : first.toNat < 256 ^ width)
    (secondFits : second.toNat < 256 ^ width)
    (equal :
      littleEndian width first.toNat ++ restFirst =
        littleEndian width second.toNat ++ restSecond) :
    first = second ∧ restFirst = restSecond := by
  have split := List.append_inj equal (by simp)
  have residues := (littleEndian_eq_iff width _ _).mp split.1
  rw [Nat.mod_eq_of_lt firstFits, Nat.mod_eq_of_lt secondFits] at residues
  exact ⟨UInt64.toNat_inj.mp residues, split.2⟩

theorem selfDelimiting_writeCompactSize :
    SelfDelimiting writeCompactSize := by
  intro first second restFirst restSecond equal
  have firstFits := first.toNat_lt
  have secondFits := second.toNat_lt
  rw [writeCompactSize_eq_cons, writeCompactSize_eq_cons] at equal
  split_ifs at equal <;>
    simp only [List.cons_append, List.nil_append, List.cons.injEq] at equal <;>
    rcases equal with ⟨marker, tails⟩
  all_goals first
    | exact ⟨eq_of_ofNat_eq (by assumption) (by assumption) marker, tails⟩
    | exact absurd marker (by decide)
    | exact absurd marker (ofNat_ne_marker (by assumption) (by decide))
    | exact absurd marker.symm (ofNat_ne_marker (by assumption) (by decide))
    | exact eq_of_littleEndian_append (by omega) (by omega) tails

/-- `GetSizeOfCompactSize`. -/
def getSizeOfCompactSize (nSize : UInt64) : Nat :=
  if nSize.toNat < 253 then 1
  else if nSize.toNat ≤ 0xffff then 1 + 2
  else if nSize.toNat ≤ 0xffffffff then 1 + 4
  else 1 + 8

theorem length_writeCompactSize_eq (nSize : UInt64) :
    (writeCompactSize nSize).length = getSizeOfCompactSize nSize := by
  rw [writeCompactSize, getSizeOfCompactSize]
  split_ifs <;> simp

/-- `Serialize` of a vector. -/
def writeVector {α : Type} (write : α → List UInt8) (values : List α) :
    List UInt8 :=
  writeCompactSize (UInt64.ofNat values.length) ++ values.flatMap write

end DSValue.Core.Serialize

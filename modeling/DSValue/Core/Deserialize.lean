import DSValue.Core.Serialize
import DSValue.Lib.Stream

/-!
# Reading the primitive types back

`CDataStream` hands out the bytes at its front and throws behind its end.  A
compact size has to be written in its shortest form and may not exceed
`MAX_SIZE`.
-/

namespace DSValue.Core.Deserialize

open DSValue.Lib.Encoding
open DSValue.Lib.Stream
open DSValue.Core.Serialize

/-! ## Fixed-width fields -/

/-- `READWRITE` of an `int`. -/
def readInt32 : Reader Int32 := do
  let value ← readLittleEndian 4
  pure (Int32.ofBitVec (BitVec.ofNat 32 value))

/-- `READWRITE` of an `unsigned int`. -/
def readUInt32 : Reader UInt32 := do
  let value ← readLittleEndian 4
  pure (UInt32.ofNat value)

/-- `READWRITE` of a `uint256`. -/
def readUint256 : Reader Uint256 := do
  let value ← readLittleEndian 32
  pure (BitVec.ofNat 256 value)

theorem Reads.convert
    {α : Type} {width value : Nat} {convert : Nat → α} {result : α}
    (fits : value < 256 ^ width) (converts : convert value = result) :
    Reads (do let number ← readLittleEndian width; pure (convert number))
      (littleEndian width value) result := by
  intro rest
  rw [bind_of_ok (reads_readLittleEndian fits rest), converts]
  rfl

theorem reads_readInt32 (value : Int32) :
    Reads readInt32 (writeInt32 value) value := by
  refine Reads.convert value.toBitVec.isLt ?_
  rw [BitVec.ofNat_toNat, BitVec.setWidth_eq]
  rfl

theorem reads_readUInt32 (value : UInt32) :
    Reads readUInt32 (writeUInt32 value) value :=
  Reads.convert value.toNat_lt UInt32.ofNat_toNat

theorem reads_readUint256 (value : Uint256) :
    Reads readUint256 (writeUint256 value) value := by
  refine Reads.convert value.isLt ?_
  rw [BitVec.ofNat_toNat, BitVec.setWidth_eq]

theorem fixedWidth_readLittleEndian (width : Nat) :
    FixedWidth (readLittleEndian width) width :=
  (fixedWidth_readBytes width).map leValue

theorem fixedWidth_readInt32 : FixedWidth readInt32 4 :=
  (fixedWidth_readLittleEndian 4).map _

theorem fixedWidth_readUint256 : FixedWidth readUint256 32 :=
  (fixedWidth_readLittleEndian 32).map _

/-! ## Compact sizes and vectors -/

def MAX_SIZE : Nat := 0x02000000

/-- A size behind its marker, which may not fit a shorter form. -/
def readWideSize (width bound : Nat) : Reader Nat := do
  let xSize ← readLittleEndian width
  if xSize < bound then throw .nonCanonical else pure xSize

/-- The size that starts with a given byte. -/
def readSizeBehind (chSize : Nat) : Reader Nat :=
  if chSize < 253 then pure chSize
  else if chSize = 253 then readWideSize 2 253
  else if chSize = 254 then readWideSize 4 0x10000
  else readWideSize 8 0x100000000

/-- `ReadCompactSize`. -/
def readCompactSize : Reader Nat := do
  let chSize ← readLittleEndian 1
  let nSizeRet ← readSizeBehind chSize
  if MAX_SIZE < nSizeRet then throw .tooLarge else pure nSizeRet

/-- `Unserialize` of a vector of objects. -/
def readVector {α : Type} (read : Reader α) : Reader (List α) := do
  let nSize ← readCompactSize
  readMany read nSize

/-- `Unserialize` of a vector of bytes. -/
def readByteVector : Reader (List UInt8) := do
  let nSize ← readCompactSize
  readBytes nSize

theorem reads_readWideSize
    {width bound value : Nat} (fits : value < 256 ^ width)
    (canonical : bound ≤ value) :
    Reads (readWideSize width bound) (littleEndian width value) value := by
  intro rest
  rw [readWideSize, bind_of_ok (reads_readLittleEndian fits rest),
    if_neg (not_lt.mpr canonical)]
  rfl

/-- A wide size is read from its own bytes, unless a shorter form fits. -/
theorem readWideSize_eq_ok
    {width bound xSize : Nat} {stream rest : List UInt8} :
    readWideSize width bound stream = .ok (xSize, rest) ↔
      bound ≤ xSize ∧ xSize < 256 ^ width ∧
        stream = littleEndian width xSize ++ rest := by
  constructor
  · intro read
    rcases reader_bind_eq_ok.mp read with ⟨value, after, taken, checked⟩
    rcases readLittleEndian_eq_ok.mp taken with ⟨fits, written⟩
    split_ifs at checked with short
    · cases checked
    · cases checked
      exact ⟨not_lt.mp short, fits, written⟩
  · rintro ⟨canonical, fits, rfl⟩
    exact reads_readWideSize fits canonical rest

/-- The first byte of a written size, and what is read behind it. -/
theorem exists_sizeForm (nSize : UInt64) :
    ∃ chSize more, chSize < 256 ∧
      writeCompactSize nSize = littleEndian 1 chSize ++ more ∧
      Reads (readSizeBehind chSize) more nSize.toNat := by
  have fits := nSize.toNat_lt
  rw [writeCompactSize]
  split_ifs with one two four
  · refine ⟨nSize.toNat, [], by omega, (List.append_nil _).symm, ?_⟩
    rw [readSizeBehind, if_pos one]
    exact Reads.pure nSize.toNat
  · exact ⟨253, _, by decide, rfl,
      reads_readWideSize (by omega) (not_lt.mp one)⟩
  · exact ⟨254, _, by decide, rfl,
      reads_readWideSize (by omega) (not_le.mp two)⟩
  · exact ⟨255, _, by decide, rfl,
      reads_readWideSize (by omega) (not_le.mp four)⟩

/-- What is read behind a first byte was written behind it. -/
theorem writeCompactSize_of_readSizeBehind
    {chSize nSizeRet : Nat} {stream rest : List UInt8} (byte : chSize < 256)
    (read : readSizeBehind chSize stream = .ok (nSizeRet, rest)) :
    ∃ nSize : UInt64, nSize.toNat = nSizeRet ∧
      littleEndian 1 chSize ++ stream = writeCompactSize nSize ++ rest := by
  have spelled (fits : nSizeRet < 2 ^ 64) :
      (UInt64.ofNat nSizeRet).toNat = nSizeRet :=
    UInt64.toNat_ofNat_of_lt' fits
  rw [readSizeBehind] at read
  split_ifs at read with one two four
  · cases read
    refine ⟨UInt64.ofNat chSize, spelled (by omega), ?_⟩
    rw [writeCompactSize, spelled (by omega), if_pos one]
  · rcases readWideSize_eq_ok.mp read with ⟨canonical, fits, rfl⟩
    refine ⟨UInt64.ofNat nSizeRet, spelled (by omega), ?_⟩
    rw [writeCompactSize, spelled (by omega), if_neg (by omega),
      if_pos (by omega), two]
    rfl
  · rcases readWideSize_eq_ok.mp read with ⟨canonical, fits, rfl⟩
    refine ⟨UInt64.ofNat nSizeRet, spelled (by omega), ?_⟩
    rw [writeCompactSize, spelled (by omega), if_neg (by omega),
      if_neg (by omega), if_pos (by omega), four]
    rfl
  · rcases readWideSize_eq_ok.mp read with ⟨canonical, fits, rfl⟩
    refine ⟨UInt64.ofNat nSizeRet, spelled (by omega), ?_⟩
    rw [writeCompactSize, spelled (by omega), if_neg (by omega),
      if_neg (by omega), if_neg (by omega), show chSize = 255 by omega]
    rfl

/-- `ReadCompactSize` takes back every size up to `MAX_SIZE`. -/
theorem readCompactSize_append (nSize : UInt64) (rest : List UInt8) :
    readCompactSize (writeCompactSize nSize ++ rest) =
      if MAX_SIZE < nSize.toNat then .error .tooLarge
      else .ok (nSize.toNat, rest) := by
  rcases exists_sizeForm nSize with ⟨chSize, more, byte, form, behind⟩
  have fits : chSize < 256 ^ 1 := byte
  have first := reads_readLittleEndian fits (more ++ rest)
  rw [form, List.append_assoc, readCompactSize, bind_of_ok first,
    bind_of_ok (behind rest)]
  split_ifs <;> rfl

/-- Only what `WriteCompactSize` writes is accepted. -/
theorem readCompactSize_eq_ok
    {nSizeRet : Nat} {stream rest : List UInt8} :
    readCompactSize stream = .ok (nSizeRet, rest) ↔
      ∃ nSize : UInt64, nSize.toNat ≤ MAX_SIZE ∧ nSize.toNat = nSizeRet ∧
        stream = writeCompactSize nSize ++ rest := by
  constructor
  · intro read
    rcases reader_bind_eq_ok.mp read with ⟨chSize, after, first, sized⟩
    rcases reader_bind_eq_ok.mp sized with ⟨value, last, behind, checked⟩
    rcases readLittleEndian_eq_ok.mp first with ⟨byte, rfl⟩
    split_ifs at checked with large
    · cases checked
    · cases checked
      rcases writeCompactSize_of_readSizeBehind byte behind with
        ⟨nSize, rfl, written⟩
      exact ⟨nSize, not_lt.mp large, rfl, written⟩
  · rintro ⟨nSize, small, rfl, rfl⟩
    rw [readCompactSize_append, if_neg (not_lt.mpr small)]

theorem reads_readCompactSize
    {size : Nat} (small : size ≤ MAX_SIZE) :
    Reads readCompactSize (writeCompactSize (UInt64.ofNat size)) size := by
  have bound : size < 2 ^ 32 := lt_of_le_of_lt small (by decide)
  have value : (UInt64.ofNat size).toNat = size :=
    UInt64.toNat_ofNat_of_lt' (lt_trans bound (by decide))
  intro rest
  rw [readCompactSize_append, value, if_neg (not_lt.mpr small)]

theorem reads_readVector
    {α : Type} {read : Reader α} {write : α → List UInt8} {values : List α}
    (small : values.length ≤ MAX_SIZE)
    (each : ∀ value ∈ values, Reads read (write value) value) :
    Reads (readVector read) (writeVector write values) values :=
  (reads_readCompactSize small).bind (Reads.many each)

end DSValue.Core.Deserialize

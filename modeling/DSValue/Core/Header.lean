import DSValue.Core.Serialize
import DSValue.Lib.MachineInt
import DSValue.Lib.OrderedMap

/-!
# Block headers and the bytes their hash commits to

`CBlockHeader` carries a `CLottoHeader` behind the Bitcoin-style fields, and
the lottery header holds a map of variable size.  Serialization writes the
fields in declaration order, so it is uniquely decodable field by field.

`CBlockHeader::GetHash` copies the serialization into a vector and passes the
addresses of its first and of its last byte to the hash function.  The hash
function reads a half-open range, hence the last byte, which is the most
significant byte of `uLottoKey`, is not hashed.  `hashRange_eq_iff` says
exactly which headers share a hashed range.
-/

namespace DSValue.Core.Header

open DSValue.Lib
open DSValue.Lib.Encoding
open DSValue.Core.Serialize

/-- `lotto::CLottoHeader`. -/
structure CLottoHeader where
  nVersion : Int32
  mBitcoinHash : OrderedMap Int32 Uint256
  llPool : Int64
  nLottoID : Int32
  uLottoKey : Uint256
deriving DecidableEq

/-- `CBlockHeader`. -/
structure CBlockHeader where
  nVersion : Int32
  hashPrevBlock : Uint256
  hashMerkleRoot : Uint256
  nTime : UInt32
  nBits : UInt32
  nNonce : UInt32
  lottoHeader : CLottoHeader
deriving DecidableEq

/-! ## Serialization -/

/-- A pair of the Bitcoin hash map, height first. -/
def writeMapEntry (entry : Int32 × Uint256) : List UInt8 :=
  writeInt32 entry.1 ++ writeUint256 entry.2

/-- `READWRITE(mBitcoinHash)`: the compact size, then the pairs in key order. -/
def writeMap (map : OrderedMap Int32 Uint256) : List UInt8 :=
  writeCompactSize (UInt64.ofNat map.size) ++ map.entries.flatMap writeMapEntry

/-- The serialized fields in front of `uLottoKey`. -/
def CBlockHeader.serializeFront (header : CBlockHeader) : List UInt8 :=
  writeInt32 header.nVersion ++
  (writeUint256 header.hashPrevBlock ++
  (writeUint256 header.hashMerkleRoot ++
  (writeUInt32 header.nTime ++
  (writeUInt32 header.nBits ++
  (writeUInt32 header.nNonce ++
  (writeInt32 header.lottoHeader.nVersion ++
  (writeMap header.lottoHeader.mBitcoinHash ++
  (writeInt64 header.lottoHeader.llPool ++
    writeInt32 header.lottoHeader.nLottoID))))))))

/-- `IMPLEMENT_SERIALIZE` of `CBlockHeader` and of the `CLottoHeader` in it. -/
def CBlockHeader.serialize (header : CBlockHeader) : List UInt8 :=
  header.serializeFront ++ writeUint256 header.lottoHeader.uLottoKey

/--
The bytes `GetHash` passes on: from the address of the first serialized byte
up to, and excluding, the address of the last one.
-/
def CBlockHeader.hashRange (header : CBlockHeader) : List UInt8 :=
  header.serialize.dropLast

/-- `CBlockHeader::GetHash` over a block hash function. -/
def CBlockHeader.getHash
    (hash9 : List UInt8 → Uint256) (header : CBlockHeader) : Uint256 :=
  hash9 header.hashRange

theorem size_lt_two_pow (map : OrderedMap Int32 Uint256) :
    map.entries.length < 2 ^ 64 := by
  have bound := map.size_le_card
  rw [← FinEnum.card_eq_fintypeCard, FinEnum.card_Int32] at bound
  exact lt_of_le_of_lt bound (by decide)

theorem selfDelimiting_writeMapEntry : SelfDelimiting writeMapEntry :=
  selfDelimiting_writeInt32.append selfDelimiting_writeUint256

theorem selfDelimiting_writeMap : SelfDelimiting writeMap := by
  intro first second restFirst restSecond equal
  have fits :
      ∀ left right, left < 2 ^ 64 → right < 2 ^ 64 →
        UInt64.ofNat left = UInt64.ofNat right → left = right := by
    intro left right leftFits rightFits sizes
    have values := congrArg UInt64.toNat sizes
    rwa [UInt64.toNat_ofNat_of_lt' leftFits,
      UInt64.toNat_ofNat_of_lt' rightFits] at values
  have recovered :=
    selfDelimiting_writeCompactSize.lengthPrefixed fits
      selfDelimiting_writeMapEntry
      (size_lt_two_pow first) (size_lt_two_pow second) equal
  exact ⟨OrderedMap.ext recovered.1, recovered.2⟩

/-- The fields in front of the key are recovered from the stream. -/
theorem serializeFront_recovers
    {first second : CBlockHeader} {restFirst restSecond : List UInt8}
    (equal :
      first.serializeFront ++ restFirst =
        second.serializeFront ++ restSecond) :
    second =
        { first with
          lottoHeader :=
            { first.lottoHeader with
              uLottoKey := second.lottoHeader.uLottoKey } } ∧
      restFirst = restSecond := by
  simp only [CBlockHeader.serializeFront, List.append_assoc] at equal
  rcases selfDelimiting_writeInt32 _ _ _ _ equal with ⟨versions, equal⟩
  rcases selfDelimiting_writeUint256 _ _ _ _ equal with ⟨parents, equal⟩
  rcases selfDelimiting_writeUint256 _ _ _ _ equal with ⟨roots, equal⟩
  rcases selfDelimiting_writeUInt32 _ _ _ _ equal with ⟨times, equal⟩
  rcases selfDelimiting_writeUInt32 _ _ _ _ equal with ⟨bits, equal⟩
  rcases selfDelimiting_writeUInt32 _ _ _ _ equal with ⟨nonces, equal⟩
  rcases selfDelimiting_writeInt32 _ _ _ _ equal with ⟨lottoVersions, equal⟩
  rcases selfDelimiting_writeMap _ _ _ _ equal with ⟨maps, equal⟩
  rcases selfDelimiting_writeInt64 _ _ _ _ equal with ⟨pools, equal⟩
  rcases selfDelimiting_writeInt32 _ _ _ _ equal with ⟨ids, equal⟩
  rcases first with ⟨_, _, _, _, _, _, _, _, _, _, _⟩
  rcases second with ⟨_, _, _, _, _, _, _, _, _, _, _⟩
  simp_all

/-- Serialization loses nothing. -/
theorem serialize_injective :
    Function.Injective CBlockHeader.serialize := by
  intro first second equal
  rcases serializeFront_recovers equal with ⟨front, keys⟩
  rw [front, ← selfDelimiting_writeUint256.injective keys]

/-! ## The hashed range -/

/-- The two headers agree but for the most significant byte of `uLottoKey`. -/
def AgreeBelowKeyTopByte (first second : CBlockHeader) : Prop :=
  second =
      { first with
        lottoHeader :=
          { first.lottoHeader with
            uLottoKey := second.lottoHeader.uLottoKey } } ∧
    first.lottoHeader.uLottoKey.toNat % 2 ^ 248 =
      second.lottoHeader.uLottoKey.toNat % 2 ^ 248

/-- The hashed range is the front part and the low 31 bytes of the key. -/
theorem hashRange_eq (header : CBlockHeader) :
    header.hashRange =
      header.serializeFront ++
        littleEndian 31 header.lottoHeader.uLottoKey.toNat := by
  have keyNonempty : writeUint256 header.lottoHeader.uLottoKey ≠ [] := by
    simp [writeUint256, littleEndian]
  rw [CBlockHeader.hashRange, CBlockHeader.serialize,
    List.dropLast_append_of_ne_nil keyNonempty, writeUint256,
    dropLast_littleEndian]

theorem hashRange_eq_iff (first second : CBlockHeader) :
    first.hashRange = second.hashRange ↔
      AgreeBelowKeyTopByte first second := by
  have width : (256 : Nat) ^ 31 = 2 ^ 248 := by norm_num
  rw [hashRange_eq, hashRange_eq]
  constructor
  · intro equal
    rcases serializeFront_recovers equal with ⟨front, keys⟩
    rw [littleEndian_eq_iff, width] at keys
    exact ⟨front, keys⟩
  · rintro ⟨front, keys⟩
    have sameFront : first.serializeFront = second.serializeFront := by
      rw [front]
      rfl
    rw [sameFront, (littleEndian_eq_iff 31 _ _).mpr (width ▸ keys)]

/--
Two headers whose serializations differ are told apart by the hashed range
exactly when they differ outside the most significant byte of the lottery
key.
-/
theorem hashRange_separates_iff (first second : CBlockHeader) :
    (first.serialize ≠ second.serialize →
        first.hashRange ≠ second.hashRange) ↔
      first = second ∨ ¬ AgreeBelowKeyTopByte first second := by
  rw [Ne, Ne, serialize_injective.eq_iff, hashRange_eq_iff]
  by_cases equal : first = second
  · simp [equal]
  · simp [equal]

/-- The header with every field zero. -/
def zeroHeader : CBlockHeader where
  nVersion := 0
  hashPrevBlock := 0
  hashMerkleRoot := 0
  nTime := 0
  nBits := 0
  nNonce := 0
  lottoHeader :=
    { nVersion := 0
      mBitcoinHash := OrderedMap.empty
      llPool := 0
      nLottoID := 0
      uLottoKey := 0 }

/-- A header that differs from `zeroHeader` in the top byte of the key only. -/
def topByteHeader : CBlockHeader :=
  { zeroHeader with
    lottoHeader := { zeroHeader.lottoHeader with uLottoKey := 1#256 <<< 248 } }

/-- Two different headers with the same hash under every hash function. -/
theorem hashRange_not_injective :
    zeroHeader.serialize ≠ topByteHeader.serialize ∧
      zeroHeader.hashRange = topByteHeader.hashRange ∧
      ∀ hash9, zeroHeader.getHash hash9 = topByteHeader.getHash hash9 := by
  have ranges : zeroHeader.hashRange = topByteHeader.hashRange := by
    decide
  refine ⟨by decide, ranges, ?_⟩
  intro hash9
  rw [CBlockHeader.getHash, CBlockHeader.getHash, ranges]

end DSValue.Core.Header

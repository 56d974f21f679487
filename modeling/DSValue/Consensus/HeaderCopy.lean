import DSValue.Consensus.CheckLottoResult

/-!
# Copies of a header

`CLottoHeader` has its own copy operations, and both insert the Bitcoin hashes
of the source into the map of the target.  The map of a copy constructor is
fresh; that of an assignment keeps what it held.  The headers that are built
field by field start from a fresh `CBlockHeader`.
-/

namespace DSValue.Consensus.HeaderCopy

open DSValue.Lib
open DSValue.Core.Serialize
open DSValue.Core.Header
open DSValue.Consensus.CheckLottoResult

/-! ## Lottery headers -/

/-- The default constructor of `CLottoHeader`. -/
def newLottoHeader : CLottoHeader where
  nVersion := 1
  mBitcoinHash := OrderedMap.empty
  llPool := 0
  nLottoID := 1
  uLottoKey := 0

/-- The copy constructor of `CLottoHeader`. -/
def copyLottoHeader (obj : CLottoHeader) : CLottoHeader where
  nVersion := obj.nVersion
  mBitcoinHash := OrderedMap.empty.insertRange obj.mBitcoinHash
  nLottoID := obj.nLottoID
  uLottoKey := obj.uLottoKey
  llPool := obj.llPool

/-- `CLottoHeader::operator=` on another object. -/
def assignLottoHeader (target obj : CLottoHeader) : CLottoHeader where
  nVersion := obj.nVersion
  mBitcoinHash := target.mBitcoinHash.insertRange obj.mBitcoinHash
  nLottoID := obj.nLottoID
  uLottoKey := obj.uLottoKey
  llPool := obj.llPool

/-- `IMPLEMENT_SERIALIZE` of `CLottoHeader`. -/
def serializeLottoHeader (header : CLottoHeader) : List UInt8 :=
  writeInt32 header.nVersion ++
  (writeMap header.mBitcoinHash ++
  (writeInt64 header.llPool ++
  (writeInt32 header.nLottoID ++ writeUint256 header.uLottoKey)))

/-! ## Block headers -/

/-- `CBlockHeader::SetNull`, which leaves the lottery header alone. -/
def setNull (header : CBlockHeader) : CBlockHeader :=
  { header with
    nVersion := 2
    hashPrevBlock := 0
    hashMerkleRoot := 0
    nTime := 0
    nBits := 0
    nNonce := 0 }

/-- A new `CBlockHeader`, whose members are constructed before `SetNull`. -/
def newBlockHeader : CBlockHeader :=
  setNull { zeroHeader with lottoHeader := newLottoHeader }

/-- The assignment of headers that the compiler provides. -/
def assignBlockHeader (target header : CBlockHeader) : CBlockHeader :=
  { header with
    lottoHeader := assignLottoHeader target.lottoHeader header.lottoHeader }

/-- `CBlock::GetBlockHeader`. -/
def getBlockHeader (block : CBlockHeader) : CBlockHeader where
  nVersion := block.nVersion
  hashPrevBlock := block.hashPrevBlock
  hashMerkleRoot := block.hashMerkleRoot
  nTime := block.nTime
  nBits := block.nBits
  nNonce := block.nNonce
  lottoHeader := assignLottoHeader newBlockHeader.lottoHeader block.lottoHeader

/-- The part of `CBlockIndex` that a header is read from. -/
structure CBlockIndex where
  /-- The hash of the block behind `pprev`. -/
  pprev : Option Uint256
  nVersion : Int32
  hashMerkleRoot : Uint256
  nTime : UInt32
  nBits : UInt32
  nNonce : UInt32
  lottoHeader : CLottoHeader

/-- `CBlockIndex(CBlockHeader&)`. -/
def CBlockIndex.ofHeader (block : CBlockHeader) : CBlockIndex where
  pprev := none
  nVersion := block.nVersion
  hashMerkleRoot := block.hashMerkleRoot
  nTime := block.nTime
  nBits := block.nBits
  nNonce := block.nNonce
  lottoHeader := assignLottoHeader newLottoHeader block.lottoHeader

/-- `CBlockIndex::GetBlockHeader`. -/
def CBlockIndex.getBlockHeader (index : CBlockIndex) : CBlockHeader where
  nVersion := index.nVersion
  hashPrevBlock := index.pprev.getD newBlockHeader.hashPrevBlock
  hashMerkleRoot := index.hashMerkleRoot
  nTime := index.nTime
  nBits := index.nBits
  nNonce := index.nNonce
  lottoHeader := assignLottoHeader newBlockHeader.lottoHeader index.lottoHeader

/-- `pblock->lottoHeader = lottoHeader` of `CreateNewBlock`. -/
def setLottoHeader (pblock : CBlockHeader) (lottoHeader : CLottoHeader) :
    CBlockHeader :=
  { pblock with lottoHeader := assignLottoHeader pblock.lottoHeader lottoHeader }

/-! ## Fresh targets -/

variable {target obj : CLottoHeader} {header block : CBlockHeader}

@[simp]
theorem copyLottoHeader_eq (obj : CLottoHeader) : copyLottoHeader obj = obj := by
  rw [copyLottoHeader, OrderedMap.empty_insertRange]

@[simp]
theorem assignLottoHeader_new (obj : CLottoHeader) :
    assignLottoHeader newLottoHeader obj = obj :=
  copyLottoHeader_eq obj

/-- The guard against self-assignment changes nothing. -/
theorem assignLottoHeader_self (obj : CLottoHeader) :
    assignLottoHeader obj obj = obj := by
  rw [assignLottoHeader, OrderedMap.insertRange_self]

@[simp]
theorem getBlockHeader_eq (block : CBlockHeader) : getBlockHeader block = block := by
  rw [getBlockHeader, show newBlockHeader.lottoHeader = newLottoHeader from rfl,
    assignLottoHeader_new]

/-- The header of an index under a block. -/
theorem getBlockHeader_ofHeader (block : CBlockHeader) (pprev : Option Uint256) :
    CBlockIndex.getBlockHeader { CBlockIndex.ofHeader block with pprev := pprev } =
      { block with hashPrevBlock := pprev.getD 0 } := by
  rw [CBlockIndex.getBlockHeader, CBlockIndex.ofHeader,
    show newBlockHeader.lottoHeader = newLottoHeader from rfl,
    assignLottoHeader_new, assignLottoHeader_new]
  rfl

theorem setLottoHeader_new (obj : CLottoHeader) :
    setLottoHeader newBlockHeader obj = { newBlockHeader with lottoHeader := obj } := by
  rw [setLottoHeader, show newBlockHeader.lottoHeader = newLottoHeader from rfl,
    assignLottoHeader_new]

/-! ## Used targets -/

/-- Every entry that the target holds is one of the source. -/
def HoldsOnly (target obj : CLottoHeader) : Prop :=
  ∀ entry ∈ target.mBitcoinHash.entries, entry ∈ obj.mBitcoinHash.entries

theorem assignLottoHeader_eq_iff :
    assignLottoHeader target obj = obj ↔ HoldsOnly target obj := by
  rw [HoldsOnly, ← OrderedMap.insertRange_eq_iff, assignLottoHeader]
  rcases obj with ⟨nVersion, mBitcoinHash, llPool, nLottoID, uLottoKey⟩
  simp

/-- The lottery header is serialized last. -/
theorem serialize_eq (header : CBlockHeader) :
    header.serialize =
      (writeInt32 header.nVersion ++
      (writeUint256 header.hashPrevBlock ++
      (writeUint256 header.hashMerkleRoot ++
      (writeUInt32 header.nTime ++
      (writeUInt32 header.nBits ++ writeUInt32 header.nNonce))))) ++
        serializeLottoHeader header.lottoHeader := by
  rw [CBlockHeader.serialize, CBlockHeader.serializeFront, serializeLottoHeader]
  simp only [List.append_assoc]

theorem serializeLottoHeader_injective :
    Function.Injective serializeLottoHeader := by
  intro first second same
  have headers :
      CBlockHeader.serialize { zeroHeader with lottoHeader := first } =
        CBlockHeader.serialize { zeroHeader with lottoHeader := second } := by
    rw [serialize_eq, serialize_eq]
    exact congrArg _ same
  exact congrArg CBlockHeader.lottoHeader (serialize_injective headers)

theorem hashRange_eq_iff_of_same_key
    (sameKey : header.lottoHeader.uLottoKey = block.lottoHeader.uLottoKey) :
    header.hashRange = block.hashRange ↔ header = block := by
  rw [hashRange_eq_iff, AgreeBelowKeyTopByte, ← sameKey]
  constructor
  · rintro ⟨same, -⟩
    exact same.symm
  · rintro rfl
    exact ⟨rfl, rfl⟩

/-- The hash of a header under every hash function is the hashed range. -/
theorem getHash_eq_iff :
    (∀ hash9, header.getHash hash9 = block.getHash hash9) ↔
      header.hashRange = block.hashRange := by
  constructor
  · intro same
    have told := same fun bytes => if bytes = block.hashRange then 1 else 0
    rw [CBlockHeader.getHash, CBlockHeader.getHash, if_pos rfl] at told
    by_contra different
    rw [if_neg different] at told
    exact absurd told (by decide)
  · intro same hash9
    rw [CBlockHeader.getHash, CBlockHeader.getHash, same]

theorem assignBlockHeader_eq_iff {target : CBlockHeader} :
    assignBlockHeader target block = block ↔
      HoldsOnly target.lottoHeader block.lottoHeader := by
  rw [← assignLottoHeader_eq_iff]
  constructor
  · exact congrArg CBlockHeader.lottoHeader
  · intro same
    rw [assignBlockHeader, same]

theorem getHash_assign_iff {target : CBlockHeader} :
    (∀ hash9, (assignBlockHeader target block).getHash hash9 =
      block.getHash hash9) ↔ HoldsOnly target.lottoHeader block.lottoHeader := by
  have sameKey :
      (assignBlockHeader target block).lottoHeader.uLottoKey =
        block.lottoHeader.uLottoKey := rfl
  rw [getHash_eq_iff, hashRange_eq_iff_of_same_key sameKey,
    assignBlockHeader_eq_iff]

/-- What a copy of a block header into a target promises. -/
structure ExactCopy (target block : CBlockHeader) : Prop where
  serialized :
    serializeLottoHeader
        (assignLottoHeader target.lottoHeader block.lottoHeader) =
      serializeLottoHeader block.lottoHeader
  bitcoinHashes :
    (assignLottoHeader target.lottoHeader block.lottoHeader).mBitcoinHash =
      block.lottoHeader.mBitcoinHash
  firstHeight :
    CLottoHeader.getFirstBitcoinHeight
        (assignLottoHeader target.lottoHeader block.lottoHeader) =
      CLottoHeader.getFirstBitcoinHeight block.lottoHeader
  lastHeight :
    CLottoHeader.getLastBitcoinHeight
        (assignLottoHeader target.lottoHeader block.lottoHeader) =
      CLottoHeader.getLastBitcoinHeight block.lottoHeader
  ofBlock :
    ∀ hash9,
      (assignBlockHeader target (getBlockHeader block)).getHash hash9 =
        block.getHash hash9
  ofIndex :
    ∀ pprev : Option Uint256, pprev.getD 0 = block.hashPrevBlock → ∀ hash9,
      (assignBlockHeader target
        (CBlockIndex.getBlockHeader
          { CBlockIndex.ofHeader block with pprev := pprev })).getHash hash9 =
        block.getHash hash9
  mined :
    ∀ hash9,
      (setLottoHeader { block with lottoHeader := target.lottoHeader }
        block.lottoHeader).getHash hash9 = block.getHash hash9

/-- A copy is exact when the target holds Bitcoin hashes of the source only. -/
theorem exactCopy_iff (target block : CBlockHeader) :
    ExactCopy target block ↔
      HoldsOnly target.lottoHeader block.lottoHeader := by
  constructor
  · intro exactCopy
    exact assignLottoHeader_eq_iff.mp
      (serializeLottoHeader_injective exactCopy.serialized)
  · intro held
    have lotto := assignLottoHeader_eq_iff.mpr held
    have hashes := getHash_assign_iff.mpr held
    constructor
    · rw [lotto]
    · rw [lotto]
    · rw [lotto]
    · rw [lotto]
    · rw [getBlockHeader_eq]
      exact hashes
    · intro pprev parent
      rw [getBlockHeader_ofHeader, parent]
      exact hashes
    · exact hashes

/-- A header that holds one Bitcoin hash. -/
def usedHeader : CBlockHeader :=
  { zeroHeader with
    lottoHeader :=
      { newLottoHeader with mBitcoinHash := OrderedMap.empty.insert 7 1 } }

/-- The Bitcoin hash of the target stays. -/
theorem usedHeader_keeps_hash :
    ¬ ExactCopy usedHeader zeroHeader ∧
      CLottoHeader.getLastBitcoinHeight
        (assignLottoHeader usedHeader.lottoHeader zeroHeader.lottoHeader) = 7 ∧
      CLottoHeader.getLastBitcoinHeight zeroHeader.lottoHeader = 0 := by
  refine ⟨?_, by decide, by decide⟩
  intro exactCopy
  have same := exactCopy.lastHeight
  exact absurd same (by decide)

end DSValue.Consensus.HeaderCopy

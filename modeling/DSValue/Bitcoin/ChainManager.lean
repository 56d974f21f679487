import DSValue.Bitcoin.HeaderTree
import DSValue.Chain.BlockIndex

/-!
# The Bitcoin header chain

`CChainManager` keeps the Bitcoin headers, chooses the chain with the most
work among them and writes what it connects to a database, from which a
restart loads it.  Choosing the chain is `FindMostWorkChain` of the blocks of
the program itself, without a check of Bitcoin hashes.  Writing to the
database succeeds, and a loop that a state without the start block would run
forever ends in `Fault.unfinished`.
-/

namespace DSValue.Bitcoin.ChainManager

open DSValue.Lib
open DSValue.Lib.KeepFirst
open DSValue.Core.Serialize
open DSValue.Script.Scan
open DSValue.Consensus.CheckLottoResult
open DSValue.Consensus.CheckBlock
open DSValue.Consensus.Compact
open DSValue.Chain.BestChain
open DSValue.Chain.BlockIndex (getBlockWork)
open DSValue.Bitcoin.HeaderTree

/-- `hashBitcoinStartPreBlock`. -/
def hashBitcoinStartPreBlock : Uint256 :=
  0x00000000000000002eed85d8b873670ff9608a32b8f58f052c301477993cf9ee

/-- `hashBitcoinStartMerkleRoot`. -/
def hashBitcoinStartMerkleRoot : Uint256 :=
  0x06d27706d63d7bc4cd6624a799c06510c9d7ed94d854b647568fc224df9000c3

/-- The block of `InitBlockIndex`. -/
def firstBlock : CBitcoinBlock where
  nVersion := 2
  hashPrevBlock := hashBitcoinStartPreBlock
  hashMerkleRoot := hashBitcoinStartMerkleRoot
  nTime := 1404029522
  nBits := 0x1851aba2
  nNonce := 721885384

/-- `nChainWork`. -/
def nChainWork : BitcoinIndex → Uint256
  | .root block => getBlockWork block.nBits
  | .child pprev block => nChainWork pprev + getBlockWork block.nBits

/-! ## The database -/

/-- `CBitcoinDiskBlockIndex`, with the fields that it serializes. -/
structure CBitcoinDiskBlockIndex where
  nHeight : Int
  nVersion : Int32
  hashPrev : Uint256
  hashMerkleRoot : Uint256
  nTime : UInt32
  nBits : UInt32
  nNonce : UInt32
deriving DecidableEq

/-- The header of a stored index. -/
def CBitcoinDiskBlockIndex.header (diskindex : CBitcoinDiskBlockIndex) :
    CBitcoinBlock where
  nVersion := diskindex.nVersion
  hashPrevBlock := diskindex.hashPrev
  hashMerkleRoot := diskindex.hashMerkleRoot
  nTime := diskindex.nTime
  nBits := diskindex.nBits
  nNonce := diskindex.nNonce

/-- `CBlockTreeDB`, with the records of `'b'` and of `'B'`. -/
structure CBlockTreeDB where
  blockIndexes : Table Uint256 CBitcoinDiskBlockIndex
  bestBlockHash : Option Uint256

/-- The database before the first start. -/
def CBlockTreeDB.empty : CBlockTreeDB := ⟨∅, none⟩

/-- The constructor of `CBitcoinDiskBlockIndex`. -/
def diskIndex (env : BitcoinEnv) (pindex : BitcoinIndex) :
    CBitcoinDiskBlockIndex where
  nHeight := env.nHeight pindex
  nVersion := pindex.item.nVersion
  hashPrev := pindex.pprev?.elim 0 fun pprev => env.getHash pprev.item
  hashMerkleRoot := pindex.item.hashMerkleRoot
  nTime := pindex.item.nTime
  nBits := pindex.item.nBits
  nNonce := pindex.item.nNonce

/-- The record that `ConnectTip` writes. -/
def connectedIndex (env : BitcoinEnv) (pindexNew : BitcoinIndex) :
    CBitcoinDiskBlockIndex :=
  let blockindex := diskIndex env pindexNew
  if env.getHash pindexNew.item = hashBitcoinStartBlock then
    { blockindex with hashPrev := hashBitcoinStartPreBlock }
  else blockindex

/-- `CBlockTreeDB::WriteBlockIndex`. -/
def CBlockTreeDB.writeBlockIndex
    (db : CBlockTreeDB) (env : BitcoinEnv)
    (blockindex : CBitcoinDiskBlockIndex) : CBlockTreeDB :=
  { db with
    blockIndexes :=
      db.blockIndexes.insert (env.getHash blockindex.header) blockindex }

/-- `CBlockTreeDB::WriteBestBlockHash`. -/
def CBlockTreeDB.writeBestBlockHash
    (db : CBlockTreeDB) (hashBlock : Uint256) : CBlockTreeDB :=
  { db with bestBlockHash := some hashBlock }

/-! ## The chain manager -/

/-- `CChainManager`. -/
structure CChainManager where
  mapBitcoinBlockIndex : HeaderMap
  nSequenceId : BitcoinIndex → UInt32
  nBlockSequenceId : UInt32
  address : BitcoinIndex → Nat
  chain : ChainState CBitcoinBlock
  pBitcoinblocktree : CBlockTreeDB

/-- What the comparator reads; Bitcoin headers have no lottery key. -/
def CChainManager.fields (manager : CChainManager) :
    IndexFields BitcoinIndex where
  nChainWork := nChainWork
  uLottoKey := fun _ => 0
  nSequenceId := manager.nSequenceId
  address := manager.address

/-- `CChainManager::FindMostWorkChain`. -/
def CChainManager.findMostWorkChain (manager : CChainManager) :
    Option (ChainState CBitcoinBlock) :=
  Chain.BestChain.findMostWorkChain (blockIndexWorkComparator manager.fields)
    (fun _ => true) manager.chain

/-- The loop of `DisconnectTip`, which leaves the start block where it is. -/
def disconnectTips (env : BitcoinEnv) (mostWork : BitcoinIndex) :
    BitcoinIndex → Except Fault BitcoinIndex
  | .root block =>
      if .root block ≤ mostWork then pure (.root block) else throw .unfinished
  | .child pprev block =>
      if .child pprev block ≤ mostWork then pure (.child pprev block)
      else if env.getHash block = hashBitcoinStartBlock then throw .unfinished
      else disconnectTips env mostWork pprev

/-- `CChainManager::ConnectTip`. -/
def connectTip
    (env : BitcoinEnv) (pindexNew : BitcoinIndex)
    (tip : Option BitcoinIndex) (db : CBlockTreeDB) :
    Except Fault CBlockTreeDB :=
  if env.getHash pindexNew.item = hashBitcoinStartBlock ∨
      pindexNew.pprev? = tip then
    let written := db.writeBlockIndex env (connectedIndex env pindexNew)
    pure (written.writeBestBlockHash (env.getHash pindexNew.item))
  else throw .assertion

/-- The loop of `ConnectTip`, with a bound on its passes. -/
def connectTips (env : BitcoinEnv) (mostWork : BitcoinIndex) :
    Nat → Option BitcoinIndex → CBlockTreeDB →
      Except Fault (Option BitcoinIndex × CBlockTreeDB)
  | 0, _, _ => throw .unfinished
  | left + 1, active, db =>
      if contains active mostWork then pure (active, db)
      else
        match mostWork.at? (nextHeight active) with
        | none => throw .outOfRange
        | some pindexConnect => do
            let written ← connectTip env pindexConnect active db
            connectTips env mostWork left (some pindexConnect) written

/-- The chain from the active one to the chosen one. -/
def switchTo
    (env : BitcoinEnv) (mostWork : BitcoinIndex)
    (active : Option BitcoinIndex) (db : CBlockTreeDB) :
    Except Fault (Option BitcoinIndex × CBlockTreeDB) :=
  match active with
  | none => connectTips env mostWork (mostWork.height + 2) none db
  | some tip => do
      let fork ← disconnectTips env mostWork tip
      connectTips env mostWork (mostWork.height + 2) (some fork) db

/-- `CChainManager::ConnectBestBlock`. -/
def CChainManager.connectBestBlock
    (env : BitcoinEnv) (manager : CChainManager) :
    Except Fault CChainManager :=
  match manager.findMostWorkChain with
  | none => throw .unfinished
  | some found =>
      match found.chainMostWork with
      | none => pure { manager with chain := found }
      | some mostWork => do
          let switched ←
            switchTo env mostWork found.chainActive manager.pBitcoinblocktree
          pure
            { manager with
              chain := { found with chainActive := switched.1 }
              pBitcoinblocktree := switched.2 }

/-- `CChainManager::AddToBlockIndex` up to the call of `ConnectBestBlock`. -/
def CChainManager.addEntry
    (env : BitcoinEnv) (manager : CChainManager) (block : CBitcoinBlock) :
    CChainManager :=
  let pindexNew := newIndex manager.mapBitcoinBlockIndex block
  { manager with
    mapBitcoinBlockIndex :=
      env.addToBlockIndex manager.mapBitcoinBlockIndex block
    nSequenceId :=
      Function.update manager.nSequenceId pindexNew manager.nBlockSequenceId
    nBlockSequenceId := manager.nBlockSequenceId + 1
    chain := manager.chain.insert pindexNew }

/-- `CChainManager::AddToBlockIndex`. -/
def CChainManager.addToBlockIndex
    (env : BitcoinEnv) (manager : CChainManager) (block : CBitcoinBlock) :
    Except Fault CChainManager :=
  (manager.addEntry env block).connectBestBlock env

/-! ## Headers from the network -/

/-- The network of the program and its clock during a call. -/
structure Clock where
  network : Network
  adjustedTime : Int

/-- Why `ProcessBitcoinHeader` fails. -/
inductive Rejection where
  | duplicate
  | highHash
  | tooFarInTheFuture
  | timeTooOld
  | tooLittleWork
  | refused (refusal : Refusal)
deriving DecidableEq

/-- `CChainManager::CheckProofOfWork`. -/
def checkProofOfWork (hash : Uint256) (nBits : UInt32) : Bool :=
  0 < setCompact nBits ∧ setCompact nBits ≤ (bnProofOfWorkLimit : Int) ∧
    (hash.toNat : Int) ≤ setCompact nBits

/-- `nTargetTimespan` of the program itself. -/
def ownTargetTimespan : Int := 24 * 60 * 60

/-- `nTargetSpacing` of the program itself. -/
def ownTargetSpacing : Int := 150

/-- The loop of `ComputeMinWork`, with a bound on its passes. -/
def relaxTarget (bnLimit : Int) : Nat → Int → Int → Int
  | 0, bnResult, _ => bnResult
  | left + 1, bnResult, nTime =>
      if 0 < nTime ∧ bnResult < bnLimit then
        relaxTarget bnLimit left (bnResult * 4) (nTime - ownTargetTimespan * 4)
      else bnResult

/-- `ComputeMinWork`; every pass takes four days off the time. -/
def computeMinWork (network : Network) (nBase : UInt32) (nTime : Int) :
    UInt32 :=
  let bnLimit : Int := proofOfWorkLimit network
  if network = .testnet ∧ ownTargetSpacing * 2 < nTime then getCompact bnLimit
  else
    let passes := (nTime / (ownTargetTimespan * 4)).toNat + 1
    let bnResult := relaxTarget bnLimit passes (setCompact nBase) nTime
    getCompact (if bnLimit < bnResult then bnLimit else bnResult)

/-- What a header that does not extend the tip must meet. -/
def checkAgainstCheckpoint
    (clock : Clock) (pcheckpoint : BitcoinIndex) (block : CBitcoinBlock) :
    Except Rejection Unit :=
  let deltaTime : Int := block.nTime.toNat - pcheckpoint.item.nTime.toNat
  if deltaTime < 0 then throw .timeTooOld
  else if setCompact
      (computeMinWork clock.network pcheckpoint.item.nBits deltaTime) <
        setCompact block.nBits then
    throw .tooLittleWork
  else pure ()

/-- The hash of the active tip, or zero. -/
def CChainManager.tipHash (env : BitcoinEnv) (manager : CChainManager) :
    Uint256 :=
  manager.chain.chainActive.elim 0 fun tip => env.getHash tip.item

/-- The checks of `ProcessBitcoinHeader` in front of `AcceptBlock`. -/
def CChainManager.preliminaryChecks
    (env : BitcoinEnv) (clock : Clock) (manager : CChainManager)
    (block : CBitcoinBlock) : Except Rejection Unit := do
  let hash := env.getHash block
  if hash ∈ manager.mapBitcoinBlockIndex then throw .duplicate
  if !checkProofOfWork hash block.nBits then throw .highHash
  if clock.adjustedTime + 2 * 60 * 60 < block.nTime.toNat then
    throw .tooFarInTheFuture
  match env.getLastCheckpoint manager.mapBitcoinBlockIndex with
  | none => pure ()
  | some pcheckpoint =>
      if block.hashPrevBlock ≠ manager.tipHash env then
        checkAgainstCheckpoint clock pcheckpoint block
      else pure ()

/-- Whether the previous header is unknown. -/
def CChainManager.isOrphan (manager : CChainManager) (block : CBitcoinBlock) :
    Bool :=
  block.hashPrevBlock ≠ 0 ∧
    block.hashPrevBlock ∉ manager.mapBitcoinBlockIndex ∧
      block.hashPrevBlock ≠ hashBitcoinStartBlock

/-- `CChainManager::ProcessBitcoinHeader`, with the reason when it fails. -/
def CChainManager.processBitcoinHeader
    (env : BitcoinEnv) (clock : Clock) (manager : CChainManager)
    (block : CBitcoinBlock) :
    Except Fault (CChainManager × Option Rejection) :=
  match manager.preliminaryChecks env clock block with
  | .error rejection => pure (manager, some rejection)
  | .ok () =>
      if manager.isOrphan block then pure (manager, none)
      else
        match env.acceptBlock manager.mapBitcoinBlockIndex block with
        | .error (.fault fault) => throw fault
        | .error refusal => pure (manager, some (.refused refusal))
        | .ok _ => do
            let next ← manager.addToBlockIndex env block
            pure (next, none)

/-- `CChainManager::AddBitcoinHeader`. -/
def CChainManager.addBitcoinHeader
    (env : BitcoinEnv) (clock : Clock) (manager : CChainManager)
    (vBitcoinHeader : List CBitcoinBlock) : Except Fault CChainManager :=
  vBitcoinHeader.foldlM
    (fun manager item => do
      let processed ← manager.processBitcoinHeader env clock item
      pure processed.1)
    manager

/-! ## Starting -/

def BLOCK_VALID_TRANSACTIONS : UInt32 := 3

def BLOCK_VALID_MASK : UInt32 := 7

def BLOCK_FAILED_MASK : UInt32 := 96

/--
`CChainManager::InsertBitcoinBlockIndex` for a hash, after all records are
read.  A record whose predecessor has none, which `ConnectTip` never leaves
behind, is not loaded.
-/
def insertBitcoinBlockIndex (db : CBlockTreeDB) :
    Nat → Uint256 → Except Fault (Option BitcoinIndex)
  | 0, hash =>
      if hash = 0 ∨ hash = hashBitcoinStartPreBlock then pure none
      else throw .unfinished
  | left + 1, hash =>
      if hash = 0 ∨ hash = hashBitcoinStartPreBlock then pure none
      else
        match db.blockIndexes.lookup hash with
        | none => throw .outOfRange
        | some diskindex => do
            match ← insertBitcoinBlockIndex db left diskindex.hashPrev with
            | none => pure (some (.root diskindex.header))
            | some pprev => pure (some (.child pprev diskindex.header))

/-- One record of `CBlockTreeDB::LoadBlockIndexGuts`. -/
def loadRecord
    (env : BitcoinEnv) (db : CBlockTreeDB) (headers : HeaderMap)
    (diskindex : CBitcoinDiskBlockIndex) : Except Fault HeaderMap := do
  let hash := env.getHash diskindex.header
  match ← insertBitcoinBlockIndex db db.blockIndexes.entries.length hash with
  | none => throw .outOfRange
  | some pindexNew => pure (insertNew headers hash pindexNew)

/-- `CBlockTreeDB::LoadBlockIndexGuts`. -/
def loadBlockIndexGuts (env : BitcoinEnv) (db : CBlockTreeDB) :
    Except Fault HeaderMap :=
  (db.blockIndexes.entries.map (·.2)).foldlM (loadRecord env db) ∅

/-- The status of a loaded index: that of a new one, as no record holds it. -/
def loadedStatus : UInt32 := 0

/-- The test for the candidates of `LoadBitcoinBlockIndex`. -/
def isValidTransactions (nStatus : UInt32) : Bool :=
  BLOCK_VALID_TRANSACTIONS ≤ nStatus &&& BLOCK_VALID_MASK ∧
    nStatus &&& BLOCK_FAILED_MASK = 0

/-- The manager of the loaded headers, at new addresses. -/
def loadedManager
    (address : BitcoinIndex → Nat) (db : CBlockTreeDB) (headers : HeaderMap) :
    CChainManager where
  mapBitcoinBlockIndex := headers
  nSequenceId := fun _ => 0
  nBlockSequenceId := 1
  address := address
  chain :=
    { chainActive := db.bestBlockHash.bind headers.lookup
      chainMostWork := none
      setBlockIndexValid :=
        (headers.entries.map (·.2)).filter fun _ =>
          isValidTransactions loadedStatus
      failed := [] }
  pBitcoinblocktree := db

/-- `CChainManager::LoadBitcoinBlockIndex`. -/
def loadBitcoinBlockIndex
    (env : BitcoinEnv) (address : BitcoinIndex → Nat) (db : CBlockTreeDB) :
    Except Fault CChainManager := do
  let headers ← loadBlockIndexGuts env db
  pure (loadedManager address db headers)

/-- `CChainManager::InitBlockIndex`. -/
def CChainManager.initBlockIndex
    (env : BitcoinEnv) (manager : CChainManager) : Except Fault CChainManager :=
  if hashBitcoinStartBlock ∈ manager.mapBitcoinBlockIndex then pure manager
  else if env.getHash firstBlock = hashBitcoinStartBlock then
    manager.addToBlockIndex env firstBlock
  else throw .assertion

/-- The constructor of `CChainManager` over a database. -/
def create
    (env : BitcoinEnv) (address : BitcoinIndex → Nat) (db : CBlockTreeDB) :
    Except Fault CChainManager := do
  let loaded ← loadBitcoinBlockIndex env address db
  loaded.initBlockIndex env

end DSValue.Bitcoin.ChainManager

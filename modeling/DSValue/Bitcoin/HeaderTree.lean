import DSValue.Consensus.Compact
import DSValue.Lib.KeepFirst

/-!
# The tree of Bitcoin headers

The node keeps the Bitcoin headers from a start block on, whose height is not
zero.  `AcceptBlock` adds a header on a known one when it carries the target
that `GetNextWorkRequired` asks for.  A new target is computed at every
multiple of 2016 from the time that the 2016 blocks before took; the first one
above the start block is a constant, since the tree does not reach that far
down.
-/

namespace DSValue.Bitcoin.HeaderTree

open DSValue.Lib
open DSValue.Lib.KeepFirst
open DSValue.Lib.Mantissa
open DSValue.Core.Serialize
open DSValue.Consensus.CheckLottoResult
open DSValue.Consensus.CheckBlock
open DSValue.Consensus.Compact

/-! ## Headers and indexes -/

/-- `CBitcoinBlock`, without transactions. -/
structure CBitcoinBlock where
  nVersion : Int32
  hashPrevBlock : Uint256
  hashMerkleRoot : Uint256
  nTime : UInt32
  nBits : UInt32
  nNonce : UInt32
deriving DecidableEq

/-- The `CBlockIndex` of a Bitcoin header. -/
abbrev BitcoinIndex := Lineage CBitcoinBlock

/-- The map `mapBitcoinBlockIndex`. -/
abbrev HeaderMap := Table Uint256 BitcoinIndex

/--
What the header tree depends on besides the headers.  `checkpoints` is the table
of `BitcoinCheckpoints` with ascending heights, empty when it is disabled.
-/
structure BitcoinEnv where
  getHash : CBitcoinBlock → Uint256
  checkpoints : List (Int × Uint256)
  fTestNet : Bool

def nTargetTimespan : Int := 14 * 24 * 60 * 60

def nTargetSpacing : Int := 10 * 60

def nInterval : Int := nTargetTimespan / nTargetSpacing

def bnProofOfWorkLimit : Nat := 2 ^ 224 - 1

/-- `nHeight` as `AddToBlockIndex` sets it. -/
def BitcoinEnv.nHeight (env : BitcoinEnv) : BitcoinIndex → Int
  | .root block =>
      if env.getHash block = hashBitcoinStartBlock then BTC_START_HIGHT else 0
  | .child pprev block =>
      if env.getHash block = hashBitcoinStartBlock then BTC_START_HIGHT
      else env.nHeight pprev + 1

/-! ## The required target -/

/-- The last block whose target is not the minimum of the test network. -/
def BitcoinEnv.lastSpecial (env : BitcoinEnv) (nProofOfWorkLimit : UInt32) :
    BitcoinIndex → BitcoinIndex
  | .root block => .root block
  | .child pprev block =>
      if env.nHeight (.child pprev block) % nInterval ≠ 0 ∧
          block.nBits = nProofOfWorkLimit then
        env.lastSpecial nProofOfWorkLimit pprev
      else .child pprev block

/-- The time span that scales the target. -/
def clampTimespan (nActualTimespan : Int) : Int :=
  let raised :=
    if nActualTimespan < nTargetTimespan.tdiv 4 then nTargetTimespan.tdiv 4
    else nActualTimespan
  if nTargetTimespan * 4 < raised then nTargetTimespan * 4 else raised

/-- The target after a period, from its last and its first block. -/
def retarget (pindexLast pindexFirst : BitcoinIndex) : Except Fault UInt32 := do
  let nActualTimespan : Int :=
    pindexLast.item.nTime.toNat - pindexFirst.item.nTime.toNat
  let bnNew ←
    bnDiv (setCompact pindexLast.item.nBits * clampTimespan nActualTimespan)
      nTargetTimespan
  pure (getCompact
    (if (bnProofOfWorkLimit : Int) < bnNew then bnProofOfWorkLimit else bnNew))

/-- The target between two retarget heights. -/
def BitcoinEnv.sameTarget (env : BitcoinEnv) (pindexLast : BitcoinIndex)
    (pblock : CBitcoinBlock) : UInt32 :=
  let nProofOfWorkLimit := getCompact bnProofOfWorkLimit
  if env.fTestNet then
    if pindexLast.item.nTime.toNat + nTargetSpacing * 2 <
        (pblock.nTime.toNat : Int) then nProofOfWorkLimit
    else (env.lastSpecial nProofOfWorkLimit pindexLast).item.nBits
  else pindexLast.item.nBits

/-- `CChainManager::GetNextWorkRequired`. -/
def BitcoinEnv.getNextWorkRequired (env : BitcoinEnv) :
    Option BitcoinIndex → CBitcoinBlock → Except Fault UInt32
  | none, _ => pure (getCompact bnProofOfWorkLimit)
  | some pindexLast, pblock =>
      let nextHeight := env.nHeight pindexLast + 1
      if nextHeight % nInterval = 0 ∧
          nextHeight - BTC_START_HIGHT < nInterval then
        pure 0x18415fd1
      else if nextHeight % nInterval ≠ 0 then
        pure (env.sameTarget pindexLast pblock)
      else
        match pindexLast.walk (nInterval - 1).toNat with
        | none => throw .assertion
        | some pindexFirst => retarget pindexLast pindexFirst

/-! ## Accepting headers -/

/-- Why `AcceptBlock` fails. -/
inductive Refusal where
  | fault (fault : Fault)
  | prevBlockNotFound
  | incorrectProofOfWork
  | timeTooOld
  | checkpointLockIn
  | forkedChain
  | oldVersion
deriving DecidableEq

/-- The times of some last blocks. -/
def lastTimes : Nat → BitcoinIndex → List Nat
  | 0, _ => []
  | _ + 1, .root block => [block.nTime.toNat]
  | count + 1, .child pprev block =>
      block.nTime.toNat :: lastTimes count pprev

/-- `CBlockIndex::GetMedianTimePast`. -/
def getMedianTimePast (index : BitcoinIndex) : Nat :=
  let times := (lastTimes 11 index).mergeSort
  times[times.length / 2]?.getD 0

/-- The number of blocks of a version among the last ones. -/
def foundVersions (minVersion : Int32) : Nat → BitcoinIndex → Nat
  | 0, _ => 0
  | _ + 1, .root block => if minVersion ≤ block.nVersion then 1 else 0
  | nToCheck + 1, .child pprev block =>
      (if minVersion ≤ block.nVersion then 1 else 0) +
        foundVersions minVersion nToCheck pprev

/-- `CBlockIndex::IsSuperMajority`. -/
def isSuperMajority (minVersion : Int32) (pstart : BitcoinIndex)
    (nRequired nToCheck : Nat) : Bool :=
  nRequired ≤ foundVersions minVersion nToCheck pstart

/-- `BitcoinCheckpoints::CheckBlock`. -/
def BitcoinEnv.checkpointCheck (env : BitcoinEnv) (nHeight : Int)
    (hash : Uint256) : Bool :=
  match env.checkpoints.lookup nHeight with
  | none => true
  | some checkpoint => hash = checkpoint

/-- `BitcoinCheckpoints::GetLastCheckpoint`. -/
def BitcoinEnv.getLastCheckpoint (env : BitcoinEnv) (headers : HeaderMap) :
    Option BitcoinIndex :=
  env.checkpoints.reverse.findSome? fun checkpoint =>
    headers.lookup checkpoint.2

/-- The index that `AddToBlockIndex` creates. -/
def newIndex (headers : HeaderMap) (block : CBitcoinBlock) : BitcoinIndex :=
  match headers.lookup block.hashPrevBlock with
  | some pprev => .child pprev block
  | none => .root block

/-- What `CChainManager::AddToBlockIndex` does to the map. -/
def BitcoinEnv.addToBlockIndex (env : BitcoinEnv) (headers : HeaderMap)
    (block : CBitcoinBlock) : HeaderMap :=
  insertNew headers (env.getHash block) (newIndex headers block)

/-- The version rule of `AcceptBlock`. -/
def BitcoinEnv.isOldVersion (env : BitcoinEnv) (pindexPrev : BitcoinIndex)
    (block : CBitcoinBlock) : Bool :=
  block.nVersion < 2 &&
    (!env.fTestNet && isSuperMajority 2 pindexPrev 950 1000 ||
      env.fTestNet && isSuperMajority 2 pindexPrev 75 100)

/-- The checks of `AcceptBlock` on a known header. -/
def BitcoinEnv.checkHeader (env : BitcoinEnv) (headers : HeaderMap)
    (pindexPrev : BitcoinIndex) (block : CBitcoinBlock) :
    Except Refusal Unit := do
  let nHeight := env.nHeight pindexPrev + 1
  let nBits ←
    (env.getNextWorkRequired (some pindexPrev) block).mapError Refusal.fault
  if block.nBits ≠ nBits then throw .incorrectProofOfWork
  if block.nTime.toNat ≤ getMedianTimePast pindexPrev then throw .timeTooOld
  if !env.checkpointCheck nHeight (env.getHash block) then
    throw .checkpointLockIn
  if ((env.getLastCheckpoint headers).map env.nHeight).any
      (fun checkpointHeight => nHeight < checkpointHeight) then
    throw .forkedChain
  if env.isOldVersion pindexPrev block then throw .oldVersion

/--
`CChainManager::AcceptBlock`.  Without the start block in the map a header on
it is compared with the end of the map.
-/
def BitcoinEnv.acceptBlock (env : BitcoinEnv) (headers : HeaderMap)
    (block : CBitcoinBlock) : Except Refusal HeaderMap := do
  if env.getHash block ≠ hashBitcoinStartBlock then
    match headers.lookup block.hashPrevBlock with
    | none =>
        if block.hashPrevBlock ≠ hashBitcoinStartBlock then
          throw .prevBlockNotFound
        else throw (.fault .outOfRange)
    | some pindexPrev => env.checkHeader headers pindexPrev block
  pure (env.addToBlockIndex headers block)

/-- The trees rooted at the start block that `AcceptBlock` builds. -/
inductive Built (env : BitcoinEnv) : HeaderMap → Prop where
  | start {block : CBitcoinBlock}
      (isStart : env.getHash block = hashBitcoinStartBlock) :
      Built env (env.addToBlockIndex ∅ block)
  | accept {headers next : HeaderMap} {block : CBitcoinBlock}
      (built : Built env headers)
      (accepted : env.acceptBlock headers block = .ok next) :
      Built env next

end DSValue.Bitcoin.HeaderTree
